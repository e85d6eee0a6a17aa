import Trafodion.RunMerging

/-!
# The final merge

Each call of `sortReceive` gives out one record. The reads of the final merge do not wait: a call
whose read is not complete returns at once, and the next call begins again with the same winner.
-/
namespace Trafodion.TourTree

open List Function TourTree.Tree ByteStrings KWayMerge

attribute [local simp] readsLeft withRecord

inductive Received
  | record (rec : List Byte) (len : ℕ)
  | ioInProgress
  | endOfData
  deriving DecidableEq

namespace Tree

variable (cfg : Config)

variable (received : Received) (t : Tree)

/-- The rest of a turn, after the winner has been copied: its next record, and the new winner.
The call returns or goes around. -/
def receiveNext : (Received × Tree) ⊕ Tree :=
  match t.inputScr cfg false with
  | (.ioNotComplete, t) => .inl (.ioInProgress, t)
  | (.endOfRun, t) =>
    let t := determineNewWinner cfg { t with winnerRun := t.maxRuns + 1 }
    if t.currentRun ≠ 0 then .inl (received, t) else .inr t
  | (.success _, t) =>
    let t := determineNewWinner cfg
      (if t.winnerRun = 0 ∨ compare (some t.keyOfLastWinner) (t.key t.winner) = .gt then t.nextRun
        else t)
    if t.currentRun ≠ 0 then .inl (received, t) else .inr t

/-- One turn of the loop of `sortReceive`. -/
def receiveStep : (Received × Tree) ⊕ Tree :=
  if t.winnerRun ≠ t.currentRun ∧ t.winnerRun > t.maxRuns then .inl (.endOfData, t)
  else receiveNext cfg (.record (t.record t.winner) (t.recSize t.winner)) { t with
    currentRun := t.winnerRun
    keyOfLastWinner :=
      if t.winnerRun ≠ 0 then (t.key t.winner).getD [] else t.keyOfLastWinner }

def receiveLoop (cfg : Config) : ℕ → Tree → Option (Received × Tree)
  | 0, _ => none
  | fuel + 1, t =>
    match t.receiveStep cfg with
    | .inl result => some result
    | .inr t => receiveLoop cfg fuel t

/-- `Tree::sortReceive`. A single run is read without a tournament. -/
def sortReceive : Option (Received × Tree) :=
  if cfg.numRuns = 0 then some (.endOfData, t)
  else if cfg.numRuns = 1 then
    match t.inputScr cfg false with
    | (.success _, t) => some (.record (t.record t.winner) (t.recSize t.winner), t)
    | (.ioNotComplete, t) => some (.ioInProgress, t)
    | (.endOfRun, t) => some (.endOfData, t)
  else receiveLoop cfg (cfg.numRuns + 1) t

def receives (cfg : Config) : ℕ → Tree → Option (List Received × Tree)
  | 0, t => some ([], t)
  | k + 1, t => (t.sortReceive cfg).bind fun (result, t) =>
      (receives cfg k t).map fun (results, t) => (result :: results, t)

end Tree

variable {cfg : Config} {runOf : ℕ → ℕ} {t : Tree} {p : ℕ → List (List Byte)}

structure Exact (cfg : Config) (runOf : ℕ → ℕ) (t : Tree) (p : ℕ → List (List Byte)) : Prop where
  prompt : cfg.resizeCifRecord = false ∨ ∀ j, j < cfg.numRuns → (t.sortMergeNode j).delay = 0
  sized : Sized cfg runOf t p

variable {t' : Tree}

lemma Exact.of_off (h : Exact cfg runOf t p) {runOf' : ℕ → ℕ} {p' : ℕ → List (List Byte)} {w : ℕ}
    (hoff : ∀ j, j ≠ w → runOf' j = runOf j ∧ p' j = p j ∧ t'.recSize j = t.recSize j ∧
      t'.record j = t.record j ∧ t'.sortMergeNode j = t.sortMergeNode j)
    (hdel : (t'.sortMergeNode w).delay ≤ (t.sortMergeNode w).delay)
    (hw : runOf' w ≠ 0 → p' w ≠ [] → t'.recSize w = cfg.actRecLen (t'.record w)) :
    Exact cfg runOf' t' p' where
  prompt := h.prompt.imp_right fun hprompt j hj => by
    by_cases hjw : j = w
    · have := hprompt j hj
      rw [hjw] at this ⊢
      omega
    · rw [(hoff j hjw).2.2.2.2]
      exact hprompt j hj
  sized := h.sized.of_off (w := w)
    (fun j hj => ⟨(hoff j hj).1, (hoff j hj).2.1, (hoff j hj).2.2.1, (hoff j hj).2.2.2.1⟩) hw

lemma Exact.wait (h : Exact cfg runOf t p) (hwin : t.winner < cfg.numRuns) {c : ℕ}
    {last : List Byte} {input : MergeInput}
    (hdel : input.delay < (t.sortMergeNode t.winner).delay) : Exact cfg runOf
      (withInput cfg { t with currentRun := c, keyOfLastWinner := last } input) p := by
  refine h.of_off (w := t.winner) (fun j hj => by simp [withInput, hj])
    (by simpa [withInput] using hdel.le) fun _ _ => ?_
  rcases h.prompt with hfixed | hprompt
  · simp [withInput, Config.actRecLen, hfixed]
  · have := hprompt _ hwin
    omega

def unread (cfg : Config) (runOf : ℕ → ℕ) : Finset ℕ :=
  (Finset.range cfg.numRuns).filter (runOf · = 0)

lemma card_unread_lt {w : ℕ} (hw : w < cfg.numRuns) (hzero : runOf w = 0) :
    (unread cfg (update runOf w 1)).card < (unread cfg runOf).card := by
  refine Finset.card_lt_card (Finset.ssubset_iff_subset_ne.2 ⟨fun j hj => ?_, fun heq => ?_⟩)
  · have hjw : j ≠ w := by
      rintro rfl
      simp [unread] at hj
    simpa [unread, hjw] using hj
  · have hmem : w ∈ unread cfg runOf := by simp [unread, hw, hzero]
    rw [← heq] at hmem
    simp [unread] at hmem

def Outcome (cfg : Config) (runOf : ℕ → ℕ) (t : Tree) (p : ℕ → List (List Byte))
    (result : Received) (runOf' : ℕ → ℕ) (t' : Tree) (p' : ℕ → List (List Byte)) : Prop :=
  (result = .ioInProgress ∧ p' = p ∧ work cfg runOf' t' p' < work cfg runOf t p) ∨
  (∃ j r rest len, result = .record r len ∧ Takes cfg.keyValue cfg.numRuns p j r rest ∧
    p' = update p j rest ∧ work cfg runOf' t' p' < work cfg runOf t p ∧
    (Exact cfg runOf t p → len = r.length)) ∨
  (result = .endOfData ∧ (∀ j, j < cfg.numRuns → p j = []) ∧
    t'.sortReceive cfg = some (.endOfData, t'))

def keepAll (_ : List Byte) : Bool := false

lemma sortReceive_eq_of_maxRuns_lt (hn : 2 ≤ cfg.numRuns) (hcur : t.winnerRun ≠ t.currentRun)
    (hmax : t.maxRuns < t.winnerRun) : t.sortReceive cfg = some (.endOfData, t) := by
  rw [sortReceive, if_neg (by omega), if_neg (by omega), receiveLoop, receiveStep,
    if_pos ⟨hcur, hmax⟩]

lemma receiveNext_of_success {received : Received} {r : List Byte}
    (hread : t.inputScr cfg false = (.success r, t'))
    (hkeep : ¬ (t'.winnerRun = 0 ∨ compare (some t'.keyOfLastWinner) (t'.key t'.winner) = .gt))
    (hcur : t'.currentRun ≠ 0) :
    t.receiveNext cfg received = .inl (received, t'.determineNewWinner cfg) := by
  simp only [receiveNext, hread, if_neg hkeep, determineNewWinner_frame]
  exact if_pos hcur

section
variable (hn : 2 ≤ cfg.numRuns) (h : Merging cfg keepAll runOf t p)
include hn h

/-- A turn before the first output: a dummy gets the first record of its run. -/
theorem receiveStep_first
    (hwin : t.winnerRun = 0) (hcur : t.currentRun = 0) :
    ∃ runOf' t', Merging cfg keepAll runOf' t' p ∧ (Exact cfg runOf t p → Exact cfg runOf' t' p) ∧
      work cfg runOf' t' p < work cfg runOf t p ∧
      (t.receiveStep cfg = .inr t' ∧ (unread cfg runOf').card < (unread cfg runOf).card ∨
        t.receiveStep cfg = .inl (.ioInProgress, t')) := by
  have hzero : runOf t.winner = 0 := by rw [← h.ordered.tracks.winnerRun_eq, hwin]
  have hsame : ∀ c l, c = t.currentRun → l = t.keyOfLastWinner →
      { t with currentRun := c, keyOfLastWinner := l } = t := by
    rintro _ _ rfl rfl
    rfl
  rw [receiveStep, if_neg (fun hne => hne.1 (hwin.trans hcur.symm)),
    if_neg (not_not.2 hwin), hsame _ _ (hwin.trans hcur.symm) rfl, receiveNext]
  rcases t.inputScr_cases cfg false with ⟨r, input, hread, hrecs, hdel⟩ | ⟨hread, hrecs⟩ |
    ⟨-, input, hread, hrecs, hdel⟩
  · obtain ⟨-, hunread⟩ := h.sortedRun_of_read hwin hrecs
    have hload := h.load hn hcur hwin (hunread rfl) hrecs rfl
    refine ⟨_, _, hload, fun hex => ?_, ?_, .inl ⟨?_, ?_⟩⟩
    · exact hex.of_off (w := t.winner) (fun j hj => by simp [nextRun, hj])
        (by simpa [nextRun] using hdel)
        (fun _ _ => by simp [nextRun])
    · refine work_lt h.winner_lt (fun j hj => by simp [nextRun, hj]) ?_
      simp only [readsLeft, nextRun, withRecord, determineNewWinner_frame,
        update_self, hrecs, hzero, length_cons]
      split_ifs <;> omega
    · have hfst : (t.withRecord cfg r input).winnerRun = 0 := hwin
      simp only [hread, hfst, true_or, if_true, determineNewWinner_frame]
      exact if_neg (not_not.2 hcur)
    · exact card_unread_lt h.winner_lt hzero
  · cases h.winner_leaf with
    | unread r' rest hrun hkey hin =>
      rw [hrecs] at hin
      cases hin
    | skipping hrun hkey hskip => cases hskip
    | loaded hrun => omega
    | done hrun => omega
  · refine ⟨runOf, _, h.wait (c := t.currentRun) t.keyOfLastWinner hrecs h.phase,
      fun hex => hex.wait h.winner_lt hdel, ?_, .inr ?_⟩
    · refine work_lt h.winner_lt (fun j hj => by simp [withInput, hj]) ?_
      simp only [readsLeft, withInput, update_self, hrecs]
      omega
    · rw [hread]

lemma receiveStep_next
    (hwin : t.winnerRun = 1) (hmax : t.winnerRun ≤ t.maxRuns) :
    ∃ res runOf' t' p', t.receiveStep cfg = .inl (res, t') ∧
      Merging cfg keepAll runOf' t' p' ∧ (Exact cfg runOf t p → Exact cfg runOf' t' p') ∧
      Outcome cfg runOf t p res runOf' t' p' := by
  obtain ⟨hkey, hp, hsort⟩ := h.winner_loaded hwin hmax
  have hone : runOf t.winner = 1 := by rw [← h.ordered.tracks.winnerRun_eq, hwin]
  have hmaxRuns : t.maxRuns = 1 := by have := h.maxRuns_le; omega
  have htk := h.takes hwin hp hkey
  have hfits := hsort.fits _ mem_cons_self
  have hlen : Exact cfg runOf t p → t.recSize t.winner = (t.record t.winner).length := by
    intro hex
    rw [hex.sized _ h.winner_lt (by omega) (by simp [hp]), hfits.actRecLen_eq]
  have hstep : t.receiveStep cfg =
      receiveNext cfg (.record (t.record t.winner) (t.recSize t.winner)) { t with
        currentRun := 1
        keyOfLastWinner := cfg.extractKey (t.record t.winner) } := by
    rw [receiveStep, if_neg (fun hne => by omega), if_pos (by omega), hkey]
    simp [hwin]
  rw [hstep]
  rcases inputScr_cases cfg false { t with
      currentRun := 1
      keyOfLastWinner := cfg.extractKey (t.record t.winner) } with
    ⟨r, input, hread, hrecs, hdel⟩ | ⟨hread, hrecs⟩ | ⟨-, input, hread, hrecs, hdel⟩
  · simp only at hrecs hdel
    rw [hrecs] at hsort htk
    have hnext := h.next hn hwin hmax (cfg.extractKey (t.record t.winner))
      (fun j (_ : j ≠ t.winner) => (rfl : t.key j = t.key j)) hrecs
    refine ⟨_, runOf, _, _, ?_, hnext, fun hex => ?_,
      .inr (.inl ⟨_, _, _, _, rfl, htk, rfl, ?_, hlen⟩)⟩
    · refine receiveNext_of_success hread ?_ (by simp)
      simpa [hwin] using hsort.compare_next
    · exact hex.of_off (w := t.winner) (fun j hj => by simp [hj])
        (by simpa using hdel) (fun _ _ => by simp)
    · refine work_lt h.winner_lt (fun j hj => by simp [hj]) ?_
      simp only [readsLeft, withRecord, determineNewWinner_frame,
        update_self, hrecs, hp, length_cons, reduceCtorEq, and_false, if_false]
      omega
  · simp only at hrecs
    rw [hrecs] at htk
    have hfinish := h.finish hn hwin hmax (cfg.extractKey (t.record t.winner))
      (fun j (_ : j ≠ t.winner) => (rfl : t.key j = t.key j)) (h.ordered.keySized _) hrecs
    refine ⟨_, _, _, _, ?_, hfinish, fun hex => ?_,
      .inr (.inl ⟨_, _, _, _, rfl, htk, rfl, ?_, hlen⟩)⟩
    · simp only [receiveNext, hread, withInput, determineNewWinner_frame]
      rfl
    · exact hex.of_off (w := t.winner) (fun j hj => by simp [withInput, hj])
        (by simp [withInput]) (fun _ hne => by simp at hne)
    · refine work_lt h.winner_lt (fun j hj => by simp [withInput, hj]) ?_
      simp [withInput, hp]
  · simp only at hrecs hdel
    have hwait := h.wait (cfg.extractKey (t.record t.winner)) hrecs
      (.inr ⟨rfl, hmaxRuns, fun j hj => h.runOf_ne_zero hwin hj⟩)
    refine ⟨.ioInProgress, runOf, _, p, by rw [receiveNext, hread], hwait, ?_, .inl ⟨rfl, rfl, ?_⟩⟩
    · exact fun hex => hex.wait h.winner_lt hdel
    · refine work_lt h.winner_lt (fun j hj => by simp [withInput, hj]) ?_
      simp only [readsLeft, withInput, update_self, hrecs]
      omega

omit hn h in
lemma Outcome.trans {runOf₁ : ℕ → ℕ} {t₁ : Tree} {res : Received} {runOf' : ℕ → ℕ}
    {p' : ℕ → List (List Byte)} (hwork : work cfg runOf₁ t₁ p < work cfg runOf t p)
    (hex : Exact cfg runOf t p → Exact cfg runOf₁ t₁ p)
    (h : Outcome cfg runOf₁ t₁ p res runOf' t' p') : Outcome cfg runOf t p res runOf' t' p' := by
  rcases h with ⟨hres, hp, hless⟩ | ⟨j, r, rest, len, hres, htk, hp, hless, hlen⟩ | h
  · exact .inl ⟨hres, hp, hless.trans hwork⟩
  · exact .inr (.inl ⟨j, r, rest, len, hres, htk, hp, hless.trans hwork, hlen ∘ hex⟩)
  · exact .inr (.inr h)

lemma receiveLoop_outcome {fuel : ℕ}
    (hfuel : (unread cfg runOf).card < fuel) :
    ∃ res runOf' t' p', t.receiveLoop cfg fuel = some (res, t') ∧
      Merging cfg keepAll runOf' t' p' ∧ (Exact cfg runOf t p → Exact cfg runOf' t' p') ∧
      Outcome cfg runOf t p res runOf' t' p' := by
  induction fuel generalizing runOf t with
  | zero => omega
  | succ fuel ih =>
    have hle := h.maxRuns_le
    rw [receiveLoop]
    rcases Nat.lt_or_ge t.maxRuns t.winnerRun with hmax | hmax
    · have hne : t.winnerRun ≠ t.currentRun := by
        rcases h.phase with hc | ⟨hc, hm, -⟩ <;> omega
      refine ⟨.endOfData, runOf, t, p, ?_, h, id, .inr (.inr ⟨rfl, ?_, ?_⟩)⟩
      · rw [receiveStep, if_pos ⟨hne, hmax⟩]
      · exact fun j hj => h.eq_nil_of_maxRuns_lt hmax hj
      · exact sortReceive_eq_of_maxRuns_lt hn hne hmax
    obtain hwin | hwin : t.winnerRun = 0 ∨ t.winnerRun = 1 := by omega
    · have hcur : t.currentRun = 0 := by
        rcases h.phase with hc | ⟨-, -, hall⟩
        · exact hc
        · exact (hall _ h.winner_lt (by rw [← h.ordered.tracks.winnerRun_eq, hwin])).elim
      obtain ⟨runOf₁, t₁, h₁, hex, hwork, ⟨hstep, hcard⟩ | hstep⟩ :=
        receiveStep_first hn h hwin hcur
      · obtain ⟨res, runOf', t', p', hloop, h', hex', hout⟩ := ih h₁ (by omega)
        refine ⟨res, runOf', t', p', ?_, h', hex' ∘ hex, hout.trans hwork hex⟩
        rw [hstep]
        exact hloop
      · refine ⟨.ioInProgress, runOf₁, t₁, p, ?_, h₁, hex, .inl ⟨rfl, rfl, hwork⟩⟩
        rw [hstep]
    · obtain ⟨res, runOf', t', p', hstep, hrest⟩ := receiveStep_next hn h hwin hmax
      refine ⟨res, runOf', t', p', ?_, hrest⟩
      rw [hstep]

lemma sortReceive_outcome :
    ∃ res runOf' t' p', t.sortReceive cfg = some (res, t') ∧
      Merging cfg keepAll runOf' t' p' ∧ (Exact cfg runOf t p → Exact cfg runOf' t' p') ∧
      Outcome cfg runOf t p res runOf' t' p' := by
  have hcard : (unread cfg runOf).card < cfg.numRuns + 1 := by
    have := Finset.card_filter_le (Finset.range cfg.numRuns) (runOf · = 0)
    rw [Finset.card_range] at this
    exact Nat.lt_succ_of_le this
  rw [sortReceive, if_neg (by omega), if_neg (by omega)]
  exact receiveLoop_outcome hn h hcard

/-! ### Successive calls -/

def Received.delivered : Received → Option (List Byte × ℕ)
  | .record rec len => some (rec, len)
  | _ => none

def AtEnd (cfg : Config) (t : Tree) : Prop :=
  ∀ k, ∃ t', t.receives cfg k = some (replicate k .endOfData, t')

end

lemma atEnd_of_sortReceive (h : t.sortReceive cfg = some (.endOfData, t'))
    (h' : t'.sortReceive cfg = some (.endOfData, t')) : AtEnd cfg t := by
  have hstay : ∀ k, t'.receives cfg k = some (replicate k .endOfData, t') := by
    intro k
    induction k with
    | zero => rfl
    | succ k ih => simp [receives, h', ih, replicate_succ]
  intro k
  cases k with
  | zero => exact ⟨t, rfl⟩
  | succ k => exact ⟨t', by simp [receives, h, hstay k, replicate_succ]⟩

/-- The calls up to the first one that returns a length of 0 give out `out`. -/
structure GivesOut (cfg : Config) (t : Tree) (out : List (List Byte × ℕ)) : Prop where
  calls : ∃ k results t', t.receives cfg k = some (results, t') ∧ .endOfData ∉ results ∧
    results.filterMap Received.delivered = out ∧ AtEnd cfg t'

variable {res : Received} {out : List (List Byte × ℕ)}

lemma GivesOut.cons (h : t.sortReceive cfg = some (res, t')) (hres : res ≠ .endOfData)
    (hrest : GivesOut cfg t' out) : GivesOut cfg t ((res.delivered).toList ++ out) := by
  obtain ⟨k, results, t'', hcalls, hend, hout, hat⟩ := hrest.calls
  refine ⟨k + 1, res :: results, t'', ?_, ?_, ?_, hat⟩
  · simp [receives, h, hcalls]
  · simpa [hend] using hres.symm
  · rw [← hout]
    cases res <;> rfl

lemma receives_merge (hn : 2 ≤ cfg.numRuns) (h : Merging cfg keepAll runOf t p) :
    ∃ out p', Merges cfg.keyValue cfg.numRuns p (out.map Prod.fst) p' ∧
      (∀ j, j < cfg.numRuns → p' j = []) ∧ GivesOut cfg t out ∧
      (Exact cfg runOf t p → ∀ x ∈ out, x.2 = x.1.length) := by
  induction hwork : work cfg runOf t p using Nat.strong_induction_on generalizing runOf t p with
  | _ n ih =>
    subst hwork
    obtain ⟨result, runOf', t', p', hcall, h', hex, hout⟩ := sortReceive_outcome hn h
    rcases hout with ⟨rfl, rfl, hless⟩ | ⟨j, r, rest, len, rfl, htk, rfl, hless, hlen⟩ |
      ⟨rfl, hemp, hend⟩
    · obtain ⟨out, p'', hmerges, hemp, hgives, hsizes⟩ := ih _ hless h' rfl
      exact ⟨out, p'', hmerges, hemp, hgives.cons hcall nofun, hsizes ∘ hex⟩
    · obtain ⟨out, p'', hmerges, hemp, hgives, hsizes⟩ := ih _ hless h' rfl
      exact ⟨(r, len) :: out, p'', .take htk hmerges, hemp, hgives.cons hcall nofun,
        fun hx => forall_mem_cons.2 ⟨hlen hx, hsizes (hex hx)⟩⟩
    · refine ⟨[], p, .done p, hemp, ⟨0, [], t, rfl, not_mem_nil, rfl, ?_⟩, fun _ x hx => ?_⟩
      · exact atEnd_of_sortReceive hcall hend
      · cases hx

lemma sortReceive_single (hn : cfg.numRuns = 1) (t : Tree) :
    t.sortReceive cfg = match t.inputScr cfg false with
      | (.success _, t) => some (.record (t.record t.winner) (t.recSize t.winner), t)
      | (.ioNotComplete, t) => some (.ioInProgress, t)
      | (.endOfRun, t) => some (.endOfData, t) := by
  rw [sortReceive, if_neg (by omega), if_pos hn]

lemma atEnd_single (hn : cfg.numRuns = 1) (hemp : (t.sortMergeNode t.winner).records = []) :
    AtEnd cfg t := by
  intro k
  induction k generalizing t with
  | zero => exact ⟨t, rfl⟩
  | succ k ih =>
    rcases t.inputScr_cases cfg false with ⟨r, input, -, hrecs, -⟩ | ⟨hread, hrecs⟩ |
      ⟨-, input, hread, hrecs, hdel⟩
    · rw [hemp] at hrecs
      cases hrecs
    · have hstay : ((t.withInput cfg (t.sortMergeNode t.winner)).sortMergeNode
          (t.withInput cfg (t.sortMergeNode t.winner)).winner).records = [] := by
        simpa [withInput] using hrecs
      obtain ⟨t', hrest⟩ := ih hstay
      refine ⟨t', ?_⟩
      simp [receives, sortReceive_single hn, hread, hrest, replicate_succ]
    · rw [MergeInput.delay_eq_zero hemp] at hdel
      omega

lemma receives_single (hn : cfg.numRuns = 1)
    (hfits : ∀ rec ∈ (t.sortMergeNode t.winner).records, cfg.Fits rec) :
    GivesOut cfg t ((t.sortMergeNode t.winner).records.map fun r => (r, r.length)) := by
  induction hreads : (t.sortMergeNode t.winner).records.length +
      (t.sortMergeNode t.winner).delay using Nat.strong_induction_on generalizing t with
  | _ n ih =>
    rcases t.inputScr_cases cfg false with ⟨r, input, hread, hrecs, hdel⟩ |
      ⟨hread, hrecs⟩ | ⟨-, input, hread, hrecs, hdel⟩
    · have hin : (t.withRecord cfg r input).sortMergeNode (t.withRecord cfg r input).winner =
          input := by simp
      have hrest := ih _ ?_ (t := t.withRecord cfg r input) ?_ rfl
      · have hcall : t.sortReceive cfg =
            some (.record r r.length, t.withRecord cfg r input) := by
          have hlen := (hfits r (by rw [hrecs]; exact mem_cons_self)).actRecLen_eq
          simp [sortReceive_single hn, hread, hlen]
        rw [hin] at hrest
        rw [hrecs]
        exact hrest.cons hcall (by simp)
      · rw [← hreads, hin, hrecs, length_cons]
        omega
      · rw [hin]
        exact fun rec hrec => hfits rec (by rw [hrecs]; exact mem_cons_of_mem _ hrec)
    · rw [hrecs]
      exact ⟨0, [], t, rfl, not_mem_nil, rfl, atEnd_single hn hrecs⟩
    · have hin : (t.withInput cfg input).sortMergeNode (t.withInput cfg input).winner =
          input := by simp [withInput]
      have hrest := ih _ ?_ (t := t.withInput cfg input) ?_ rfl
      · have hcall : t.sortReceive cfg = some (.ioInProgress, t.withInput cfg input) := by
          simp [sortReceive_single hn, hread]
        rw [hin, hrecs] at hrest
        exact hrest.cons hcall (by simp)
      · rw [← hreads, hin, hrecs]
        omega
      · rw [hin, hrecs]
        exact hfits

/-- The calls give out the records of the runs in the order of their keys, each once and with
some length. -/
def Delivers (cfg : Config) (runs : ℕ → MergeInput) (out : List (List Byte × ℕ)) : Prop :=
  SortedBy cfg.keyValue (out.map Prod.fst) ∧
    (out.map Prod.fst).Perm (contents cfg.numRuns fun j => (runs j).records) ∧
    GivesOut cfg (init cfg runs) out

/-- A final merge delivers the runs. The lengths are those of the records if there is one run, if
records have one length, or if no read is delayed. -/
theorem sortReceive_delivers {runs : ℕ → MergeInput} (hn : 1 ≤ cfg.numRuns) (h : Runs cfg runs) :
    ∃ out, Delivers cfg runs out ∧
      ((cfg.numRuns = 1 ∨ cfg.resizeCifRecord = false ∨
        ∀ j, j < cfg.numRuns → (runs j).delay = 0) → ∀ x ∈ out, x.2 = x.1.length) := by
  by_cases hone : cfg.numRuns = 1
  · have hzero : 0 < cfg.numRuns := hn
    have hfst : ((runs 0).records.map fun r => (r, r.length)).map Prod.fst = (runs 0).records := by
      simp [comp_def]
    refine ⟨(runs 0).records.map fun r => (r, r.length),
      ⟨?_, ?_, receives_single hone (h.fits 0 hzero)⟩, ?_⟩
    · rw [hfst]
      exact h.sorted 0 hzero
    · rw [hfst, hone]
      simp [contents]
    · intro _ x hx
      obtain ⟨r, -, rfl⟩ := mem_map.1 hx
      rfl
  · have hmerging : Merging cfg keepAll (fun _ => 0) (init cfg runs) fun j =>
        kept keepAll (runs j).records :=
      .init (by omega) fun j hj => ⟨h.nonempty j hj, h.fits j hj, h.sorted j hj,
        pairwise_of_forall fun _ _ hskip => hskip⟩
    have hkept : (fun j => kept keepAll (runs j).records) = fun j => (runs j).records := by
      funext j
      cases (runs j).records <;> rfl
    rw [hkept] at hmerging
    obtain ⟨out, p', hmerges, hempty, hgives, hsizes⟩ := receives_merge (by omega) hmerging
    have hperm := hmerges.perm
    rw [contents_eq_nil hempty, append_nil] at hperm
    refine ⟨out, ⟨hmerges.sorted h.sorted, hperm, hgives⟩, fun hexact => ?_⟩
    exact hsizes ⟨hexact.resolve_left hone, fun _ _ hne => (hne rfl).elim⟩

/-! ### A delayed read of records that vary in length -/

def small (key : Byte) : List Byte := [5#8, 0#8, 0#8, 0#8, key]

def smallRecords : Config := ⟨2, 1, 10, true⟩

/-- Two runs; the read of the second block of the first one is delayed `delay` times. -/
def twoBlocks (delay : ℕ) : ℕ → MergeInput
  | 0 => ⟨[], [⟨0, small 1#8, []⟩, ⟨delay, small 3#8, []⟩]⟩
  | _ => ⟨[], [⟨0, small 2#8, []⟩]⟩

lemma small_fits (key : Byte) : smallRecords.Fits (small key) := ⟨rfl, rfl⟩

lemma twoBlocks_runs (delay : ℕ) : Runs smallRecords (twoBlocks delay) := by
  have hside : ∀ j, j < smallRecords.numRuns → (twoBlocks delay j).records = [small 1#8, small 3#8] ∨
      (twoBlocks delay j).records = [small 2#8] := by
    intro j hj
    cases j with
    | zero => exact .inl rfl
    | succ j => exact .inr rfl
  refine ⟨fun j hj => ?_, fun j hj => ?_, fun j hj => ?_⟩
  · rcases hside j hj with h | h <;> rw [h] <;> exact cons_ne_nil _ _
  · intro rec hrec
    have hmem : ∃ key, rec = small key := by
      rcases hside j hj with h | h <;> rw [h] at hrec <;>
        simp only [mem_cons, not_mem_nil, or_false] at hrec
      · rcases hrec with rfl | rfl <;> exact ⟨_, rfl⟩
      · exact ⟨_, hrec⟩
    obtain ⟨key, rfl⟩ := hmem
    exact small_fits key
  · rcases hside j hj with h | h <;> rw [h]
    · exact pairwise_pair.2 (by decide)
    · exact pairwise_singleton _ _

/-- Both runs are delivered, with a read that is delayed. -/
theorem delayed_reads_delivered : ∃ out, Delivers smallRecords (twoBlocks 1) out := by
  obtain ⟨out, hout, -⟩ := sortReceive_delivers (by decide) (twoBlocks_runs 1)
  exact ⟨out, hout⟩

-- the record whose call has to be repeated comes with the greatest length
example : ((init smallRecords (twoBlocks 1)).receives smallRecords 2).map Prod.fst =
    some [.ioInProgress, .record (small 1#8) 10] := by decide

end Trafodion.TourTree
