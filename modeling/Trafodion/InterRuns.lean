import Trafodion.RunMerging

/-!
# Intermediate merges

`generateInterRuns` merges the runs of a tree into a new run of the scratch space. The first
record of a run gets run number 1 if its key is smaller than the key of the last winner, which
starts as the greatest key there is.
-/
namespace Trafodion.TourTree

open List Function Config TourTree.Tree ByteStrings KWayMerge

attribute [local simp] nextRun readsLeft withInput withRecord

inductive ScratchCall
  | writeRunData (rec : List Byte) (run : ℕ)
  | flushRun
  deriving DecidableEq

namespace Tree

variable (cfg : Config) (numRuns : ℕ) (t : Tree)

def outputScr : List ScratchCall × Tree :=
  if t.winnerRun ≠ 0 then
    let rSize := if cfg.resizeCifRecord then t.recSize t.winner else cfg.recSize
    ([.writeRunData ((t.record t.winner).take rSize) (t.currentRun + numRuns)], { t with
        keyOfLastWinner := (t.key t.winner).getD []
        key := update t.key t.winner none })
  else ([], t)

def replaceWinner : Option Tree :=
  match t.inputScr cfg true with
  | (.endOfRun, t) => some (determineNewWinner cfg { t with winnerRun := t.maxRuns + 1 })
  | (.success _, t) =>
    some (determineNewWinner cfg
      (if compare (some t.keyOfLastWinner) (t.key t.winner) = .gt then t.nextRun else t))
  | (.ioNotComplete, _) => none

/-- `generateInterRuns`, where `numRuns` runs are in the scratch space. -/
def generateInterRuns (cfg : Config) (numRuns : ℕ) : ℕ → Tree → Option (List ScratchCall)
  | 0, _ => none
  | fuel + 1, t =>
    if t.winnerRun ≠ t.currentRun ∧ t.winnerRun > t.maxRuns then
      some (if t.currentRun ≠ 0 then [.flushRun] else [])
    else
      let flushed := if t.winnerRun ≠ t.currentRun ∧ t.currentRun ≠ 0 then [.flushRun] else []
      let (written, t) := outputScr cfg numRuns { t with currentRun := t.winnerRun }
      (t.replaceWinner cfg).bind fun t =>
        (generateInterRuns cfg numRuns fuel t).map (flushed ++ written ++ ·)

end Tree

variable {cfg : Config} {runOf : ℕ → ℕ} {t : Tree} {p : ℕ → List (List Byte)}

def Config.highKey (cfg : Config) : List Byte := replicate cfg.keySize 0xFF#8

def Config.isHigh (cfg : Config) (rec : List Byte) : Bool := cfg.extractKey rec = cfg.highKey

attribute [local simp] isHigh

lemma value_highKey (cfg : Config) : value cfg.highKey + 1 = 256 ^ cfg.keySize := by
  have h := value_map_not (replicate cfg.keySize 0#8)
  have hzero : value (replicate cfg.keySize 0#8) = 0 := by simp [value]
  rw [map_replicate, length_replicate, hzero] at h
  exact h

lemma compare_highKey {rec : List Byte} (h : cfg.Fits rec) :
    compare (some cfg.highKey) (some (cfg.extractKey rec)) = .gt ↔ cfg.isHigh rec = false := by
  have hlen : cfg.highKey.length = (cfg.extractKey rec).length := by
    rw [h.length_key, highKey, length_replicate]
  have hlt : value (cfg.extractKey rec) < 256 ^ cfg.keySize := h.length_key ▸ value_lt _
  have hhigh := value_highKey cfg
  rw [compare, memcmp_eq_compare hlen, compare_gt_iff_gt, isHigh, decide_eq_false_iff_not]
  constructor
  · rintro hval heq
    rw [heq] at hval
    omega
  · intro hne
    have hval : value (cfg.extractKey rec) ≠ value cfg.highKey :=
      fun heq => hne (value_injective hlen.symm heq)
    omega

lemma SortedRun.of_sorted {l : List (List Byte)} (hfits : ∀ rec ∈ l, cfg.Fits rec)
    (hsort : SortedBy cfg.keyValue l) : SortedRun cfg cfg.isHigh l where
  fits := hfits
  sorted := hsort
  closed := by
    refine hsort.imp_of_mem fun {x y} hx hy hle hhigh => ?_
    have hx' : cfg.extractKey x = cfg.highKey := by simpa using hhigh
    have hlt : value (cfg.extractKey y) < 256 ^ cfg.keySize := (hfits y hy).length_key ▸ value_lt _
    have hhigh := value_highKey cfg
    have hlen : (cfg.extractKey y).length = cfg.highKey.length := by
      rw [(hfits y hy).length_key, highKey, length_replicate]
    have hval : value (cfg.extractKey y) = value cfg.highKey := by
      simp only [keyValue, hx'] at hle
      omega
    simpa using value_injective hlen hval

structure InterMerging (cfg : Config) (runOf : ℕ → ℕ) (t : Tree) (p : ℕ → List (List Byte)) :
    Prop where
  merging : Merging cfg cfg.isHigh runOf t p
  sized : Sized cfg runOf t p
  keyOfLastWinner_eq : t.currentRun = 0 → t.keyOfLastWinner = cfg.highKey

namespace InterMerging

lemma replaceWinner_first (hn : 2 ≤ cfg.numRuns) (h : InterMerging cfg runOf t p)
    (hwin : t.winnerRun = 0) (hcur : t.currentRun = 0) :
    ∃ runOf' t', t.replaceWinner cfg = some t' ∧ InterMerging cfg runOf' t' p ∧
      t'.currentRun = 0 ∧ work cfg runOf' t' p < work cfg runOf t p := by
  have hzero : runOf t.winner = 0 := by
    rw [← h.merging.ordered.tracks.winnerRun_eq, hwin]
  have hlast := h.keyOfLastWinner_eq hcur
  unfold replaceWinner
  rcases t.inputScr_cases cfg true with ⟨r, input, hread, hrecs, hdel⟩ | ⟨hread, hrecs⟩ |
    ⟨hwaited, -⟩
  · obtain ⟨hsort, hunread⟩ := h.merging.sortedRun_of_read hwin hrecs
    have hcmp := compare_highKey (hsort.fits r mem_cons_self)
    have hkey : (t.withRecord cfg r input).key t.winner = some (cfg.extractKey r) := by
      simp
    simp only [hread]
    cases hhigh : cfg.isHigh r with
    | false =>
      refine ⟨_, _, congrArg (fun t => some (determineNewWinner cfg t)) (if_pos ?_),
        ⟨h.merging.load hn hcur hwin (hunread hhigh) hrecs hhigh, ?_, ?_⟩, ?_, ?_⟩
      · change compare (some t.keyOfLastWinner) ((t.withRecord cfg r input).key t.winner) = .gt
        rw [hlast, hkey, hcmp, hhigh]
      · exact h.sized.of_off (w := t.winner) (fun j hj => by simp [hj]) (fun _ _ => by simp)
      · simp [hlast]
      · simpa using hcur
      · refine work_lt h.merging.winner_lt (fun j hj => by simp [hj]) ?_
        simp only [readsLeft, nextRun, withRecord, determineNewWinner_frame,
          update_self, hrecs, hzero, length_cons]
        split_ifs <;> omega
    | true =>
      refine ⟨_, _, congrArg (fun t => some (determineNewWinner cfg t)) (if_neg ?_),
        ⟨h.merging.pass hn hcur hwin hrecs fun _ => hhigh, ?_, ?_⟩, ?_, ?_⟩
      · change ¬ compare (some t.keyOfLastWinner) ((t.withRecord cfg r input).key t.winner) = .gt
        rw [hlast, hkey, hcmp, hhigh]
        decide
      · exact h.sized.of_off (w := t.winner) (fun j hj => by simp [hj])
          (fun hrun => (hrun hzero).elim)
      · simp [hlast]
      · simpa using hcur
      · refine work_lt h.merging.winner_lt (fun j hj => by simp [hj]) ?_
        simp only [readsLeft, withRecord, determineNewWinner_frame,
          update_self, hrecs, length_cons]
        omega
  · simp only [hread]
    obtain ⟨hp, hmerg⟩ := h.merging.endSkipped hn hcur hwin hrecs
    refine ⟨_, _, rfl, ⟨hmerg, ?_, ?_⟩, ?_, ?_⟩
    · exact h.sized.of_off (w := t.winner) (fun j hj => by simp [hj]) (fun _ hne => (hne hp).elim)
    · simp [hlast]
    · simpa using hcur
    · refine work_lt h.merging.winner_lt (fun j hj => by simp [hj]) ?_
      simp [hp, hzero]
  · cases hwaited

lemma replaceWinner_next (hn : 2 ≤ cfg.numRuns) (h : InterMerging cfg runOf t p)
    (hwin : t.winnerRun = 1) (hmax : t.winnerRun ≤ t.maxRuns) (numRuns : ℕ) :
    ∃ t₁, outputScr cfg numRuns { t with currentRun := t.winnerRun } =
        ([.writeRunData (t.record t.winner) (1 + numRuns)], t₁) ∧
      ∃ runOf' t' rest, t₁.replaceWinner cfg = some t' ∧
      Takes cfg.keyValue cfg.numRuns p t.winner (t.record t.winner) rest ∧
      InterMerging cfg runOf' t' (update p t.winner rest) ∧ t'.currentRun = 1 ∧
      work cfg runOf' t' (update p t.winner rest) < work cfg runOf t p := by
  obtain ⟨hkey, hp, hsort⟩ := h.merging.winner_loaded hwin hmax
  have hone : runOf t.winner = 1 := by rw [← h.merging.ordered.tracks.winnerRun_eq, hwin]
  have hfits := hsort.fits _ mem_cons_self
  have hrSize : (if cfg.resizeCifRecord then t.recSize t.winner else cfg.recSize) =
      (t.record t.winner).length := by
    have hsize := h.sized _ h.merging.winner_lt (by omega) (by simp [hp])
    rw [hsize, hfits.actRecLen_eq]
    have hact := hfits.actRecLen_eq
    unfold actRecLen at hact
    split_ifs at hact ⊢
    · rfl
    · exact hact
  have houtput : outputScr cfg numRuns { t with currentRun := t.winnerRun } =
      ([.writeRunData (t.record t.winner) (1 + numRuns)], { t with
          currentRun := 1
          keyOfLastWinner := cfg.extractKey (t.record t.winner)
          key := update t.key t.winner none }) := by
    simp [outputScr, hwin, hkey, hrSize]
  refine ⟨_, houtput, ?_⟩
  have htk := h.merging.takes hwin hp hkey
  have hoff : ∀ j, j ≠ t.winner → update t.key t.winner none j = t.key j :=
    fun j hj => update_of_ne hj _ _
  unfold replaceWinner
  rcases inputScr_cases cfg true { t with
      currentRun := 1
      keyOfLastWinner := cfg.extractKey (t.record t.winner)
      key := update t.key t.winner none } with
    ⟨r, input, hread, hrecs, hdel⟩ | ⟨hread, hrecs⟩ | ⟨hwaited, -⟩
  · simp only at hrecs hdel
    -- the run is sorted, so its next record stays in the run being written
    rw [hrecs] at hsort htk
    simp only [hread]
    refine ⟨_, _, _, congrArg (fun t => some (determineNewWinner cfg t)) (if_neg ?_), htk,
      ⟨h.merging.next hn hwin hmax _ hoff hrecs, ?_, ?_⟩, ?_, ?_⟩
    · simpa using hsort.compare_next
    · exact h.sized.of_off (w := t.winner) (fun j hj => by simp [hj]) (fun _ _ => by simp)
    · simp
    · simp
    · refine work_lt h.merging.winner_lt (fun j hj => by simp [hj]) ?_
      simp only [readsLeft, withRecord, determineNewWinner_frame,
        update_self, hrecs, hp, length_cons, reduceCtorEq, and_false, if_false]
      omega
  · simp only at hrecs
    rw [hrecs] at htk
    simp only [hread]
    refine ⟨_, _, _, rfl, htk,
      ⟨h.merging.finish hn hwin hmax _ hoff (by simp) hrecs, ?_, ?_⟩, ?_, ?_⟩
    · exact h.sized.of_off (w := t.winner) (fun j hj => by simp [hj]) (fun _ hne => by simp at hne)
    · simp
    · simp
    · refine work_lt h.merging.winner_lt (fun j hj => by simp [hj]) ?_
      simp [hp]
  · cases hwaited

/-- The loop writes a merge of what the runs have to give, and ends the run it has written. -/
theorem generateInterRuns_eq (hn : 2 ≤ cfg.numRuns) (numRuns : ℕ) (h : InterMerging cfg runOf t p) :
    ∃ out p', Merges cfg.keyValue cfg.numRuns p out p' ∧ (∀ j, j < cfg.numRuns → p' j = []) ∧
      ∀ fuel, work cfg runOf t p < fuel → t.generateInterRuns cfg numRuns fuel =
        some (out.map (ScratchCall.writeRunData · (1 + numRuns)) ++
          if t.currentRun = 0 ∧ out = [] then [] else [.flushRun]) := by
  induction hwork : work cfg runOf t p using Nat.strong_induction_on generalizing runOf t p with
  | _ n ih =>
    subst hwork
    have hle := h.merging.maxRuns_le
    rcases Nat.lt_or_ge t.maxRuns t.winnerRun with hmax | hmax
    · -- all runs are done
      have hne : t.winnerRun ≠ t.currentRun := by
        rcases h.merging.phase with hc | ⟨hc, hm, -⟩ <;> omega
      refine ⟨[], p, .done p, fun j hj => h.merging.eq_nil_of_maxRuns_lt hmax hj, ?_⟩
      intro fuel hfuel
      obtain ⟨fuel, rfl⟩ : ∃ k, fuel = k + 1 := ⟨fuel - 1, by omega⟩
      rw [generateInterRuns, if_pos ⟨hne, hmax⟩]
      simp
    obtain hwin | hwin : t.winnerRun = 0 ∨ t.winnerRun = 1 := by omega
    · have hcur : t.currentRun = 0 := by
        rcases h.merging.phase with hc | ⟨-, -, hall⟩
        · exact hc
        · exact (hall _ h.merging.winner_lt
            (by rw [← h.merging.ordered.tracks.winnerRun_eq, hwin])).elim
      obtain ⟨runOf', t', hreplace, h', hcur', hless⟩ :=
        h.replaceWinner_first hn hwin hcur
      obtain ⟨out, p', hmerges, hemp, hrest⟩ := ih _ hless h' rfl
      refine ⟨out, p', hmerges, hemp, fun fuel hfuel => ?_⟩
      obtain ⟨fuel, rfl⟩ : ∃ k, fuel = k + 1 := ⟨fuel - 1, by omega⟩
      have hsame : ∀ c, c = t.currentRun → { t with currentRun := c } = t := by
        rintro _ rfl
        rfl
      rw [generateInterRuns, if_neg (fun hne => by omega),
        hsame _ (hwin.trans hcur.symm), outputScr, if_neg (not_not.2 hwin),
        if_neg (fun hne => hne.2 hcur)]
      simp only [hreplace, Option.bind_some, hrest fuel (by omega), hcur', hcur]
      simp
    · obtain ⟨t₁, houtput, runOf', t', rest, hreplace, htk, h', hcur', hless⟩ :=
        h.replaceWinner_next hn hwin hmax numRuns
      obtain ⟨out, p', hmerges, hemp, hrest⟩ := ih _ hless h' rfl
      refine ⟨_, p', .take htk hmerges, hemp, fun fuel hfuel => ?_⟩
      obtain ⟨fuel, rfl⟩ : ∃ k, fuel = k + 1 := ⟨fuel - 1, by omega⟩
      have hflush : ¬ (t.winnerRun ≠ t.currentRun ∧ t.currentRun ≠ 0) := by
        rcases h.merging.phase with hc | ⟨hc, -⟩ <;> omega
      rw [generateInterRuns, if_neg (fun hne => by omega), if_neg hflush, houtput]
      simp only [hreplace, Option.bind_some, hrest fuel (by omega), hcur']
      simp

end InterMerging

variable {runs : ℕ → MergeInput}

lemma InterMerging.init (hn : 2 ≤ cfg.numRuns) (h : Runs cfg runs) :
    InterMerging cfg (fun _ => 0) (init cfg runs)
      fun j => kept cfg.isHigh (runs j).records where
  merging := .init hn fun j hj =>
    ⟨h.nonempty j hj, .of_sorted (h.fits j hj) (h.sorted j hj)⟩
  sized := fun _ _ hne => (hne rfl).elim
  keyOfLastWinner_eq := fun _ => rfl

def MergesAll (cfg : Config) (numRuns : ℕ) (runs : ℕ → MergeInput) : Prop :=
  ∃ out, SortedBy cfg.keyValue out ∧
    out.Perm (contents cfg.numRuns fun j => (runs j).records) ∧
    ∃ enough, ∀ fuel, enough ≤ fuel → (init cfg runs).generateInterRuns cfg numRuns fuel =
      some (out.map (ScratchCall.writeRunData · (1 + numRuns)) ++ [.flushRun])

lemma kept_eq_self {skip : List Byte → Bool} {l : List (List Byte)}
    (h : ∀ r ∈ l.head?, skip r = false) : kept skip l = l := by
  cases l with
  | nil => rfl
  | cons r rest => rw [kept, h r rfl]; rfl

lemma generateInterRuns_kept (hn : 2 ≤ cfg.numRuns) (h : Runs cfg runs) (numRuns : ℕ) :
    ∃ out, SortedBy cfg.keyValue out ∧
      out.Perm (contents cfg.numRuns fun j => kept cfg.isHigh (runs j).records) ∧
      ∃ enough, ∀ fuel, enough ≤ fuel → (init cfg runs).generateInterRuns cfg numRuns fuel =
        some (out.map (ScratchCall.writeRunData · (1 + numRuns)) ++
          if out = [] then [] else [.flushRun]) := by
  obtain ⟨out, p', hmerges, hemp, heq⟩ :=
    (InterMerging.init hn h).generateInterRuns_eq hn numRuns
  refine ⟨out, hmerges.sorted fun j hj => ?_, ?_, work cfg (fun _ => 0) (init cfg runs)
    (fun j => kept cfg.isHigh (runs j).records) + 1, fun fuel hfuel => ?_⟩
  · have hsort := h.sorted j hj
    cases hrecs : (runs j).records with
    | nil => exact List.Pairwise.nil
    | cons r rest =>
      rw [hrecs] at hsort
      rw [kept]
      split_ifs
      · exact List.Pairwise.nil
      · exact hsort
  · have hperm := hmerges.perm
    rwa [contents_eq_nil hemp, append_nil] at hperm
  · rw [heq fuel (Nat.lt_of_succ_le hfuel)]
    simp [init]

lemma length_kept_le (skip : List Byte → Bool) (l : List (List Byte)) :
    (kept skip l).length ≤ l.length := by
  cases l with
  | nil => rfl
  | cons r rest =>
    rw [kept]
    split_ifs
    · exact Nat.zero_le _
    · exact le_rfl

lemma not_mergesAll (hn : 2 ≤ cfg.numRuns) (h : Runs cfg runs)
    (numRuns : ℕ) {j : ℕ} (hj : j < cfg.numRuns) {r : List Byte} (hr : r ∈ (runs j).records.head?)
    (hhigh : cfg.extractKey r = cfg.highKey) : ¬ MergesAll cfg numRuns runs := by
  obtain ⟨kout, -, hkperm, kenough, hkeq⟩ := generateInterRuns_kept hn h numRuns
  rintro ⟨out, -, hperm, enough, heq⟩
  have hcalls := (heq _ (le_max_left enough kenough)).symm.trans
    (hkeq _ (le_max_right enough kenough))
  have hsame : out = kout := by
    rw [Option.some.injEq] at hcalls
    split_ifs at hcalls with hnil
    · simp [hnil] at hcalls
    · exact map_injective_iff.2 (fun x y hxy => by injection hxy) (append_cancel_right hcalls)
  have hshort : (kept cfg.isHigh (runs j).records).length < (runs j).records.length := by
    cases hrecs : (runs j).records with
    | nil => exact (h.nonempty j hj hrecs).elim
    | cons x rest =>
      rw [hrecs] at hr
      obtain rfl := Option.some.inj hr
      rw [kept, if_pos (by simpa using hhigh)]
      exact Nat.succ_pos _
  have hlen := length_contents_lt (fun i _ => length_kept_le cfg.isHigh (runs i).records) hj hshort
  rw [← hkperm.length_eq, ← hperm.length_eq, hsame] at hlen
  exact lt_irrefl _ hlen

/-- A merge keeps all records exactly if no run begins with the greatest key. -/
theorem mergesAll_iff (hn : 2 ≤ cfg.numRuns) {runs : ℕ → MergeInput} (h : Runs cfg runs)
    (numRuns : ℕ) : MergesAll cfg numRuns runs ↔
      ∀ j, j < cfg.numRuns → ∀ rec ∈ (runs j).records.head?, cfg.extractKey rec ≠ cfg.highKey := by
  refine ⟨fun hall j hj r hr hhigh => not_mergesAll hn h numRuns hj hr hhigh hall, fun hlow => ?_⟩
  obtain ⟨out, hsorted, hperm, enough, heq⟩ := generateInterRuns_kept hn h numRuns
  have hkept : ∀ j, j < cfg.numRuns → kept cfg.isHigh (runs j).records = (runs j).records :=
    fun j hj => kept_eq_self fun r hr => by simpa using hlow j hj r hr
  rw [contents_congr hkept] at hperm
  have hne : out ≠ [] := by
    rintro rfl
    have h0 : 0 < cfg.numRuns := by omega
    obtain ⟨r, hr⟩ := exists_mem_of_ne_nil _ (h.nonempty 0 h0)
    exact not_mem_nil (hperm.mem_iff.2 (mem_contents.2 ⟨0, h0, hr⟩))
  refine ⟨out, hsorted, hperm, enough, fun fuel hfuel => ?_⟩
  rw [heq fuel hfuel, if_neg hne]

def pair (left right : List Byte) : ℕ → MergeInput
  | 0 => ⟨left.map ([·]), []⟩
  | _ => ⟨right.map ([·]), []⟩

def bytes (numRuns : ℕ) : Config := ⟨numRuns, 1, 1, false⟩

lemma pair_runs {left right : List Byte} (hleft : left ≠ [])
    (hrt : right ≠ []) (hlsorted : left.Pairwise fun x y => x.toNat ≤ y.toNat)
    (hrsorted : right.Pairwise fun x y => x.toNat ≤ y.toNat) :
    Runs (bytes 2) (pair left right) := by
  have hside : ∀ j, j < 2 → ∃ l : List Byte, (pair left right j).records = l.map ([·]) ∧ l ≠ [] ∧
      l.Pairwise fun x y => x.toNat ≤ y.toNat := by
    intro j hj
    obtain rfl | rfl : j = 0 ∨ j = 1 := by omega
    · exact ⟨left, by simp [pair, MergeInput.records], hleft, hlsorted⟩
    · exact ⟨right, by simp [pair, MergeInput.records], hrt, hrsorted⟩
  refine ⟨fun j hj => ?_, fun j hj => ?_, fun j hj => ?_⟩
  all_goals obtain ⟨l, hl, hne, hsort⟩ := hside j hj
  · simpa [hl] using hne
  · intro rec hrec
    rw [hl, mem_map] at hrec
    obtain ⟨b, -, rfl⟩ := hrec
    exact ⟨rfl, rfl⟩
  · rw [hl]
    refine pairwise_map.2 (hsort.imp fun {x y} hle => ?_)
    simpa [keyValue, extractKey, bytes, numberOfBytesForRecordSize,
      value_cons, value_nil] using hle

/-- Keys below the greatest one are merged. -/
theorem two_runs_merged : MergesAll (bytes 2) 7 (pair [1#8, 0xFF#8] [2#8]) :=
  (mergesAll_iff le_rfl (pair_runs (by decide) (by decide) (by decide) (by decide)) 7).2 (by decide)

/-- A run that begins with the greatest key is read and not written. -/
theorem high_key_lost : Runs (bytes 2) (pair [0xFF#8] [2#8]) ∧
      (init (bytes 2) (pair [0xFF#8] [2#8])).generateInterRuns (bytes 2) 7 10 =
        some [.writeRunData [2#8] 8, .flushRun] ∧
      ¬ MergesAll (bytes 2) 7 (pair [0xFF#8] [2#8]) := by
  have hruns : Runs (bytes 2) (pair [0xFF#8] [2#8]) :=
    pair_runs (by decide) (by decide) (by decide) (by decide)
  exact ⟨hruns, by decide, not_mergesAll le_rfl hruns 7 (j := 0) (by decide) (r := [0xFF#8]) rfl rfl⟩

end Trafodion.TourTree
