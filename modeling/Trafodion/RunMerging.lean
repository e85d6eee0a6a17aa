import Mathlib.Algebra.Order.BigOperators.Group.Finset
import Trafodion.KWayMerge
import Trafodion.TourTree

/-!
# Merging runs with the tournament tree

Beside the tree stands what is still to be given out of each run, `p`. A run is unread, or its
next record is in the tree with run number 1, or it is done and has the number after the greatest
one. Runs that begin with a record that is to be `skip`ped keep the number 0 and give out nothing.
-/
namespace Trafodion.TourTree

open List Function TourTree.Tree ByteStrings KWayMerge

attribute [local simp] withInput nextRun withRecord

variable {cfg : Config} {skip : List Byte → Bool} {runOf : ℕ → ℕ} {t : Tree}
  {p : ℕ → List (List Byte)}

def Config.keyValue (cfg : Config) (rec : List Byte) : ℕ := value (cfg.extractKey rec)

structure Config.Fits (cfg : Config) (rec : List Byte) : Prop where
  length_key : (cfg.extractKey rec).length = cfg.keySize
  actRecLen_eq : cfg.actRecLen rec = rec.length

structure SortedRun (cfg : Config) (skip : List Byte → Bool) (l : List (List Byte)) : Prop where
  fits : ∀ rec ∈ l, cfg.Fits rec
  sorted : SortedBy cfg.keyValue l
  closed : l.Pairwise fun x y => skip x → skip y

variable {r : List Byte} {l : List (List Byte)}

lemma SortedRun.tail (h : SortedRun cfg skip (r :: l)) :
    SortedRun cfg skip l where
  fits rec hrec := h.fits rec (mem_cons_of_mem r hrec)
  sorted := (pairwise_cons.1 h.sorted).2
  closed := (pairwise_cons.1 h.closed).2

lemma SortedRun.compare_next {r r' : List Byte} (h : SortedRun cfg skip (r :: r' :: l)) :
    ¬ compare (some (cfg.extractKey r)) (some (cfg.extractKey r')) = .gt := by
  have hle : cfg.keyValue r ≤ cfg.keyValue r' :=
    (pairwise_cons.1 h.sorted).1 r' mem_cons_self
  have hlen : (cfg.extractKey r).length = (cfg.extractKey r').length := by
    rw [(h.fits r mem_cons_self).length_key, (h.tail.fits r' mem_cons_self).length_key]
  rw [compare, memcmp_eq_compare hlen, compare_gt_iff_gt]
  exact not_lt.2 hle

/-- Where a run stands: its run number, its key and record in the tree, what has not been read
and what is still to be given out. -/
inductive Leaf (cfg : Config) (skip : List Byte → Bool) (maxRuns run : ℕ)
    (key : Option (List Byte)) (record : List Byte) (input pending : List (List Byte)) : Prop
  | unread (r : List Byte) (rest : List (List Byte)) (hrun : run = 0) (hkey : key = none)
      (hinput : input = r :: rest) (hpending : pending = if skip r then [] else r :: rest)
      (hsorted : SortedRun cfg skip (r :: rest))
  | skipping (hrun : run = 0) (hkey : key = some (cfg.extractKey record)) (hskip : skip record)
      (hpending : pending = []) (hsorted : SortedRun cfg skip (record :: input))
  | loaded (hrun : run = 1) (hkey : key = some (cfg.extractKey record))
      (hpending : pending = record :: input) (hsorted : SortedRun cfg skip (record :: input))
  | done (hrun : run = maxRuns + 1) (hinput : input = []) (hpending : pending = [])

structure Merging (cfg : Config) (skip : List Byte → Bool) (runOf : ℕ → ℕ) (t : Tree)
    (p : ℕ → List (List Byte)) : Prop where
  ordered : t.Ordered cfg runOf
  leaf : ∀ j, j < cfg.numRuns → Leaf cfg skip t.maxRuns (runOf j) (t.key j) (t.record j)
    (t.sortMergeNode j).records (p j)
  maxRuns_le : t.maxRuns ≤ 1
  maxRuns_eq : ∀ j, j < cfg.numRuns → runOf j ≠ 0 → p j ≠ [] → t.maxRuns = 1
  read_of_done : ∀ i j, i < cfg.numRuns → j < cfg.numRuns → runOf j ≠ 0 → p j = [] →
    runOf i = 0 → t.key i ≠ none
  phase : t.currentRun = 0 ∨ t.currentRun = 1 ∧ t.maxRuns = 1 ∧
    ∀ j, j < cfg.numRuns → runOf j ≠ 0

namespace Merging

section
variable (h : Merging cfg skip runOf t p)
include h

lemma winner_lt : t.winner < cfg.numRuns :=
  h.ordered.inv.placed.winner_lt

lemma winner_leaf : Leaf cfg skip t.maxRuns t.winnerRun (t.key t.winner) (t.record t.winner)
      (t.sortMergeNode t.winner).records (p t.winner) := by
  rw [h.ordered.tracks.winnerRun_eq]
  exact h.leaf t.winner h.winner_lt

lemma eq_nil_of_maxRuns_lt (hmax : t.maxRuns < t.winnerRun)
    {j : ℕ} (hj : j < cfg.numRuns) : p j = [] := by
  have hle : t.winnerRun ≤ runOf j := by
    rcases h.ordered.winner_le hj with hlt | ⟨heq, -⟩
    · exact hlt.le
    · exact heq.le
  by_contra hp
  have hone := h.maxRuns_eq j hj (by omega) hp
  cases h.leaf j hj with
  | done hrun hin hpend => exact hp hpend
  | _ => omega

lemma takes (hwin : t.winnerRun = 1)
    {rest : List (List Byte)} (hp : p t.winner = t.record t.winner :: rest)
    (hkey : t.key t.winner = some (cfg.extractKey (t.record t.winner))) :
    Takes cfg.keyValue cfg.numRuns p t.winner (t.record t.winner) rest where
  lt := h.winner_lt
  head := hp
  least := by
    intro i hi x hx
    have hle := h.ordered.winner_le hi
    rw [hwin, hkey] at hle
    cases h.leaf i hi with
    | unread r rest hrun => omega
    | skipping hrun => omega
    | loaded hrun hikey hpend =>
      rw [hpend] at hx
      rw [hikey] at hle
      obtain rfl := Option.some.inj hx
      rcases hle with hlt | ⟨-, hrank⟩
      · omega
      · exact WithBot.coe_le_coe.1 hrank
    | done hrun hin hpend =>
      rw [hpend] at hx
      cases hx

end

end Merging

lemma Leaf.of_not_done {m m' r : ℕ} {k : Option (List Byte)} {rec : List Byte}
    {input q : List (List Byte)} (h : Leaf cfg skip m r k rec input q) (hdone : r = 0 ∨ q ≠ []) :
    Leaf cfg skip m' r k rec input q := by
  cases h with
  | unread r rest hrun hkey hin hpend hsort =>
    exact .unread r rest hrun hkey hin hpend hsort
  | skipping hrun hkey hskip hpend hsort => exact .skipping hrun hkey hskip hpend hsort
  | loaded hrun hkey hpend hsort => exact .loaded hrun hkey hpend hsort
  | done hrun hin hpend =>
    rcases hdone with hzero | hnil
    · omega
    · exact (hnil hpend).elim

/-- The winner has been moved on from `t` to `t'`, and `q` is what is left of its run. -/
structure Settles (cfg : Config) (skip : List Byte → Bool) (runOf : ℕ → ℕ) (t : Tree)
    (p : ℕ → List (List Byte)) (t' : Tree) (q : List (List Byte)) : Prop where
  loser_eq : t'.loser = t.loser
  run_eq : t'.run = t.run
  winner_eq : t'.winner = t.winner
  off : ∀ j, j ≠ t.winner → t'.key j = t.key j ∧ t'.record j = t.record j ∧
    t'.sortMergeNode j = t.sortMergeNode j
  leaf : Leaf cfg skip t'.maxRuns t'.winnerRun (t'.key t.winner) (t'.record t.winner)
    (t'.sortMergeNode t.winner).records q
  keySized : ∀ k ∈ t'.key t.winner, k.length = cfg.keySize
  maxRuns : t'.maxRuns = t.maxRuns ∨
    ∀ j, j < cfg.numRuns → j ≠ t.winner → runOf j = 0 ∨ p j ≠ []
  maxRuns_le : t'.maxRuns ≤ 1
  maxRuns_eq : t'.winnerRun ≠ 0 → q ≠ [] → t'.maxRuns = 1
  le_maxRuns : t.maxRuns ≤ t'.maxRuns
  read_of_done : t'.winnerRun ≠ 0 → q = [] → ∀ i, i < cfg.numRuns → i ≠ t.winner → runOf i = 0 →
    t.key i ≠ none
  key_ne : t'.winnerRun = 0 → t'.key t.winner ≠ none
  phase : t'.currentRun = 0 ∨ t'.currentRun = 1 ∧ t'.maxRuns = 1 ∧ t'.winnerRun ≠ 0 ∧
    ∀ j, j < cfg.numRuns → j ≠ t.winner → runOf j ≠ 0

namespace Merging

lemma settle (hn : 2 ≤ cfg.numRuns) (h : Merging cfg skip runOf t p) {t' : Tree}
    {q : List (List Byte)} (hs : Settles cfg skip runOf t p t' q) :
    Merging cfg skip (update runOf t.winner t'.winnerRun) (t'.determineNewWinner cfg)
      (update p t.winner q) := by
  have hordered := h.ordered.determineNewWinner hn hs.loser_eq hs.run_eq hs.winner_eq
    (fun j hj => (hs.off j hj).1) hs.keySized
  refine ⟨hordered, ?_, ?_, ?_, ?_, ?_⟩
  all_goals simp only [determineNewWinner_key, determineNewWinner_frame]
  · intro j hj
    by_cases hjw : j = t.winner
    · simpa [hjw] using hs.leaf
    · obtain ⟨hk, hr, hnode⟩ := hs.off j hjw
      rw [update_of_ne hjw, update_of_ne hjw, hk, hr, hnode]
      rcases hs.maxRuns with heq | hnot
      · rw [heq]
        exact h.leaf j hj
      · exact (h.leaf j hj).of_not_done (hnot j hj hjw)
  · exact hs.maxRuns_le
  · intro j hj
    by_cases hjw : j = t.winner
    · simpa [hjw] using hs.maxRuns_eq
    · rw [update_of_ne hjw, update_of_ne hjw]
      intro hrun hp
      have := h.maxRuns_eq j hj hrun hp
      have := hs.maxRuns_le
      have := hs.le_maxRuns
      omega
  · intro i j hi hj
    by_cases hiw : i = t.winner
    · subst hiw
      rw [update_self]
      exact fun _ _ => hs.key_ne
    · rw [update_of_ne hiw, (hs.off i hiw).1]
      by_cases hjw : j = t.winner
      · subst hjw
        rw [update_self, update_self]
        exact fun hr hq => hs.read_of_done hr hq i hi hiw
      · rw [update_of_ne hjw, update_of_ne hjw]
        exact h.read_of_done i j hi hj
  · refine hs.phase.imp_right fun hph => ⟨hph.1, hph.2.1, fun j hj => ?_⟩
    by_cases hjw : j = t.winner
    · simpa [hjw] using hph.2.2.1
    · rw [update_of_ne hjw]
      exact hph.2.2.2 j hj hjw

/-! ### Readings of the winner -/

variable {r : List Byte}

lemma sortedRun_of_read (h : Merging cfg skip runOf t p) (hwin : t.winnerRun = 0)
    {rest : List (List Byte)} (hread : (t.sortMergeNode t.winner).records = r :: rest) :
    SortedRun cfg skip (r :: rest) ∧ (skip r = false → t.key t.winner = none) := by
  cases h.winner_leaf with
  | unread r' rest hrun hkey hin hpend hsort =>
    rw [← hread, hin]
    exact ⟨hsort, fun _ => hkey⟩
  | skipping hrun hkey hfst hpend hsort =>
    rw [hread] at hsort
    have hskip := (pairwise_cons.1 hsort.closed).1 r mem_cons_self hfst
    exact ⟨hsort.tail, fun hnot => by simp [hskip] at hnot⟩
  | loaded hrun => omega
  | done hrun => omega

variable {input : MergeInput}

lemma wait (h : Merging cfg skip runOf t p) {c : ℕ} (last : List Byte)
    (hin : input.records = (t.sortMergeNode t.winner).records)
    (hph : c = 0 ∨ c = 1 ∧ t.maxRuns = 1 ∧ ∀ j, j < cfg.numRuns → runOf j ≠ 0) :
    Merging cfg skip runOf
      (withInput cfg { t with currentRun := c, keyOfLastWinner := last } input) p where
  ordered := ⟨⟨h.ordered.tracks.run_eq, h.ordered.tracks.winnerRun_eq⟩, h.ordered.keySized,
    h.ordered.inv⟩
  leaf j hj := by
    have hleaf := h.leaf j hj
    by_cases hjw : j = t.winner
    · subst hjw
      simpa [hin] using hleaf
    · simpa [hjw] using hleaf
  maxRuns_le := h.maxRuns_le
  maxRuns_eq := h.maxRuns_eq
  read_of_done := h.read_of_done
  phase := hph

lemma update_winnerRun (h : Merging cfg skip runOf t p) :
    update runOf t.winner t.winnerRun = runOf := by
  rw [update_eq_self_iff, h.ordered.tracks.winnerRun_eq]

lemma update_pending (p : ℕ → List (List Byte)) (j : ℕ) : update p j (p j) = p :=
  update_eq_self j p

section
variable (hn : 2 ≤ cfg.numRuns) (h : Merging cfg skip runOf t p) (hcur : t.currentRun = 0)
  (hwin : t.winnerRun = 0)
include hn h hcur hwin

lemma load (hkey : t.key t.winner = none)
    (hread : (t.sortMergeNode t.winner).records = r :: input.records) (hskip : skip r = false) :
    Merging cfg skip (update runOf t.winner 1)
      ((t.withRecord cfg r input).nextRun.determineNewWinner cfg) p := by
  have hzero : runOf t.winner = 0 := by rw [← h.ordered.tracks.winnerRun_eq, hwin]
  have hmax : max t.maxRuns 1 = 1 := max_eq_right h.maxRuns_le
  obtain ⟨hp, hsort⟩ : p t.winner = r :: input.records ∧
      SortedRun cfg skip (r :: input.records) := by
    cases h.winner_leaf with
    | unread r' rest hrun _ hin hpend hsort =>
      obtain ⟨rfl, rfl⟩ := cons.inj (hread.symm.trans hin)
      exact ⟨by rw [hpend, hskip]; rfl, hsort⟩
    | skipping _ hkey' => simp [hkey] at hkey'
    | loaded hrun => omega
    | done hrun => omega
  have hsettles : Settles cfg skip runOf t p (t.withRecord cfg r input).nextRun (p t.winner) :=
    { loser_eq := rfl
      run_eq := rfl
      winner_eq := rfl
      off := fun j hj => by simp [hj]
      leaf := .loaded (by simp [hwin])
        (by simp) (by simp [hp])
        (by simpa using hsort)
      keySized := by
        simpa using (hsort.fits r mem_cons_self).length_key
      maxRuns := .inr fun j hj hjw => by
        -- no run is done while one is unread
        by_contra hdone
        rw [not_or, not_not] at hdone
        exact h.read_of_done _ _ h.winner_lt hj hdone.1 hdone.2 hzero hkey
      maxRuns_le := by simp [hwin, hmax]
      maxRuns_eq := by simp [hwin, hmax]
      le_maxRuns := by simp
      read_of_done := by simp [hp]
      key_ne := by simp
      phase := .inl hcur }
  simpa [update_pending, hwin] using h.settle hn hsettles

lemma pass (hread : (t.sortMergeNode t.winner).records = r :: input.records)
    (hskip : t.key t.winner = none → skip r) :
    Merging cfg skip runOf ((t.withRecord cfg r input).determineNewWinner cfg) p := by
  have hzero : runOf t.winner = 0 := by rw [← h.ordered.tracks.winnerRun_eq, hwin]
  obtain ⟨hp, hskip, hsort⟩ : p t.winner = [] ∧ skip r ∧
      SortedRun cfg skip (r :: input.records) := by
    cases h.winner_leaf with
    | unread r' rest hrun hkey hin hpend hsort =>
      obtain ⟨rfl, rfl⟩ := cons.inj (hread.symm.trans hin)
      exact ⟨by rw [hpend, if_pos (hskip hkey)], hskip hkey, hsort⟩
    | skipping hrun hkey hfst hpend hsort =>
      rw [hread] at hsort
      exact ⟨hpend, (pairwise_cons.1 hsort.closed).1 r mem_cons_self hfst, hsort.tail⟩
    | loaded hrun => omega
    | done hrun => omega
  have hsettles : Settles cfg skip runOf t p (t.withRecord cfg r input) (p t.winner) :=
    { loser_eq := rfl
      run_eq := rfl
      winner_eq := rfl
      off := fun j hj => by simp [hj]
      leaf := .skipping (by simp [hwin]) (by simp)
        (by simpa using hskip) hp (by simpa using hsort)
      keySized := by
        simpa using (hsort.fits r mem_cons_self).length_key
      maxRuns := .inl rfl
      maxRuns_le := h.maxRuns_le
      maxRuns_eq := fun hrun => (hrun hwin).elim
      le_maxRuns := le_rfl
      read_of_done := fun hrun => (hrun hwin).elim
      key_ne := by simp
      phase := .inl hcur }
  have hsett := h.settle hn hsettles
  rw [update_pending] at hsett
  exact h.update_winnerRun.subst (motive := fun f => Merging cfg skip f _ _) hsett

lemma endSkipped (hread : (t.sortMergeNode t.winner).records = []) : p t.winner = [] ∧
    Merging cfg skip (update runOf t.winner (t.maxRuns + 1)) (determineNewWinner cfg
        { t.withInput cfg (t.sortMergeNode t.winner) with winnerRun := t.maxRuns + 1 }) p := by
  obtain ⟨hp, k, hkey⟩ : p t.winner = [] ∧ ∃ k, t.key t.winner = some k := by
    cases h.winner_leaf with
    | unread r' rest hrun hkey hin =>
      rw [hread] at hin
      cases hin
    | skipping hrun hkey hfst hpend hsort => exact ⟨hpend, _, hkey⟩
    | loaded hrun => omega
    | done hrun => omega
  refine ⟨hp, ?_⟩
  have hsettles : Settles cfg skip runOf t p
      { t.withInput cfg (t.sortMergeNode t.winner) with winnerRun := t.maxRuns + 1 }
      (p t.winner) :=
    { loser_eq := rfl
      run_eq := rfl
      winner_eq := rfl
      off := fun j hj => by simp
      leaf := .done rfl (by simpa using hread) hp
      keySized := h.ordered.keySized t.winner
      maxRuns := .inl rfl
      maxRuns_le := h.maxRuns_le
      maxRuns_eq := fun _ hne => (hne hp).elim
      le_maxRuns := le_rfl
      read_of_done := fun _ _ i hi _ hrun hnone => by
        -- the winner has a key, so no run of number 0 is without one
        rcases h.ordered.winner_le hi with hlt | ⟨-, hrank⟩
        · omega
        · rw [hkey, hnone] at hrank
          exact WithBot.not_coe_le_bot _ hrank
      key_ne := fun hrun => (Nat.succ_ne_zero _ hrun).elim
      phase := .inl hcur }
  have hsett := h.settle hn hsettles
  rwa [update_pending] at hsett

end

lemma winner_loaded (h : Merging cfg skip runOf t p) (hwin : t.winnerRun = 1)
    (hmax : t.winnerRun ≤ t.maxRuns) : t.key t.winner = some (cfg.extractKey (t.record t.winner)) ∧
      p t.winner = t.record t.winner :: (t.sortMergeNode t.winner).records ∧
      SortedRun cfg skip (t.record t.winner :: (t.sortMergeNode t.winner).records) := by
  cases h.winner_leaf with
  | loaded hrun hkey hpend hsort => exact ⟨hkey, hpend, hsort⟩
  | _ => omega

lemma runOf_ne_zero (h : Merging cfg skip runOf t p) (hwin : t.winnerRun = 1) {j : ℕ}
    (hj : j < cfg.numRuns) : runOf j ≠ 0 := by
  rcases h.ordered.winner_le hj with hlt | ⟨heq, -⟩ <;> omega

section
variable (hn : 2 ≤ cfg.numRuns) (h : Merging cfg skip runOf t p) (hwin : t.winnerRun = 1)
  (hmax : t.winnerRun ≤ t.maxRuns)
include hn h hwin hmax

section
variable (last : List Byte) {key : ℕ → Option (List Byte)}
  (hoff : ∀ j, j ≠ t.winner → key j = t.key j)
include hoff

lemma next (hread : (t.sortMergeNode t.winner).records = r :: input.records) :
    Merging cfg skip runOf (determineNewWinner cfg (withRecord cfg
        { t with currentRun := 1, keyOfLastWinner := last, key := key } r input))
      (update p t.winner (r :: input.records)) := by
  obtain ⟨hkey, hp, hsort⟩ := h.winner_loaded hwin hmax
  rw [hread] at hsort
  have hone : t.maxRuns = 1 := by have := h.maxRuns_le; omega
  have hsettles : Settles cfg skip runOf t p (withRecord cfg
      { t with currentRun := 1, keyOfLastWinner := last, key := key } r input)
      (r :: input.records) :=
    { loser_eq := rfl
      run_eq := rfl
      winner_eq := rfl
      off := fun j hj => by simp [hj, hoff j hj]
      leaf := .loaded hwin (by simp) (by simp)
        (by simpa using hsort.tail)
      keySized := by
        simpa using (hsort.tail.fits r mem_cons_self).length_key
      maxRuns := .inl rfl
      maxRuns_le := h.maxRuns_le
      maxRuns_eq := fun _ _ => hone
      le_maxRuns := le_rfl
      read_of_done := fun _ hnil => by cases hnil
      key_ne := by simp
      phase := .inr ⟨rfl, hone, by simp [hwin], fun j hj _ => h.runOf_ne_zero hwin hj⟩ }
  have hsett := h.settle hn hsettles
  exact h.update_winnerRun.subst (motive := fun f => Merging cfg skip f _ _) hsett

lemma finish (hsize : ∀ k ∈ key t.winner, k.length = cfg.keySize)
    (hread : (t.sortMergeNode t.winner).records = []) :
    Merging cfg skip (update runOf t.winner (t.maxRuns + 1))
      (determineNewWinner cfg { withInput cfg
        { t with currentRun := 1, keyOfLastWinner := last, key := key }
        (t.sortMergeNode t.winner) with winnerRun := t.maxRuns + 1 })
      (update p t.winner []) := by
  have hone : t.maxRuns = 1 := by have := h.maxRuns_le; omega
  have hsettles : Settles cfg skip runOf t p { withInput cfg
      { t with currentRun := 1, keyOfLastWinner := last, key := key }
      (t.sortMergeNode t.winner) with winnerRun := t.maxRuns + 1 } [] :=
    { loser_eq := rfl
      run_eq := rfl
      winner_eq := rfl
      off := fun j hj => by simp [hoff j hj]
      leaf := .done rfl (by simpa using hread) rfl
      keySized := hsize
      maxRuns := .inl rfl
      maxRuns_le := h.maxRuns_le
      maxRuns_eq := fun _ hne => (hne rfl).elim
      le_maxRuns := le_rfl
      read_of_done := fun _ _ i hi _ hrun => (h.runOf_ne_zero hwin hi hrun).elim
      key_ne := fun hrun => (Nat.succ_ne_zero _ hrun).elim
      phase := .inr ⟨rfl, hone, Nat.succ_ne_zero _, fun j hj _ => h.runOf_ne_zero hwin hj⟩ }
  exact h.settle hn hsettles

end

end

end Merging

/-! ### Beginning and end -/

def kept (skip : List Byte → Bool) : List (List Byte) → List (List Byte)
  | [] => []
  | r :: rest => if skip r then [] else r :: rest

lemma Merging.init (hn : 2 ≤ cfg.numRuns) {runs : ℕ → MergeInput} (hruns : ∀ j, j < cfg.numRuns →
      (runs j).records ≠ [] ∧ SortedRun cfg skip (runs j).records) :
    Merging cfg skip (fun _ => 0) (init cfg runs) fun j => kept skip (runs j).records where
  ordered := Tree.Ordered.init hn runs
  leaf j hj := by
    obtain ⟨hne, hsort⟩ := hruns j hj
    obtain ⟨r, rest, hrecs⟩ := exists_cons_of_ne_nil hne
    rw [hrecs] at hsort ⊢
    exact .unread r rest rfl rfl hrecs rfl hsort
  maxRuns_le := Nat.zero_le 1
  maxRuns_eq := fun _ _ hne => (hne rfl).elim
  read_of_done := fun _ _ _ _ hne => (hne rfl).elim
  phase := .inl rfl

def readsLeft (runOf : ℕ → ℕ) (t : Tree) (p : ℕ → List (List Byte)) (j : ℕ) : ℕ :=
  (t.sortMergeNode j).records.length + (t.sortMergeNode j).delay +
    if runOf j ≠ 0 ∧ p j = [] then 0 else 1

def work (cfg : Config) (runOf : ℕ → ℕ) (t : Tree) (p : ℕ → List (List Byte)) : ℕ :=
  ∑ j ∈ Finset.range cfg.numRuns, readsLeft runOf t p j

variable {runOf' : ℕ → ℕ} {t' : Tree} {p' : ℕ → List (List Byte)} {w : ℕ}

lemma work_lt
    (hw : w < cfg.numRuns) (hoff : ∀ j, j ≠ w → readsLeft runOf' t' p' j = readsLeft runOf t p j)
    (hlt : readsLeft runOf' t' p' w < readsLeft runOf t p w) :
    work cfg runOf' t' p' < work cfg runOf t p := by
  refine Finset.sum_lt_sum (fun j _ => ?_) ⟨w, Finset.mem_range.2 hw, hlt⟩
  by_cases hj : j = w
  · rw [hj]
    exact hlt.le
  · exact (hoff j hj).le

def Sized (cfg : Config) (runOf : ℕ → ℕ) (t : Tree) (p : ℕ → List (List Byte)) : Prop :=
  ∀ j, j < cfg.numRuns → runOf j ≠ 0 → p j ≠ [] → t.recSize j = cfg.actRecLen (t.record j)

lemma Sized.of_off (h : Sized cfg runOf t p)
    (hoff : ∀ j, j ≠ w → runOf' j = runOf j ∧ p' j = p j ∧ t'.recSize j = t.recSize j ∧
      t'.record j = t.record j)
    (hw : runOf' w ≠ 0 → p' w ≠ [] → t'.recSize w = cfg.actRecLen (t'.record w)) :
    Sized cfg runOf' t' p' := by
  intro j hj
  by_cases hjw : j = w
  · rwa [hjw]
  · obtain ⟨hrun, hp, hsize, hrec⟩ := hoff j hjw
    rw [hrun, hp, hsize, hrec]
    exact h j hj

structure Runs (cfg : Config) (runs : ℕ → MergeInput) : Prop where
  nonempty : ∀ j, j < cfg.numRuns → (runs j).records ≠ []
  fits : ∀ j, j < cfg.numRuns → ∀ rec ∈ (runs j).records, cfg.Fits rec
  sorted : ∀ j, j < cfg.numRuns → SortedBy cfg.keyValue (runs j).records

end Trafodion.TourTree
