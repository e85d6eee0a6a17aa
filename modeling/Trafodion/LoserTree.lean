import Mathlib.Order.MinMax

/-!
# Loser trees

A tournament of `n` players on the nodes `1, …, n - 1` of a binary tree. Player `j` enters at
the leaf `n + j`, the parent of a node `p` is `p / 2`, and each inner node keeps the loser of
its match. After the value of the winner has changed, the matches on its path are played again.
The invariant speaks of values only, so players of one value may stand for one another; a tree
in which every player has the same value needs no matches to be played.
-/
namespace LoserTree

open List Function

variable {V : Type*} [LinearOrder V]

/-- The losers at the inner nodes, and the winner. -/
structure Slots where
  loser : ℕ → ℕ
  winner : ℕ

variable {p : ℕ} (val : ℕ → V) (t : Slots)

/-- A match at a node: the loser kept there wins if it is not greater. -/
def play (c : ℕ) : Slots :=
  if val (t.loser c) ≤ val t.winner then ⟨update t.loser c t.winner, t.loser c⟩ else t

/-- The nodes above `p`, from its parent to the root. -/
def ancestors : ℕ → ℕ → List ℕ
  | 0, _ => []
  | fuel + 1, p => if p = 1 then [] else p / 2 :: ancestors fuel (p / 2)

def replay (n : ℕ) (val : ℕ → V) (t : Slots) : Slots :=
  (ancestors (n + t.winner) (n + t.winner)).foldl (play val) t

/-- The other child of the parent of `p`. -/
def sibling (p : ℕ) : ℕ := if p % 2 = 0 then p + 1 else p - 1

/-! ### Invariants -/

/-- Every player is in one place. -/
structure Placed (n : ℕ) (t : Slots) : Prop where
  winner_lt : t.winner < n
  loser_lt : ∀ c, 1 ≤ c → c < n → t.loser c < n
  loser_ne : ∀ c, 1 ≤ c → c < n → t.loser c ≠ t.winner
  injective : ∀ c d, 1 ≤ c → c < n → 1 ≤ d → d < n → t.loser c = t.loser d → c = d

/-- The match at `c` was between the winners `W` of its children. -/
def Balanced (W : ℕ → V) (c : ℕ) : Prop :=
  W c ≤ val (t.loser c) ∧
    (W c = W (2 * c) ∧ val (t.loser c) = W (2 * c + 1) ∨
      W c = W (2 * c + 1) ∧ val (t.loser c) = W (2 * c))

structure Inv (n : ℕ) (val : ℕ → V) (t : Slots) : Prop where
  placed : Placed n t
  matches_played : ∃ W : ℕ → V, (∀ j, j < n → W (n + j) = val j) ∧ W 1 = val t.winner ∧
    ∀ c, 1 ≤ c → c < n → Balanced val t W c

/-- The tree while the path above `p` is being replayed: the matches there are not played yet,
and each waits with the winner of the subtree beside the path. -/
structure Replaying (n : ℕ) (val : ℕ → V) (t : Slots) (W : ℕ → V) (p : ℕ) (above : List ℕ) :
    Prop where
  leaf : ∀ j, j < n → W (n + j) = val j
  arrived : W p = val t.winner
  balanced : ∀ c, 1 ≤ c → c < n → c ∉ above → Balanced val t W c
  waiting : ∀ q ∈ p :: above, q ≠ 1 → val (t.loser (q / 2)) = W (sibling q)

variable {n : ℕ} {val : ℕ → V} {t : Slots}

lemma Placed.play (h : Placed n t) {c : ℕ} (hc : 1 ≤ c) (hcn : c < n) :
    Placed n (play val t c) := by
  unfold LoserTree.play
  split_ifs
  · refine ⟨h.loser_lt c hc hcn, ?_, ?_, ?_⟩
    · intro d hd hdn
      by_cases hdc : d = c
      · simpa [hdc] using h.winner_lt
      · simpa [hdc] using h.loser_lt d hd hdn
    · intro d hd hdn
      by_cases hdc : d = c
      · simpa [hdc] using (h.loser_ne c hc hcn).symm
      · simpa [hdc] using fun heq => hdc (h.injective d c hd hdn hc hcn heq)
    · intro d e hd hdn he hen heq
      by_cases hdc : d = c <;> by_cases hec : e = c <;> simp only [hdc, hec, update_self,
        ne_eq, not_false_eq_true, update_of_ne] at heq ⊢
      · exact (h.loser_ne e he hen heq.symm).elim
      · exact (h.loser_ne d hd hdn heq).elim
      · exact h.injective d e hd hdn he hen heq
  · exact h

lemma le_of_mem_ancestors {fuel p c : ℕ} (h : c ∈ ancestors fuel p) : c ≤ p / 2 := by
  induction fuel generalizing p with
  | zero => cases h
  | succ fuel ih =>
    rw [ancestors] at h
    split_ifs at h
    · cases h
    · rcases mem_cons.1 h with rfl | h
      · exact le_rfl
      · have := ih h
        omega

lemma one_le_of_mem_ancestors {fuel p c : ℕ} (hp : 1 ≤ p) (h : c ∈ ancestors fuel p) : 1 ≤ c := by
  induction fuel generalizing p with
  | zero => cases h
  | succ fuel ih =>
    rw [ancestors] at h
    split_ifs at h with hroot
    · cases h
    · rcases mem_cons.1 h with rfl | h
      · omega
      · exact ih (by omega) h

lemma half_mem_ancestors {fuel p q : ℕ} (hp : 1 ≤ p) (hfuel : p ≤ fuel)
    (hq : q ∈ p :: ancestors fuel p) (hroot : q ≠ 1) : q / 2 ∈ ancestors fuel p := by
  induction fuel generalizing p with
  | zero => omega
  | succ fuel ih =>
    rw [ancestors] at hq ⊢
    split_ifs at hq ⊢ with hp1
    · rcases mem_cons.1 hq with rfl | hq
      · exact (hroot hp1).elim
      · cases hq
    · rcases mem_cons.1 hq with rfl | hq
      · exact mem_cons_self
      · exact mem_cons_of_mem _ (ih (by omega) (by omega) hq)

lemma play_loser_of_ne {c d : ℕ} (h : d ≠ c) : (play val t c).loser d = t.loser d := by
  unfold play
  split_ifs
  · exact update_of_ne h _ _
  · rfl

lemma play_cases (val : ℕ → V) (t : Slots) (c : ℕ) :
    val (play val t c).winner ≤ val ((play val t c).loser c) ∧
      (val (play val t c).winner = val (t.loser c) ∧ val ((play val t c).loser c) = val t.winner ∨
        val (play val t c).winner = val t.winner ∧
          val ((play val t c).loser c) = val (t.loser c)) := by
  unfold play
  split_ifs with h
  · simpa using h
  · simpa using (not_le.1 h).le

variable {W : ℕ → V}

lemma Replaying.play {fuel p : ℕ} (hp : 2 ≤ p) (hpn : p < 2 * n)
    (h : Replaying n val t W p (p / 2 :: ancestors fuel (p / 2)))
    (hfuel : p / 2 ≠ 1 → p / 2 / 2 ∈ ancestors fuel (p / 2)) :
    ∃ W', Replaying n val (play val t (p / 2)) W' (p / 2) (ancestors fuel (p / 2)) := by
  obtain ⟨hle, hvalues⟩ := play_cases val t (p / 2)
  have hwait : val (t.loser (p / 2)) = W (sibling p) :=
    h.waiting p mem_cons_self (by omega)
  refine ⟨update W (p / 2) (val (LoserTree.play val t (p / 2)).winner), ?_, ?_, ?_, ?_⟩
  · intro j hj
    rw [update_of_ne (by omega), h.leaf j hj]
  · rw [update_self]
  · intro c hc hcn habv
    by_cases hcp : c = p / 2
    · -- the match just played: its children are `p` and the sibling
      subst hcp
      refine ⟨by rwa [update_self], ?_⟩
      rw [update_self, update_of_ne (by omega), update_of_ne (by omega)]
      have harrived := h.arrived
      by_cases heven : p % 2 = 0
      · rw [sibling, if_pos heven] at hwait
        rw [show 2 * (p / 2) = p by omega]
        rcases hvalues with ⟨hw, hl⟩ | ⟨hw, hl⟩
        · exact .inr ⟨hw.trans hwait, hl.trans harrived.symm⟩
        · exact .inl ⟨hw.trans harrived.symm, hl.trans hwait⟩
      · rw [sibling, if_neg heven] at hwait
        rw [show 2 * (p / 2) = p - 1 by omega, show p - 1 + 1 = p by omega]
        rcases hvalues with ⟨hw, hl⟩ | ⟨hw, hl⟩
        · exact .inl ⟨hw.trans hwait, hl.trans harrived.symm⟩
        · exact .inr ⟨hw.trans harrived.symm, hl.trans hwait⟩
    · -- a match off the path, which has no child on it
      have hparent : p / 2 / 2 ≠ c := by
        rintro rfl
        exact habv (hfuel (by omega))
      have hold := h.balanced c hc hcn (by simp [hcp, habv])
      unfold Balanced at hold ⊢
      rwa [play_loser_of_ne hcp, update_of_ne hcp, update_of_ne (by omega), update_of_ne (by omega)]
  · intro q hq hroot
    have hqp : q ≤ p / 2 := by
      rcases mem_cons.1 hq with rfl | hq
      · exact le_rfl
      · have := le_of_mem_ancestors hq
        omega
    have hq1 : 1 ≤ q := by
      rcases mem_cons.1 hq with rfl | hq
      · omega
      · exact one_le_of_mem_ancestors (by omega) hq
    have hsibling : sibling q ≠ p / 2 := by
      unfold sibling
      rcases mem_cons.1 hq with rfl | hq
      · split_ifs <;> omega
      · have := le_of_mem_ancestors hq
        split_ifs <;> omega
    rw [play_loser_of_ne (by omega), update_of_ne hsibling]
    exact h.waiting q (mem_cons_of_mem _ hq) hroot

lemma Replaying.foldl {fuel p : ℕ} (hp : 1 ≤ p) (hpn : p < 2 * n) (hfuel : p ≤ fuel)
    (hplaced : Placed n t) (h : Replaying n val t W p (ancestors fuel p)) :
    Inv n val ((ancestors fuel p).foldl (LoserTree.play val) t) := by
  induction fuel generalizing p t W with
  | zero => omega
  | succ fuel ih =>
    by_cases hroot : p = 1
    · subst hroot
      rw [ancestors, if_pos rfl] at h ⊢
      exact ⟨hplaced, W, h.leaf, h.arrived, fun c hc hcn => h.balanced c hc hcn not_mem_nil⟩
    · rw [ancestors, if_neg hroot] at h ⊢
      have hnext : p / 2 ≠ 1 → p / 2 / 2 ∈ ancestors fuel (p / 2) :=
        half_mem_ancestors (by omega) (by omega) mem_cons_self
      obtain ⟨W', h'⟩ := h.play (by omega) hpn hnext
      exact ih (by omega) (by omega) (by omega) (hplaced.play (by omega) (by omega)) h'

/-! ### Replay and winner -/

lemma Balanced.le_parent (h : Balanced val t W (p / 2)) : W (p / 2) ≤ W p := by
  obtain ⟨hle, hcases⟩ := h
  have hch : p = 2 * (p / 2) ∨ p = 2 * (p / 2) + 1 := by omega
  rcases hcases with ⟨hw, hl⟩ | ⟨hw, hl⟩ <;> rcases hch with hc | hc
  · exact (hw.trans (congrArg W hc.symm)).le
  · exact hle.trans (hl.trans (congrArg W hc.symm)).le
  · exact hle.trans (hl.trans (congrArg W hc.symm)).le
  · exact (hw.trans (congrArg W hc.symm)).le

/-- A child with the value of its parent has met the other one as the loser. -/
theorem Balanced.loser_eq (h : Balanced val t W (p / 2))
    (heq : W (p / 2) = W p) : val (t.loser (p / 2)) = W (sibling p) := by
  obtain ⟨-, hcases⟩ := h
  by_cases heven : p % 2 = 0
  · rw [sibling, if_pos heven]
    rw [show 2 * (p / 2) = p by omega] at hcases
    rcases hcases with ⟨-, hl⟩ | ⟨hw, hl⟩
    · exact hl
    · rw [hl, ← hw, heq]
  · rw [sibling, if_neg heven]
    rw [show 2 * (p / 2) = p - 1 by omega, show p - 1 + 1 = p by omega] at hcases
    rcases hcases with ⟨hw, hl⟩ | ⟨-, hl⟩
    · rw [hl, ← hw, heq]
    · exact hl

lemma root_le (hbal : ∀ c, 1 ≤ c → c < n → Balanced val t W c) (hp : 1 ≤ p) (hpn : p < 2 * n) :
    W 1 ≤ W p := by
  induction p using Nat.strong_induction_on with
  | _ p ih =>
    by_cases hroot : p = 1
    · rw [hroot]
    · exact (ih (p / 2) (by omega) (by omega) (by omega)).trans
        (hbal (p / 2) (by omega) (by omega)).le_parent

lemma le_of_mem_path (hbal : ∀ c, 1 ≤ c → c < n → Balanced val t W c)
    {fuel p q : ℕ} (hp : 1 ≤ p) (hpn : p < 2 * n) (hq : q ∈ p :: ancestors fuel p) : W q ≤ W p := by
  induction fuel generalizing p with
  | zero =>
    obtain rfl := mem_singleton.1 hq
    exact le_rfl
  | succ fuel ih =>
    rcases mem_cons.1 hq with rfl | hq
    · exact le_rfl
    · rw [ancestors] at hq
      split_ifs at hq with hroot
      · cases hq
      · exact (ih (by omega) (by omega) hq).trans (hbal (p / 2) (by omega) (by omega)).le_parent

lemma Inv.winner_le (h : Inv n val t) {j : ℕ} (hj : j < n) : val t.winner ≤ val j := by
  obtain ⟨W, hleaf, hroot, hbal⟩ := h.matches_played
  rw [← hroot, ← hleaf j hj]
  exact root_le hbal (by omega) (by omega)

lemma Inv.constant (hn : 1 ≤ n) {v : V} (hval : ∀ j, j < n → val j = v) :
    Inv n val ⟨id, 0⟩ where
  placed := ⟨hn, fun _ _ h => h, fun c hc _ => Nat.ne_of_gt hc, fun _ _ _ _ _ _ h => h⟩
  matches_played := by
    refine ⟨fun _ => v, fun j hj => (hval j hj).symm, (hval 0 hn).symm, fun c hc hcn => ?_⟩
    exact ⟨(hval c hcn).ge, .inl ⟨rfl, hval c hcn⟩⟩

/-- When only the winner has a new value, playing its matches again restores the invariant. -/
theorem Inv.replay (hn : 2 ≤ n) (h : Inv n val t) (val' : ℕ → V)
    (hval : ∀ j, j ≠ t.winner → val' j = val j) : Inv n val' (replay n val' t) := by
  obtain ⟨W, hleaf, hroot, hbal⟩ := h.matches_played
  have hwin := h.placed.winner_lt
  obtain ⟨p, hp⟩ : ∃ p, p = n + t.winner := ⟨_, rfl⟩
  have hloser : ∀ c, 1 ≤ c → c < n → val' (t.loser c) = val (t.loser c) :=
    fun c hc hcn => hval _ (h.placed.loser_ne c hc hcn)
  have habv : ∀ q, q ∈ p :: ancestors p p → 1 ≤ q ∧ (q = p ∨ q ≤ p / 2) := by
    intro q hq
    rcases mem_cons.1 hq with rfl | hq
    · exact ⟨by omega, .inl rfl⟩
    · exact ⟨one_le_of_mem_ancestors (by omega) hq, .inr (le_of_mem_ancestors hq)⟩
  have hpath : ∀ q, q ∈ p :: ancestors p p → W q = val t.winner := by
    intro q hq
    obtain ⟨hq1, hqp⟩ := habv q hq
    refine le_antisymm ?_ ?_
    · rw [← hleaf _ hwin, ← hp]
      exact le_of_mem_path hbal (by omega) (by omega) hq
    · rw [← hroot]
      exact root_le hbal hq1 (by omega)
  have hreplaying : Replaying n val' t (update W p (val' t.winner)) p (ancestors p p) := by
    refine ⟨?_, update_self .., ?_, ?_⟩
    · intro j hj
      by_cases hjw : j = t.winner
      · rw [hjw, ← hp, update_self]
      · rw [update_of_ne (by omega), hleaf j hj, hval j hjw]
    · intro c hc hcn hoff
      have hparent : p / 2 ≠ c := by
        rintro rfl
        exact hoff (half_mem_ancestors (by omega) le_rfl mem_cons_self (by omega))
      have hold := hbal c hc hcn
      unfold Balanced at hold ⊢
      rwa [hloser c hc hcn, update_of_ne (by omega), update_of_ne (by omega),
        update_of_ne (by omega)]
    · intro q hq hq1
      obtain ⟨hone, hle⟩ := habv q hq
      have hhalf := mem_cons_of_mem p (half_mem_ancestors (by omega) le_rfl hq hq1)
      have hsibling : sibling q ≠ p := by
        unfold sibling
        split_ifs <;> omega
      rw [hloser _ (by omega) (by omega), update_of_ne hsibling]
      refine (hbal _ (by omega) (by omega)).loser_eq ?_
      rw [hpath _ hhalf, hpath q hq]
  rw [LoserTree.replay, ← hp]
  exact hreplaying.foldl (by omega) (by omega) le_rfl h.placed

end LoserTree
