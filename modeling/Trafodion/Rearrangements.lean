import Mathlib.Algebra.Order.Ring.Int

/-!
# Arrays that are rearranged in place

Arrays are addressed by integers, and an access outside of the array is refused. A part of an array
is rearranged when every entry outside of it stays, so that what holds of all entries of the part is
kept.
-/
namespace Rearrangements

variable {α : Type*}

def read (a : Array α) (i : ℤ) : Option α := if 0 ≤ i then a[i.toNat]? else none

def swap (a : Array α) (i j : ℤ) : Option (Array α) :=
  if h : (0 ≤ i ∧ i.toNat < a.size) ∧ 0 ≤ j ∧ j.toNat < a.size then
    some (a.swap i.toNat j.toNat h.1.2 h.2.2)
  else none

/-- The entry at a place of the array. -/
def entry [Inhabited α] (a : Array α) (i : ℤ) : α := (read a i).getD default

variable [Inhabited α] {a : Array α}

lemma read_eq {i : ℤ} (hi : 0 ≤ i := by omega) (hlt : i < a.size := by omega) :
    read a i = some (entry a i) := by
  have hbound : i.toNat < a.size := by omega
  have hread : read a i = some a[i.toNat] := by
    rw [read, if_pos hi]
    exact Array.getElem?_eq_getElem hbound
  rw [entry, hread, Option.getD_some]

lemma entry_natCast {i : ℕ} (hi : i < a.size) : entry a i = a[i] := by
  simp [entry, read, hi]

/-- The places `lo` to `hi` hold their entries in another order, all other places their own. -/
structure Rearranges (lo hi : ℤ) (a b : Array α) : Prop where
  perm : b.toList.Perm a.toList
  moves : ∃ σ : Equiv.Perm ℤ, (∀ k, σ k ≠ k → lo ≤ k ∧ k ≤ hi) ∧ ∀ k, entry b k = entry a (σ k)

namespace Rearranges

variable {lo hi lo' hi' : ℤ} {a b c : Array α}

lemma refl (lo hi : ℤ) (a : Array α) : Rearranges lo hi a a :=
  ⟨.refl _, .refl _, fun _ h => absurd rfl h, fun _ => rfl⟩

section
variable (h : Rearranges lo hi a b)
include h

lemma size_eq : b.size = a.size := by
  simpa using h.perm.length_eq

lemma mono (hlo : lo' ≤ lo) (hhi : hi ≤ hi') : Rearranges lo' hi' a b := by
  obtain ⟨σ, hσ, hent⟩ := h.moves
  refine ⟨h.perm, σ, fun k hk => ?_, hent⟩
  have hk := hσ k hk
  omega

lemma trans (h' : Rearranges lo hi b c) : Rearranges lo hi a c := by
  obtain ⟨σ, hσ, hb⟩ := h.moves
  obtain ⟨τ, hτ, hc⟩ := h'.moves
  refine ⟨h'.perm.trans h.perm, τ.trans σ, fun k hk => ?_, fun k => ?_⟩
  · by_cases hkτ : τ k = k
    · apply hσ k
      rwa [Equiv.trans_apply, hkτ] at hk
    · exact hτ k hkτ
  · rw [hc, hb]
    rfl

lemma symm : Rearranges lo hi b a := by
  obtain ⟨σ, hσ, hent⟩ := h.moves
  refine ⟨h.perm.symm, σ.symm, fun k hk => hσ k fun hfix => ?_, fun k => ?_⟩
  · exact hk (σ.symm_apply_eq.2 hfix.symm)
  · rw [hent, σ.apply_symm_apply]

lemma entry_outside {k : ℤ} (hk : k < lo ∨ hi < k := by omega) :
    entry b k = entry a k := by
  obtain ⟨σ, hσ, hent⟩ := h.moves
  have hfix : σ k = k := by
    by_contra hmoved
    have := hσ k hmoved
    omega
  rw [hent, hfix]

lemma forall_entry {P : α → Prop}
    (hP : ∀ k, lo ≤ k → k ≤ hi → P (entry a k)) : ∀ k, lo ≤ k → k ≤ hi → P (entry b k) := by
  intro k hlo hhi
  obtain ⟨σ, hσ, hent⟩ := h.moves
  rw [hent]
  by_cases hk : σ k = k
  · rw [hk]
    exact hP k hlo hhi
  · have hmoved := hσ (σ k) fun heq => hk (σ.injective heq)
    exact hP (σ k) hmoved.1 hmoved.2

end

end Rearranges

lemma swap_eq {i j : ℤ} (hi : 0 ≤ i) (hi' : i < a.size) (hj : 0 ≤ j)
    (hj' : j < a.size) : ∃ b, swap a i j = some b ∧ b.toList.Perm a.toList ∧
      ∀ k, entry b k = entry a (Equiv.swap i j k) := by
  have hbounds : (0 ≤ i ∧ i.toNat < a.size) ∧ 0 ≤ j ∧ j.toNat < a.size := by omega
  refine ⟨_, dif_pos hbounds, (Array.swap_perm _ _).toList, fun k => ?_⟩
  have hread : ∀ {k : ℤ} (hk : 0 ≤ k) (hk' : k.toNat < a.size),
      entry a k = a[k.toNat] := by
    intro k hk hk'
    simp [entry, read, hk, hk']
  rw [Equiv.swap_apply_def]
  by_cases hki : k = i
  · subst hki
    rw [if_pos rfl, hread hj hbounds.2.2]
    simp only [entry, read, hi, if_true, Array.getElem?_swap]
    split_ifs with hjk
    · simp [hjk]
    · rfl
  · rw [if_neg hki]
    by_cases hkj : k = j
    · subst hkj
      rw [if_pos rfl, hread hi hbounds.1.2]
      simp [entry, read, hj, Array.getElem?_swap]
    · rw [if_neg hkj]
      by_cases hk : 0 ≤ k
      · have hik : i.toNat ≠ k.toNat := by omega
        have hjk : j.toNat ≠ k.toNat := by omega
        simp [entry, read, hk, Array.getElem?_swap, hik, hjk]
      · simp [entry, read, hk]

omit [Inhabited α] in
lemma swap_self {i : ℤ} (hi : 0 ≤ i) (hlt : i < a.size) : swap a i i = some a := by
  have hbounds : (0 ≤ i ∧ i.toNat < a.size) ∧ 0 ≤ i ∧ i.toNat < a.size := by omega
  rw [swap, dif_pos hbounds]
  congr
  apply Array.ext
  · exact Array.size_swap
  · intro k hk hk'
    rw [Array.getElem_swap]
    split_ifs with hki
    · simp only [hki]
    · rfl

lemma swap_rearranges {i j l r : ℤ} (hl : 0 ≤ l := by omega) (hr : r < a.size := by omega)
    (hil : l ≤ i := by omega) (hir : i ≤ r := by omega) (hjl : l ≤ j := by omega)
    (hjr : j ≤ r := by omega) :
    ∃ b, swap a i j = some b ∧ Rearranges l r a b ∧ entry b i = entry a j ∧
      entry b j = entry a i ∧ ∀ k, k ≠ i → k ≠ j → entry b k = entry a k := by
  obtain ⟨b, hb, hperm, hent⟩ := swap_eq (a := a) (i := i) (j := j) (by omega) (by omega)
    (by omega) (by omega)
  refine ⟨b, hb, ⟨hperm, Equiv.swap i j, fun k hk => ?_, hent⟩, ?_, ?_, fun k hki hkj => ?_⟩
  · by_contra hout
    exact hk (Equiv.swap_apply_of_ne_of_ne (by omega) (by omega))
  · rw [hent, Equiv.swap_apply_left]
  · rw [hent, Equiv.swap_apply_right]
  · rw [hent, Equiv.swap_apply_of_ne_of_ne hki hkj]

section Order

variable {β : Type*} [Preorder β] (rank : α → β)

/-- The entries from `lo` to `hi` do not descend. -/
def SortedOn (lo hi : ℤ) (a : Array α) : Prop :=
  ∀ i j, lo ≤ i → i < j → j ≤ hi → rank (entry a i) ≤ rank (entry a j)

/-- The entries below `mid` are not above the one there, and those above it not below. -/
structure SplitAt (lo mid hi : ℤ) (a : Array α) : Prop where
  le : ∀ k, lo ≤ k → k ≤ mid - 1 → rank (entry a k) ≤ rank (entry a mid)
  ge : ∀ k, mid + 1 ≤ k → k ≤ hi → rank (entry a mid) ≤ rank (entry a k)

variable {rank} {lo mid hi : ℤ} {a b : Array α}

lemma sortedOn_of_le (h : hi ≤ lo) : SortedOn rank lo hi a := by
  intro i j hi hij hj
  omega

lemma SortedOn.of_outside {lo' hi' : ℤ} (h : SortedOn rank lo hi a)
    (hab : Rearranges lo' hi' a b) (hout : hi < lo' ∨ hi' < lo) : SortedOn rank lo hi b := by
  intro i j hi hij hj
  rw [hab.entry_outside, hab.entry_outside]
  exact h i j hi hij hj

section
variable (h : SplitAt rank lo mid hi a)
include h

lemma SplitAt.left (hab : Rearranges lo (mid - 1) a b) : SplitAt rank lo mid hi b := by
  have hmid : entry b mid = entry a mid := hab.entry_outside
  constructor
  · rw [hmid]
    exact hab.forall_entry (P := fun x => rank x ≤ rank (entry a mid)) h.le
  · intro k hk hk'
    rw [hmid, hab.entry_outside]
    exact h.ge k hk hk'

lemma SplitAt.right (hab : Rearranges (mid + 1) hi a b) : SplitAt rank lo mid hi b := by
  have hmid : entry b mid = entry a mid := hab.entry_outside
  constructor
  · intro k hk hk'
    rw [hmid, hab.entry_outside]
    exact h.le k hk hk'
  · rw [hmid]
    exact hab.forall_entry (P := fun x => rank (entry a mid) ≤ rank x) h.ge

lemma SplitAt.sorted (hleft : SortedOn rank lo (mid - 1) a)
    (hrt : SortedOn rank (mid + 1) hi a) : SortedOn rank lo hi a := by
  intro i j hi hij hj
  rcases lt_trichotomy j mid with hjm | rfl | hjm
  · exact hleft i j hi hij (by omega)
  · exact h.le i hi (by omega)
  · rcases lt_trichotomy i mid with him | rfl | him
    · exact (h.le i hi (by omega)).trans (h.ge j (by omega) hj)
    · exact h.ge j (by omega) hj
    · exact hrt i j (by omega) hij hj

end

lemma SortedOn.pairwise (h : SortedOn rank 0 (a.size - 1) a) :
    a.toList.Pairwise fun x y => rank x ≤ rank y := by
  rw [List.pairwise_iff_getElem]
  intro i j hi hj hij
  have hle := h i j (by omega) (by omega) (by simp at hj; omega)
  rwa [entry_natCast (by simpa using hi), entry_natCast (by simpa using hj)] at hle

end Order

end Rearrangements
