import Trafodion.IterativeQuickSort
import Trafodion.QuickSort

/-!
# Heap sort, and the three sorts together

The children of `root` are `root * 2` and `root * 2 + 1`, from place 0 on: place 0 is a child of
itself, and 1 its only other one.
-/
namespace Trafodion.Qsort
open Rearrangements Option

variable {keySize : ℕ} {ρ : Type} [Inhabited ρ] {a : Keys keySize ρ} {top root bottom : ℤ}

/-- No key from `root` on is below that of a child. -/
def HeapFrom (root bottom : ℤ) (a : Keys keySize ρ) : Prop :=
  ∀ c, 1 ≤ c → c ≤ bottom → root ≤ c / 2 → keyRank (entry a c) ≤ keyRank (entry a (c / 2))

/-- The key at `root` may be below those of its children, which are not above its own parent. -/
structure Sifting (top root bottom : ℤ) (a : Keys keySize ρ) : Prop where
  others : ∀ c, 1 ≤ c → c ≤ bottom → top ≤ c / 2 → c / 2 ≠ root →
    keyRank (entry a c) ≤ keyRank (entry a (c / 2))
  below : ∀ c, 1 ≤ c → c ≤ bottom → c / 2 = root → 1 ≤ root → top ≤ root / 2 →
    keyRank (entry a c) ≤ keyRank (entry a (root / 2))

lemma maxChild_spec (hroot : 0 ≤ root) (hle : root * 2 ≤ bottom) (hbottom : bottom < a.size) :
    ∃ child, maxChild a root bottom = some child ∧ child / 2 = root ∧ child ≤ bottom ∧
      ∀ c, c ≤ bottom → c / 2 = root → keyRank (entry a c) ≤ keyRank (entry a child) := by
  by_cases hlast : root * 2 = bottom
  · refine ⟨root * 2, if_pos hlast, by omega, hle, fun c hc hcr => ?_⟩
    obtain rfl : c = root * 2 := by omega
    exact le_refl _
  · have hx : read a (root * 2) = some (entry a (root * 2)) := read_eq
    have hy : read a (root * 2 + 1) = some (entry a (root * 2 + 1)) :=
      read_eq
    rw [maxChild, if_neg hlast]
    simp only [hx, hy, bind_eq_bind, bind_some]
    by_cases hgreater : key1IsGreater ≤
        compare (entry a (root * 2)).key_ (entry a (root * 2 + 1)).key_
    · have hrank : keyRank (entry a (root * 2 + 1)) < keyRank (entry a (root * 2)) :=
        compare_greater.1 hgreater
      refine ⟨root * 2, if_pos hgreater, by omega, hle, fun c hc hcr => ?_⟩
      obtain rfl | rfl : c = root * 2 ∨ c = root * 2 + 1 := by omega
      · exact le_refl _
      · exact le_of_lt hrank
    · have hrank : keyRank (entry a (root * 2)) ≤ keyRank (entry a (root * 2 + 1)) :=
        Nat.le_of_not_lt fun h => hgreater (compare_greater.2 h)
      refine ⟨root * 2 + 1, if_neg hgreater, by omega, by omega, fun c hc hcr => ?_⟩
      obtain rfl | rfl : c = root * 2 ∨ c = root * 2 + 1 := by omega
      · exact hrank
      · exact le_refl _

variable {b : Keys keySize ρ}

/-- The larger child moves up, and `root` down to its place. -/
theorem Sifting.down {child : ℤ} (h : Sifting top root bottom a)
    (htop : top ≤ root) (hch : child / 2 = root) (hlt : root < child) (hle : child ≤ bottom)
    (hmax : ∀ c, c ≤ bottom → c / 2 = root → keyRank (entry a c) ≤ keyRank (entry a child))
    (hsmaller : keyRank (entry a root) < keyRank (entry a child))
    (hbr : entry b root = entry a child) (hbc : entry b child = entry a root)
    (hoth : ∀ k, k ≠ root → k ≠ child → entry b k = entry a k) : Sifting top child bottom b := by
  constructor
  · intro c hc hcb hct hne
    by_cases hcr : c / 2 = root
    · rw [hcr, hbr]
      by_cases hcc : c = child
      · rw [hcc, hbc]
        exact le_of_lt hsmaller
      · rw [hoth c (by omega) hcc]
        exact hmax c hcb hcr
    · rw [hoth (c / 2) hcr hne]
      by_cases hcroot : c = root
      · rw [hcroot, hbr]
        exact h.below child (by omega) hle hch (by omega) (by omega)
      · rw [hoth c hcroot (by omega)]
        exact h.others c hc hcb hct hcr
  · intro c hc hcb hcc hpos hct
    rw [hch, hbr, hoth c (by omega) (by omega), ← hcc]
    exact h.others c hc hcb (by omega) (by omega)

lemma siftDown_spec (fuel : ℕ) (htop : 0 ≤ top) (hroot : top ≤ root) (hbottom : bottom < a.size)
    (hpos : 0 < fuel) (hfuel : bottom - root < fuel) (h : Sifting top root bottom a) :
    ∃ b, siftDown fuel a root bottom = some b ∧ Rearranges top bottom a b ∧
      HeapFrom top bottom b := by
  induction fuel generalizing a root with
  | zero => omega
  | succ fuel ih =>
    by_cases hle : root * 2 ≤ bottom
    · obtain ⟨child, hmax, hch, hcb, hlargest⟩ := maxChild_spec (by omega) hle hbottom
      have hx : read a root = some (entry a root) := read_eq
      have hy : read a child = some (entry a child) := read_eq
      simp only [siftDown, if_pos hle, hmax, hx, hy, bind_eq_bind, bind_some]
      by_cases hsmaller : compare (entry a root).key_ (entry a child).key_ ≤ key1IsSmaller
      · have hrank : keyRank (entry a root) < keyRank (entry a child) :=
          compare_smaller.1 hsmaller
        have hne : child ≠ root := by
          rintro rfl
          exact absurd hrank (lt_irrefl _)
        obtain ⟨c, hc, hac, hcr, hcc, hoth⟩ := swap_rearranges (a := a) (i := root) (j := child)
          htop hbottom
        have hsize := hac.size_eq
        obtain ⟨b, hb, hcb', hheap⟩ := ih (a := c) (show top ≤ child by omega) (by omega)
          (by omega) (by omega) (h.down hroot hch (by omega) hcb hlargest hrank hcr hcc hoth)
        rw [if_pos hsmaller, hc]
        exact ⟨b, hb, hac.trans hcb', hheap⟩
      · rw [if_neg hsmaller]
        have hrank : keyRank (entry a child) ≤ keyRank (entry a root) :=
          Nat.le_of_not_lt fun h => hsmaller (compare_smaller.2 h)
        refine ⟨a, rfl, .refl _ _ _, fun c hc hcb hct => ?_⟩
        by_cases hcr : c / 2 = root
        · rw [hcr]
          exact (hlargest c hcb hcr).trans hrank
        · exact h.others c hc hcb hct hcr
    · rw [siftDown, if_neg hle]
      exact ⟨a, rfl, .refl _ _ _, fun c hc hcb hct => h.others c hc hcb hct (by omega)⟩

variable {fuel : ℕ}

lemma buildHeap_spec (hfuel : a.size < fuel) (count : ℕ) (hbottom : bottom < a.size)
    (h : HeapFrom count bottom a) :
    ∃ b, buildHeap fuel bottom count a = some b ∧ Rearranges 0 bottom a b ∧
      HeapFrom 0 bottom b := by
  induction count generalizing a with
  | zero => exact ⟨a, rfl, .refl _ _ _, h⟩
  | succ count ih =>
    have hsifting : Sifting count count bottom a := by
      constructor
      · intro c hc hcb hct hne
        exact h c hc hcb (by push_cast; omega)
      · intro c hc hcb hcc hpos hct
        omega
    obtain ⟨c, hc, hac, hheap⟩ := siftDown_spec fuel (by omega) (le_refl (count : ℤ)) hbottom
      (by omega) (by omega) hsifting
    have hsize := hac.size_eq
    obtain ⟨b, hb, hcb, hheap⟩ := ih (a := c) (by omega) (by omega) hheap
    refine ⟨b, ?_, (hac.mono (by omega) (le_refl _)).trans hcb, hheap⟩
    simp only [buildHeap, hc, bind_eq_bind, bind_some, hb]

lemma HeapFrom.le_root (h : HeapFrom 0 bottom a) (c : ℕ) (hc : c ≤ bottom) :
    keyRank (entry a c) ≤ keyRank (entry a 0) := by
  induction c using Nat.strong_induction_on with
  | h c ih =>
    by_cases hzero : c = 0
    · rw [hzero]
      exact le_refl _
    · have hparent := h c (by omega) hc (by omega)
      have hhalf := ih (c / 2) (by omega) (by omega)
      exact hparent.trans hhalf

/-- From `count + 1` to `last` every key is in its place. -/
def Drained (count last : ℤ) (a : Keys keySize ρ) : Prop :=
  ∀ i j, 0 ≤ i → i < j → count < j → j ≤ last → keyRank (entry a i) ≤ keyRank (entry a j)

lemma Drained.swap {count : ℕ} {last : ℤ} (h : Drained (count + 1) last a)
    (hheap : HeapFrom 0 (count + 1) a) (hbz : entry b 0 = entry a (count + 1))
    (hbc : entry b (count + 1) = entry a 0)
    (hoth : ∀ k, k ≠ 0 → k ≠ (count : ℤ) + 1 → entry b k = entry a k) : Drained count last b := by
  have hroot : ∀ i : ℤ, 0 ≤ i → i ≤ count + 1 → keyRank (entry a i) ≤ keyRank (entry a 0) := by
    intro i hi hic
    obtain ⟨c, rfl⟩ := Int.eq_ofNat_of_zero_le hi
    exact hheap.le_root c hic
  intro i j hi hij hj hjl
  by_cases hjc : j = count + 1
  · rw [hjc, hbc]
    by_cases hiz : i = 0
    · rw [hiz, hbz]
      exact hroot _ (by omega) (le_refl _)
    · rw [hoth i hiz (by omega)]
      exact hroot i hi (by omega)
  · rw [hoth j (by omega) hjc]
    by_cases hiz : i = 0
    · rw [hiz, hbz]
      exact h _ j (by omega) (by omega) (by omega) hjl
    · by_cases hic : i = count + 1
      · rw [hic, hbc]
        exact h 0 j (le_refl 0) (by omega) (by omega) hjl
      · rw [hoth i hiz hic]
        exact h i j hi hij (by omega) hjl

lemma Drained.rearrange {count last : ℤ} (h : Drained count last a)
    (hab : Rearranges 0 count a b) : Drained count last b := by
  intro i j hi hij hj hjl
  rw [hab.entry_outside (k := j) (by omega)]
  by_cases hic : i ≤ count
  · exact hab.forall_entry (P := fun x => keyRank x ≤ keyRank (entry a j))
      (fun k hk hkc => h k j hk (by omega) hj hjl) i hi hic
  · rw [hab.entry_outside]
    exact h i j hi hij hj hjl

lemma drainHeap_spec {last : ℤ} (hfuel : a.size < fuel) (hlast : last < a.size)
    (count : ℕ) (hcnt : count ≤ last) (hheap : HeapFrom 0 count a) (h : Drained count last a) :
    ∃ b, drainHeap fuel count a = some b ∧ Rearranges 0 last a b ∧ Drained 0 last b := by
  induction count generalizing a with
  | zero => exact ⟨a, rfl, .refl _ _ _, h⟩
  | succ count ih =>
    push_cast at hcnt hheap h
    obtain ⟨c, hc, hac, hcz, hcc, hoth⟩ := swap_rearranges (a := a) (i := 0)
      (j := (count : ℤ) + 1) (le_refl 0) hlast
    have hcsize := hac.size_eq
    have hsifting : Sifting 0 0 count c := by
      constructor
      · intro k hk hkb hkt hne
        rw [hoth k (by omega) (by omega), hoth (k / 2) hne (by omega)]
        exact hheap k hk (by omega) hkt
      · intro k hk hkb hkz hpos
        omega
    obtain ⟨d, hd, hcd, hheap'⟩ := siftDown_spec fuel (le_refl 0) (le_refl 0)
      (show (count : ℤ) < c.size by omega) (by omega) (by omega) hsifting
    have hdsize := hcd.size_eq
    have hdrained := (h.swap hheap hcz hcc hoth).rearrange hcd
    obtain ⟨b, hb, hdb, hsort⟩ := ih (a := d) (by omega) (by omega) (by omega) hheap' hdrained
    refine ⟨b, ?_, (hac.trans (hcd.mono (le_refl 0) (by omega))).trans hdb, hsort⟩
    simp only [drainHeap, hc, hd, hb, bind_eq_bind, bind_some]

lemma heapSort_sorts (hfuel : a.size < fuel) (hsize : 1 ≤ a.size) :
    ∃ b, heapSort fuel a a.size = some b ∧ Rearranges 0 (a.size - 1) a b ∧
      SortedOn keyRank 0 (a.size - 1) b := by
  obtain ⟨c, hc, hac, hheap⟩ := buildHeap_spec hfuel (a.size / 2 + 1)
    (show (a.size : ℤ) - 1 < a.size by omega) (fun c hc hcb hct => by push_cast at hct; omega)
  have hcsize := hac.size_eq
  have hcnt : ((a.size - 1 : ℕ) : ℤ) = a.size - 1 := by omega
  obtain ⟨b, hb, hcb, hsort⟩ := drainHeap_spec (a := c) (show c.size < fuel by omega)
    (show (a.size : ℤ) - 1 < c.size by omega) (a.size - 1) (by omega) (by rw [hcnt]; exact hheap)
    (fun i j hi hij hj hjl => by omega)
  refine ⟨b, ?_, hac.trans hcb, fun i j hi hij hj => hsort i j hi hij (by omega) hj⟩
  simp only [heapSort, hc, hb, bind_eq_bind, bind_some]

/-! ### The three sorts -/

/-- The entries of `keysToSort`, with keys that do not descend. -/
def Sorts (keysToSort sorted : Keys keySize ρ) : Prop :=
  sorted.toList.Perm keysToSort.toList ∧
    sorted.toList.Pairwise fun x y => compare x.key_ y.key_ ≤ 0

lemma sorts_of_sortedOn (hab : Rearranges 0 (a.size - 1) a b)
    (hsort : SortedOn keyRank 0 (a.size - 1) b) : Sorts a b := by
  refine ⟨hab.perm, ?_⟩
  rw [← hab.size_eq] at hsort
  exact hsort.pairwise.imp fun h => compare_le_zero.2 h

omit [Inhabited ρ] in
lemma Sorts.keys_eq {b c : Keys keySize ρ} (hb : Sorts a b) (hc : Sorts a c) :
    b.toList.map (·.key_) = c.toList.map (·.key_) := by
  apply @List.Perm.eq_of_pairwise _ fun k l => compare k l ≤ 0
  · intro k l _ _ hkl hlk
    exact rank_injective (le_antisymm (compare_le_zero.1 hkl) (compare_le_zero.1 hlk))
  · exact hb.2.map _ fun _ _ h => h
  · exact hc.2.map _ fun _ _ h => h
  · exact (hb.1.trans hc.1.symm).map _

/-- Each sort ends within the array with the keys in order, and all three with the same keys. The
entries of the iterative sort's stack are taken to fit in its block. -/
def SortAlike (fuel : ℕ) (keysToSort : Keys keySize ρ) : Prop :=
  ∃ q i h stack, quickSort fuel keysToSort 0 (keysToSort.size - 1) = some q ∧
    iterativeQuickSort fuel keysToSort 0 (keysToSort.size - 1) = some (i, stack) ∧
    heapSort fuel keysToSort keysToSort.size = some h ∧
    Sorts keysToSort q ∧ Sorts keysToSort i ∧ Sorts keysToSort h ∧
    q.toList.map (·.key_) = i.toList.map (·.key_) ∧ i.toList.map (·.key_) = h.toList.map (·.key_)

omit [Inhabited ρ] in
theorem sorts_agree (keysToSort : Keys keySize ρ) (hsize : 1 ≤ keysToSort.size) :
    ∃ n, ∀ fuel, n ≤ fuel → SortAlike fuel keysToSort := by
  have : Inhabited ρ := ⟨keysToSort[0].rec_⟩
  have hiterative : ∃ n i stack, (∀ fuel, n ≤ fuel →
      iterativeQuickSort fuel keysToSort 0 (keysToSort.size - 1) = some (i, stack)) ∧
        Sorts keysToSort i := by
    by_cases htwo : 2 ≤ keysToSort.size
    · obtain ⟨n, i, d, hrun, hperm, hsorted, -⟩ := iterativeQuickSort_run htwo
      exact ⟨n, i, _, hrun, sorts_of_sortedOn hperm hsorted⟩
    · refine ⟨0, keysToSort, _, fun fuel _ => if_pos (by omega), ?_⟩
      exact sorts_of_sortedOn (.refl _ _ _) (sortedOn_of_le (by omega))
  obtain ⟨n, i, stack, hi, hsi⟩ := hiterative
  refine ⟨max n (keysToSort.size + 1), fun fuel hfuel => ?_⟩
  obtain ⟨q, hq, hqperm, hqsorted⟩ := quickSort_sorts (a := keysToSort) fuel (le_refl 0)
    (show (keysToSort.size : ℤ) - 1 < keysToSort.size by omega) (by omega) (by omega)
  obtain ⟨h, hh, hhperm, hhsorted⟩ := heapSort_sorts (show keysToSort.size < fuel by omega) hsize
  have hsq := sorts_of_sortedOn hqperm hqsorted
  have hsh := sorts_of_sortedOn hhperm hhsorted
  exact ⟨q, i, h, stack, hq, hi fuel (by omega), hh, hsq, hsi, hsh, hsq.keys_eq hsi,
    hsi.keys_eq hsh⟩

theorem threeKeys_sorted : ∃ n, ∀ fuel, n ≤ fuel → SortAlike fuel threeKeys :=
  sorts_agree threeKeys (by decide)

end Trafodion.Qsort
