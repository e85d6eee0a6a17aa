import Trafodion.RunSorts

/-!
# Quick sort with the median of three

`median` leaves entries at `left` and `right - 1` that stop the two scans of the partition within
the segment.
-/
namespace Trafodion.Qsort
open Rearrangements Option

variable {keySize : ℕ} {ρ : Type} [Inhabited ρ] {a : Keys keySize ρ} {left right : ℤ}

lemma swapIfGreater_spec {l r i j : ℤ} (hl : 0 ≤ l) (hr : r < a.size) (hil : l ≤ i)
    (hij : i < j) (hjr : j ≤ r) : ∃ b, swapIfGreater a i j = some b ∧ Rearranges l r a b ∧
      (∀ k, k ≠ i → k ≠ j → entry b k = entry a k) ∧
      keyRank (entry b i) = min (keyRank (entry a i)) (keyRank (entry a j)) ∧
        keyRank (entry b j) = max (keyRank (entry a i)) (keyRank (entry a j)) := by
  have hi : read a i = some (entry a i) := read_eq
  have hj : read a j = some (entry a j) := read_eq
  simp only [swapIfGreater, hi, hj, bind_eq_bind, bind_some]
  by_cases hgt : key1IsGreater ≤ compare (entry a i).key_ (entry a j).key_
  · obtain ⟨b, hb, hab, hbi, hbj, hoth⟩ := swap_rearranges (i := i) (j := j) hl hr
    rw [if_pos hgt]
    have hrank : keyRank (entry a j) < keyRank (entry a i) := compare_greater.1 hgt
    refine ⟨b, hb, hab, hoth, ?_, ?_⟩
    · rw [hbi, min_eq_right (le_of_lt hrank)]
    · rw [hbj, max_eq_left (le_of_lt hrank)]
  · rw [if_neg hgt]
    have hrank : keyRank (entry a i) ≤ keyRank (entry a j) :=
      Nat.le_of_not_lt fun h => hgt (compare_greater.2 h)
    exact ⟨a, rfl, .refl _ _ _, fun _ _ _ => rfl, (min_eq_left hrank).symm,
      (max_eq_right hrank).symm⟩

lemma median_spec (hleft : 0 ≤ left) (hrt : right < a.size) (hthree : left + 1 < right) :
    ∃ m, median a left right = some (m, (entry m (right - 1)).key_) ∧ Rearranges left right a m ∧
      keyRank (entry m left) ≤ keyRank (entry m (right - 1)) ∧
        keyRank (entry m (right - 1)) ≤ keyRank (entry m right) := by
  obtain ⟨center, hcenter⟩ : ∃ center, center = (left + right) / 2 := ⟨_, rfl⟩
  have hlc : left < center := by omega
  have hcr : center < right := by omega
  obtain ⟨b, hb, hab, hbk, hbl, hbc⟩ :=
    swapIfGreater_spec hleft hrt (le_refl left) hlc (le_of_lt hcr)
  have hbsize := hab.size_eq
  obtain ⟨c, hc, hbc', hck, hcl, hcr'⟩ := swapIfGreater_spec (a := b) (r := right) hleft (by omega)
    (le_refl left) (hlc.trans hcr) (le_refl right)
  have hcsize := hbc'.size_eq
  obtain ⟨d, hd, hcd, hdk, hdc, hdr⟩ := swapIfGreater_spec (a := c) (r := right) hleft (by omega)
    (le_of_lt hlc) hcr (le_refl right)
  have hdsize := hcd.size_eq
  obtain ⟨m, hm, hdm, hmc, hmr, hmk⟩ := swap_rearranges (a := d) (i := center) (j := right - 1)
    (r := right) hleft
  have hmsize := hdm.size_eq
  have hread : read m (right - 1) = some (entry m (right - 1)) := read_eq
  refine ⟨m, ?_, ((hab.trans hbc').trans hcd).trans hdm, ?_, ?_⟩
  · simp only [median, ← hcenter, hb, hc, hd, hm, hread, bind_eq_bind, bind_some]
    rfl
  · rw [hmr, hmk left (by omega) (by omega), hdc, hdk left (by omega) (by omega), hcl, hcr',
      hck center (by omega) (by omega), hbl, hbc, hbk right (by omega) (by omega)]
    omega
  · rw [hmr, hmk right (by omega) (by omega), hdc, hdr]
    omega

variable {pivot : Option (Key keySize)}

lemma scanUp_spec {s : ℤ} (hs : s < a.size)
    (hpivot : rank pivot ≤ keyRank (entry a s)) (fuel : ℕ) {i : ℤ} (hi : 0 ≤ i + 1)
    (hlt : i < s) (hfuel : s - i ≤ fuel) : ∃ i', scanUp a pivot fuel i = some i' ∧ i < i' ∧ i' ≤ s ∧
      (∀ k, i < k → k < i' → keyRank (entry a k) < rank pivot) ∧
        rank pivot ≤ keyRank (entry a i') := by
  induction fuel generalizing i with
  | zero => omega
  | succ fuel ih =>
    have hread : read a (i + 1) = some (entry a (i + 1)) := read_eq
    simp only [scanUp, hread, bind_eq_bind, bind_some]
    by_cases hsmaller : compare (entry a (i + 1)).key_ pivot ≤ key1IsSmaller
    · have hrank : keyRank (entry a (i + 1)) < rank pivot := compare_smaller.1 hsmaller
      have hne : i + 1 ≠ s := by
        intro heq
        rw [heq] at hrank
        omega
      obtain ⟨i', hscan, hgt, hle, hbelow, hend⟩ := ih (i := i + 1) (by omega) (by omega) (by omega)
      rw [if_pos hsmaller]
      refine ⟨i', hscan, by omega, hle, fun k hk hk' => ?_, hend⟩
      by_cases hki : k = i + 1
      · rw [hki]
        exact hrank
      · exact hbelow k (by omega) hk'
    · rw [if_neg hsmaller]
      have hrank : rank pivot ≤ keyRank (entry a (i + 1)) :=
        Nat.le_of_not_lt fun h => hsmaller (compare_smaller.2 h)
      exact ⟨i + 1, rfl, by omega, by omega, fun k hk hk' => by omega, hrank⟩

lemma scanDown_spec {s : ℤ} (hs : 0 ≤ s)
    (hpivot : keyRank (entry a s) ≤ rank pivot) (fuel : ℕ) {j : ℤ} (hj : j ≤ a.size)
    (hlt : s < j) (hfuel : j - s ≤ fuel) :
    ∃ j', scanDown a pivot fuel j = some j' ∧ j' < j ∧ s ≤ j' ∧
      (∀ k, j' < k → k < j → rank pivot < keyRank (entry a k)) ∧
        keyRank (entry a j') ≤ rank pivot := by
  induction fuel generalizing j with
  | zero => omega
  | succ fuel ih =>
    have hread : read a (j - 1) = some (entry a (j - 1)) := read_eq
    simp only [scanDown, hread, bind_eq_bind, bind_some]
    by_cases hgreater : key1IsGreater ≤ compare (entry a (j - 1)).key_ pivot
    · have hrank : rank pivot < keyRank (entry a (j - 1)) := compare_greater.1 hgreater
      have hne : j - 1 ≠ s := by
        intro heq
        rw [heq] at hrank
        omega
      obtain ⟨j', hscan, hlt', hge, habv, hend⟩ := ih (j := j - 1) (by omega)
        (by omega) (by omega)
      rw [if_pos hgreater]
      refine ⟨j', hscan, by omega, hge, fun k hk hk' => ?_, hend⟩
      by_cases hkj : k = j - 1
      · rw [hkj]
        exact hrank
      · exact habv k hk (by omega)
    · rw [if_neg hgreater]
      have hrank : keyRank (entry a (j - 1)) ≤ rank pivot :=
        Nat.le_of_not_lt fun h => hgreater (compare_greater.2 h)
      exact ⟨j - 1, rfl, by omega, by omega, fun k hk hk' => by omega, hrank⟩

/-- Up to `i` no key is above the pivot, and from `j` to `top` none is below. -/
structure Parted (pivot : Option (Key keySize)) (left i j top : ℤ) (a : Keys keySize ρ) : Prop where
  low : ∀ k, left ≤ k → k ≤ i → keyRank (entry a k) ≤ rank pivot
  high : ∀ k, j ≤ k → k ≤ top → rank pivot ≤ keyRank (entry a k)

/-- The loop ends with `i` at the first place of the upper part, and the pivot, at `top`, has not
been moved. -/
theorem partition_spec {top : ℤ} (hleft : 0 ≤ left) (fuel : ℕ)
    {i j : ℤ} (htop : top < a.size) (hi : left ≤ i) (hij : i < j) (hj : j ≤ top)
    (hfuel : j - i ≤ fuel) (h : Parted pivot left i j top a) :
    ∃ b i', partition pivot fuel a i j = some (b, i') ∧ Rearranges left (top - 1) a b ∧
      left < i' ∧ i' ≤ top ∧ Parted pivot left (i' - 1) i' top b := by
  induction fuel generalizing a i j with
  | zero => omega
  | succ fuel ih =>
    obtain ⟨i', hup, hi', hi'j, hbelow, hge⟩ := scanUp_spec (s := j) (by omega)
      (h.high j (le_refl j) hj) (a.size + 1) (i := i) (by omega) hij (by omega)
    obtain ⟨j', hdown, hj', hij', habv, hle⟩ := scanDown_spec (s := i) (by omega)
      (h.low i hi (le_refl i)) (a.size + 1) (j := j) (by omega) hij (by omega)
    simp only [partition, hup, hdown, bind_eq_bind, bind_some]
    by_cases hcross : i' < j'
    · obtain ⟨c, hc, hac, hci, hcj, hoth⟩ := swap_rearranges (a := a) (i := i') (j := j')
        (r := top - 1) hleft
      have hsize := hac.size_eq
      have hparted : Parted pivot left i' j' top c := by
        constructor
        · intro k hk hk'
          by_cases hki : k = i'
          · rw [hki, hci]
            exact hle
          · rw [hoth k hki (by omega)]
            by_cases hold : k ≤ i
            · exact h.low k hk hold
            · exact le_of_lt (hbelow k (by omega) (by omega))
        · intro k hk hk'
          by_cases hkj : k = j'
          · rw [hkj, hcj]
            exact hge
          · rw [hoth k (by omega) hkj]
            by_cases hold : j ≤ k
            · exact h.high k hold hk'
            · exact le_of_lt (habv k (by omega) (by omega))
      obtain ⟨b, i'', hrun, hcb, hspec⟩ := ih (by omega) (by omega) hcross (by omega) (by omega)
        hparted
      rw [if_pos hcross, hc]
      exact ⟨b, i'', hrun, hac.trans hcb, hspec⟩
    · rw [if_neg hcross]
      refine ⟨a, i', rfl, .refl _ _ _, by omega, by omega, fun k hk hk' => ?_, fun k hk hk' => ?_⟩
      · by_cases hold : k ≤ i
        · exact h.low k hk hold
        · exact le_of_lt (hbelow k (by omega) (by omega))
      · by_cases hold : j ≤ k
        · exact h.high k hold hk'
        · by_cases hki : k = i'
          · rw [hki]
            exact hge
          · exact le_of_lt (habv k (by omega) (by omega))

lemma quickSort_split (hleft : 0 ≤ left) (hrt : right < a.size) (hthree : left + 1 < right) :
    ∃ m b c i pivot, median a left right = some (m, pivot) ∧
      partition pivot (m.size + 1) m left (right - 1) = some (b, i) ∧
      swap b i (right - 1) = some c ∧ Rearranges left right a c ∧ left < i ∧ i < right ∧
      SplitAt keyRank left i right c := by
  obtain ⟨m, hm, ham, hlow, hhigh⟩ := median_spec hleft hrt hthree
  have hsize := ham.size_eq
  have hparted : Parted (entry m (right - 1)).key_ left left (right - 1) (right - 1) m := by
    constructor
    · intro k hk hk'
      rw [le_antisymm hk' hk]
      exact hlow
    · intro k hk hk'
      rw [le_antisymm hk' hk]
      exact le_refl _
  obtain ⟨b, i, hpartition, hmb, hli, hir, hparted⟩ := partition_spec hleft (m.size + 1)
    (by omega) (le_refl left) (by omega) (le_refl _) (by omega) hparted
  have hbsize := hmb.size_eq
  obtain ⟨c, hc, hbc, hci, hcr, hoth⟩ := swap_rearranges (a := b) (i := i) (j := right - 1)
    (r := right) hleft
  have hpivot : entry b (right - 1) = entry m (right - 1) := hmb.entry_outside
  have hlast : entry b right = entry m right := hmb.entry_outside
  refine ⟨m, b, c, i, _, hm, hpartition, hc, ?_, hli, by omega, fun k hk hk' => ?_,
    fun k hk hk' => ?_⟩
  · exact (ham.trans (hmb.mono (le_refl _) (by omega))).trans hbc
  · rw [hci, hoth k (by omega) (by omega), hpivot]
    exact hparted.low k hk hk'
  · rw [hci, hpivot]
    by_cases hkr : k = right
    · rw [hkr, hoth right (by omega) (by omega), hlast]
      exact hhigh
    · by_cases hkp : k = right - 1
      · rw [hkp, hcr]
        exact hparted.high i (le_refl i) hir
      · rw [hoth k (by omega) hkp]
        exact hparted.high k (by omega) (by omega)

lemma quickSort_sorts (fuel : ℕ) (hleft : 0 ≤ left) (hrt : right < a.size)
    (hle : left ≤ right) (hfuel : right - left < fuel) :
    ∃ b, quickSort fuel a left right = some b ∧ Rearranges left right a b ∧
      SortedOn keyRank left right b := by
  induction fuel generalizing a left right with
  | zero => omega
  | succ fuel ih =>
    by_cases hthree : left + 1 < right
    · obtain ⟨m, b, c, i, pivot, hm, hb, hc, hac, hli, hir, hspl⟩ :=
        quickSort_split hleft hrt hthree
      have hcsize := hac.size_eq
      obtain ⟨d, hd, hcd, hdsorted⟩ := ih (a := c) hleft
        (show i - 1 < c.size by omega) (by omega) (by omega)
      have hdsize := hcd.size_eq
      obtain ⟨e, he, hde, hesorted⟩ := ih (a := d)
        (show 0 ≤ i + 1 by omega) (show right < d.size by omega) (by omega) (by omega)
      refine ⟨e, ?_, ?_, ?_⟩
      · simp only [quickSort, if_pos hthree, hm, hb, hc, hd, he, bind_eq_bind, bind_some]
      · exact (hac.trans (hcd.mono (le_refl _) (by omega))).trans (hde.mono (by omega) (le_refl _))
      · apply ((hspl.left hcd).right hde).sorted
        · exact hdsorted.of_outside hde (by omega)
        · exact hesorted
    · by_cases htwo : left < right
      · obtain ⟨b, hb, hab, hoth, hmin, hmax⟩ :=
          swapIfGreater_spec hleft hrt (le_refl left) htwo (le_refl right)
        refine ⟨b, ?_, hab, fun i j hi hij hj => ?_⟩
        · rw [quickSort, if_neg hthree, if_pos htwo, hb]
        · obtain rfl : i = left := by omega
          obtain rfl : j = right := by omega
          rw [hmin, hmax]
          omega
      · refine ⟨a, ?_, .refl _ _ _, sortedOn_of_le (by omega)⟩
        rw [quickSort, if_neg hthree, if_neg htwo]
        rfl

end Trafodion.Qsort
