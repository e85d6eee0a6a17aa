import Trafodion.RunSorts

/-!
# Quick sort with a stack of its own

A segment on top of the stack is sorted before what lies below it is looked at. Both parts of a split
are pushed, and the right one is sorted while the left one waits.
-/
namespace Trafodion.Qsort
open Rearrangements Option Stack

variable {keySize : ℕ} {ρ : Type}

/-- At each of the first `count` splits of what is left of the array the middle key is a smallest
one, so that only this key is put behind. -/
def PivotsSmallest (right : ℤ) : ℕ → Keys keySize ρ → ℤ → Prop
  | 0, _, _ => True
  | count + 1, keysToSort, left =>
    (∀ x ∈ read keysToSort ((left + right) / 2), ∀ k, left ≤ k → k ≤ right →
      ∀ y ∈ read keysToSort k, compare x.key_ y.key_ ≤ 0) ∧
    ∀ b ∈ swap keysToSort left ((left + right) / 2), PivotsSmallest right count b (left + 1)

variable [Inhabited ρ] {a : Keys keySize ρ} {left right : ℤ}

/-- Smaller keys are gathered up to `last`, and the key at `left` stays. -/
theorem gatherSmaller_spec (hleft : 0 ≤ left) (count : ℕ) {i l : ℤ} (hrt : right < a.size)
    (hl : left ≤ l) (hli : l < i) (hcnt : i + count = right + 1)
    (hlow : ∀ k, left < k → k ≤ l → keyRank (entry a k) < keyRank (entry a left))
    (hhigh : ∀ k, l < k → k < i → keyRank (entry a left) ≤ keyRank (entry a k)) :
    ∃ b l', gatherSmaller left count i l a = some (b, l') ∧ Rearranges (left + 1) right a b ∧
      l ≤ l' ∧ l' ≤ right ∧
      (∀ k, left < k → k ≤ l' → keyRank (entry b k) < keyRank (entry b left)) ∧
        ∀ k, l' < k → k ≤ right → keyRank (entry b left) ≤ keyRank (entry b k) := by
  induction count generalizing a i l with
  | zero =>
    exact ⟨a, l, rfl, .refl _ _ _, le_refl l, by omega, hlow, fun k hk hk' => hhigh k hk (by omega)⟩
  | succ count ih =>
    have hi : read a i = some (entry a i) := read_eq
    have hpivot : read a left = some (entry a left) := read_eq
    simp only [gatherSmaller, hi, hpivot, bind_eq_bind, bind_some]
    by_cases hsmaller : compare (entry a i).key_ (entry a left).key_ ≤ key1IsSmaller
    · have hrank : keyRank (entry a i) < keyRank (entry a left) := compare_smaller.1 hsmaller
      obtain ⟨c, hc, hac, hcl, hci, hoth⟩ := swap_rearranges (a := a) (i := l + 1) (j := i)
        (l := left + 1) (r := right)
      have hcleft : entry c left = entry a left := hac.entry_outside
      have hsize := hac.size_eq
      obtain ⟨b, l', hrun, hcb, hll', hspec⟩ := ih (a := c) (i := i + 1) (l := l + 1) (by omega)
        (by omega) (by omega) (by omega)
        (fun k hk hk' => by
          by_cases hkl : k = l + 1
          · rw [hkl, hcl, hcleft]
            exact hrank
          · rw [hoth k hkl (by omega), hcleft]
            exact hlow k hk (by omega))
        (fun k hk hk' => by
          rw [hcleft]
          by_cases hki : k = i
          · rw [hki, hci]
            exact hhigh (l + 1) (by omega) (by omega)
          · rw [hoth k (by omega) hki]
            exact hhigh k (by omega) (by omega))
      rw [if_pos hsmaller, hc]
      exact ⟨b, l', hrun, hac.trans hcb, by omega, hspec⟩
    · rw [if_neg hsmaller]
      have hrank : keyRank (entry a left) ≤ keyRank (entry a i) :=
        Nat.le_of_not_lt fun h => hsmaller (compare_smaller.2 h)
      apply ih hrt hl (by omega) (by omega) hlow
      intro k hk hk'
      by_cases hki : k = i
      · rw [hki]
        exact hrank
      · exact hhigh k hk (by omega)

lemma gatherSmaller_none (hleft : 0 ≤ left) (count : ℕ) {i l : ℤ} (hrt : right < a.size)
    (hlt : left < i) (hcnt : i + count = right + 1)
    (hsmallest : ∀ k, left ≤ k → k ≤ right → keyRank (entry a left) ≤ keyRank (entry a k)) :
    gatherSmaller left count i l a = some (a, l) := by
  induction count generalizing i with
  | zero => rfl
  | succ count ih =>
    have hi : read a i = some (entry a i) := read_eq
    have hpivot : read a left = some (entry a left) := read_eq
    have hrank : ¬ compare (entry a i).key_ (entry a left).key_ ≤ key1IsSmaller := by
      intro hsmaller
      exact absurd (compare_smaller.1 hsmaller) (Nat.not_lt.2 (hsmallest i (by omega) (by omega)))
    simp only [gatherSmaller, hi, hpivot, bind_eq_bind, bind_some, if_neg hrank]
    exact ih (by omega) (by omega)

lemma splitSegment_spec (hleft : 0 ≤ left) (hrt : right < a.size) (hlt : left < right) :
    ∃ b l, splitSegment a left right = some (b, l) ∧ Rearranges left right a b ∧ left ≤ l ∧
      l ≤ right ∧ SplitAt keyRank left l right b ∧ entry b l = entry a ((left + right) / 2) := by
  obtain ⟨c, hc, hac, hcl, hcp, hoth⟩ := swap_rearranges (a := a) (i := left)
    (j := (left + right) / 2) hleft hrt
  have hcsize := hac.size_eq
  obtain ⟨d, l, hd, hcd, hl, hlr, hlow, hhigh⟩ := gatherSmaller_spec (a := c) hleft
    (right - left).toNat (i := left + 1) (l := left) (show right < c.size by omega) (le_refl left)
    (by omega) (by omega)
    (fun k hk hk' => by omega) (fun k hk hk' => by omega)
  have hdsize := hcd.size_eq
  have hdl : entry d left = entry c left := hcd.entry_outside
  obtain ⟨b, hb, hdb, hbl, hbl', hbk⟩ := swap_rearranges (a := d) (i := left) (j := l) hleft
    (show right < d.size by omega)
  refine ⟨b, l, ?_, (hac.trans (hcd.mono (by omega) (le_refl _))).trans hdb, hl, hlr,
    ⟨fun k hk hk' => ?_, fun k hk hk' => ?_⟩, ?_⟩
  · simp only [splitSegment, hc, hd, hb, bind_eq_bind, bind_some]
    rfl
  · rw [hbl']
    by_cases hkl : k = left
    · rw [hkl, hbl]
      exact le_of_lt (hlow l (by omega) (le_refl l))
    · rw [hbk k hkl (by omega)]
      exact le_of_lt (hlow k (by omega) (by omega))
  · rw [hbl', hbk k (by omega) (by omega)]
    exact hhigh k (by omega) hk'
  · rw [hbl', hdl, hcl]

variable {b : Keys keySize ρ}

lemma splitSegment_smallest (hleft : 0 ≤ left) (hrt : right < a.size) (hlt : left < right)
    (hsmallest : ∀ k, left ≤ k → k ≤ right →
      keyRank (entry a ((left + right) / 2)) ≤ keyRank (entry a k))
    (hb : swap a left ((left + right) / 2) = some b) : splitSegment a left right = some (b, left) := by
  obtain ⟨c, hc, hac, hcl, hcp, hoth⟩ := swap_rearranges (a := a) (i := left)
    (j := (left + right) / 2) hleft hrt
  obtain rfl : b = c := some.inj (hb.symm.trans hc)
  have hsize := hac.size_eq
  have hkept : ∀ k, left ≤ k → k ≤ right → keyRank (entry b left) ≤ keyRank (entry b k) := by
    rw [hcl]
    exact hac.forall_entry (P := fun x => _ ≤ keyRank x) hsmallest
  have hgather := gatherSmaller_none (i := left + 1) (l := left) hleft (right - left).toNat
    (show right < b.size by omega) (by omega) (by omega) hkept
  have hself : swap b left left = some b := swap_self hleft (by omega)
  simp only [splitSegment, hb, hgather, hself, bind_eq_bind, bind_some]
  rfl

lemma pivotsSmallest_succ {count : ℕ} (hleft : 0 ≤ left)
    (hrt : right < a.size) (hlt : left < right) (hb : swap a left ((left + right) / 2) = some b) :
    PivotsSmallest right (count + 1) a left ↔
      (∀ k, left ≤ k → k ≤ right → keyRank (entry a ((left + right) / 2)) ≤ keyRank (entry a k)) ∧
        PivotsSmallest right count b (left + 1) := by
  have hread : ∀ {k}, left ≤ k → k ≤ right → read a k = some (entry a k) := by
    intro k hk hk'
    exact read_eq
  have hmiddle := hread (k := (left + right) / 2) (by omega) (by omega)
  simp only [PivotsSmallest, hmiddle, hb, mem_some_iff, forall_eq']
  apply and_congr_left'
  apply forall₃_congr
  intro k hk hk'
  rw [hread hk hk']
  simp only [mem_some_iff, forall_eq', compare_le_zero]
  rfl

structure Depth (a : Keys keySize ρ) (left right : ℤ) (d : ℕ) : Prop where
  pos : 0 < d
  le : d = 1 ∨ d ≤ right - left + 1
  iff : left < right → (d = right - left + 1 ↔ PivotsSmallest right (right - left - 1).toNat a left)

lemma Depth.split {b c : Keys keySize ρ} {l : ℤ} {d e : ℕ} (hleft : 0 ≤ left)
    (hrt : right < a.size) (hlt : left < right) (hspl : splitSegment a left right = some (b, l))
    (hd : Depth b (l + 1) right d) (he : Depth c left (l - 1) e) :
    Depth a left right (max (1 + d) e) := by
  obtain ⟨b', l', hb', hab, hl, hlr, hat, hpivot⟩ := splitSegment_spec hleft hrt hlt
  obtain ⟨rfl, rfl⟩ : b = b' ∧ l = l' := by simpa using hspl.symm.trans hb'
  have hdle := hd.le
  have hele := he.le
  have hdpos := hd.pos
  refine ⟨by omega, by omega, fun _ => ?_⟩
  by_cases htwo : right = left + 1
  · have hcnt : (right - left - 1).toNat = 0 := by omega
    rw [hcnt]
    exact ⟨fun _ => trivial, fun _ => by omega⟩
  obtain ⟨c', hc', _⟩ := swap_rearranges (a := a) (i := left) (j := (left + right) / 2) hleft hrt
  have hcnt : (right - left - 1).toNat = (right - (left + 1) - 1).toNat + 1 := by omega
  rw [hcnt, pivotsSmallest_succ hleft hrt hlt hc']
  constructor
  · intro hmax
    obtain rfl : l = left := by omega
    have hsmallest : ∀ k, l ≤ k → k ≤ right →
        keyRank (entry a ((l + right) / 2)) ≤ keyRank (entry a k) := by
      apply hab.symm.forall_entry (P := fun x => _ ≤ keyRank x)
      intro k hk hk'
      rw [← hpivot]
      by_cases hkl : k = l
      · rw [hkl]
      · exact hat.ge k (by omega) hk'
    obtain ⟨rfl, -⟩ : b = c' ∧ l = l := by
      simpa using hspl.symm.trans (splitSegment_smallest hleft hrt hlt hsmallest hc')
    exact ⟨hsmallest, (hd.iff (by omega)).1 (by omega)⟩
  · rintro ⟨hsmallest, hrest⟩
    obtain ⟨rfl, rfl⟩ : b = c' ∧ l = left := by
      simpa using hspl.symm.trans (splitSegment_smallest hleft hrt hlt hsmallest hc')
    have hfull := (hd.iff (by omega)).2 hrest
    omega

omit [Inhabited ρ] in
lemma loop_split {l : ℤ} {fuel : ℕ} {stack : Stack}
    (hsentinel : ¬ (left = -1 ∧ right = -1)) (hlt : left < right)
    (hb : splitSegment a left right = some (b, l)) :
    iterativeQuickSortLoop (fuel + 1) a (stack.push left right) =
      iterativeQuickSortLoop fuel b ((push left (l - 1)
        ⟨stack.entries, max stack.written (stack.entries.length + 2)⟩).push (l + 1) right) := by
  rw [iterativeQuickSortLoop]
  simp only [push, pop, bind_eq_bind, bind_some, if_neg hsentinel,
    if_pos hlt, hb]

/-- The segment on top of the stack is sorted, and what waits below it comes next. -/
theorem sortsTop (m : ℕ) (hleft : 0 ≤ left) (hrt : right < a.size) (hle : left ≤ right + 1)
    (hm : right - left + 1 < m) (stack : Stack) :
    ∃ n b d, (∀ fuel, iterativeQuickSortLoop (fuel + n) a (stack.push left right) =
        iterativeQuickSortLoop fuel b
          ⟨stack.entries, max stack.written (stack.entries.length + 2 * d)⟩) ∧
      Rearranges left right a b ∧ SortedOn keyRank left right b ∧ Depth a left right d := by
  induction m generalizing a left right stack with
  | zero => omega
  | succ m ih =>
    have hsentinel : ¬ (left = -1 ∧ right = -1) := by omega
    by_cases hlt : left < right
    · obtain ⟨b, l, hb, hab, hl, hlr, hat, hpivot⟩ := splitSegment_spec hleft hrt hlt
      have hbsize := hab.size_eq
      obtain ⟨n, c, d, hc, hbc, hcsorted, hd⟩ := ih (a := b) (show 0 ≤ l + 1 by omega)
        (show right < b.size by omega) (by omega) (by omega)
        (push left (l - 1) ⟨stack.entries, max stack.written (stack.entries.length + 2)⟩)
      have hcsize := hbc.size_eq
      obtain ⟨n', b', e, hb', hcb, hsort, he⟩ := ih (a := c) hleft
        (show l - 1 < c.size by omega) (by omega) (by omega)
        ⟨stack.entries, max stack.written (stack.entries.length + 2 + 2 * d)⟩
      refine ⟨n' + n + 1, b', max (1 + d) e, fun fuel => ?_, ?_, ?_,
        hd.split hleft hrt hlt hb he⟩
      · -- the pair of the left part is written already when the right one has been sorted
        have hwait : push left (l - 1)
              ⟨stack.entries, max stack.written (stack.entries.length + 2 + 2 * d)⟩ =
            ⟨(l - 1) :: left :: stack.entries, max (max (max stack.written
              (stack.entries.length + 2)) (stack.entries.length + 2))
                (stack.entries.length + 2 + 2 * d)⟩ :=
          congrArg (mk _) (by dsimp only; omega)
        have hwrit : max (max stack.written (stack.entries.length + 2 + 2 * d))
              (stack.entries.length + 2 * e) =
            max stack.written (stack.entries.length + 2 * max (1 + d) e) := by omega
        rw [show fuel + (n' + n + 1) = fuel + n' + n + 1 by omega, loop_split hsentinel hlt hb, hc,
          ← hwrit]
        exact (congrArg (iterativeQuickSortLoop _ c) hwait.symm).trans (hb' fuel)
      · exact (hab.trans (hbc.mono (by omega) (le_refl _))).trans (hcb.mono (le_refl _) (by omega))
      · apply ((hat.right hbc).left hcb).sorted
        · exact hsort
        · exact hcsorted.of_outside hcb (by omega)
    · refine ⟨1, a, 1, fun fuel => ?_, .refl _ _ _, sortedOn_of_le (by omega), by omega, .inl rfl,
        fun h => absurd h hlt⟩
      rw [iterativeQuickSortLoop]
      simp only [push, pop, bind_eq_bind, bind_some, if_neg hsentinel,
        if_neg hlt]

lemma iterativeQuickSort_run (hsize : 2 ≤ a.size) :
    ∃ n b d, (∀ fuel, n ≤ fuel → iterativeQuickSort fuel a 0 (a.size - 1) =
        some (b, ⟨[], 2 + 2 * d⟩)) ∧
      Rearranges 0 (a.size - 1) a b ∧ SortedOn keyRank 0 (a.size - 1) b ∧
        Depth a 0 (a.size - 1) d := by
  obtain ⟨n, b, d, hrun, hab, hsort, hd⟩ := sortsTop (a := a) (a.size + 1) (le_refl 0)
    (show (a.size : ℤ) - 1 < a.size by omega) (by omega) (by omega) (push (-1) (-1) ⟨[], 0⟩)
  refine ⟨n + 1, b, d, fun fuel hfuel => ?_, hab, hsort, hd⟩
  obtain ⟨fuel, rfl⟩ := Nat.exists_eq_add_of_le hfuel
  rw [iterativeQuickSort, if_neg (by omega), show n + 1 + fuel = fuel + 1 + n by omega, hrun]
  simp [iterativeQuickSortLoop, push, pop]

omit [Inhabited ρ] in
/-- The stack is large enough unless each split puts one key behind until two are left. -/
theorem stack_fits_iff (keysToSort : Keys keySize ρ) (hsize : 2 ≤ keysToSort.size) :
    ∃ n, ∀ fuel, n ≤ fuel → ∃ sorted stack,
      iterativeQuickSort fuel keysToSort 0 (keysToSort.size - 1) = some (sorted, stack) ∧
        (stack.written ≤ stackEntries keysToSort.size ↔
          ¬ PivotsSmallest (keysToSort.size - 1) (keysToSort.size - 2) keysToSort 0) := by
  have : Inhabited ρ := ⟨keysToSort[0].rec_⟩
  obtain ⟨n, b, d, hrun, -, -, hd⟩ := iterativeQuickSort_run hsize
  refine ⟨n, fun fuel hfuel => ⟨b, _, hrun fuel hfuel, ?_⟩⟩
  have hcount : ((keysToSort.size : ℤ) - 1 - 0 - 1).toNat = keysToSort.size - 2 := by omega
  rw [← hcount, ← hd.iff (by omega)]
  have hle := hd.le
  change 2 + 2 * d ≤ keysToSort.size * 2 ↔ _
  omega

def threeKeys : Keys 1 ℕ :=
  #[⟨some ⟨[3], rfl⟩, 0⟩, ⟨some ⟨[2], rfl⟩, 1⟩, ⟨some ⟨[1], rfl⟩, 2⟩]

theorem threeKeys_fit : ∃ n, ∀ fuel, n ≤ fuel → ∃ sorted stack,
    iterativeQuickSort fuel threeKeys 0 (threeKeys.size - 1) = some (sorted, stack) ∧
      (stack.written ≤ stackEntries threeKeys.size ↔
        ¬ PivotsSmallest (threeKeys.size - 1) (threeKeys.size - 2) threeKeys 0) :=
  stack_fits_iff threeKeys (by decide)

def twoKeys : Keys 1 ℕ := #[⟨some ⟨[1], rfl⟩, 0⟩, ⟨some ⟨[2], rfl⟩, 1⟩]

theorem twoKeys_overrun :
    iterativeQuickSort 5 twoKeys 0 1 = some (twoKeys, ⟨[], 6⟩) ∧ stackEntries twoKeys.size < 6 := by
  decide

end Trafodion.Qsort
