import Trafodion.ByteStrings

/-!
# The key range of a region

A request to a region is addressed by a range of row keys, from the start key of the region to the
key before its end key. `TransactionManagerCallable` computes that key in the array of the region's
own end key, so each request made for a location moves it further: the key is decremented as a number
of its length, while regions are ordered lexicographically.
-/
namespace Trafodion.TransactionManager
open ByteStrings

/-- The loop of `binaryIncrementPos`, from the last byte on. It stops when nothing is carried. -/
def incrementFrom (sign : ℤ) : BitVec 64 → List Byte → List Byte
  | _, [] => []
  | amo, b :: rest =>
    let cur := (amo.setWidth 32).toInt.tmod 256 * sign
    let amo := amo.sshiftRight 8
    let total := (b.toNat : ℤ) + cur
    let carried :=
      if total > 255 then amo + BitVec.ofInt 64 sign
      else if total < 0 then amo - BitVec.ofInt 64 sign
      else amo
    let total := if total > 255 then total.tmod 256 else total
    BitVec.ofInt 8 total :: if carried = 0 then rest else incrementFrom sign carried rest

def binaryIncrementPos (value : List Byte) (amount : BitVec 64) : List Byte :=
  let negative := amount.slt 0
  let amo := if negative then -amount else amount
  (incrementFrom (if negative then -1 else 1) amo value.reverse).reverse

variable {l m : List Byte}

/-! ### The decrement -/

lemma incrementFrom_neg_one_cons (b : Byte) (l : List Byte) : incrementFrom (-1) 1 (b :: l) =
      if b = 0 then 255 :: incrementFrom (-1) 1 l else (b - 1) :: l := by
  have hbyte : ∀ b : Byte, (if b = 0 then (b.toNat : ℤ) - 1 < 0 ∧ BitVec.ofInt 8 (b.toNat - 1) = 255#8
      else ¬ (b.toNat : ℤ) - 1 < 0 ∧ BitVec.ofInt 8 (b.toNat - 1) = b - 1) := by decide
  have hcur : ((1#64).setWidth 32).toInt.tmod 256 * -1 = -1 := by decide
  have hshift : (1#64).sshiftRight 8 = 0 := by decide
  have hle : ¬ (b.toNat : ℤ) + -1 > 255 := by
    have := b.isLt
    omega
  have hb := hbyte b
  simp only [incrementFrom, BitVec.ofNat_eq_ofNat, hcur, hshift, if_neg hle] at hb ⊢
  rw [← Int.sub_eq_add_neg]
  split_ifs at hb ⊢ with hzero
  all_goals simp_all

lemma ofDigits_incrementFrom (l : List Byte) :
    Nat.ofDigits 256 ((incrementFrom (-1) 1 l).map BitVec.toNat) + 1 =
      Nat.ofDigits 256 (l.map BitVec.toNat) +
        if Nat.ofDigits 256 (l.map BitVec.toNat) = 0 then 256 ^ l.length else 0 := by
  induction l with
  | nil => rfl
  | cons b l ih =>
    rw [incrementFrom_neg_one_cons]
    by_cases hb : b = 0
    · subst hb
      simp only [if_true, List.map_cons, Nat.ofDigits_cons, List.length_cons, pow_succ]
      split_ifs at ih ⊢ <;> simp at * <;> omega
    · have hpos : 0 < b.toNat := Nat.pos_of_ne_zero fun h => hb (BitVec.eq_of_toNat_eq h)
      have hsub : (b - 1).toNat = b.toNat - 1 := by
        have := b.isLt
        rw [BitVec.toNat_sub_of_le] <;> simp [BitVec.le_def]
        omega
      simp only [if_neg hb, List.map_cons, Nat.ofDigits_cons, hsub]
      rw [if_neg (by omega)]
      omega

lemma length_incrementFrom (l : List Byte) : (incrementFrom (-1) 1 l).length = l.length := by
  induction l with
  | nil => rfl
  | cons b l ih =>
    rw [incrementFrom_neg_one_cons]
    split_ifs
    · exact congrArg (· + 1) ih
    · rfl

lemma binaryIncrementPos_neg_one (l : List Byte) :
    binaryIncrementPos l (-1) = (incrementFrom (-1) 1 l.reverse).reverse := rfl

lemma length_binaryIncrementPos (l : List Byte) : (binaryIncrementPos l (-1)).length = l.length := by
  rw [binaryIncrementPos_neg_one, List.length_reverse, length_incrementFrom, List.length_reverse]

lemma value_binaryIncrementPos (l : List Byte) :
    value (binaryIncrementPos l (-1)) + 1 ≡ value l [MOD 256 ^ l.length] := by
  have h := ofDigits_incrementFrom l.reverse
  rw [List.length_reverse] at h
  rw [value, value, binaryIncrementPos_neg_one, List.reverse_reverse, h]
  split_ifs
  · simp [Nat.ModEq]
  · rfl

/-! ### The order of keys -/

lemma lt_iff_value_lt (h : l.length = m.length) : l < m ↔ value l < value m := by
  induction l generalizing m with
  | nil =>
    obtain rfl := List.eq_nil_of_length_eq_zero h.symm
    simp
  | cons b l ih =>
    cases m with
    | nil => cases h
    | cons c m =>
      have hlen : l.length = m.length := Nat.succ.inj h
      have hm := value_lt m
      rw [← hlen] at hm
      rw [List.cons_lt_cons_iff, ih hlen, value_cons, value_cons, ← hlen, BitVec.lt_def,
        ← compare_lt_iff_lt, ← compare_lt_iff_lt, ← compare_lt_iff_lt,
        compare_add_of_lt (value_lt l) hm, Ordering.then_eq_lt, compare_eq_iff_eq, BitVec.toNat_inj]

/-- The number of the first key of a length that is not before `s`. -/
def firstKey : List Byte → ℕ → ℕ
  | [], _ => 0
  | _ :: _, 0 => 1
  | b :: s, length + 1 => b.toNat * 256 ^ length + firstKey s length

lemma firstKey_le (s : List Byte) (length : ℕ) : firstKey s length ≤ 256 ^ length := by
  induction s generalizing length with
  | nil => exact Nat.zero_le _
  | cons b s ih =>
    cases length with
    | zero => exact le_refl 1
    | succ length =>
      have hb := Nat.mul_le_mul_right (256 ^ length) (Nat.le_of_lt_succ b.isLt)
      have hs := ih length
      rw [firstKey, pow_succ]
      omega

lemma le_iff_firstKey_le (s t : List Byte) : s ≤ t ↔ firstKey s t.length ≤ value t := by
  induction t generalizing s with
  | nil =>
    cases s with
    | nil => simp [firstKey]
    | cons b s => simp [firstKey, value_nil]
  | cons c t ih =>
    cases s with
    | nil => simp [firstKey]
    | cons b s =>
      have hs := firstKey_le s t.length
      have ht := value_lt t
      rw [List.cons_le_cons_iff, ih, List.length_cons, firstKey, value_cons, BitVec.lt_def]
      rcases Nat.lt_trichotomy b.toNat c.toNat with hlt | heq | hgt
      · have := Nat.mul_le_mul_right (256 ^ t.length) hlt
        rw [Nat.succ_mul] at this
        simp only [hlt, true_or, true_iff]
        omega
      · obtain rfl := BitVec.eq_of_toNat_eq heq
        simp
      · have := Nat.mul_le_mul_right (256 ^ t.length) hgt
        rw [Nat.succ_mul] at this
        have hne : b ≠ c := by
          rintro rfl
          exact lt_irrefl _ hgt
        simp only [hgt.not_gt, hne, false_and, or_self, false_iff]
        omega

/-! ### The location -/

/-- A `TransactionRegionLocation`: the arrays that `getStartKey` and `getEndKey` hand out. -/
structure Location where
  startKey : List Byte
  endKey : List Byte
  deriving DecidableEq

namespace Location

variable (n : ℕ) (location : Location)

/-- The constructor of `TransactionManagerCallable`. Its `startKey` and `endKey` are the arrays of
the location. -/
def callable : Location :=
  { location with endKey := binaryIncrementPos location.endKey (-1) }

/-- The location when `n` callables have been made for it. -/
def after : Location := callable^[n] location

/-- Whenever one of `n` callables is called, it passes a range in the region. -/
def InRegion : Prop :=
  ∀ k, 1 ≤ k → k ≤ n → location.startKey ≤ (location.after k).endKey ∧
    (location.after k).endKey < location.endKey

/-- The ranges are in the region, and the end key of the location stays. -/
def Stable : Prop :=
  location.InRegion n ∧ (location.after n).endKey = location.endKey

lemma after_succ : location.after (n + 1) = (location.after n).callable :=
  Function.iterate_succ_apply' callable n location

lemma length_endKey_after : (location.after n).endKey.length = location.endKey.length := by
  induction n with
  | zero => rfl
  | succ n ih => rw [after_succ, callable, length_binaryIncrementPos, ih]

/-- Each callable decrements the end key, as a number of its length. -/
theorem value_after : value (location.after n).endKey + n ≡
    value location.endKey [MOD 256 ^ location.endKey.length] := by
  induction n with
  | zero => rfl
  | succ n ih =>
    have hstep := value_binaryIncrementPos (location.after n).endKey
    rw [length_endKey_after] at hstep
    rw [after_succ, callable, Nat.add_comm n 1, ← Nat.add_assoc]
    exact (hstep.add_right n).trans ih

lemma value_after_of_le (h : n ≤ value location.endKey) :
    value (location.after n).endKey + n = value location.endKey := by
  have hlt := value_lt (location.after n).endKey
  rw [length_endKey_after] at hlt
  have hend := value_lt location.endKey
  have hmod := value_after n location
  rw [← Nat.sub_add_cancel h] at hmod ⊢
  rw [(Nat.ModEq.add_right_cancel' n hmod).eq_of_lt_of_lt hlt (by omega)]

lemma endKey_after_eq_iff : (location.after n).endKey = location.endKey ↔
    256 ^ location.endKey.length ∣ n := by
  have hmod := value_after n location
  constructor
  · intro h
    rw [h] at hmod
    exact (Nat.modEq_zero_iff_dvd).1 (Nat.ModEq.add_left_cancel' (value location.endKey) hmod)
  · intro h
    refine value_injective (length_endKey_after n location) (Nat.ModEq.eq_of_lt_of_lt ?_
      (length_endKey_after n location ▸ value_lt _) (value_lt _))
    exact (Nat.ModEq.add_right_cancel ((Nat.modEq_zero_iff_dvd).2 h) hmod)

variable {location}

lemma inRegion_iff (h : location.startKey < location.endKey) : location.InRegion n ↔
    firstKey location.startKey location.endKey.length + n ≤ value location.endKey := by
  constructor
  · intro hranges
    induction n with
    | zero => exact (le_iff_firstKey_le _ _).1 (List.le_of_lt h)
    | succ n ih =>
      have hn := ih fun k hpos hle => hranges k hpos (by omega)
      obtain ⟨hle, hlt⟩ := hranges (n + 1) (by omega) (le_refl _)
      have hlen := length_endKey_after (n + 1) location
      rw [le_iff_firstKey_le, hlen] at hle
      rw [lt_iff_value_lt hlen] at hlt
      have hend := value_lt location.endKey
      by_contra hnot
      -- The key before was the first one of the region, so this one is before it or wraps around.
      have hmod : value (location.after (n + 1)).endKey + 1 + n ≡
          firstKey location.startKey location.endKey.length + n [MOD 256 ^ location.endKey.length] := by
        rw [Nat.add_assoc, Nat.add_comm 1 n, show firstKey location.startKey location.endKey.length + n =
          value location.endKey by omega]
        exact value_after (n + 1) location
      have := (Nat.ModEq.add_right_cancel' n hmod).eq_of_lt_of_lt (by omega) (by omega)
      omega
  · intro hn k hpos hle
    have hv := value_after_of_le k location (by omega)
    have hlen := length_endKey_after k location
    rw [le_iff_firstKey_le, lt_iff_value_lt hlen, hlen]
    omega

/-- The ranges stay in the region as long as it has enough keys of the length of its end key, and the
end key comes back only after all keys of that length. So the region is addressed as it should be
only before the first callable. -/
theorem stable_iff (n : ℕ) (location : Location) (h : location.startKey < location.endKey) :
    (location.InRegion n ↔
      firstKey location.startKey location.endKey.length + n ≤ value location.endKey) ∧
    ((location.after n).endKey = location.endKey ↔ 256 ^ location.endKey.length ∣ n) ∧
    (location.Stable n ↔ n = 0) := by
  have hin := inRegion_iff n h
  have hend := endKey_after_eq_iff n location
  refine ⟨hin, hend, ?_⟩
  rw [Stable, hin, hend]
  constructor
  · rintro ⟨hle, hdvd⟩
    exact Nat.eq_zero_of_dvd_of_lt hdvd (by have := value_lt location.endKey; omega)
  · rintro rfl
    exact ⟨(le_iff_firstKey_le _ _).1 (List.le_of_lt h), dvd_zero _⟩

/-- From `aa` to `ac` there are the keys `aa` and `ab`, for two callables. -/
theorem two_callables_in_region : (⟨[97, 97], [97, 99]⟩ : Location).InRegion 2 ∧
    ¬ (⟨[97, 97], [97, 99]⟩ : Location).InRegion 3 := by
  have h := fun n => (stable_iff n (⟨[97, 97], [97, 99]⟩ : Location) (by decide)).1
  exact ⟨(h 2).2 (by decide), fun h3 => absurd ((h 3).1 h3) (by decide)⟩

/-- The region from `ab` to `b` is asked for the range from `ab` to `a`, and is then said to end at
`a`. -/
theorem range_leaves_region : ((⟨[97, 98], [98]⟩ : Location).after 1).endKey = [97] ∧
      ¬ (⟨[97, 98], [98]⟩ : Location).startKey ≤ [97] ∧
      ¬ (⟨[97, 98], [98]⟩ : Location).Stable 1 := by
  refine ⟨by decide, by decide, fun h => ?_⟩
  obtain ⟨hle, -⟩ := h.1 1 (le_refl 1) (le_refl 1)
  exact absurd hle (by decide)

end Location

end Trafodion.TransactionManager
