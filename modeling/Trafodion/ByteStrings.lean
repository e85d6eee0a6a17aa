import Mathlib.Data.BitVec
import Mathlib.Data.Nat.Digits.Defs

/-!
# Byte strings as numbers

A byte string read with its first byte as the most significant one is a number, and on strings
of one length `memcmp` compares these numbers. `digitsCompare` compares digit sequences stored
with the least significant digit first, in one pass from the low end.
-/
namespace ByteStrings

open List Nat

abbrev Byte := BitVec 8

/-- The sign of C's `memcmp` on two strings, over the length of both. -/
def memcmp : List Byte → List Byte → Ordering
  | x :: xs, y :: ys => (compare x.toNat y.toNat).then (memcmp xs ys)
  | _, _ => .eq

variable (b : Byte) (l : List Byte)

/-- The number with the bytes of the string, most significant first. -/
def value : ℕ := ofDigits 256 (l.reverse.map BitVec.toNat)

lemma value_nil : value [] = 0 := rfl

lemma value_cons : value (b :: l) = b.toNat * 256 ^ l.length + value l := by
  simp [value, ofDigits_append, ofDigits_cons, mul_comm, add_comm]

lemma lt_of_mem_digits : ∀ d ∈ l.reverse.map BitVec.toNat, d < 256 :=
  forall_mem_map.2 fun b _ => b.isLt

lemma value_lt : value l < 256 ^ l.length := by
  simpa [value] using ofDigits_lt_base_pow_length (by decide) (lt_of_mem_digits l)

lemma compare_congr {α β : Type*} [LinearOrder α] [LinearOrder β] {a b : α} {c d : β}
    (hlt : a < b ↔ c < d) (hgt : b < a ↔ d < c) : compare a b = compare c d := by
  rcases lt_trichotomy a b with hab | rfl | hab
  · rw [compare_lt_iff_lt.2 hab, compare_lt_iff_lt.2 (hlt.1 hab)]
  · have hcd : c = d := le_antisymm (not_lt.1 fun h => lt_irrefl a (hgt.2 h))
      (not_lt.1 fun h => lt_irrefl a (hlt.2 h))
    rw [compare_eq_iff_eq.2 rfl, compare_eq_iff_eq.2 hcd]
  · rw [compare_gt_iff_gt.2 hab, compare_gt_iff_gt.2 (hgt.1 hab)]

lemma compare_add_of_lt {a b x y n : ℕ} (hx : x < n) (hy : y < n) :
    compare (a * n + x) (b * n + y) = (compare a b).then (compare x y) := by
  rcases lt_trichotomy a b with hab | rfl | hab
  · have hle : (a + 1) * n ≤ b * n := mul_le_mul_right n hab
    rw [compare_lt_iff_lt.2 hab, compare_lt_iff_lt.2 (by rw [add_mul] at hle; omega)]
    rfl
  · rw [compare_eq_iff_eq.2 rfl]
    exact compare_congr (by omega) (by omega)
  · have hle : (b + 1) * n ≤ a * n := mul_le_mul_right n hab
    rw [compare_gt_iff_gt.2 hab, compare_gt_iff_gt.2 (by rw [add_mul] at hle; omega)]
    rfl

variable {l m : List Byte}

lemma memcmp_eq_compare (h : l.length = m.length) : memcmp l m = compare (value l) (value m) := by
  induction l generalizing m with
  | nil =>
    obtain rfl := eq_nil_of_length_eq_zero h.symm
    rfl
  | cons b l ih =>
    cases m with
    | nil => cases h
    | cons c m =>
      have hlen : l.length = m.length := succ.inj h
      have hm : value m < 256 ^ l.length := hlen ▸ value_lt m
      rw [memcmp, ih hlen, value_cons, value_cons, ← hlen, compare_add_of_lt (value_lt l) hm]

lemma value_injective (h : l.length = m.length) (hv : value l = value m) : l = m := by
  have hdig := ofDigits_inj_of_len_eq (by decide) (by simpa using h) (lt_of_mem_digits l)
    (lt_of_mem_digits m) hv
  exact reverse_injective (map_injective_iff.2 (fun _ _ => BitVec.eq_of_toNat_eq) hdig)

lemma value_map_not (l : List Byte) : value (l.map (~~~·)) + value l + 1 = 256 ^ l.length := by
  induction l with
  | nil => rfl
  | cons b l ih =>
    have hb : (~~~b).toNat + b.toNat = 255 := by
      rw [BitVec.toNat_not]
      omega
    calc value ((b :: l).map (~~~·)) + value (b :: l) + 1
        = ((~~~b).toNat + b.toNat) * 256 ^ l.length + (value (l.map (~~~·)) + value l + 1) := by
          rw [map_cons, value_cons, value_cons, length_map]
          ring
      _ = 256 ^ (b :: l).length := by
          rw [hb, ih, length_cons, pow_succ]
          ring

lemma memcmp_append (h : l.length = m.length) (l' m' : List Byte) :
    memcmp (l ++ l') (m ++ m') = (memcmp l m).then (memcmp l' m') := by
  induction l generalizing m with
  | nil =>
    obtain rfl := eq_nil_of_length_eq_zero h.symm
    rfl
  | cons b l ih =>
    cases m with
    | nil => cases h
    | cons c m =>
      rw [cons_append, cons_append, memcmp, memcmp, ih (succ.inj h), Ordering.then_assoc]

lemma memcmp_self (l : List Byte) : memcmp l l = .eq := by
  rw [memcmp_eq_compare rfl, compare_eq_iff_eq]

lemma memcmp_map_not (h : l.length = m.length) :
    memcmp (l.map (~~~·)) (m.map (~~~·)) = (memcmp l m).swap := by
  have hl := value_map_not l
  have hm := value_map_not m
  rw [← h] at hm
  rw [memcmp_eq_compare (by simpa using h), memcmp_eq_compare h, ← Std.OrientedCmp.eq_swap]
  exact compare_congr (by omega) (by omega)

/-- The bytes as a signed number in two's complement, most significant byte first. -/
def signedValue (l : List Byte) : ℤ := (value l : ℤ).bmod (256 ^ l.length)

lemma toNat_flipSign :
    (b ^^^ 0x80#8).toNat = if b.toNat < 128 then b.toNat + 128 else b.toNat - 128 := by
  revert b
  decide

/-- Flipping the sign bit shifts the signed values to the unsigned ones. -/
theorem value_flipSign (l : List Byte) : (value ((b ^^^ 0x80#8) :: l) : ℤ) =
      signedValue (b :: l) + ((128 * 256 ^ l.length : ℕ) : ℤ) := by
  have hl := value_lt l
  have hb : b.toNat ≤ 255 := Nat.le_of_lt_succ b.isLt
  rw [signedValue, length_cons, pow_succ, value_cons, value_cons, toNat_flipSign, Int.bmod_def]
  generalize 256 ^ l.length = N at *
  have hbN := Nat.mul_le_mul_right N hb
  rw [Int.emod_eq_of_lt (by omega) (by omega)]
  split
  · next hsmall =>
    have hle := Nat.mul_le_mul_right N (Nat.le_of_lt_succ hsmall)
    rw [if_pos (by omega), Nat.add_mul]
    omega
  · next hlarge =>
    have hle := Nat.mul_le_mul_right N (Nat.le_of_not_lt hlarge)
    rw [if_neg (by omega), Nat.sub_mul]
    omega

lemma ofDigits_eq_zero_iff {b : ℕ} (hb : 0 < b) {l : List ℕ} :
    ofDigits b l = 0 ↔ ∀ d ∈ l, d = 0 := by
  induction l with
  | nil => simp
  | cons d l ih => simp [ofDigits_cons, ih, hb.ne']

/-- One pass over two digit sequences of one length, least significant digits first: the last
difference decides. -/
def digitsCompare (l m : List ℕ) : Ordering :=
  (l.zip m).foldl (fun code x => (compare x.1 x.2).then code) .eq

lemma digitsCompare_snoc {l m : List ℕ} (h : l.length = m.length) (x y : ℕ) :
    digitsCompare (l ++ [x]) (m ++ [y]) = (compare x y).then (digitsCompare l m) := by
  simp [digitsCompare, zip_append h]

lemma digitsCompare_eq_compare {b : ℕ} (hb : 1 < b) {l m : List ℕ} (h : l.length = m.length)
    (hl : ∀ d ∈ l, d < b) (hm : ∀ d ∈ m, d < b) :
    digitsCompare l m = compare (ofDigits b l) (ofDigits b m) := by
  induction l using reverseRecOn generalizing m with
  | nil =>
    obtain rfl := eq_nil_of_length_eq_zero h.symm
    rfl
  | append_singleton l x ih =>
    obtain rfl | ⟨m, y, rfl⟩ := eq_nil_or_concat m
    · simp at h
    · rw [concat_eq_append] at h hm ⊢
      have hlen : l.length = m.length := by simpa using h
      have hl' : ∀ d ∈ l, d < b := fun d hd => hl d (mem_append_left _ hd)
      have hm' : ∀ d ∈ m, d < b := fun d hd => hm d (mem_append_left _ hd)
      have hlow := ofDigits_lt_base_pow_length hb hl'
      have hlow' := ofDigits_lt_base_pow_length hb hm'
      rw [← hlen] at hlow'
      rw [digitsCompare_snoc hlen, ih hlen hl' hm', ofDigits_append, ofDigits_append,
        ofDigits_singleton, ofDigits_singleton, ← hlen, mul_comm _ x,
        mul_comm _ y, add_comm _ (x * _), add_comm _ (y * _),
        compare_add_of_lt hlow hlow']

end ByteStrings
