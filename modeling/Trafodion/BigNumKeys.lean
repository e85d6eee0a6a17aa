import Mathlib.Data.List.DropRight
import Mathlib.Tactic.LinearCombination
import Trafodion.ByteStrings

/-!
# Big Nums and their keys

A Big Num is a magnitude stored with the least significant 16-bit digit first, and a sign in the
most significant bit of the last byte, so that there are two zeros. `comp` takes them for equal.
`encode` makes a key of the value: the bytes of the magnitude in reverse, complemented for a
negative value, with the opposite of the sign in front.
-/
namespace Trafodion.BigNum

open List ByteStrings

structure Num (n : ℕ) where
  bytes : List Byte
  length_eq : bytes.length = 2 * (n + 1)

variable (data : List Byte)

/-- `BIGN_CLR_SIGN` on little-endian platforms. -/
def clrSign : List Byte := data.modify (data.length - 1) (· &&& 0x7F#8)

/-- `BIGN_SET_SIGN`. -/
def setSign : List Byte := data.modify (data.length - 1) (· ||| 0x80#8)

/-- `BIGN_GET_SIGN`. -/
def getSign : Bool := data.getLast?.any fun b => b &&& 0x80#8 ≠ 0

def shorts : List Byte → List ℕ
  | low :: high :: data => (low.toNat + 256 * high.toNat) :: shorts data
  | _ => []

def ofShorts (digits : List ℕ) : List Byte :=
  digits.flatMap fun d => [BitVec.ofNat 8 d, BitVec.ofNat 8 (d / 256)]

namespace Num

variable {n : ℕ}

variable (x : Num n)

def sign : Bool := getSign x.bytes

def digits : List ℕ := shorts (clrSign x.bytes)

def magnitude : ℕ := Nat.ofDigits 65536 x.digits

/-- The comparison code of `comp`. -/
def compCode (this other : Num n) : Ordering :=
  if this.sign ≠ other.sign ∧ this.digits.all (· = 0) ∧ other.digits.all (· = 0) then .eq
  else if !this.sign && other.sign then .gt
  else if this.sign && !other.sign then .lt
  else
    let code := digitsCompare this.digits other.digits
    if this.sign then code.swap else code

inductive CompOp
  | equal | notEqual | less | lessEq | greater | greaterEq

def comp (compOp : CompOp) (this other : Num n) : Bool :=
  match compOp with
  | .equal => compCode this other = .eq
  | .notEqual => compCode this other ≠ .eq
  | .less => compCode this other = .lt
  | .lessEq => compCode this other ≠ .gt
  | .greater => compCode this other = .gt
  | .greaterEq => compCode this other ≠ .lt

/-- `encode` on little-endian platforms; it does not look at `desc`. -/
def encode : List Byte :=
  let out := (clrSign x.bytes).reverse.map fun b => if x.sign then ~~~b else b
  out.modify 0 fun b => if x.sign then b &&& 0x7F#8 else b ||| 0x80#8

end Num

def decode (key : List Byte) : List Byte :=
  let neg := key.head?.all fun b => b &&& 0x80#8 = 0
  let out := key.reverse.map fun b => if neg then ~~~b else b
  if neg then out else clrSign out

/-! ### Multiplication -/

/-- The inner loop of `MulHelper` on the digits of the result from its position on. A carry
that is left replaces the next digit. -/
def mulRow : List ℕ → ℕ → ℕ → List ℕ → List ℕ
  | _, _, _, [] => []
  | [], _, carry, digit :: result => (if carry = 0 then digit else carry) :: result
  | left :: rest, right, carry, digit :: result =>
    let temp := left * right + digit + carry
    temp % 65536 :: mulRow rest right (temp / 65536) result

def mulRows (left : List ℕ) : List ℕ → List ℕ → List ℕ
  | right :: rest, result =>
    match mulRow left right 0 result with
    | digit :: result => digit :: mulRows left rest result
    | [] => []
  | [], result => result

def mulHelper (resultDigits : ℕ) (left right : List ℕ) : List ℕ :=
  mulRows (left.rdropWhile (· = 0)) (right.rdropWhile (· = 0)) (replicate resultDigits 0)

lemma length_mulRow (left : List ℕ) (right carry : ℕ) (res : List ℕ) :
    (mulRow left right carry res).length = res.length := by
  induction left generalizing carry res with
  | nil => cases res <;> rfl
  | cons left rest ih =>
    cases res with
    | nil => rfl
    | cons digit res => simp [mulRow, ih]

lemma length_mulRows (left right res : List ℕ) :
    (mulRows left right res).length = res.length := by
  induction right generalizing res with
  | nil => rfl
  | cons right rest ih =>
    have hrow := length_mulRow left right 0 res
    unfold mulRows
    cases hres : mulRow left right 0 res with
    | nil =>
      rw [hres] at hrow
      exact hrow
    | cons digit tail =>
      rw [hres] at hrow
      rw [← hrow]
      exact congrArg Nat.succ (ih tail)

lemma length_ofShorts (digits : List ℕ) : (ofShorts digits).length = 2 * digits.length := by
  simp [ofShorts, Nat.mul_comm]

/-- The product in a result of `k + 1` digits. The sign is set whenever the signs of the operands
differ, also on a zero. -/
def Num.mul {m n : ℕ} (k : ℕ) (left : Num m) (right : Num n) : Num k where
  bytes :=
    let result := ofShorts (mulHelper (k + 1) left.digits right.digits)
    if left.sign = right.sign then clrSign result else setSign result
  length_eq := by
    split <;> simp [clrSign, setSign, length_ofShorts, mulHelper, length_mulRows]

/-! ### Signs and magnitudes -/

variable (data : List Byte)

lemma clrSign_concat (b : Byte) : clrSign (data ++ [b]) = data ++ [b &&& 0x7F#8] := by
  simp [clrSign, modify_eq_take_cons_drop]

lemma getSign_concat (b : Byte) : getSign (data ++ [b]) = decide (b &&& 0x80#8 ≠ 0) := by
  simp [getSign]

lemma ofDigits_shorts (h : Even data.length) :
    Nat.ofDigits 65536 (shorts data) = Nat.ofDigits 256 (data.map BitVec.toNat) := by
  fun_induction shorts data with
  | case1 low high data ih =>
    have hdata : Even data.length := by simpa [Nat.even_add_one] using h
    simp only [map_cons, Nat.ofDigits_cons, ih hdata]
    ring
  | case2 data hshort =>
    match data, h, hshort with
    | [], _, _ => rfl
    | [_], h, _ => simp at h
    | low :: high :: data, _, hshort => exact (hshort low high data rfl).elim

lemma shorts_lt : ∀ d ∈ shorts data, d < 65536 := by
  fun_induction shorts data with
  | case1 low high data ih =>
    exact forall_mem_cons.2 ⟨by omega, ih⟩
  | case2 data hshort => simp

lemma length_shorts : (shorts data).length = data.length / 2 := by
  fun_induction shorts data with
  | case1 low high data ih =>
    simp only [length_cons, ih]
    omega
  | case2 data hshort =>
    match data, hshort with
    | [], _ => rfl
    | [_], _ => simp
    | low :: high :: data, hshort => exact (hshort low high data rfl).elim

namespace Num

variable {n : ℕ}

variable (b : Byte) (x : Num n)

lemma exists_concat : ∃ data b, x.bytes = data ++ [b] ∧ data.length = 2 * n + 1 := by
  have hlen := x.length_eq
  obtain hnil | ⟨data, b, hdata⟩ := eq_nil_or_concat x.bytes
  · simp [hnil] at hlen
  · rw [concat_eq_append] at hdata
    refine ⟨data, b, hdata, ?_⟩
    simp [hdata] at hlen
    omega

lemma length_digits : x.digits.length = n + 1 := by
  simp [digits, length_shorts, clrSign, x.length_eq]

lemma magnitude_eq_value : x.magnitude = value (clrSign x.bytes).reverse := by
  have heven : Even (clrSign x.bytes).length := by simp [clrSign, x.length_eq]
  rw [magnitude, digits, ofDigits_shorts _ heven, value, reverse_reverse]

def toInt : ℤ := if x.sign then -x.magnitude else x.magnitude

lemma digits_all_zero_iff : x.digits.all (· = 0) ↔ x.magnitude = 0 := by
  simp [magnitude, ofDigits_eq_zero_iff]

lemma digitsCompare_digits (x y : Num n) :
    digitsCompare x.digits y.digits = compare x.magnitude y.magnitude :=
  digitsCompare_eq_compare (by decide) (by rw [length_digits, length_digits]) (shorts_lt _)
    (shorts_lt _)

lemma compCode_eq_compare (x y : Num n) : compCode x y = compare x.toInt y.toInt := by
  simp only [compCode, toInt, digits_all_zero_iff, digitsCompare_digits]
  cases x.sign <;> cases y.sign
  case false.false => exact compare_congr (by simp) (by simp)
  case true.true =>
    rw [← Std.OrientedOrd.eq_swap]
    exact compare_congr (by simp) (by simp)
  case false.true =>
    by_cases hzero : x.magnitude = 0 ∧ y.magnitude = 0
    · simp [hzero.1, hzero.2]
    · have hgt : (-y.magnitude : ℤ) < x.magnitude := by omega
      simp [hzero, compare_gt_iff_gt.2 hgt]
  case true.false =>
    by_cases hzero : x.magnitude = 0 ∧ y.magnitude = 0
    · simp [hzero.1, hzero.2]
    · have hlt : (-x.magnitude : ℤ) < y.magnitude := by omega
      simp [hzero, compare_lt_iff_lt.2 hlt]

/-! ### Keys -/

lemma toNat_or_sign : ((b &&& 0x7F#8) ||| 0x80#8).toNat = 128 + (b &&& 0x7F#8).toNat := by
  decide +revert

lemma toNat_not_and : (~~~(b &&& 0x7F#8) &&& 0x7F#8).toNat + (b &&& 0x7F#8).toNat = 127 := by
  decide +revert

/-- A key is the value moved up by half of the range, and a negative sign takes one away. -/
theorem value_encode :
    (value x.encode : ℤ) = 128 * 256 ^ (2 * n + 1) + x.toInt - (if x.sign then 1 else 0) := by
  obtain ⟨data, b, hbt, hlen⟩ := x.exists_concat
  have hmag := x.magnitude_eq_value
  rw [hbt, clrSign_concat, reverse_concat, value_cons, length_reverse, hlen] at hmag
  rw [encode, toInt, hbt, clrSign_concat, reverse_concat, map_cons,
    modify_zero_cons, value_cons, length_map, length_reverse, hlen, hmag]
  cases x.sign with
  | false =>
    simp only [Bool.false_eq_true, if_false, toNat_or_sign, map_id']
    push_cast
    ring
  | true =>
    have hbyte : ((~~~(b &&& 0x7F#8) &&& 0x7F#8).toNat : ℤ) = 127 - (b &&& 0x7F#8).toNat := by
      have hsum := toNat_not_and b
      omega
    have hnot : (value (data.reverse.map (~~~·)) + value data.reverse + 1 : ℤ) =
        256 ^ (2 * n + 1) := by
      have hsum := value_map_not data.reverse
      rw [length_reverse, hlen] at hsum
      exact_mod_cast hsum
    simp only [if_true]
    push_cast
    rw [hbyte]
    linear_combination hnot

lemma length_encode : x.encode.length = 2 * (n + 1) := by
  simp [encode, clrSign, x.length_eq]

lemma positive_lead (h : b &&& 0x80#8 = 0#8) :
    ((b &&& 0x7F#8) ||| 0x80#8) &&& 0x80#8 ≠ 0#8 ∧ ((b &&& 0x7F#8) ||| 0x80#8) &&& 0x7F#8 = b := by
  decide +revert

lemma negative_lead (h : b &&& 0x80#8 ≠ 0#8) :
    (~~~(b &&& 0x7F#8) &&& 0x7F#8) &&& 0x80#8 = 0#8 ∧ ~~~(~~~(b &&& 0x7F#8) &&& 0x7F#8) = b := by
  decide +revert

lemma decode_encode : decode x.encode = x.bytes := by
  obtain ⟨data, b, hbt, hlen⟩ := x.exists_concat
  have hsign : x.sign = decide (b &&& 0x80#8 ≠ 0#8) := by rw [sign, hbt, getSign_concat]; rfl
  rw [encode, hbt, clrSign_concat, reverse_concat, map_cons, modify_zero_cons, hsign]
  by_cases h : b &&& 0x80#8 = 0#8
  · obtain ⟨hset, hback⟩ := positive_lead b h
    simp only [h, ne_eq, not_true_eq_false, decide_false, Bool.false_eq_true, if_false]
    simp [decode, hset, clrSign_concat, hback]
  · obtain ⟨hclear, hback⟩ := negative_lead b h
    simp only [h, ne_eq, not_false_eq_true, decide_true, if_true]
    simp [decode, hclear, hback, Function.comp_def]

/-- A smaller value has the smaller key, as `memcmp` has it, and equal values have one key. -/
def KeysAgree (x y : Num n) : Prop :=
  (comp .less x y → memcmp x.encode y.encode = .lt) ∧
    (comp .greater x y → memcmp x.encode y.encode = .gt) ∧
    (comp .equal x y → x.encode = y.encode)
deriving Decidable

lemma keysAgree_iff_memcmp (x y : Num n) :
    KeysAgree x y ↔ memcmp x.encode y.encode = compCode x y := by
  have hlen : x.encode.length = y.encode.length := by rw [length_encode, length_encode]
  have hequal : memcmp x.encode y.encode = .eq ↔ x.encode = y.encode := by
    rw [memcmp_eq_compare hlen, compare_eq_iff_eq]
    exact ⟨value_injective hlen, congrArg value⟩
  cases hcode : compCode x y <;> simp [KeysAgree, comp, hcode, hequal]

lemma toInt_of_neg {x : Num n} (h : x.sign = true) : x.toInt = -x.magnitude := by
  rw [toInt, if_pos h]

lemma toInt_of_pos {x : Num n} (h : x.sign = false) : x.toInt = x.magnitude := by
  rw [toInt, h, if_neg Bool.false_ne_true]

/-- Keys order values by `toInt`, except that the negative zero comes before the positive one. -/
theorem value_encode_lt_iff (x y : Num n) : value x.encode < value y.encode ↔
      x.toInt < y.toInt ∨ x.magnitude = 0 ∧ y.magnitude = 0 ∧ x.sign = true ∧ y.sign = false := by
  have hx := x.value_encode
  have hy := y.value_encode
  cases hxs : x.sign <;> cases hys : y.sign
  all_goals simp only [hxs, hys, if_true, if_false, Bool.false_eq_true, and_false,
    reduceCtorEq, and_true, or_false] at hx hy ⊢
  case false.true =>
    rw [toInt_of_pos hxs] at hx ⊢
    rw [toInt_of_neg hys] at hy ⊢
    omega
  case true.false =>
    rw [toInt_of_neg hxs] at hx ⊢
    rw [toInt_of_pos hys] at hy ⊢
    omega
  all_goals omega

/-- Keys disagree with `comp` on the two zeros only, and every key is decoded to its value. -/
theorem keysAgree_iff (x y : Num n) :
    (KeysAgree x y ↔ ¬ (x.magnitude = 0 ∧ y.magnitude = 0 ∧ x.sign ≠ y.sign)) ∧
      decode x.encode = x.bytes := by
  refine ⟨?_, x.decode_encode⟩
  have hlen : x.encode.length = y.encode.length := by rw [length_encode, length_encode]
  have hlt := value_encode_lt_iff x y
  have hgt := value_encode_lt_iff y x
  rw [keysAgree_iff_memcmp, compCode_eq_compare, memcmp_eq_compare hlen]
  constructor
  · rintro hcompare ⟨hx, hy, hsign⟩
    have hvalues : x.toInt = y.toInt := by simp [toInt, hx, hy]
    rw [hvalues, compare_eq_iff_eq.2 rfl, compare_eq_iff_eq] at hcompare
    cases hxs : x.sign <;> cases hys : y.sign <;> simp_all
  · intro hzeros
    refine compare_congr (hlt.trans (or_iff_left ?_)) (hgt.trans (or_iff_left ?_))
    · rintro ⟨hx, hy, hxs, hys⟩
      exact hzeros ⟨hx, hy, by simp [hxs, hys]⟩
    · rintro ⟨hy, hx, hys, hxs⟩
      exact hzeros ⟨hx, hy, by simp [hxs, hys]⟩

def zero : Num 0 := ⟨[0#8, 0#8], rfl⟩
def five : Num 0 := ⟨[5#8, 0#8], rfl⟩
def minusFive : Num 0 := ⟨[5#8, 0x80#8], rfl⟩

/-- The products `0 * 5` and `0 * -5` compare as equal and have different keys. -/
theorem product_keys_differ : compCode (mul 1 zero five) (mul 1 zero minusFive) = .eq ∧
      (mul 1 zero five).encode = [0x80#8, 0#8, 0#8, 0#8] ∧
      (mul 1 zero minusFive).encode = [0x7F#8, 0xFF#8, 0xFF#8, 0xFF#8] ∧
      ¬ KeysAgree (mul 1 zero five) (mul 1 zero minusFive) := by
  decide

end Num
end Trafodion.BigNum
