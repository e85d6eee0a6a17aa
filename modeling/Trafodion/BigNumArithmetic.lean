import Trafodion.BigNumKeys

/-!
# Addition, subtraction and multiplication of Big Nums

The helpers work on the 16-bit digits of the magnitudes, the least significant first. Each loop over
digits is an equation between numbers, up to what is carried out of the last digit.
-/
namespace Trafodion.BigNum

open List ByteStrings Nat

def addDigits : List ℕ → List ℕ → ℕ → List ℕ
  | left :: lefts, right :: rights, carry =>
    let temp := left + right + carry
    temp % 65536 :: addDigits lefts rights (temp / 65536)
  | _, _, _ => []

def addHelper (left right : List ℕ) : List ℕ := addDigits left right 0

/-- The loop of `SubHelper`, with a carry of 0 or -1. -/
def subDigits : List ℕ → List ℕ → ℤ → List ℕ
  | left :: lefts, right :: rights, carry =>
    let temp := left - right + carry
    ((temp + 65536) % 65536).toNat :: subDigits lefts rights (if temp < 0 then -1 else 0)
  | _, _, _ => []

/-- The difference of the magnitudes, and whether the left one is the smaller. -/
def subHelper (left right : List ℕ) : List ℕ × Bool :=
  if digitsCompare left right = .lt then (subDigits right left 0, true)
  else (subDigits left right 0, false)

namespace Num

variable {n : ℕ}

/-- The sign bit is cleared before an operation and set again behind it. -/
def resetSign (x : Num n) : Num n where
  bytes := if x.sign then setSign (clrSign x.bytes) else clrSign x.bytes
  length_eq := by
    split <;> simp [clrSign, setSign, x.length_eq]

/-- The buffers `op_data` after an operation. -/
structure OpData (k m n : ℕ) where
  this : Num k
  left : Num m
  right : Num n

variable (isUnsigned : Bool) (left right : Num n)

def addMagnitudes : List ℕ × Bool :=
  if !isUnsigned && (left.sign || right.sign) then
    if !left.sign && right.sign then subHelper left.digits right.digits
    else if left.sign && !right.sign then subHelper right.digits left.digits
    else (addHelper left.digits right.digits, true)
  else (addHelper left.digits right.digits, false)

def subMagnitudes : List ℕ × Bool :=
  if !isUnsigned && (left.sign || right.sign) then
    if !left.sign then (addHelper left.digits right.digits, false)
    else if !right.sign then (addHelper left.digits right.digits, true)
    else subHelper right.digits left.digits
  else subHelper left.digits right.digits

/-- The digits are stored with a sign. -/
def store (result : List ℕ × Bool) (h : result.1.length = n + 1) : Num n where
  bytes := if result.2 then setSign (ofShorts result.1) else clrSign (ofShorts result.1)
  length_eq := by
    split <;> simp [clrSign, setSign, length_ofShorts, h]

end Num

/-! ### Digits -/

/-- The `n` digits write the number `x`. -/
structure Writes (digits : List ℕ) (n x : ℕ) : Prop where
  length_eq : digits.length = n
  lt : ∀ d ∈ digits, d < 65536
  value : ofDigits 65536 digits = x

variable {l r : List ℕ} {n x y : ℕ}

lemma Writes.lt_pow (h : Writes l n x) : x < 65536 ^ n := by
  obtain ⟨rfl, hlt, rfl⟩ := h
  exact ofDigits_lt_base_pow_length (by decide) hlt

lemma Writes.rdropWhile (h : Writes l n x) :
    Writes (l.rdropWhile (· = 0)) (l.rdropWhile (· = 0)).length x := by
  refine ⟨rfl, fun d hd => h.lt d (( rdropWhile_prefix _ l).subset hd), ?_⟩
  obtain ⟨-, -, rfl⟩ := h
  induction l using reverseRecOn with
  | nil => rfl
  | append_singleton l d ih =>
    by_cases hd : d = 0
    · rw [rdropWhile_concat_pos _ _ _ (by simpa using hd), ih, hd]
      simp [ofDigits_append]
    · rw [rdropWhile_concat_neg _ _ _ (by simpa using hd)]

lemma addDigits_spec (h : l.length = r.length) (carry : ℕ) :
    (addDigits l r carry).length = l.length ∧ (∀ d ∈ addDigits l r carry, d < 65536) ∧
      ∃ k, ofDigits 65536 (addDigits l r carry) + 65536 ^ l.length * k =
        ofDigits 65536 l + ofDigits 65536 r + carry := by
  induction l generalizing r carry with
  | nil =>
    obtain rfl := eq_nil_of_length_eq_zero h.symm
    exact ⟨rfl, by simp [addDigits], carry, by simp [addDigits]⟩
  | cons a l ih =>
    cases r with
    | nil => cases h
    | cons b r =>
      obtain ⟨hlen, hlt, k, hk⟩ := ih (succ.inj h) ((a + b + carry) / 65536)
      refine ⟨congrArg succ hlen, forall_mem_cons.2 ⟨mod_lt _ (by decide), hlt⟩, k, ?_⟩
      simp only [addDigits, ofDigits_cons, length_cons, pow_succ', mul_assoc]
      omega

lemma subDigits_spec (h : l.length = r.length) (hl : ∀ d ∈ l, d < 65536)
    (hr : ∀ d ∈ r, d < 65536) (carry : ℤ) (hcarry : carry = 0 ∨ carry = -1) :
    (subDigits l r carry).length = l.length ∧ (∀ d ∈ subDigits l r carry, d < 65536) ∧
      ∃ k, ofDigits 65536 (subDigits l r carry) + ofDigits 65536 r + (-carry).toNat =
        ofDigits 65536 l + 65536 ^ l.length * k := by
  induction l generalizing r carry with
  | nil =>
    obtain rfl := eq_nil_of_length_eq_zero h.symm
    exact ⟨rfl, by simp [subDigits], (-carry).toNat, by simp [subDigits]⟩
  | cons a l ih =>
    cases r with
    | nil => cases h
    | cons b r =>
      rw [forall_mem_cons] at hl hr
      obtain ⟨hlen, hlt, k, hk⟩ := ih (succ.inj h) hl.2 hr.2
        (if (a : ℤ) - b + carry < 0 then -1 else 0) (by split <;> simp)
      refine ⟨congrArg succ hlen, forall_mem_cons.2 ⟨by omega, hlt⟩, k, ?_⟩
      simp only [subDigits, ofDigits_cons, length_cons, pow_succ', mul_assoc]
      split_ifs at hk ⊢ <;> omega

lemma eq_of_add_mul {x y p k : ℕ} (h : x + p * k = y) (hy : y < p) : x = y := by
  have hk : k = 0 := by
    by_contra hne
    have hle := Nat.le_mul_of_pos_right p (Nat.pos_of_ne_zero hne)
    omega
  rw [hk, mul_zero] at h
  exact h

section
variable (hl : Writes l n x)
include hl

section
variable (hr : Writes r n y)
include hr

lemma Writes.sub (hle : y ≤ x) : Writes (subDigits l r 0) n (x - y) := by
  obtain ⟨rfl, hl, rfl⟩ := hl
  obtain ⟨hlen, hr, rfl⟩ := hr
  obtain ⟨hlen, hdig, k, hk⟩ := subDigits_spec hlen.symm hl hr 0 (.inl rfl)
  refine ⟨hlen, hdig, ?_⟩
  have hlt := ofDigits_lt_base_pow_length (by decide) hdig
  rw [hlen] at hlt
  rw [neg_zero, Int.toNat_zero, add_zero] at hk
  have heq := eq_of_add_mul (x := ofDigits 65536 l - ofDigits 65536 r) (k := k)
    (by omega) hlt
  exact heq.symm

lemma subHelper_spec : (subHelper l r).2 = decide (x < y) ∧
      Writes (subHelper l r).1 n (if x < y then y - x else x - y) := by
  have hcmp := digitsCompare_eq_compare (b := 65536) (by decide)
    (hl.length_eq.trans hr.length_eq.symm) hl.lt hr.lt
  rw [hl.value, hr.value] at hcmp
  by_cases hlt : x < y
  · rw [subHelper, hcmp, compare_lt_iff_lt.2 hlt, if_pos rfl, if_pos hlt]
    exact ⟨(decide_eq_true hlt).symm, hr.sub hl hlt.le⟩
  · rw [subHelper, hcmp, if_neg (mt compare_lt_iff_lt.1 hlt), if_neg hlt]
    exact ⟨(decide_eq_false hlt).symm, hl.sub hr (Nat.le_of_not_lt hlt)⟩

lemma length_subHelper : (subHelper l r).1.length = n :=
  (subHelper_spec hl hr).2.length_eq

lemma addHelper_spec (hfits : x + y < 65536 ^ n) : Writes (addHelper l r) n (x + y) := by
  obtain ⟨rfl, -, rfl⟩ := hl
  obtain ⟨hlen, -, rfl⟩ := hr
  obtain ⟨hlen, hlt, k, hk⟩ := addDigits_spec hlen.symm 0
  exact ⟨hlen, hlt, eq_of_add_mul hk hfits⟩

lemma length_addHelper : (addHelper l r).length = n :=
  (addDigits_spec (hl.length_eq.trans hr.length_eq.symm) 0).1.trans hl.length_eq

end

end

/-! ### Products -/

variable (data : List Byte) (b : Byte) (left : List ℕ) (right carry : ℕ) {result : List ℕ}

/-- One row adds a multiple of the left operand, if the result is zero behind it. -/
theorem ofDigits_mulRow (hzero : ∀ d ∈ result.drop left.length, d = 0) :
    ∃ k, ofDigits 65536 (mulRow left right carry result) + 65536 ^ result.length * k =
      ofDigits 65536 left * right + carry + ofDigits 65536 result := by
  induction left generalizing carry result with
  | nil =>
    cases result with
    | nil => exact ⟨carry, by simp [mulRow]⟩
    | cons d result =>
      have hd : d = 0 := hzero d mem_cons_self
      refine ⟨0, ?_⟩
      simp only [mulRow, hd, ofDigits_cons, ofDigits_nil]
      split_ifs <;> omega
  | cons a left ih =>
    cases result with
    | nil => exact ⟨_, by simp [mulRow]; rfl⟩
    | cons d result =>
      obtain ⟨k, hk⟩ := ih ((a * right + d + carry) / 65536)
        (show ∀ x ∈ result.drop left.length, x = 0 by simpa using hzero)
      refine ⟨k, ?_⟩
      simp only [mulRow, ofDigits_cons, length_cons, pow_succ', mul_assoc, add_mul]
      omega

lemma drop_mulRow (res : List ℕ) :
    (mulRow left right carry res).drop (left.length + 1) = res.drop (left.length + 1) := by
  induction left generalizing carry res with
  | nil => cases res <;> rfl
  | cons a left ih =>
    cases res with
    | nil => rfl
    | cons d res => exact ih _ res

lemma mulRow_lt {left res : List ℕ} {right carry : ℕ} (hleft : ∀ d ∈ left, d < 65536)
    (hrt : right < 65536) (hcarry : carry < 65536) (hres : ∀ d ∈ res, d < 65536) :
    ∀ d ∈ mulRow left right carry res, d < 65536 := by
  induction left generalizing carry res with
  | nil =>
    cases res with
    | nil => simp [mulRow]
    | cons d res =>
      rw [forall_mem_cons] at hres
      exact forall_mem_cons.2 ⟨by split_ifs <;> omega, hres.2⟩
  | cons a left ih =>
    cases res with
    | nil => simp [mulRow]
    | cons d res =>
      rw [forall_mem_cons] at hleft hres
      have hmul : a * right ≤ 65535 * 65535 := Nat.mul_le_mul (by omega) (by omega)
      exact forall_mem_cons.2 ⟨Nat.mod_lt _ (by decide), ih hleft.2 (by omega) hres.2⟩

lemma mulRows_spec {left right : List ℕ} (hleft : ∀ d ∈ left, d < 65536)
    (hrt : ∀ d ∈ right, d < 65536) (hres : ∀ d ∈ result, d < 65536)
    (hzero : ∀ d ∈ result.drop left.length, d = 0) : (∀ d ∈ mulRows left right result, d < 65536) ∧
      ∃ k, ofDigits 65536 (mulRows left right result) + 65536 ^ result.length * k =
        ofDigits 65536 left * ofDigits 65536 right + ofDigits 65536 result := by
  induction right generalizing result with
  | nil => exact ⟨hres, 0, by simp [mulRows]⟩
  | cons q right ih =>
    rw [forall_mem_cons] at hrt
    have hrow := mulRow_lt hleft hrt.1 (by decide : 0 < 65536) hres
    have hdrop := drop_mulRow left q 0 result
    have hlen := length_mulRow left q 0 result
    obtain ⟨k, hk⟩ := ofDigits_mulRow left q 0 hzero
    unfold mulRows
    cases hm : mulRow left q 0 result with
    | nil =>
      rw [hm] at hlen
      obtain rfl := eq_nil_of_length_eq_zero hlen.symm
      exact ⟨by simp, _, by simp; rfl⟩
    | cons d tail =>
      rw [hm] at hrow hdrop hlen hk
      rw [forall_mem_cons] at hrow
      have htail : ∀ x ∈ tail.drop left.length, x = 0 := by
        intro x hx
        rw [drop_succ_cons, ← drop_drop] at hdrop
        rw [hdrop] at hx
        exact hzero x (mem_of_mem_drop hx)
      obtain ⟨hlt, k', hk'⟩ := ih hrt.2 hrow.2 htail
      refine ⟨forall_mem_cons.2 ⟨hrow.1, hlt⟩, k + k', ?_⟩
      rw [← hlen] at hk ⊢
      simp only [ofDigits_cons, length_cons, pow_succ', mul_add, mul_assoc,
        mul_left_comm _ 65536] at hk ⊢
      omega

lemma length_mulHelper (m : ℕ) (left right : List ℕ) : (mulHelper m left right).length = m := by
  simp [mulHelper, length_mulRows]

lemma mulHelper_spec {m : ℕ} {k : ℕ} (hl : Writes l m x) (hr : Writes r k y)
    (hfits : x * y < 65536 ^ n) : Writes (mulHelper n l r) n (x * y) := by
  have hzeros : ∀ d ∈ replicate n 0, d = 0 := fun d hd => (mem_replicate.1 hd).2
  obtain ⟨hlt, k, hk⟩ := mulRows_spec hl.rdropWhile.lt hr.rdropWhile.lt
    (fun d hd => by rw [hzeros d hd]; decide) (fun d hd => hzeros d (mem_of_mem_drop hd))
  rw [hl.rdropWhile.value, hr.rdropWhile.value, length_replicate,
    (ofDigits_eq_zero_iff (by decide)).2 hzeros, add_zero] at hk
  exact ⟨length_mulHelper n l r, hlt, eq_of_add_mul hk hfits⟩

/-! ### Signed results -/

lemma shorts_ofShorts {digits : List ℕ} (h : ∀ d ∈ digits, d < 65536) :
    shorts (ofShorts digits) = digits := by
  induction digits with
  | nil => rfl
  | cons d digits ih =>
    rw [forall_mem_cons] at h
    change ((BitVec.ofNat 8 d).toNat + 256 * (BitVec.ofNat 8 (d / 256)).toNat) ::
      shorts (ofShorts digits) = _
    rw [ih h.2, BitVec.toNat_ofNat, BitVec.toNat_ofNat]
    congr 1
    omega

lemma sign_bits (h : b.toNat < 128) :
    b &&& 0x7F#8 = b ∧ (b ||| 0x80#8) &&& 0x7F#8 = b ∧ b &&& 0x80#8 = 0#8 ∧
      (b ||| 0x80#8) &&& 0x80#8 ≠ 0#8 := by
  decide +revert

lemma reset_bits : (b &&& 0x80#8 ≠ 0#8 → (b &&& 0x7F#8) ||| 0x80#8 = b) ∧
      (b &&& 0x80#8 = 0#8 → b &&& 0x7F#8 = b) := by
  decide +revert

lemma setSign_concat : setSign (data ++ [b]) = data ++ [b ||| 0x80#8] := by
  simp [setSign, modify_eq_take_cons_drop]

namespace Num

variable {n : ℕ}

lemma resetSign_eq (x : Num n) : x.resetSign = x := by
  obtain ⟨data, b, hbt, -⟩ := x.exists_concat
  have hreset := reset_bits b
  have hsign : x.sign = decide (b &&& 0x80#8 ≠ 0#8) := by
    rw [sign, hbt, getSign_concat]
    rfl
  cases x with
  | mk bytes length_eq =>
    simp only [resetSign, hsign, mk.injEq]
    subst hbt
    rw [clrSign_concat, setSign_concat]
    by_cases hb : b &&& 0x80#8 = 0#8
    · simp [hb, hreset.2 hb]
    · simp [hb, hreset.1 hb]

lemma two_pow_eq (n : ℕ) : 2 ^ (16 * (n + 1) - 1) = 256 ^ (2 * n + 1) * 128 := by
  rw [show 256 = 2 ^ 8 by decide, show 128 = 2 ^ 7 by decide, ← pow_mul, ← pow_add]
  congr 1
  omega

lemma toInt_store {res : List ℕ × Bool} {M : ℕ} (hM : Writes res.1 (n + 1) M)
    (hfits : M < 2 ^ (16 * (n + 1) - 1)) :
    (store res hM.length_eq).toInt = if res.2 then -(M : ℤ) else M := by
  obtain ⟨h, hlt, hM⟩ := hM
  have hlength := length_ofShorts res.1
  obtain hnil | ⟨data, b, hdata⟩ := eq_nil_or_concat (ofShorts res.1)
  · rw [hnil, h] at hlength
    simp at hlength
  rw [concat_eq_append] at hdata
  have hlen : data.length = 2 * n + 1 := by
    rw [hdata, h] at hlength
    simp at hlength
    omega
  have hshorts : shorts (data ++ [b]) = res.1 := by rw [← hdata, shorts_ofShorts hlt]
  have hb : b.toNat < 128 := by
    have hval := ofDigits_shorts (data ++ [b]) (by simp [hlen, even_add_one])
    rw [hshorts, hM, map_append, ofDigits_append, length_map, hlen, map_singleton,
      ofDigits_singleton] at hval
    by_contra hge
    have hpow := two_pow_eq n
    have hmul := Nat.mul_le_mul_left (256 ^ (2 * n + 1)) (Nat.le_of_not_lt hge)
    omega
  obtain ⟨hclr, hset, hplus, hminus⟩ := sign_bits b hb
  have hclear : clrSign (data ++ [b]) = data ++ [b] := by rw [clrSign_concat, hclr]
  have hback : clrSign (data ++ [b ||| 0x80#8]) = data ++ [b] := by rw [clrSign_concat, hset]
  cases hneg : res.2 with
  | false =>
    have hbt : (store res h).bytes = data ++ [b] := by simp [store, hneg, hdata, hclear]
    have hsign : (store res h).sign = false := by simp [sign, hbt, getSign_concat, hplus]
    rw [toInt_of_pos hsign, magnitude, digits, hbt, hclear, hshorts, hM]
    rfl
  | true =>
    have hbt : (store res h).bytes = data ++ [b ||| 0x80#8] := by
      simp [store, hneg, hdata, setSign_concat]
    have hsign : (store res h).sign = true := by
      rw [sign, hbt, getSign_concat]
      exact decide_eq_true hminus
    rw [toInt_of_neg hsign, magnitude, digits, hbt, hback, hshorts, hM]
    rfl

lemma writes (x : Num n) : Writes x.digits (n + 1) x.magnitude := ⟨x.length_digits, shorts_lt _, rfl⟩

variable (isUnsigned : Bool)

lemma length_addMagnitudes (x y : Num n) : (addMagnitudes isUnsigned x y).1.length = n + 1 := by
  unfold addMagnitudes
  split_ifs
  · exact length_subHelper x.writes y.writes
  · exact length_subHelper y.writes x.writes
  · exact length_addHelper x.writes y.writes
  · exact length_addHelper x.writes y.writes

lemma length_subMagnitudes (x y : Num n) : (subMagnitudes isUnsigned x y).1.length = n + 1 := by
  unfold subMagnitudes
  split_ifs
  · exact length_addHelper x.writes y.writes
  · exact length_addHelper x.writes y.writes
  · exact length_subHelper y.writes x.writes
  · exact length_subHelper x.writes y.writes

def add (left right : Num n) : OpData n n n :=
  ⟨store _ (length_addMagnitudes isUnsigned left right), left.resetSign, right.resetSign⟩

def sub (left right : Num n) : OpData n n n :=
  ⟨store _ (length_subMagnitudes isUnsigned left right), left.resetSign, right.resetSign⟩

/-- `mul` with its operands. -/
def mulData {m : ℕ} (k : ℕ) (left : Num m) (right : Num n) : OpData k m n :=
  ⟨mul k left right, left.resetSign, right.resetSign⟩

/-- The digits and the sign stand for `z`. -/
def Denotes (n : ℕ) (result : List ℕ × Bool) (z : ℤ) : Prop :=
  ∃ M : ℕ, Writes result.1 n M ∧ z = if result.2 then -(M : ℤ) else M

lemma Denotes.toInt {res : List ℕ × Bool} {z : ℤ} (hz : Denotes (n + 1) res z)
    (h : res.1.length = n + 1) (hfits : |z| < 2 ^ (16 * (n + 1) - 1)) :
    (store res h).toInt = z := by
  obtain ⟨M, hM, rfl⟩ := hz
  apply toInt_store hM
  have hM' : (M : ℤ) < 2 ^ (16 * (n + 1) - 1) := by
    split_ifs at hfits
    · rwa [abs_neg, abs_cast] at hfits
    · rwa [abs_cast] at hfits
  exact_mod_cast hM'

lemma denotes_sub (x y : Num n) :
    Denotes (n + 1) (subHelper x.digits y.digits) (x.magnitude - y.magnitude) := by
  obtain ⟨hneg, hval⟩ := subHelper_spec x.writes y.writes
  refine ⟨_, hval, ?_⟩
  rw [hneg]
  by_cases hlt : x.magnitude < y.magnitude
  · simp only [hlt, decide_true, if_true]
    omega
  · simp only [hlt, decide_false, Bool.false_eq_true, if_false]
    omega

lemma two_pow_le (n : ℕ) : 2 ^ (16 * (n + 1) - 1) ≤ 65536 ^ (n + 1) := by
  rw [show 65536 = 2 ^ 16 by decide, ← pow_mul]
  exact Nat.pow_le_pow_right (by decide) (by omega)

lemma denotes_add (x y : Num n) (neg : Bool)
    (hfits : x.magnitude + y.magnitude < 2 ^ (16 * (n + 1) - 1)) :
    Denotes (n + 1) (addHelper x.digits y.digits, neg)
      (if neg then -(x.magnitude + y.magnitude : ℕ) else (x.magnitude + y.magnitude : ℕ)) := by
  exact ⟨_, addHelper_spec x.writes y.writes (hfits.trans_le (two_pow_le n)), rfl⟩

lemma lt_of_abs_lt {z : ℤ} {s k : ℕ} (h : |z| < 2 ^ k) (hz : z = s ∨ z = -s) : s < 2 ^ k := by
  have hs : |z| = s := by
    obtain rfl | rfl := hz
    · exact abs_cast s
    · rw [abs_neg, abs_cast]
  rw [hs] at h
  exact_mod_cast h

lemma denotes_addMagnitudes (x y : Num n) (hfits : |x.toInt + y.toInt| < 2 ^ (16 * (n + 1) - 1)) :
    Denotes (n + 1) (addMagnitudes false x y) (x.toInt + y.toInt) := by
  cases hx : x.sign <;> cases hy : y.sign
  all_goals simp only [toInt, hx, hy, if_true, Bool.false_eq_true, if_false] at hfits ⊢
  · have hadd := denotes_add x y false (lt_of_abs_lt hfits (.inl (by push_cast; ring)))
    simpa [addMagnitudes, hx, hy] using hadd
  · have hsub := denotes_sub x y
    simpa [addMagnitudes, hx, hy, sub_eq_add_neg] using hsub
  · have hsub := denotes_sub y x
    simpa [addMagnitudes, hx, hy, sub_eq_add_neg, add_comm] using hsub
  · have hadd := denotes_add x y true (lt_of_abs_lt hfits (.inr (by push_cast; ring)))
    simpa [addMagnitudes, hx, hy, add_comm] using hadd

lemma denotes_subMagnitudes (x y : Num n) (hfits : |x.toInt - y.toInt| < 2 ^ (16 * (n + 1) - 1)) :
    Denotes (n + 1) (subMagnitudes false x y) (x.toInt - y.toInt) := by
  cases hx : x.sign <;> cases hy : y.sign
  all_goals simp only [toInt, hx, hy, if_true, Bool.false_eq_true, if_false] at hfits ⊢
  · have hsub := denotes_sub x y
    simpa [subMagnitudes, hx, hy] using hsub
  · have hadd := denotes_add x y false (lt_of_abs_lt hfits (.inl (by push_cast; ring)))
    simpa [subMagnitudes, hx, hy] using hadd
  · have hadd := denotes_add x y true (lt_of_abs_lt hfits (.inr (by push_cast; ring)))
    simpa [subMagnitudes, hx, hy, sub_eq_add_neg, add_comm] using hadd
  · have hsub := denotes_sub y x
    simpa [subMagnitudes, hx, hy, sub_eq_add_neg, add_comm] using hsub

lemma toInt_mul {k m : ℕ} (x : Num m) (y : Num n)
    (hfits : |x.toInt * y.toInt| < 2 ^ (16 * (k + 1) - 1)) :
    (mul k x y).toInt = x.toInt * y.toInt := by
  have hsto : mul k x y = store (mulHelper (k + 1) x.digits y.digits, x.sign != y.sign)
      (length_mulHelper _ _ _) := by
    simp only [mul, store, mk.injEq]
    cases x.sign <;> cases y.sign <;> rfl
  have hz : x.toInt * y.toInt = if x.sign != y.sign then -((x.magnitude * y.magnitude : ℕ) : ℤ)
      else ((x.magnitude * y.magnitude : ℕ) : ℤ) := by
    cases hx : x.sign <;> cases hy : y.sign <;> simp [toInt, hx, hy]
  have hlt : x.magnitude * y.magnitude < 2 ^ (16 * (k + 1) - 1) := by
    apply lt_of_abs_lt hfits
    rw [hz]
    split_ifs
    · exact .inr rfl
    · exact .inl rfl
  rw [hsto]
  exact Denotes.toInt ⟨_, mulHelper_spec x.writes y.writes (hlt.trans_le (two_pow_le k)), hz⟩ _ hfits

/-- **Big Nums as numbers.** Sums, differences and products that fit are exact, and the operands
stay as they are. -/
theorem arithmetic_exact : (∀ (n : ℕ) (x y : Num n), |x.toInt + y.toInt| < 2 ^ (16 * (n + 1) - 1) →
      (add false x y).this.toInt = x.toInt + y.toInt ∧
        (add false x y).left = x ∧ (add false x y).right = y) ∧
    (∀ (n : ℕ) (x y : Num n), |x.toInt - y.toInt| < 2 ^ (16 * (n + 1) - 1) →
      (sub false x y).this.toInt = x.toInt - y.toInt ∧
        (sub false x y).left = x ∧ (sub false x y).right = y) ∧
    ∀ (k m n : ℕ) (x : Num m) (y : Num n), |x.toInt * y.toInt| < 2 ^ (16 * (k + 1) - 1) →
      (mulData k x y).this.toInt = x.toInt * y.toInt ∧
        (mulData k x y).left = x ∧ (mulData k x y).right = y := by
  refine ⟨fun n x y h => ⟨?_, resetSign_eq x, resetSign_eq y⟩,
    fun n x y h => ⟨?_, resetSign_eq x, resetSign_eq y⟩,
    fun k m n x y h => ⟨toInt_mul x y h, resetSign_eq x, resetSign_eq y⟩⟩
  · exact (denotes_addMagnitudes x y h).toInt (length_addMagnitudes false x y) h
  · exact (denotes_subMagnitudes x y h).toInt (length_subMagnitudes false x y) h

theorem five_plus_minusFive : (add false five minusFive).this.toInt = 0 :=
  ((arithmetic_exact.1 0 five minusFive (by decide)).1).trans (by decide)

end Num

end Trafodion.BigNum
