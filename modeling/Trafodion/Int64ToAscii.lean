import Mathlib.Data.Nat.Log
import Trafodion.AsciiToInt64

/-!
# 64-bit integers to text

`convInt64ToAscii` computes the places of sign, filler, digits and point from the number of
digits and then writes the digits from the right. The buffer is a function of the position, so
that the bytes the code does not write are those it held before.
-/
namespace Trafodion.AsciiInt64

open List Function Nat Numeral

abbrev Buffer := ℤ → Char

variable (target : Buffer) (start : ℤ)

def slice (n : ℕ) : Text :=
  (range n).map fun i : ℕ => target (start + i)

/-- The table of `getDigitCount`: the largest number of each number of digits. -/
def decValue (i : ℕ) : ℕ := 10 ^ i - 1

def getDigitCount (value : ℕ) : ℕ :=
  match [4, 8, 12, 16].find? (value ≤ decValue ·) with
  | some i =>
    if value ≤ decValue (i - 3) then i - 3
    else if value ≤ decValue (i - 2) then i - 2
    else if value ≤ decValue (i - 1) then i - 1
    else i
  | none => if value ≤ decValue 17 then 17 else if value ≤ decValue 18 then 18 else 19

structure Format where
  targetLen : ℕ
  targetPrecision : ℕ
  varying : Bool
  filler : Char
  leadingSign : Bool
  leftPad : Bool
  deriving DecidableEq, Repr

structure Out where
  target : Buffer
  currPos : ℤ
  newSource : ℕ

structure Written where
  target : Buffer
  targetLen : ℤ

def Written.text (w : Written) : Text := slice w.target 0 w.targetLen.toNat

def strPad (start len : ℤ) (c : Char) : Buffer :=
  fun p => if start ≤ p ∧ p < start + len then c else target p

variable (f : Format) (source : ℤ) (scale : ℕ) (o : Out)

def putDigit : Out where
  target := update o.target o.currPos (digitChar (o.newSource % 10))
  currPos := o.currPos - 1
  newSource := o.newSource / 10

def putPoint : Out :=
  { o with target := update o.target o.currPos '.', currPos := o.currPos - 1 }

def putDigits (leftMost : ℤ) (o : Out) : Out :=
  let o := if scale ≠ 0 then putPoint (putDigit^[scale] o) else o
  putDigit^[(o.currPos - leftMost + 1).toNat] o

def putSign (leadingSign negative : Bool) (o : Out) : Buffer :=
  if leadingSign then update o.target 0 (if negative then '-' else '+')
  else if negative then update o.target o.currPos '-'
  else o.target

def Format.targetChars : ℕ :=
  if f.targetPrecision ≠ 0 then f.targetPrecision else f.targetLen

def signLen : ℕ := if f.leadingSign || source < 0 then 1 else 0

/-- The smallest number has no positive counterpart: its neighbour's is taken and the last digit
fixed afterwards. -/
def magnitudeOf : ℕ := if source = llongMin then 2 ^ 63 - 1 else source.natAbs

def digitCntOf : ℕ :=
  if source = llongMin then 19 else getDigitCount source.natAbs

def requiredDigits : ℕ :=
  if digitCntOf source < scale then digitCntOf source + (scale - digitCntOf source)
  else digitCntOf source

def padLenOf : ℤ :=
  f.targetChars - signLen f source - requiredDigits source scale - if scale ≠ 0 then 1 else 0

def fixRightMost (source rightMost : ℤ) (target : Buffer) : Buffer :=
  if source = llongMin ∧ target rightMost = '7' then update target rightMost '8'
  else target

def write (leftPad : Bool) (targetLen targetChars padLen : ℤ) (source : ℤ)
    (scale : ℕ) (target : Buffer) : Except ConvError Written :=
  let sign : ℤ := signLen f source
  let leftMost := if leftPad then padLen + sign else sign
  let start := if leftPad then sign else targetChars - padLen
  let rightMost := if padLen ≠ 0 ∧ leftPad = false then start - 1 else targetChars - 1
  let target := if padLen ≠ 0 then strPad target start padLen f.filler else target
  let o := putDigits scale leftMost ⟨target, rightMost, magnitudeOf source⟩
  let target := fixRightMost source rightMost (putSign f.leadingSign (source < 0) o)
  if o.newSource ≠ 0 ∨ o.currPos < -1 then .error .stringOverflow else .ok ⟨target, targetLen⟩

def convInt64ToAscii (target : Buffer) (source : ℤ) (scale : ℕ) :
    Except ConvError Written :=
  let padLen := padLenOf f source scale
  if padLen < 0 then .error .stringOverflow
  else if f.varying then
    write f false (f.targetChars - padLen) (f.targetChars - padLen) 0 source scale target
  else
    let target := if f.targetChars < f.targetLen then
        strPad target f.targetChars (f.targetLen - f.targetChars) ' ' else target
    write f f.leftPad f.targetLen f.targetChars padLen source scale target

/-! ### Digits -/

lemma le_decValue {value i : ℕ} : value ≤ decValue i ↔ value < 10 ^ i := by
  have hpos : 0 < 10 ^ i := Nat.pow_pos (by decide)
  unfold decValue
  omega

lemma eq_log_succ {d value : ℕ} (hd : 1 ≤ d) (hlow : d = 1 ∨ 10 ^ (d - 1) ≤ value)
    (hup : value < 10 ^ d) : d = Nat.log 10 value + 1 := by
  obtain rfl | hlow := hlow
  · rw [Nat.log_of_lt (by simpa using hup)]
  · rw [Nat.log_eq_of_pow_le_of_lt_pow hlow (by rwa [Nat.sub_add_cancel hd]), Nat.sub_add_cancel hd]

lemma getDigitCount_within {i value : ℕ} (hi : 4 ≤ i) (hlow : i = 4 ∨ 10 ^ (i - 4) ≤ value)
    (hup : value ≤ decValue i) : (if value ≤ decValue (i - 3) then i - 3
    else if value ≤ decValue (i - 2) then i - 2 else if value ≤ decValue (i - 1) then i - 1
    else i) = log 10 value + 1 := by
  simp only [le_decValue] at hup ⊢
  split_ifs with h₃ h₂ h₁
  · exact eq_log_succ (by omega) (hlow.imp (by omega) id) h₃
  · exact eq_log_succ (by omega) (.inr (not_lt.1 h₃)) h₂
  · exact eq_log_succ (by omega) (.inr (not_lt.1 h₂)) h₁
  · exact eq_log_succ (by omega) (.inr (not_lt.1 h₁)) hup

lemma getDigitCount_eq {value : ℕ} (hval : value < 10 ^ 19) :
    getDigitCount value = log 10 value + 1 := by
  unfold getDigitCount
  by_cases h₄ : value ≤ decValue 4
  · rw [find?_cons_of_pos (by simpa using h₄)]
    exact getDigitCount_within (by decide) (.inl rfl) h₄
  rw [find?_cons_of_neg (by simpa using h₄)]
  by_cases h₈ : value ≤ decValue 8
  · rw [find?_cons_of_pos (by simpa using h₈)]
    exact getDigitCount_within (by decide) (.inr (not_lt.1 (mt le_decValue.2 h₄))) h₈
  rw [find?_cons_of_neg (by simpa using h₈)]
  by_cases h₁₂ : value ≤ decValue 12
  · rw [find?_cons_of_pos (by simpa using h₁₂)]
    exact getDigitCount_within (by decide) (.inr (not_lt.1 (mt le_decValue.2 h₈))) h₁₂
  rw [find?_cons_of_neg (by simpa using h₁₂)]
  by_cases h₁₆ : value ≤ decValue 16
  · rw [find?_cons_of_pos (by simpa using h₁₆)]
    exact getDigitCount_within (by decide) (.inr (not_lt.1 (mt le_decValue.2 h₁₂))) h₁₆
  rw [find?_cons_of_neg (by simpa using h₁₆), find?_nil]
  simp only [le_decValue] at h₁₆ ⊢
  split_ifs with h₁₇ h₁₈
  · exact eq_log_succ (by decide) (.inr (not_lt.1 h₁₆)) h₁₇
  · exact eq_log_succ (by decide) (.inr (not_lt.1 h₁₇)) h₁₈
  · exact eq_log_succ (by decide) (.inr (not_lt.1 h₁₈)) hval

def lastDigits (n value : ℕ) : Text :=
  (range n).map fun i => digitChar (value / 10 ^ (n - 1 - i) % 10)

lemma digitChar_spec : ∀ d < 10, (digitChar d).isDigit = true ∧
    (digitChar d).toNat - '0'.toNat = d := by decide

variable {n value : ℕ}

lemma isDigit_lastDigits : ∀ c ∈ lastDigits n value, c.isDigit = true :=
  forall_mem_map.2 fun _ _ => (digitChar_spec _ (mod_lt _ (by decide))).1

@[simp] lemma length_lastDigits (n value : ℕ) : (lastDigits n value).length = n := by
  simp [lastDigits]

lemma lastDigits_succ (n value : ℕ) :
    lastDigits (n + 1) value = lastDigits n (value / 10) ++ [digitChar (value % 10)] := by
  unfold lastDigits
  rw [range_succ, map_append]
  congr 1
  · refine map_congr_left fun i hi => ?_
    have hlt := mem_range.1 hi
    rw [show n + 1 - 1 - i = (n - 1 - i) + 1 by omega, pow_succ, mul_comm,
      Nat.div_div_eq_div_mul]
  · simp

lemma lastDigits_add (m n value : ℕ) :
    lastDigits (m + n) value = lastDigits m (value / 10 ^ n) ++ lastDigits n value := by
  induction n generalizing value with
  | zero => simp [lastDigits]
  | succ n ih =>
    rw [← add_assoc, lastDigits_succ, ih, lastDigits_succ n, append_assoc,
      Nat.div_div_eq_div_mul, Nat.pow_succ, Nat.mul_comm]

lemma ofDigitChars_lastDigits (hlt : value < 10 ^ n) :
    ofDigitChars 10 (lastDigits n value) 0 = value := by
  induction n generalizing value with
  | zero =>
    obtain rfl : value = 0 := by simpa using hlt
    rfl
  | succ n ih =>
    rw [pow_succ] at hlt
    rw [lastDigits_succ, ofDigitChars_append, ih (by omega), ofDigitChars_cons,
      ofDigitChars_nil, (digitChar_spec _ (mod_lt _ (by decide))).2]
    omega

/-! ### What is written -/

lemma slice_add (m n : ℕ) :
    slice target start (m + n) = slice target start m ++ slice target (start + m) n := by
  unfold slice
  rw [range_add, map_append, map_map]
  congr 1
  refine map_congr_left fun i _ => ?_
  rw [comp_apply, cast_add, add_assoc]

lemma slice_eq_replicate {target : Buffer} {start : ℤ} {n : ℕ} {c : Char}
    (h : ∀ p, start ≤ p → p < start + n → target p = c) : slice target start n = replicate n c := by
  refine eq_replicate_iff.2 ⟨by simp [slice], fun d hd => ?_⟩
  obtain ⟨i, hi, rfl⟩ := mem_map.1 hd
  have hlt := mem_range.1 hi
  exact h _ (by omega) (by omega)

lemma slice_eq_lastDigits {target : Buffer} {start : ℤ} (h : ∀ p, start ≤ p → p < start + n →
      target p = digitChar (value / 10 ^ (start + n - 1 - p).toNat % 10)) :
    slice target start n = lastDigits n value := by
  refine map_congr_left fun i hi => ?_
  have hlt := mem_range.1 hi
  rw [h _ (by omega) (by omega)]
  congr 4
  omega

lemma putDigit_iterate (n : ℕ) : (putDigit^[n] o).currPos = o.currPos - n ∧
      (putDigit^[n] o).newSource = o.newSource / 10 ^ n ∧ ∀ p, (putDigit^[n] o).target p =
        if o.currPos - n < p ∧ p ≤ o.currPos then
          digitChar (o.newSource / 10 ^ (o.currPos - p).toNat % 10) else o.target p := by
  induction n with
  | zero =>
    refine ⟨by simp, by simp, fun p => ?_⟩
    rw [if_neg (by omega)]
    rfl
  | succ n ih =>
    obtain ⟨hpos, hsrc, htgt⟩ := ih
    rw [iterate_succ_apply']
    refine ⟨?_, ?_, fun p => ?_⟩
    · simp only [putDigit, hpos]
      push_cast
      ring
    · simp only [putDigit, hsrc]
      rw [Nat.div_div_eq_div_mul, Nat.pow_succ]
    · simp only [putDigit, hpos, hsrc, update_apply, htgt]
      by_cases hp : p = o.currPos - n
      · rw [if_pos hp, if_pos (by omega), hp]
        congr 4
        omega
      · rw [if_neg hp]
        refine if_congr ?_ rfl rfl
        omega

/-- The byte that the loops leave at a position: digits from the left end, the point behind the
whole digits, digits to the right end. -/
def digitsAt (scale whole : ℕ) (leftMost rightMost : ℤ) (value : ℕ) (target : Buffer) : Buffer :=
  fun p =>
    if leftMost ≤ p ∧ p < leftMost + whole then
      digitChar (value / 10 ^ (scale + (leftMost + whole - 1 - p).toNat) % 10)
    else if scale ≠ 0 ∧ p = leftMost + whole then '.'
    else if leftMost + whole < p ∧ p ≤ rightMost then
      digitChar (value / 10 ^ (rightMost - p).toNat % 10)
    else target p

variable {scale whole : ℕ}

lemma putDigits_spec {leftMost : ℤ} {o : Out}
    (hplace : o.currPos + 1 = leftMost + whole + (if scale ≠ 0 then 1 else 0) + scale) :
    (putDigits scale leftMost o).currPos = leftMost - 1 ∧
      (putDigits scale leftMost o).newSource = o.newSource / 10 ^ (scale + whole) ∧
      (putDigits scale leftMost o).target =
        digitsAt scale whole leftMost o.currPos o.newSource o.target := by
  unfold putDigits
  by_cases hsc : scale = 0
  · -- all the digits in one loop
    subst hsc
    simp only [ne_eq, not_true_eq_false, if_false, Nat.cast_zero, add_zero] at hplace ⊢
    have hcnt : (o.currPos - leftMost + 1).toNat = whole := by omega
    obtain ⟨hpos, hsrc, htgt⟩ := putDigit_iterate o whole
    rw [hcnt]
    refine ⟨by omega, by rw [hsrc, Nat.zero_add], funext fun p => ?_⟩
    rw [htgt, digitsAt]
    by_cases hp : leftMost ≤ p ∧ p < leftMost + whole
    · rw [if_pos (by omega), if_pos hp, Nat.zero_add]
      congr 4
      omega
    · rw [if_neg (by omega), if_neg hp, if_neg (by simp), if_neg (by omega)]
  · rw [if_pos hsc] at hplace ⊢
    dsimp only
    obtain ⟨hpos₁, hsrc₁, htgt₁⟩ := putDigit_iterate o scale
    set o₁ := putPoint (putDigit^[scale] o) with ho₁
    have hpos : o₁.currPos = o.currPos - scale - 1 := by rw [ho₁, putPoint, hpos₁]
    have hsrc : o₁.newSource = o.newSource / 10 ^ scale := by rw [ho₁, putPoint, hsrc₁]
    have htgt : ∀ p, o₁.target p = if p = leftMost + whole then '.'
        else if leftMost + whole < p ∧ p ≤ o.currPos then
          Nat.digitChar (o.newSource / 10 ^ (o.currPos - p).toNat % 10)
        else o.target p := by
      intro p
      simp only [ho₁, putPoint, update_apply, hpos₁, htgt₁]
      exact if_congr (by omega) rfl (if_congr (by omega) rfl rfl)
    have hcnt : (o₁.currPos - leftMost + 1).toNat = whole := by omega
    obtain ⟨hpos₂, hsrc₂, htgt₂⟩ := putDigit_iterate o₁ whole
    rw [hcnt]
    refine ⟨by omega, ?_, funext fun p => ?_⟩
    · rw [hsrc₂, hsrc, Nat.div_div_eq_div_mul, Nat.pow_add]
    · rw [htgt₂, htgt, hsrc, digitsAt]
      by_cases hp : leftMost ≤ p ∧ p < leftMost + whole
      · rw [if_pos (by omega), if_pos hp, Nat.div_div_eq_div_mul, ← Nat.pow_add]
        congr 5
        omega
      · rw [if_neg (by omega), if_neg hp]
        simp only [hsc, ne_eq, not_false_eq_true, true_and]

lemma neighbour_div_pow {k : ℕ} (hk : k ≠ 0) : (2 ^ 63 - 1) / 10 ^ k = 2 ^ 63 / 10 ^ k := by
  obtain ⟨k, rfl⟩ := Nat.exists_eq_succ_of_ne_zero hk
  have hpow : 10 ^ (k + 1) = 10 * 10 ^ k := by rw [Nat.pow_succ, Nat.mul_comm]
  have hten : (2 ^ 63 - 1) / 10 = 2 ^ 63 / 10 := by decide
  rw [hpow, ← Nat.div_div_eq_div_mul, ← Nat.div_div_eq_div_mul, hten]

variable {leftMost rightMost : ℤ}

/-- The neighbour of the smallest number has the same digits but for the last. -/
theorem digitsAt_fix {t : Buffer}
    (hplace : rightMost + 1 = leftMost + whole + (if scale ≠ 0 then 1 else 0) + scale)
    (hdig : 0 < scale + whole) :
    digitsAt scale whole leftMost rightMost (2 ^ 63 - 1) t rightMost = '7' ∧
      update (digitsAt scale whole leftMost rightMost (2 ^ 63 - 1) t) rightMost '8' =
        digitsAt scale whole leftMost rightMost (2 ^ 63) t := by
  have hlast : ∀ value : ℕ, digitsAt scale whole leftMost rightMost value t rightMost =
      Nat.digitChar (value % 10) := by
    intro value
    unfold digitsAt
    by_cases hsc : scale = 0
    · subst hsc
      rw [if_pos (by omega), show 0 + (leftMost + whole - 1 - rightMost).toNat = 0 by omega,
        Nat.pow_zero, Nat.div_one]
    · rw [if_pos hsc] at hplace
      rw [if_neg (by omega), if_neg (by omega), if_pos (by omega),
        show (rightMost - rightMost).toNat = 0 by omega, Nat.pow_zero, Nat.div_one]
  refine ⟨by rw [hlast]; decide, funext fun p => ?_⟩
  by_cases hp : p = rightMost
  · rw [hp, update_self, hlast]
    decide
  · rw [update_of_ne hp]
    unfold digitsAt
    by_cases hwhole : leftMost ≤ p ∧ p < leftMost + whole
    · rw [if_pos hwhole, if_pos hwhole, neighbour_div_pow]
      by_cases hsc : scale = 0
      · subst hsc
        omega
      · omega
    · rw [if_neg hwhole, if_neg hwhole]
      by_cases hfrac : leftMost + whole < p ∧ p ≤ rightMost
      · rw [if_pos hfrac, if_pos hfrac, neighbour_div_pow (by omega)]
      · rw [if_neg hfrac, if_neg hfrac]

/-! ### The round trip -/

def charsNeeded (scale : ℕ) : ℕ :=
  signLen f source + max (log 10 source.natAbs + 1) scale + if scale ≠ 0 then 1 else 0

def signChar : Char := if source < 0 then '-' else '+'

def signText : Text := replicate (signLen f source) (signChar source)

def printed (left right : ℕ) (source : ℤ) (scale : ℕ) : Numeral where
  blanks₁ := []
  sign := signText f source
  blanks₂ := replicate left ' '
  whole := lastDigits (requiredDigits source scale - scale) (source.natAbs / 10 ^ scale)
  point := if scale ≠ 0 then ['.'] else []
  fraction := lastDigits scale source.natAbs
  blanks₃ := replicate right ' '

variable {source : ℤ}

lemma natAbs_lt_pow (h : InInt64 source) : source.natAbs < 10 ^ 19 := by
  unfold InInt64 llongMin llongMax at h
  omega

lemma digitCntOf_eq (h : InInt64 source) : digitCntOf source = log 10 source.natAbs + 1 := by
  unfold digitCntOf
  split_ifs with hmin
  · rw [hmin]
    exact eq_log_succ (by decide) (.inr (by decide)) (by decide)
  · exact getDigitCount_eq (natAbs_lt_pow h)

lemma requiredDigits_eq (h : InInt64 source) (scale : ℕ) :
    requiredDigits source scale = max (log 10 source.natAbs + 1) scale := by
  unfold requiredDigits
  rw [digitCntOf_eq h]
  split_ifs <;> omega

variable {f : Format}

lemma padLenOf_eq (h : InInt64 source) (scale : ℕ) :
    padLenOf f source scale = f.targetChars - charsNeeded f source scale := by
  unfold padLenOf charsNeeded
  rw [requiredDigits_eq h]
  split_ifs <;> push_cast <;> ring

lemma natAbs_lt_required (h : InInt64 source) (scale : ℕ) :
    source.natAbs < 10 ^ requiredDigits source scale := by
  rw [requiredDigits_eq h]
  exact (Nat.lt_pow_succ_log_self (by decide) _).trans_le
    (Nat.pow_le_pow_right (by decide) (le_max_left _ _))

lemma scale_le_required (h : InInt64 source) (scale : ℕ) :
    scale ≤ requiredDigits source scale := by
  rw [requiredDigits_eq h]
  exact le_max_right _ _

variable {l r : ℕ}

lemma printed_digits (h : InInt64 source) (scale : ℕ) : (printed f l r source scale).digits =
      lastDigits (requiredDigits source scale) source.natAbs := by
  have hle := scale_le_required h scale
  rw [Numeral.digits, printed, ← lastDigits_add, Nat.sub_add_cancel hle]

lemma printed_valid (h : InInt64 source) (scale : ℕ) : (printed f l r source scale).Valid := by
  refine ⟨⟨by simp [printed], ?_, ?_, isDigit_lastDigits, ?_, isDigit_lastDigits, ?_⟩, ?_⟩
  · simp only [printed, signText, signLen, signChar]
    split_ifs <;> simp
  · exact fun c hc => eq_of_mem_replicate hc
  · simp only [printed]
    by_cases hsc : scale = 0
    · simp [hsc, lastDigits]
    · exact .inr (if_pos hsc)
  · exact fun c hc => eq_of_mem_replicate hc
  · rw [printed_digits h]
    intro hnil
    have hlen := congrArg length hnil
    rw [length_lastDigits, requiredDigits_eq h, length_nil] at hlen
    omega

lemma printed_negative (f : Format) (left right : ℕ) (source : ℤ) (scale : ℕ) :
    (printed f left right source scale).negative = decide (source < 0) := by
  simp only [negative, printed, signText, signLen, signChar]
  by_cases hneg : source < 0
  · simp [hneg]
  · by_cases hlead : f.leadingSign = true <;> simp [hlead, hneg]

lemma printed_scaled (h : InInt64 source)
    (scale : ℕ) : (printed f l r source scale).scaled scale = source := by
  have hvalid := printed_valid (f := f) (l := l) (r := r) h scale
  have htake : (printed f l r source scale).fraction.take scale =
      (printed f l r source scale).fraction := by
    refine take_of_length_le ?_
    rw [printed, length_lastDigits]
  rw [Numeral.scaled_eq hvalid.toShaped, Numeral.magnitude, Numeral.used, htake, ← Numeral.digits,
    printed_digits h, ofDigitChars_lastDigits (natAbs_lt_required h scale), printed_negative]
  simp only [printed, length_lastDigits, Nat.sub_self, Nat.pow_zero, Nat.mul_one, signed]
  split_ifs with hneg
  · have := of_decide_eq_true hneg
    omega
  · have : ¬ source < 0 := by simpa using hneg
    omega

/-- The reader accepts what is written: no digit is surplus, so no sign is lost. -/
theorem convAsciiToInt64_printed {asFloat : Text → Except ConvError ℤ}
    (h : InInt64 source) (scale : ℕ) :
    convAsciiToInt64 asFloat scale (printed f l r source scale).text = .ok source := by
  have hvalid := printed_valid (f := f) (l := l) (r := r) h scale
  have hscaled := printed_scaled (f := f) (l := l) (r := r) h scale
  have hused : (printed f l r source scale).used scale =
      (printed f l r source scale).digits := by
    rw [used, Numeral.digits, take_of_length_le]
    rw [printed, length_lastDigits]
  rw [convAsciiToInt64_text hvalid, hscaled, if_pos]
  · rw [← inInt64_signed, ← scaled_eq hvalid.toShaped, hscaled]
    exact h
  · rintro ⟨-, hfew, hmany, -⟩
    rw [hused] at hfew
    omega

lemma putSign_spec {o : Out}
    (hplace : f.leadingSign = true ∨ 0 ≤ source ∨ o.currPos = 0) (p : ℤ) :
    putSign f.leadingSign (source < 0) o p =
      if p = 0 ∧ signLen f source = 1 then signChar source else o.target p := by
  unfold putSign signLen signChar
  cases hlead : f.leadingSign with
  | true => by_cases hneg : source < 0 <;> simp [hneg, update_apply]
  | false =>
    by_cases hneg : source < 0
    · have hpos : o.currPos = 0 := by
        obtain hlead' | hle | hpos := hplace
        · rw [hlead] at hlead'
          cases hlead'
        · omega
        · exact hpos
      simp [hneg, update_apply, hpos]
    · simp [hneg]

/-- The last digit of the smallest number is fixed and the digits are those of the number. -/
theorem fixRightMost_spec {target signed : Buffer}
    (hplace : rightMost + 1 = leftMost + whole + (if scale ≠ 0 then 1 else 0) + scale)
    (hdig : 0 < scale + whole) (hleft : signLen f source ≤ leftMost)
    (hsigned : ∀ p, signed p = if p = 0 ∧ signLen f source = 1 then signChar source
      else digitsAt scale whole leftMost rightMost (magnitudeOf source) target p) (p : ℤ) :
    fixRightMost source rightMost signed p = if p = 0 ∧ signLen f source = 1 then signChar source
      else digitsAt scale whole leftMost rightMost source.natAbs target p := by
  unfold fixRightMost
  by_cases hmin : source = llongMin
  · have hmag : magnitudeOf source = 2 ^ 63 - 1 := if_pos hmin
    have hnatAbs : source.natAbs = 2 ^ 63 := by rw [hmin]; rfl
    obtain ⟨hseven, hfix⟩ := digitsAt_fix (t := target) hplace hdig
    have hrt : 0 < rightMost ∨ signLen f source ≠ 1 := by
      by_contra hnot
      push Not at hnot
      split_ifs at hplace <;> omega
    have hlast : signed rightMost = '7' := by
      rw [hsigned, if_neg (by omega), hmag, hseven]
    rw [if_pos ⟨hmin, hlast⟩, hnatAbs, ← hfix, update_apply, update_apply, hsigned, hmag]
    by_cases hp : p = rightMost
    · rw [if_pos hp, if_pos hp, if_neg (by omega)]
    · rw [if_neg hp, if_neg hp]
  · have hmag : magnitudeOf source = source.natAbs := if_neg hmin
    rw [if_neg (by simp [hmin]), hsigned, hmag]

lemma slice_written (h : InInt64 source) {scale left right : ℕ}
    {t target : Buffer} {whole : ℕ} (hwhole : whole = requiredDigits source scale - scale)
    (hleft : leftMost = signLen f source + left)
    (hplace : rightMost + 1 = leftMost + whole + (if scale ≠ 0 then 1 else 0) + scale)
    (ht : ∀ p, t p = if p = 0 ∧ signLen f source = 1 then signChar source
      else digitsAt scale whole leftMost rightMost source.natAbs target p)
    (hfiller : ∀ p : ℤ, signLen f source ≤ p ∧ p < leftMost ∨
      rightMost < p ∧ p ≤ rightMost + right → target p = ' ') :
    slice t 0 (charsNeeded f source scale + (left + right)) =
      (printed f left right source scale).text := by
  have hle := scale_le_required h scale
  have hsignLen : signLen f source ≤ 1 := by
    unfold signLen
    split_ifs <;> omega
  set point := if scale ≠ 0 then 1 else 0 with hpt
  have htotal : charsNeeded f source scale + (left + right) =
      signLen f source + (left + (whole + (point + (scale + right)))) := by
    rw [charsNeeded, ← requiredDigits_eq h, ← hpt]
    omega
  have hrt : rightMost + 1 = leftMost + whole + point + scale := by
    rw [hplace, hpt]
    split_ifs <;> simp
  -- behind the sign the buffer is that of the digits
  have hbody : ∀ p : ℤ, signLen f source ≤ p →
      t p = digitsAt scale whole leftMost rightMost source.natAbs target p := by
    intro p hp
    rw [ht, if_neg (by omega)]
  have hsign : slice t 0 (signLen f source) = signText f source := by
    refine slice_eq_replicate fun p hp hp' => ?_
    rw [ht, if_pos (by omega)]
  have hbl : slice t (0 + signLen f source) left = replicate left ' ' := by
    refine slice_eq_replicate fun p hp hp' => ?_
    rw [hbody p (by omega), digitsAt, if_neg (by omega), if_neg (by omega), if_neg (by omega),
      hfiller p (.inl (by omega))]
  have hdig : slice t (0 + signLen f source + left) whole =
      lastDigits whole (source.natAbs / 10 ^ scale) := by
    refine slice_eq_lastDigits fun p hp hp' => ?_
    rw [hbody p (by omega), digitsAt, if_pos (by omega), Nat.div_div_eq_div_mul, ← Nat.pow_add]
    congr 5
    omega
  have hdot : slice t (0 + signLen f source + left + whole) point =
      if scale ≠ 0 then ['.'] else [] := by
    by_cases hsc : scale = 0
    · simp [hpt, hsc, slice]
    · have hone : point = 1 := if_pos hsc
      rw [if_pos hsc, hone]
      refine slice_eq_replicate fun p hp hp' => ?_
      rw [hbody p (by omega), digitsAt, if_neg (by omega), if_pos ⟨hsc, by omega⟩]
  have hfrac : slice t (0 + signLen f source + left + whole + point) scale =
      lastDigits scale source.natAbs := by
    refine slice_eq_lastDigits fun p hp hp' => ?_
    have hone : point = 1 := if_pos (by omega)
    rw [hbody p (by omega), digitsAt, if_neg (by omega), if_neg (by omega), if_pos (by omega)]
    congr 4
    omega
  have hback : slice t (0 + signLen f source + left + whole + point + scale) right =
      replicate right ' ' := by
    refine slice_eq_replicate fun p hp hp' => ?_
    rw [hbody p (by omega), digitsAt, if_neg (by omega), if_neg (by omega), if_neg (by omega),
      hfiller p (.inr (by omega))]
  rw [htotal, slice_add, slice_add, slice_add, slice_add, slice_add, hsign, hbl, hdig, hdot,
    hfrac, hback, text, printed, ← hwhole]
  rfl

lemma putDigits_places (f : Format) (h : InInt64 source) (scale left : ℕ) (target : Buffer)
    (hleft : leftMost = signLen f source + left)
    (hrt : rightMost + 1 = left + charsNeeded f source scale) {o : Out}
    (ho : putDigits scale leftMost ⟨target, rightMost, magnitudeOf source⟩ = o) :
    rightMost + 1 = leftMost + (requiredDigits source scale - scale : ℕ) +
        (if scale ≠ 0 then 1 else 0) + scale ∧
      o.newSource = 0 ∧ o.currPos = leftMost - 1 ∧ o.target =
        digitsAt scale (requiredDigits source scale - scale) leftMost rightMost
          (magnitudeOf source) target := by
  have hle := scale_le_required h scale
  have hplace : rightMost + 1 = leftMost + (requiredDigits source scale - scale : ℕ) +
      (if scale ≠ 0 then 1 else 0) + scale := by
    rw [charsNeeded, ← requiredDigits_eq h] at hrt
    split_ifs at hrt ⊢ <;> omega
  obtain ⟨hcurrPos, hsrc, htgt⟩ := putDigits_spec
    (o := ⟨target, rightMost, magnitudeOf source⟩) hplace
  rw [ho] at hcurrPos hsrc htgt
  have hmag : magnitudeOf source < 10 ^ requiredDigits source scale := by
    refine lt_of_le_of_lt ?_ (natAbs_lt_required h scale)
    unfold magnitudeOf
    split_ifs with hmin
    · rw [hmin]
      decide
    · exact le_rfl
  refine ⟨hplace, ?_, hcurrPos, htgt⟩
  rw [hsrc, Nat.add_sub_cancel' hle]
  exact Nat.div_eq_of_lt hmag

/-- The loops, the sign and the fixed digit write the numeral between the filler. -/
theorem places_written (f : Format) (h : InInt64 source) (scale left right : ℕ)
    (target : Buffer) (hleft : leftMost = signLen f source + left)
    (hrt : rightMost + 1 = left + charsNeeded f source scale)
    (hsign : f.leadingSign = true ∨ 0 ≤ source ∨ left = 0)
    (hfiller : ∀ p : ℤ, signLen f source ≤ p ∧ p < leftMost ∨
      rightMost < p ∧ p ≤ rightMost + right → target p = ' ') {o : Out}
    (ho : putDigits scale leftMost ⟨target, rightMost, magnitudeOf source⟩ = o) :
    o.newSource = 0 ∧ -1 ≤ o.currPos ∧
      slice (fixRightMost source rightMost (putSign f.leadingSign (source < 0) o)) 0
          (charsNeeded f source scale + (left + right)) =
        (printed f left right source scale).text := by
  have hle := scale_le_required h scale
  have hpos : 0 < requiredDigits source scale := by
    rw [requiredDigits_eq h]
    omega
  obtain ⟨hplace, hsrc, hcurrPos, htgt⟩ := putDigits_places f h scale left target hleft hrt ho
  have hfst : f.leadingSign = true ∨ 0 ≤ source ∨ o.currPos = 0 := by
    refine hsign.imp_right (fun hor => ?_)
    by_cases hneg : source < 0
    · have hone : signLen f source = 1 := by simp [signLen, hneg]
      exact .inr (by omega)
    · exact .inl (by omega)
  have hsigned : ∀ p, putSign f.leadingSign (source < 0) o p =
      if p = 0 ∧ signLen f source = 1 then signChar source
      else digitsAt scale (requiredDigits source scale - scale) leftMost rightMost
        (magnitudeOf source) target p := by
    intro p
    rw [putSign_spec hfst, htgt]
  refine ⟨hsrc, by omega, ?_⟩
  exact slice_written h rfl hleft hplace
    (fixRightMost_spec hplace (by omega) (by omega) hsigned) hfiller

lemma strPad_zero (c : Char) : strPad target start 0 c = target := by
  funext p
  rw [strPad, if_neg (by omega)]

/-- With room for the number, it is written between filler and blanks, and nothing of the buffer
remains. -/
theorem write_spec (hfill : f.filler = ' ') (h : InInt64 source)
    (scale : ℕ) (leftPad : Bool) (targetLen targetChars : ℤ) (pad : ℕ) (target : Buffer)
    (hchars : targetChars = charsNeeded f source scale + pad)
    (hsign : f.leadingSign = true ∨ 0 ≤ source ∨ leftPad = false ∨ pad = 0) (tail : ℕ)
    (htail : ∀ p : ℤ, targetChars ≤ p → p < targetChars + tail → target p = ' ') :
    ∃ t, write f leftPad targetLen targetChars pad source scale target = .ok ⟨t, targetLen⟩ ∧
      slice t 0 (charsNeeded f source scale + (pad + tail)) =
        (printed f (if leftPad then pad else 0) ((if leftPad then 0 else pad) + tail)
          source scale).text := by
  have hpad : ∀ start : ℤ, (if (pad : ℤ) ≠ 0 then strPad target start pad f.filler
      else target) = strPad target start pad ' ' := by
    intro start
    rw [hfill]
    by_cases hzero : (pad : ℤ) = 0
    · rw [if_neg (by simpa using hzero), hzero, strPad_zero]
    · rw [if_pos hzero]
  -- the filler stands on one side
  cases leftPad with
  | true =>
    have hfiller : ∀ p : ℤ, signLen f source ≤ p ∧ p < pad + signLen f source ∨
        targetChars - 1 < p ∧ p ≤ targetChars - 1 + tail →
          strPad target (signLen f source) pad ' ' p = ' ' := by
      intro p hp
      unfold strPad
      split_ifs with hin
      · rfl
      · exact htail p (by omega) (by omega)
    obtain ⟨hsrc, hpos, htext⟩ := places_written f h scale pad tail
      (strPad target (signLen f source) pad ' ') (Int.add_comm _ _) (by omega)
      (by simpa using hsign) hfiller rfl
    refine ⟨_, ?_, by simpa using htext⟩
    unfold write
    simp only [if_true, hpad, Bool.true_eq_false, and_false, if_false]
    rw [if_neg (by omega)]
  | false =>
    have hrt : (if (pad : ℤ) ≠ 0 then targetChars - pad - 1 else targetChars - 1) =
        targetChars - pad - 1 := by
      split_ifs <;> omega
    have hfiller : ∀ p : ℤ, signLen f source ≤ p ∧ p < signLen f source ∨
        targetChars - pad - 1 < p ∧ p ≤ targetChars - pad - 1 + (pad + tail : ℕ) →
          strPad target (targetChars - pad) pad ' ' p = ' ' := by
      intro p hp
      unfold strPad
      split_ifs with hin
      · rfl
      · exact htail p (by omega) (by omega)
    obtain ⟨hsrc, hpos, htext⟩ := places_written f h scale 0 (pad + tail)
      (strPad target (targetChars - pad) pad ' ') (Int.add_zero _).symm (by omega)
      (.inr (.inr rfl)) hfiller rfl
    refine ⟨_, ?_, by simpa using htext⟩
    unfold write
    simp only [Bool.false_eq_true, if_false, hpad, and_true, hrt]
    rw [if_neg (by omega)]

/-- The sign is written behind filler that starts one place too far right, so that the first
byte is not written. -/
def FirstByteUnwritten (f : Format) (source : ℤ) (scale : ℕ) : Prop :=
  source < 0 ∧ f.leadingSign = false ∧ f.leftPad = true ∧ f.varying = false ∧
    charsNeeded f source scale < f.targetChars

lemma convInt64ToAscii_writes (hfill : f.filler = ' ')
    (hprecision : f.targetPrecision ≤ f.targetLen) (h : InInt64 source) {scale : ℕ}
    (hfst : ¬ FirstByteUnwritten f source scale)
    (hfits : charsNeeded f source scale ≤ f.targetChars) :
    ∃ left right, ∀ target, ∃ w, convInt64ToAscii f target source scale = .ok w ∧
      w.text = (printed f left right source scale).text := by
  have hchars : f.targetChars ≤ f.targetLen := by
    unfold Format.targetChars
    split_ifs <;> omega
  obtain ⟨padLen, hpadLen⟩ := Nat.exists_eq_add_of_le hfits
  have hpad : padLenOf f source scale = padLen := by
    rw [padLenOf_eq h]
    omega
  cases hvarying : f.varying with
  | true =>
    refine ⟨0, 0, fun target => ?_⟩
    obtain ⟨t, hwrite, htext⟩ := write_spec hfill h scale false (f.targetChars - padLen)
      (f.targetChars - padLen) 0 target (by omega) (.inr (.inr (.inl rfl))) 0
      (fun p hp hp' => by omega)
    refine ⟨⟨t, f.targetChars - padLen⟩, ?_, ?_⟩
    · unfold convInt64ToAscii
      rw [hpad, if_neg (by omega), hvarying]
      exact hwrite
    · rw [Written.text, show ((f.targetChars : ℤ) - padLen).toNat =
        charsNeeded f source scale + (0 + 0) by omega]
      exact htext
  | false =>
    obtain ⟨tail, htail⟩ := Nat.exists_eq_add_of_le hchars
    have hsign : f.leadingSign = true ∨ 0 ≤ source ∨ f.leftPad = false ∨ padLen = 0 := by
      by_contra hnot
      push Not at hnot
      exact hfst ⟨hnot.2.1, by simpa using hnot.1, by simpa using hnot.2.2.1, hvarying,
        by omega⟩
    refine ⟨if f.leftPad then padLen else 0, (if f.leftPad then 0 else padLen) + tail,
      fun target => ?_⟩
    obtain ⟨t, hwrite, htext⟩ := write_spec hfill h scale f.leftPad f.targetLen f.targetChars
      padLen (if f.targetChars < f.targetLen then
        strPad target f.targetChars (f.targetLen - f.targetChars) ' ' else target)
      (by omega) hsign tail (by
        intro p hp hp'
        rw [if_pos (by omega), strPad, if_pos (by omega)])
    refine ⟨⟨t, f.targetLen⟩, ?_, ?_⟩
    · unfold convInt64ToAscii
      rw [hpad, if_neg (by omega), hvarying]
      exact hwrite
    · rw [Written.text, show ((f.targetLen : ℤ)).toNat =
        charsNeeded f source scale + (padLen + tail) by omega]
      exact htext

lemma convInt64ToAscii_overflow (h : InInt64 source) {scale : ℕ}
    (hlong : f.targetChars < charsNeeded f source scale) (target : Buffer) :
    convInt64ToAscii f target source scale = .error .stringOverflow := by
  unfold convInt64ToAscii
  rw [padLenOf_eq h, if_pos (by omega)]

/-- Behind filler on the left a sign without a place of its own is written over the filler. -/
lemma write_keeps_first_byte (h : InInt64 source) (hneg : source < 0) (hlead : f.leadingSign = false)
    (scale : ℕ) (targetLen targetChars : ℤ) {pad : ℕ} (hpad : 0 < pad) (target : Buffer)
    (hchars : targetChars = charsNeeded f source scale + pad) :
    ∃ t, write f true targetLen targetChars pad source scale target = .ok ⟨t, targetLen⟩ ∧
      t 0 = target 0 := by
  have hsign : signLen f source = 1 := by simp [signLen, hneg]
  have hfirst : strPad target (signLen f source) pad f.filler 0 = target 0 := if_neg (by omega)
  obtain ⟨o, ho⟩ : ∃ o, putDigits scale (pad + signLen f source)
      ⟨strPad target (signLen f source) pad f.filler, targetChars - 1, magnitudeOf source⟩ = o :=
    ⟨_, rfl⟩
  obtain ⟨hplace, hsrc, hcurrPos, htgt⟩ := putDigits_places f h scale pad
    (strPad target (signLen f source) pad f.filler) (Int.add_comm _ _) (by omega) ho
  have hneeded : 1 ≤ charsNeeded f source scale := by
    rw [charsNeeded, hsign]
    omega
  have hsigned : putSign f.leadingSign (source < 0) o 0 = target 0 := by
    rw [putSign, hlead, if_neg Bool.false_ne_true, if_pos (by simpa using hneg),
      update_of_ne (by omega), htgt, digitsAt, if_neg (by omega), if_neg (by omega),
      if_neg (by omega), hfirst]
  refine ⟨fixRightMost source (targetChars - 1) (putSign f.leadingSign (source < 0) o), ?_, ?_⟩
  · unfold write
    have hne : (pad : ℤ) ≠ 0 := by omega
    simp only [if_true, Bool.true_eq_false, and_false, if_false, if_pos hne, ho]
    rw [if_neg (by omega)]
  · rw [fixRightMost]
    split_ifs
    · rw [update_of_ne (by omega), hsigned]
    · exact hsigned

lemma FirstByteUnwritten.kept (hfirst : FirstByteUnwritten f source scale) (h : InInt64 source)
    (hprecision : f.targetPrecision ≤ f.targetLen) (target : Buffer) :
    ∃ w, convInt64ToAscii f target source scale = .ok w ∧ w.text.head? = some (target 0) := by
  obtain ⟨hneg, hlead, hleft, hvarying, hroom⟩ := hfirst
  obtain ⟨pad, hpad⟩ := Nat.exists_eq_add_of_lt hroom
  have hchars : f.targetChars ≤ f.targetLen := by
    unfold Format.targetChars
    split_ifs <;> omega
  obtain ⟨t, hwrite, hzero⟩ := write_keeps_first_byte h hneg hlead scale f.targetLen f.targetChars
    (Nat.succ_pos pad) (if f.targetChars < f.targetLen then
      strPad target f.targetChars (f.targetLen - f.targetChars) ' ' else target) (by omega)
  refine ⟨⟨t, f.targetLen⟩, ?_, ?_⟩
  · unfold convInt64ToAscii
    rw [padLenOf_eq h, if_neg (by omega), hvarying, hleft,
      show (f.targetChars : ℤ) - charsNeeded f source scale = (pad + 1 : ℕ) by omega]
    exact hwrite
  · obtain ⟨n, hn⟩ := Nat.exists_eq_succ_of_ne_zero (by omega : f.targetLen ≠ 0)
    have hbefore : (if f.targetChars < f.targetLen then
        strPad target f.targetChars (f.targetLen - f.targetChars) ' ' else target) 0 = target 0 := by
      split_ifs
      · exact if_neg (by omega)
      · rfl
    rw [hbefore] at hzero
    simp [Written.text, slice, hn, range_succ_eq_map, hzero]

/-- Whatever the buffer held, the reported bytes are the same and read back as the number, and
there is an answer whenever the number has room. -/
def RoundTrips (asFloat : Text → Except ConvError ℤ) (f : Format) (source : ℤ) (scale : ℕ) : Prop :=
  (∀ target w, convInt64ToAscii f target source scale = .ok w →
    (∀ target', ∃ w', convInt64ToAscii f target' source scale = .ok w' ∧ w'.text = w.text) ∧
    convAsciiToInt64 asFloat scale w.text = .ok source) ∧
  (charsNeeded f source scale ≤ f.targetChars →
    ∀ target, ∃ w, convInt64ToAscii f target source scale = .ok w)

/-- **Round trip**, exactly if the first byte is written. -/
theorem roundTrips_iff (asFloat : Text → Except ConvError ℤ) (f : Format)
    (hfill : f.filler = ' ') (hprecision : f.targetPrecision ≤ f.targetLen) (source : ℤ)
    (hsource : InInt64 source) (scale : ℕ) :
    RoundTrips asFloat f source scale ↔ ¬ FirstByteUnwritten f source scale := by
  constructor
  · -- two buffers with different first bytes give different texts
    intro htrip hfirst
    obtain ⟨w, hok, hhead⟩ := hfirst.kept hsource hprecision fun _ => 'x'
    obtain ⟨w', hok', hhead'⟩ := hfirst.kept hsource hprecision fun _ => 'y'
    obtain ⟨w'', hok'', htext⟩ := (htrip.1 _ w hok).1 fun _ => 'y'
    obtain rfl : w' = w'' := Except.ok.inj (hok'.symm.trans hok'')
    rw [htext, hhead] at hhead'
    revert hhead'
    decide
  intro hfirst
  by_cases hfits : charsNeeded f source scale ≤ f.targetChars
  · obtain ⟨left, right, hwrites⟩ :=
      convInt64ToAscii_writes hfill hprecision hsource hfirst hfits
    refine ⟨fun target w hok => ?_, fun _ target => (hwrites target).imp fun _ hw => hw.1⟩
    obtain ⟨w₁, hok₁, htext₁⟩ := hwrites target
    obtain rfl : w = w₁ := Except.ok.inj (hok.symm.trans hok₁)
    refine ⟨fun target' => ?_, ?_⟩
    · obtain ⟨w', hok', htext'⟩ := hwrites target'
      exact ⟨w', hok', htext'.trans htext₁.symm⟩
    · rw [htext₁]
      exact convAsciiToInt64_printed hsource scale
  · refine ⟨fun target w hok => ?_, fun hfits' => absurd hfits' hfits⟩
    rw [convInt64ToAscii_overflow hsource (by omega)] at hok
    cases hok

/-- The smallest number with two digits behind the point. -/
theorem smallest_written :
    ∃ w, convInt64ToAscii ⟨21, 0, false, ' ', false, false⟩ (fun _ => 'x') (-2 ^ 63) 2 = .ok w ∧
      convAsciiToInt64 (fun _ => .error .convertStringError) 2 w.text = .ok (-2 ^ 63) := by
  have htrip := (roundTrips_iff (fun _ => .error .convertStringError)
    ⟨21, 0, false, ' ', false, false⟩ rfl (by decide) (-2 ^ 63) ⟨by decide, by decide⟩ 2).2
    (by simp [FirstByteUnwritten])
  obtain ⟨w, hok⟩ := htrip.2 (by decide) (fun _ => 'x')
  exact ⟨w, hok, (htrip.1 _ w hok).2⟩

def leftPadded : Format := ⟨3, 0, false, ' ', false, true⟩

/-- Minus five in three characters: the sign stands in the second, the first keeps what it
held. -/
theorem first_byte_not_written : (∃ w, convInt64ToAscii leftPadded (fun _ => 'x') (-5) 0 = .ok w ∧
        w.text = ['x', '-', '5'] ∧ convAsciiToInt64 (fun _ => .error .convertStringError) 0 w.text =
          .error .convertStringError) ∧
      ∃ w, convInt64ToAscii leftPadded (fun _ => ' ') (-5) 0 = .ok w ∧
        w.text = [' ', '-', '5'] := by
  exact ⟨⟨_, rfl, by decide, by decide⟩, ⟨_, rfl, by decide⟩⟩

end Trafodion.AsciiInt64
