import Mathlib.Tactic.Linarith
import Mathlib.Tactic.Ring
import Trafodion.Runs

/-!
# Text to 64-bit integers

`convAsciiToInt64` reads a numeral in one pass. Digits behind the point that the target scale
has no place for are counted but not used. From the 19th digit on a negative number is kept
with its sign and every step is checked; a number with fewer digits gets its sign at the end.
When the 19th digit is one of those that are not used, a negative number never gets its sign.
-/
namespace Trafodion.AsciiInt64

open List AsciiInt64 Nat Runs

abbrev Text := List Char

inductive ConvError
  | convertStringError | numericOverflow | stringOverflow
  deriving DecidableEq, Repr

inductive Stop
  | failed (error : ConvError)
  | exponent
  deriving DecidableEq, Repr

def llongMax : ℤ := 2 ^ 63 - 1

def llongMin : ℤ := -2 ^ 63

/-- The variables of the loop. The digit counter is a `short`: it counts the digits of texts of
fewer than 32768 characters. -/
structure Scan where
  signFound : Bool := false
  digitsAllowed : Bool := true
  negative : Bool := false
  pointFound : Bool := false
  digitCnt : ℕ := 0
  sourceScale : ℕ := 0
  target : ℤ := 0
  deriving DecidableEq, Repr

def appendDigit (negative : Bool) (digitCnt : ℕ) (target : ℤ) (thisDigit : ℕ) :
    Except ConvError ℤ :=
  if 18 < digitCnt then
    if negative then
      -- so far the target is positive
      let target := if digitCnt = 19 then -target else target
      if target < llongMin.tdiv 10 then .error .numericOverflow
      else if target * 10 < llongMin + thisDigit then .error .numericOverflow
      else .ok (target * 10 - thisDigit)
    else if llongMax.tdiv 10 < target then .error .numericOverflow
    else if llongMax - thisDigit < target * 10 then .error .numericOverflow
    else .ok (target * 10 + thisDigit)
  else .ok (target * 10 + thisDigit)

variable (targetScale : ℕ) (s : Scan)

def scanDigit (c : Char) : Except ConvError Scan :=
  if s.digitsAllowed = false then .error .convertStringError
  else if s.pointFound = false ∨ s.sourceScale < targetScale then
    (appendDigit s.negative (s.digitCnt + 1) s.target (c.toNat - '0'.toNat)).map fun target =>
      { s with
        digitCnt := s.digitCnt + 1
        sourceScale := if s.pointFound then s.sourceScale + 1 else s.sourceScale
        target := target }
  else .ok { s with digitCnt := s.digitCnt + 1 }

def scanChar (c : Char) : Except Stop Scan :=
  if c.isDigit then (scanDigit targetScale s c).mapError .failed
  else if c = ' ' then
    .ok (if s.digitCnt ≠ 0 ∨ s.pointFound then { s with digitsAllowed := false } else s)
  else if c = '+' ∨ c = '-' then
    if s.signFound ∨ s.digitCnt ≠ 0 ∨ s.pointFound then .error (.failed .convertStringError)
    else .ok { s with signFound := true, negative := c = '-' }
  else if c = '.' then
    if s.pointFound ∨ s.digitsAllowed = false then .error (.failed .convertStringError)
    else .ok { s with pointFound := true }
  else if c = 'E' ∨ c = 'e' then .error .exponent
  else .error (.failed .convertStringError)

def upscale (negative : Bool) : ℕ → ℤ → Except ConvError ℤ
  | 0, target => .ok target
  | n + 1, target =>
    if negative then
      if target < llongMin.tdiv 10 then .error .numericOverflow
      else upscale negative n (target * 10)
    else if llongMax.tdiv 10 < target then .error .numericOverflow
    else upscale negative n (target * 10)

def finish : Except ConvError ℤ :=
  if s.digitCnt = 0 then .error .convertStringError
  else
    let target := if s.negative ∧ s.digitCnt ≤ 18 then -s.target else s.target
    if s.sourceScale < targetScale then upscale s.negative (targetScale - s.sourceScale) target
    else .ok (iterate (Int.tdiv · 10) (s.sourceScale - targetScale) target)

/-- `convAsciiToInt64` with flags 0. A text with an exponent goes through a float, unless it
begins with the exponent. -/
def convAsciiToInt64 (asFloat : Text → Except ConvError ℤ) (targetScale : ℕ) (source : Text) :
    Except ConvError ℤ :=
  match source.foldlM (scanChar targetScale) {} with
  | .ok s => finish targetScale s
  | .error (.failed error) => .error error
  | .error .exponent =>
    if source.head? = some 'E' ∨ source.head? = some 'e' then .error .convertStringError
    else asFloat source

/-! ### Numerals -/

structure Numeral where
  blanks₁ : Text
  sign : Text
  blanks₂ : Text
  whole : Text
  point : Text
  fraction : Text
  blanks₃ : Text
  deriving DecidableEq, Repr

open Numeral

namespace Numeral

variable (n : Numeral)

def text : Text :=
  n.blanks₁ ++ (n.sign ++ (n.blanks₂ ++ (n.whole ++ (n.point ++ (n.fraction ++ n.blanks₃)))))

def digits : Text := n.whole ++ n.fraction

def negative : Bool := n.sign = ['-']

/-- Blanks are blank, digits are digits, there is at most one sign and one point, and no digits
behind a missing point. -/
structure Shaped (n : Numeral) : Prop where
  blanks₁ : ∀ c ∈ n.blanks₁, c = ' '
  sign : n.sign = [] ∨ n.sign = ['+'] ∨ n.sign = ['-']
  blanks₂ : ∀ c ∈ n.blanks₂, c = ' '
  whole : ∀ c ∈ n.whole, c.isDigit = true
  point : n.point = [] ∧ n.fraction = [] ∨ n.point = ['.']
  fraction : ∀ c ∈ n.fraction, c.isDigit = true
  blanks₃ : ∀ c ∈ n.blanks₃, c = ' '

structure Valid (n : Numeral) : Prop extends Shaped n where
  digits : n.digits ≠ []

variable (targetScale : ℕ)

def scaled : ℤ :=
  let magnitude : ℤ := ofDigitChars 10 n.digits 0 * 10 ^ targetScale
  (if n.negative then -magnitude else magnitude).tdiv (10 ^ n.fraction.length)

def used : Text := n.whole ++ n.fraction.take targetScale

/-- A negative numeral whose 19th digit is a surplus digit of the fraction, and which has a digit
other than 0 before the surplus ones. -/
def SignLost : Prop :=
  n.negative = true ∧ (n.used targetScale).length ≤ 18 ∧ 18 < n.digits.length ∧
    ∃ c ∈ n.used targetScale, c ≠ '0'

end Numeral

def InInt64 (v : ℤ) : Prop := llongMin ≤ v ∧ v ≤ llongMax

/-! ### What is accepted -/

structure Reads (n : Numeral) (s : Scan) : Prop where
  shaped : n.Shaped
  signFound : s.signFound = false → n.sign = [] ∧ n.blanks₂ = []
  pointFound : s.pointFound = true ↔ n.point ≠ []
  digitCnt : s.digitCnt = n.digits.length
  digitsAllowed : s.digitsAllowed = true → n.blanks₃ = []
  started : n.blanks₃ ≠ [] → s.digitCnt ≠ 0 ∨ s.pointFound = true

variable {n : Numeral} {s : Scan}

lemma Reads.unstarted (h : Reads n s) (hst0 : ¬ (s.digitCnt ≠ 0 ∨ s.pointFound = true)) :
    n.whole = [] ∧ n.point = [] ∧ n.fraction = [] ∧ n.blanks₃ = [] := by
  obtain ⟨hcnt, hpt⟩ := not_or.1 hst0
  have hdig : n.digits = [] := eq_nil_of_length_eq_zero (h.digitCnt ▸ not_not.1 hcnt)
  obtain ⟨hwhole, hfrac⟩ := append_eq_nil_iff.1 hdig
  exact ⟨hwhole, not_not.1 (mt h.pointFound.2 hpt), hfrac, not_not.1 (mt h.started hst0)⟩

variable {targetScale : ℕ} {c : Char} {s s' : Scan}

lemma scanDigit_ok (h : (scanDigit targetScale s c).mapError Stop.failed = .ok s') :
    s.digitsAllowed = true ∧ s'.signFound = s.signFound ∧ s'.negative = s.negative ∧
      s'.pointFound = s.pointFound ∧ s'.digitsAllowed = s.digitsAllowed ∧
      s'.digitCnt = s.digitCnt + 1 := by
  unfold scanDigit at h
  generalize appendDigit _ _ _ _ = appended at h
  split at h
  next => cases h
  next hallow =>
    split at h
    next =>
      cases appended with
      | error e => cases h
      | ok target =>
        cases h
        simpa using hallow
    next =>
      cases h
      simpa using hallow

lemma forall_mem_snoc {p : Char → Prop} {l : Text} (hl : ∀ d ∈ l, p d) (hc : p c) :
    ∀ d ∈ l ++ [c], p d :=
  forall_mem_append.2 ⟨hl, forall_mem_singleton.2 hc⟩

lemma reads_start : Reads ⟨[], [], [], [], [], [], []⟩ {} := by
  refine ⟨⟨?_, .inl rfl, ?_, ?_, .inl ⟨rfl, rfl⟩, ?_, ?_⟩, ?_, ?_, rfl, ?_, ?_⟩ <;> simp

lemma Reads.scanChar (h : Reads n s) (hscan : scanChar targetScale s c = .ok s') :
    ∃ n' : Numeral, n'.text = n.text ++ [c] ∧ Reads n' s' := by
  have hshp := h.shaped
  unfold AsciiInt64.scanChar at hscan
  split_ifs at hscan with hdigit hblank hstrt hsign hagain hpt hsecond hexponent
  · -- a digit goes to the fraction behind a point
    obtain ⟨hallow, hsignFound, -, hpointFound, hallow', hdigitCnt⟩ :=
      scanDigit_ok hscan
    have hbl := h.digitsAllowed hallow
    have hreads {whole fraction : Text} (hm : Shaped { n with whole := whole, fraction := fraction })
        (hlen : whole.length + fraction.length = n.digits.length + 1) :
        Reads { n with whole := whole, fraction := fraction } s' := by
      refine ⟨hm, ?_, ?_, ?_, fun _ => hbl, fun hne => absurd hbl hne⟩
      · rw [hsignFound]
        exact h.signFound
      · rw [hpointFound]
        exact h.pointFound
      · rw [hdigitCnt, h.digitCnt, ← hlen]
        exact length_append.symm
    obtain ⟨hnone, hfrac⟩ | hpt := hshp.point
    · refine ⟨{ n with whole := n.whole ++ [c] }, by simp [text, hnone, hfrac, hbl], hreads ?_ ?_⟩
      · exact { hshp with whole := forall_mem_snoc hshp.whole hdigit }
      · simp [Numeral.digits]
        omega
    · refine ⟨{ n with fraction := n.fraction ++ [c] }, by simp [text, hbl], hreads ?_ ?_⟩
      · exact { hshp with point := .inr hpt, fraction := forall_mem_snoc hshp.fraction hdigit }
      · simp [Numeral.digits]
        omega
  · -- a blank behind the numeral
    cases hscan
    refine ⟨{ n with blanks₃ := n.blanks₃ ++ [c] }, by simp [text], ?_⟩
    exact ⟨{ hshp with blanks₃ := forall_mem_snoc hshp.blanks₃ hblank }, h.signFound,
      h.pointFound, h.digitCnt, by simp, fun _ => hstrt⟩
  · -- a blank in front of it
    cases hscan
    obtain ⟨hwhole, hpt, hfrac, hbl₃⟩ := h.unstarted hstrt
    by_cases hsignFound : s.signFound = true
    · refine ⟨{ n with blanks₂ := n.blanks₂ ++ [c] }, ?_, ?_⟩
      · simp [text, hwhole, hpt, hfrac, hbl₃]
      · exact ⟨{ hshp with blanks₂ := forall_mem_snoc hshp.blanks₂ hblank },
          fun hnot => absurd hsignFound (by rw [hnot]; simp), h.pointFound, h.digitCnt,
          h.digitsAllowed, h.started⟩
    · have hnone := h.signFound (by simpa using hsignFound)
      refine ⟨{ n with blanks₁ := n.blanks₁ ++ [c] }, ?_, ?_⟩
      · simp [text, hnone, hwhole, hpt, hfrac, hbl₃]
      · exact ⟨{ hshp with blanks₁ := forall_mem_snoc hshp.blanks₁ hblank }, h.signFound,
          h.pointFound, h.digitCnt, h.digitsAllowed, h.started⟩
  · -- a sign
    cases hscan
    obtain ⟨hfresh, hstrt⟩ := not_or.1 hagain
    obtain ⟨hwhole, hpt, hfrac, hbl₃⟩ := h.unstarted hstrt
    have hnone := h.signFound (by simpa using hfresh)
    refine ⟨{ n with sign := [c] }, ?_, ?_⟩
    · simp [text, hnone, hwhole, hpt, hfrac, hbl₃]
    · exact ⟨{ hshp with sign := by simpa using hsign }, by simp, h.pointFound, h.digitCnt,
        h.digitsAllowed, h.started⟩
  · -- the point
    cases hscan
    obtain ⟨hfresh, hallow⟩ := not_or.1 hsecond
    have hbl := h.digitsAllowed (by simpa using hallow)
    have hnone : n.point = [] := not_not.1 (mt h.pointFound.2 hfresh)
    have hfrac := (hshp.point.resolve_right (by simp [hnone])).2
    refine ⟨{ n with point := [c] }, ?_, ?_⟩
    · simp [text, hnone, hfrac, hbl]
    · exact ⟨{ hshp with point := .inr (by rw [hpt]) }, h.signFound, by simp, h.digitCnt,
        h.digitsAllowed, fun hne => absurd hbl hne⟩

lemma foldlM_reads {src : Text}
    (h : Reads n s) (hfold : src.foldlM (scanChar targetScale) s = .ok s') :
    ∃ n' : Numeral, n'.text = n.text ++ src ∧ Reads n' s' := by
  induction src generalizing n s with
  | nil =>
    cases hfold
    exact ⟨n, by simp, h⟩
  | cons c src ih =>
    rw [foldlM_cons, bind_eq_ok] at hfold
    obtain ⟨s₁, hscan, hrest⟩ := hfold
    obtain ⟨n₁, htext₁, h₁⟩ := h.scanChar hscan
    obtain ⟨n', htext, h'⟩ := ih h₁ hrest
    exact ⟨n', by rw [htext, htext₁, append_assoc]; rfl, h'⟩

lemma scanChar_exponent
    (hscan : scanChar targetScale s c = .error .exponent) : 'E' = c ∨ 'e' = c := by
  unfold scanChar at hscan
  split_ifs at hscan with hdigit hblank hsign hagain hpt hsecond hexponent
  · generalize scanDigit targetScale s c = scanned at hscan
    cases scanned with
    | error error => cases hscan
    | ok s' => cases hscan
  · cases hscan
  · cases hscan
  · exact hexponent.imp Eq.symm Eq.symm
  · cases hscan

lemma foldlM_exponent {source : Text}
    (hfold : source.foldlM (scanChar targetScale) s = .error .exponent) :
    'E' ∈ source ∨ 'e' ∈ source := by
  induction source generalizing s with
  | nil => cases hfold
  | cons c source ih =>
    rw [foldlM_cons] at hfold
    match hscan : scanChar targetScale s c with
    | .ok s₁ =>
      rw [hscan] at hfold
      exact (ih hfold).imp (mem_cons_of_mem c) (mem_cons_of_mem c)
    | .error e =>
      rw [hscan] at hfold
      cases hfold
      obtain rfl | rfl := scanChar_exponent hscan
      · exact .inl mem_cons_self
      · exact .inr mem_cons_self

/-! ### What is computed -/

def signed (negative : Bool) (magnitude : ℕ) : ℤ := if negative then -magnitude else magnitude

def Fits (negative : Bool) (magnitude : ℕ) : Prop :=
  magnitude ≤ if negative then 2 ^ 63 else 2 ^ 63 - 1

instance (negative : Bool) (magnitude : ℕ) : Decidable (Fits negative magnitude) :=
  inferInstanceAs (Decidable (_ ≤ _))

def held (negative : Bool) (digitCnt magnitude : ℕ) : ℤ :=
  signed (negative && 18 < digitCnt) magnitude

variable {negative : Bool}

lemma Fits.of_le {m n : ℕ} (h : Fits negative n) (hmn : m ≤ n) : Fits negative m :=
  le_trans hmn h

lemma fits_true {magnitude : ℕ} : Fits true magnitude ↔ magnitude ≤ 9223372036854775808 := .rfl

lemma fits_false {magnitude : ℕ} : Fits false magnitude ↔ magnitude ≤ 9223372036854775807 := .rfl

lemma inInt64_signed (negative : Bool) (magnitude : ℕ) :
    InInt64 (signed negative magnitude) ↔ Fits negative magnitude := by
  unfold InInt64 llongMin llongMax
  cases negative with
  | true =>
    rw [fits_true, show signed true magnitude = -magnitude from rfl]
    omega
  | false =>
    rw [fits_false, show signed false magnitude = magnitude from rfl]
    omega

lemma llongMin_tdiv : llongMin.tdiv 10 = -922337203685477580 := by decide

lemma llongMax_tdiv : llongMax.tdiv 10 = 922337203685477580 := by decide

lemma fits_of_lt_pow {magnitude digitCnt : ℕ} (hcnt : digitCnt ≤ 18)
    (hsmall : magnitude < 10 ^ digitCnt) : Fits negative magnitude := by
  have hpow : 10 ^ digitCnt ≤ 10 ^ 18 := Nat.pow_le_pow_right (by decide) hcnt
  cases negative with
  | true =>
    rw [fits_true]
    omega
  | false =>
    rw [fits_false]
    omega

/-- With its sign a number is checked before it is multiplied and before the digit is added or
subtracted. -/
theorem appendDigit_held {digitCnt magnitude digit : ℕ}
    (hsmall : magnitude < 10 ^ digitCnt) (hdigit : digit ≤ 9) :
    appendDigit negative (digitCnt + 1) (held negative digitCnt magnitude) digit =
      if Fits negative (10 * magnitude + digit) then
        .ok (held negative (digitCnt + 1) (10 * magnitude + digit))
      else .error .numericOverflow := by
  have hmul : ((10 * magnitude + digit : ℕ) : ℤ) = magnitude * 10 + digit := by
    push_cast
    ring
  by_cases hcnt : 18 < digitCnt + 1
  · rw [appendDigit, if_pos hcnt]
    cases negative with
    | true =>
      have htgt : (if digitCnt + 1 = 19 then -held true digitCnt magnitude
          else held true digitCnt magnitude) = -(magnitude : ℤ) := by
        unfold held signed
        by_cases h18 : digitCnt = 18
        · simp [h18]
        · simp [h18, show 18 < digitCnt by omega]
      have hheld : held true (digitCnt + 1) (10 * magnitude + digit) =
          -(magnitude : ℤ) * 10 - digit := by
        simp only [held, signed, hcnt, hmul, Bool.true_and, decide_true, if_true]
        ring
      simp only [if_true, htgt, hheld, llongMin_tdiv, fits_true]
      unfold llongMin
      split_ifs <;> first | rfl | omega
    | false =>
      have hheld : held false (digitCnt + 1) (10 * magnitude + digit) = magnitude * 10 + digit :=
        hmul
      rw [if_neg (by simp), hheld, show held false digitCnt magnitude = magnitude from rfl]
      simp only [llongMax_tdiv, fits_false]
      unfold llongMax
      split_ifs <;> first | rfl | omega
  · have hnext : 10 * magnitude + digit < 10 ^ (digitCnt + 1) := by
      rw [pow_succ]
      omega
    rw [appendDigit, if_neg hcnt, if_pos (fits_of_lt_pow (by omega) hnext)]
    simp [held, signed, hcnt, show ¬ 18 < digitCnt by omega]
    ring

lemma digit_le_nine (hdigit : c.isDigit = true) : c.toNat - '0'.toNat ≤ 9 := by
  rw [Char.isDigit_iff_toNat] at hdigit
  have hzero : '0'.toNat = 48 := rfl
  have hnine : '9'.toNat = 57 := rfl
  omega

lemma le_ofDigitChars (digits : Text) (magnitude : ℕ) :
    magnitude ≤ ofDigitChars 10 digits magnitude := by
  rw [ofDigitChars_eq_ofDigitChars_zero]
  have hpow : 1 ≤ 10 ^ digits.length := one_le_pow _ _ (by decide)
  nlinarith

lemma ofDigitChars_lt {digits : Text} (hdig : ∀ c ∈ digits, c.isDigit = true)
    {magnitude digitCnt : ℕ} (hsmall : magnitude < 10 ^ digitCnt) :
    ofDigitChars 10 digits magnitude < 10 ^ (digitCnt + digits.length) := by
  induction digits generalizing magnitude digitCnt with
  | nil => simpa using hsmall
  | cons c digits ih =>
    have hle := digit_le_nine (hdig c mem_cons_self)
    have hnext : 10 * magnitude + (c.toNat - '0'.toNat) < 10 ^ (digitCnt + 1) := by
      rw [pow_succ]
      omega
    have htail := ih (forall_mem_cons.1 hdig).2 hnext
    rw [ofDigitChars_cons, length_cons]
    rwa [show digitCnt + (digits.length + 1) = digitCnt + 1 + digits.length by omega]

lemma ofDigitChars_eq_zero {digits : Text} (hdig : ∀ c ∈ digits, c.isDigit = true) :
    ofDigitChars 10 digits 0 = 0 ↔ ∀ c ∈ digits, c = '0' := by
  induction digits with
  | nil => simp
  | cons c digits ih =>
    obtain ⟨hc, htail⟩ := forall_mem_cons.1 hdig
    have hzero : c.toNat - '0'.toNat = 0 ↔ c = '0' := by
      rw [Char.isDigit_iff_toNat] at hc
      rw [← Char.toNat_inj]
      omega
    rw [ofDigitChars_cons, forall_mem_cons, ← hzero, ← ih htail]
    constructor
    · intro h
      have hle := le_ofDigitChars digits (10 * 0 + (c.toNat - '0'.toNat))
      have hdigit : c.toNat - '0'.toNat = 0 := by omega
      exact ⟨hdigit, by rwa [hdigit] at h⟩
    · rintro ⟨hdigit, htl⟩
      rwa [hdigit]

def Scan.after (s : Scan) (digits : Text) (magnitude : ℕ) : Scan :=
  { s with
    digitCnt := s.digitCnt + digits.length
    sourceScale := s.sourceScale + if s.pointFound then digits.length else 0
    target := held s.negative (s.digitCnt + digits.length)
      (ofDigitChars 10 digits magnitude) }

attribute [local simp] Scan.after

lemma scanChar_used {m : ℕ} (hc : c.isDigit = true) (hallow : s.digitsAllowed = true)
    (hused : s.pointFound = false ∨ s.sourceScale < targetScale)
    (htgt : s.target = held s.negative s.digitCnt m) (hsmall : m < 10 ^ s.digitCnt) :
    scanChar targetScale s c =
      if Fits s.negative (10 * m + (c.toNat - '0'.toNat)) then .ok (s.after [c] m)
      else .error (.failed .numericOverflow) := by
  have hone : ofDigitChars 10 [c] m = 10 * m + (c.toNat - '0'.toNat) := by
    rw [ofDigitChars_cons, ofDigitChars_nil]
  rw [scanChar, if_pos hc, scanDigit, if_neg (by simp [hallow]), if_pos hused, htgt,
    appendDigit_held hsmall (digit_le_nine hc)]
  by_cases hfits : Fits s.negative (10 * m + (c.toNat - '0'.toNat))
  · rw [if_pos hfits, if_pos hfits]
    cases hpt : s.pointFound <;> simp [Except.map, Except.mapError, hone, hpt]
  · rw [if_neg hfits, if_neg hfits]
    rfl

variable {t : ℕ}

/-- Digits that are used, by induction on the digits: once the magnitude does not fit, that of
the whole numeral does not either. -/
theorem foldlM_used {digits : Text} {m : ℕ}
    (hdig : ∀ c ∈ digits, c.isDigit = true) (hallow : s.digitsAllowed = true)
    (hsc : s.pointFound = false ∨ s.sourceScale + digits.length ≤ t)
    (htgt : s.target = held s.negative s.digitCnt m)
    (hsmall : m < 10 ^ s.digitCnt) (hfits : Fits s.negative m) : digits.foldlM (scanChar t) s =
      if Fits s.negative (ofDigitChars 10 digits m) then .ok (s.after digits m)
      else .error (.failed .numericOverflow) := by
  induction digits generalizing s m with
  | nil =>
    have haft : s.after [] m = s := by
      cases s
      simp_all
    simp only [ofDigitChars_nil, if_pos hfits, haft]
    rfl
  | cons c digits ih =>
    have hc := hdig c mem_cons_self
    have hle := digit_le_nine hc
    have hused : s.pointFound = false ∨ s.sourceScale < t := by
      refine hsc.imp_right fun h => ?_
      rw [length_cons] at h
      omega
    rw [foldlM_cons, scanChar_used hc hallow hused htgt hsmall, ofDigitChars_cons]
    by_cases hfits' : Fits s.negative (10 * m + (c.toNat - '0'.toNat))
    · rw [if_pos hfits']
      have hnext : 10 * m + (c.toNat - '0'.toNat) < 10 ^ (s.digitCnt + 1) := by
        rw [Nat.pow_succ]
        omega
      have hsc' : (s.after [c] m).pointFound = false ∨
          (s.after [c] m).sourceScale + digits.length ≤ t := by
        refine hsc.imp_right fun h => ?_
        rw [length_cons] at h
        simp only [Scan.after, length_singleton]
        split_ifs <;> omega
      refine (ih (s := s.after [c] m) (forall_mem_cons.1 hdig).2
        hallow hsc' ?_ hnext hfits').trans ?_
      · simp [ofDigitChars_cons]
      · have haft : (s.after [c] m).after digits
            (10 * m + (c.toNat - '0'.toNat)) = s.after (c :: digits) m := by
          unfold Scan.after
          simp only [length_cons, length_nil, ofDigitChars_cons, Scan.mk.injEq, true_and]
          refine ⟨by omega, ?_, ?_⟩
          · split_ifs <;> omega
          · rw [show s.digitCnt + (0 + 1) + digits.length = s.digitCnt + (digits.length + 1) by
              omega]
        rw [haft]
        rfl
    · rw [if_neg hfits', if_neg]
      · rfl
      · exact fun h => hfits' (h.of_le (le_ofDigitChars _ _))

lemma foldlM_unused {l : Text}
    (hdig : ∀ c ∈ l, c.isDigit = true) (hallow : s.digitsAllowed = true)
    (hsc : l ≠ [] → s.pointFound = true ∧ t ≤ s.sourceScale) : l.foldlM (scanChar t) s =
      .ok { s with digitCnt := s.digitCnt + l.length } := by
  induction l generalizing s with
  | nil => rfl
  | cons c l ih =>
    obtain ⟨hpt, hle⟩ := hsc (cons_ne_nil c l)
    have hstep : scanChar t s c =
        .ok { s with digitCnt := s.digitCnt + 1 } := by
      rw [scanChar, if_pos (hdig c mem_cons_self), scanDigit,
        if_neg (by simp [hallow]), if_neg (by simp [hpt]; omega)]
      rfl
    rw [foldlM_cons, hstep]
    refine (ih (s := { s with digitCnt := s.digitCnt + 1 })
      (forall_mem_cons.1 hdig).2 hallow
      (fun _ => ⟨hpt, hle⟩)).trans ?_
    rw [length_cons, show s.digitCnt + 1 + l.length = s.digitCnt + (l.length + 1) by omega]

lemma foldlM_blanks {blanks : Text}
    (hbl : ∀ c ∈ blanks, c = ' ') (hcnt : s.digitCnt = 0) (hpt : s.pointFound = false) :
    blanks.foldlM (scanChar targetScale) s = .ok s := by
  induction blanks with
  | nil => rfl
  | cons c blanks ih =>
    obtain rfl := hbl c mem_cons_self
    have hstep : scanChar targetScale s ' ' = .ok s := by
      rw [scanChar, if_neg (by decide), if_pos rfl, if_neg (by simp [hcnt, hpt])]
    rw [foldlM_cons, hstep]
    exact ih fun c hc => hbl c (mem_cons_of_mem ' ' hc)

lemma foldlM_trailing {blanks : Text} (hbl : ∀ c ∈ blanks, c = ' ') (hcnt : s.digitCnt ≠ 0) :
    ∃ allowed, blanks.foldlM (scanChar t) s = .ok { s with digitsAllowed := allowed } := by
  induction blanks generalizing s with
  | nil => exact ⟨s.digitsAllowed, rfl⟩
  | cons c blanks ih =>
    obtain rfl := hbl c mem_cons_self
    have hstep : scanChar t s ' ' =
        .ok { s with digitsAllowed := false } := by
      rw [scanChar, if_neg (by decide), if_pos rfl, if_pos (.inl hcnt)]
    obtain ⟨allowed, hrest⟩ := ih (s := { s with digitsAllowed := false })
      (fun c hc => hbl c (mem_cons_of_mem ' ' hc)) hcnt
    refine ⟨allowed, ?_⟩
    rw [foldlM_cons, hstep]
    exact hrest

lemma upscale_signed (negative : Bool) (n magnitude : ℕ) (hfits : Fits negative magnitude) :
    upscale negative n (signed negative magnitude) =
      if Fits negative (magnitude * 10 ^ n) then .ok (signed negative (magnitude * 10 ^ n))
      else .error .numericOverflow := by
  induction n generalizing magnitude with
  | zero =>
    rw [pow_zero, mul_one, if_pos hfits]
    rfl
  | succ n ih =>
    have hpow : magnitude * 10 ^ (n + 1) = magnitude * 10 * 10 ^ n := by ring
    have hten : signed negative magnitude * 10 = signed negative (magnitude * 10) := by
      unfold signed
      split_ifs <;> push_cast <;> ring
    have hstep : upscale negative (n + 1) (signed negative magnitude) =
        if Fits negative (magnitude * 10) then
          upscale negative n (signed negative (magnitude * 10))
        else .error .numericOverflow := by
      rw [upscale, hten, llongMin_tdiv, llongMax_tdiv]
      cases negative with
      | true =>
        rw [if_pos rfl, show signed true magnitude = -(magnitude : ℤ) from rfl]
        by_cases hle : Fits true (magnitude * 10)
        · rw [if_pos hle, if_neg (by rw [fits_true] at hle; omega)]
        · rw [if_neg hle, if_pos (by rw [fits_true] at hle; omega)]
      | false =>
        rw [if_neg (by simp), show signed false magnitude = (magnitude : ℤ) from rfl]
        by_cases hle : Fits false (magnitude * 10)
        · rw [if_pos hle, if_neg (by rw [fits_false] at hle; omega)]
        · rw [if_neg hle, if_pos (by rw [fits_false] at hle; omega)]
    rw [hstep, hpow]
    by_cases hle : Fits negative (magnitude * 10)
    · rw [if_pos hle, ih _ hle]
    · rw [if_neg hle, if_neg]
      exact fun h => hle (h.of_le (Nat.le_mul_of_pos_right _ (Nat.pow_pos (by decide))))

lemma foldlM_sign (h : n.Shaped) : n.sign.foldlM (scanChar targetScale) {} =
      .ok { signFound := n.sign ≠ [], negative := n.negative } := by
  unfold Numeral.negative
  obtain hsign | hsign | hsign := h.sign <;> rw [hsign] <;> rfl

lemma foldlM_point (h : n.Shaped) (hpt : s.pointFound = false) (hallow : s.digitsAllowed = true) :
    n.point.foldlM (scanChar targetScale) s = .ok { s with pointFound := n.point ≠ [] } := by
  obtain ⟨hnone, -⟩ | hsome := h.point
  · rw [hnone]
    cases s
    simp_all
    rfl
  · rw [hsome, foldlM_cons, scanChar, if_neg (by decide), if_neg (by decide),
      if_neg (by decide), if_pos rfl, if_neg (by simp [hpt, hallow])]
    rfl

lemma foldlM_append_of_ok {l₁ l₂ : Text} {s s₁ : Scan}
    (h : l₁.foldlM (scanChar targetScale) s = .ok s₁) :
    (l₁ ++ l₂).foldlM (scanChar targetScale) s = l₂.foldlM (scanChar targetScale) s₁ := by
  rw [foldlM_append, h]
  rfl

lemma foldlM_append_of_error {l₁ l₂ : Text} {e : Stop}
    (h : l₁.foldlM (scanChar targetScale) s = .error e) :
    (l₁ ++ l₂).foldlM (scanChar targetScale) s = .error e := by
  rw [foldlM_append, h]
  rfl

lemma foldlM_front (h : n.Shaped) (rest : Text) :
    (n.blanks₁ ++ (n.sign ++ (n.blanks₂ ++ rest))).foldlM (scanChar targetScale) {} =
      rest.foldlM (scanChar targetScale) { signFound := n.sign ≠ [], negative := n.negative } := by
  rw [foldlM_append_of_ok (foldlM_blanks h.blanks₁ rfl rfl), foldlM_append_of_ok (foldlM_sign h),
    foldlM_append_of_ok (foldlM_blanks h.blanks₂ rfl rfl)]

def Numeral.magnitude (n : Numeral) (targetScale : ℕ) : ℕ :=
  ofDigitChars 10 (n.used targetScale) 0

structure Ends (n : Numeral) (targetScale : ℕ) (s : Scan) : Prop where
  negative : s.negative = n.negative
  digitCnt : s.digitCnt = n.digits.length
  sourceScale : s.sourceScale = (n.fraction.take targetScale).length
  target : s.target = held n.negative (n.used targetScale).length (n.magnitude targetScale)

lemma Ends.digitCnt_ne_zero (hends : Ends n targetScale s) (h : n.Valid) : s.digitCnt ≠ 0 := by
  rw [hends.digitCnt]
  exact fun hzero => h.digits (eq_nil_of_length_eq_zero hzero)

lemma foldlM_back (h : n.Valid) (hneg : s.negative = n.negative) (hallow : s.digitsAllowed = true)
    (hpt : s.pointFound = false) (hcnt : s.digitCnt = n.whole.length) (hsc : s.sourceScale = 0)
    (htgt : s.target = held s.negative s.digitCnt (ofDigitChars 10 n.whole 0))
    (hfits : Fits s.negative (ofDigitChars 10 n.whole 0)) :
    if Fits n.negative (n.magnitude targetScale) then
      ∃ s', (n.point ++ (n.fraction ++ n.blanks₃)).foldlM (scanChar targetScale) s = .ok s' ∧
        Ends n targetScale s'
    else (n.point ++ (n.fraction ++ n.blanks₃)).foldlM (scanChar targetScale) s =
      .error (.failed .numericOverflow) := by
  have hmagnitude : ofDigitChars 10 (n.fraction.take targetScale)
      (ofDigitChars 10 n.whole 0) = n.magnitude targetScale := by
    rw [Numeral.magnitude, Numeral.used, ofDigitChars_append]
  have hsmall : ofDigitChars 10 n.whole 0 < 10 ^ s.digitCnt := by
    have hlt := ofDigitChars_lt h.whole (show 0 < 10 ^ 0 by decide)
    rwa [Nat.zero_add, ← hcnt] at hlt
  have hused := foldlM_used (s := { s with pointFound := n.point ≠ [] })
    (m := ofDigitChars 10 n.whole 0)
    (fun c hc => h.fraction c (mem_of_mem_take hc)) hallow
    (.inr (by simp [hsc] : s.sourceScale + (n.fraction.take targetScale).length ≤ targetScale))
    htgt hsmall hfits
  rw [foldlM_append_of_ok (foldlM_point h.toShaped hpt hallow)]
  have hspl : n.fraction ++ n.blanks₃ =
      n.fraction.take targetScale ++ (n.fraction.drop targetScale ++ n.blanks₃) := by
    rw [← append_assoc, take_append_drop]
  rw [hmagnitude] at hused
  rw [hspl, ← hneg]
  split_ifs with hmag
  · rw [if_pos hmag] at hused
    rw [foldlM_append_of_ok hused]
    generalize hs₃ : Scan.after _ _ _ = s₃
    have hsc₃ : s₃.sourceScale = (n.fraction.take targetScale).length := by
      obtain ⟨hnone, hfrac⟩ | hsome := h.point
      · simp [← hs₃, hsc, hnone, hfrac]
      · simp [← hs₃, hsc, hsome]
    have hunused := foldlM_unused (l := n.fraction.drop targetScale) (s := s₃)
      (t := targetScale) (fun c hc => h.fraction c (mem_of_mem_drop hc))
      (by rw [← hs₃]; exact hallow) (by
        intro hne
        have hlong : targetScale < n.fraction.length := by
          by_contra hshort
          exact hne (drop_eq_nil_of_le (by omega))
        obtain ⟨-, hfrac⟩ | hsome := h.point
        · rw [hfrac] at hlong
          exact absurd hlong (by simp)
        · refine ⟨by simp [← hs₃, hsome], ?_⟩
          rw [hsc₃, length_take]
          omega)
    have hdig : s₃.digitCnt + (n.fraction.drop targetScale).length = n.digits.length := by
      rw [← hs₃, Scan.after, Numeral.digits, length_append, hcnt, Nat.add_assoc,
        ← length_append, take_append_drop]
    rw [foldlM_append_of_ok hunused]
    obtain ⟨allowed, hbl⟩ := foldlM_trailing (t := targetScale)
      (s := { s₃ with digitCnt := s₃.digitCnt + (n.fraction.drop targetScale).length }) h.blanks₃
      (by rw [hdig]; exact fun hzero => h.digits (eq_nil_of_length_eq_zero hzero))
    refine ⟨_, hbl, ⟨?_, hdig, hsc₃, ?_⟩⟩
    · rw [← hneg, ← hs₃]
      rfl
    · rw [← hs₃, ← hneg]
      simp only [Scan.after, hmagnitude, hcnt, Numeral.used, length_append]
  · rw [if_neg hmag] at hused
    exact foldlM_append_of_error hused

/-- The loop over a numeral ends with its used digits in the target, unless they are too many. -/
theorem foldlM_text (h : n.Valid) : if Fits n.negative (n.magnitude t) then
      ∃ s, n.text.foldlM (scanChar t) {} = .ok s ∧ Ends n t s
    else n.text.foldlM (scanChar t) {} = .error (.failed .numericOverflow) := by
  have hwhole := foldlM_used (t := t)
    (s := { signFound := n.sign ≠ [], negative := n.negative }) (m := 0) h.whole rfl (.inl rfl)
    (by simp [held, signed]) (by simp) (zero_le _)
  rw [text, foldlM_front h.toShaped]
  split_ifs at hwhole with hfits
  · rw [foldlM_append_of_ok hwhole]
    exact foldlM_back h rfl rfl rfl (zero_add _) rfl rfl hfits
  · rw [foldlM_append_of_error hwhole, if_neg]
    · intro hmag
      refine hfits (hmag.of_le ?_)
      rw [magnitude, used, ofDigitChars_append]
      exact le_ofDigitChars _ _

lemma Numeral.scaled_eq (h : n.Shaped) (targetScale : ℕ) :
    n.scaled targetScale = signed n.negative
      (n.magnitude targetScale * 10 ^ (targetScale - (n.fraction.take targetScale).length)) := by
  have hnat : ofDigitChars 10 n.digits 0 * 10 ^ targetScale / 10 ^ n.fraction.length =
      n.magnitude targetScale * 10 ^ (targetScale - (n.fraction.take targetScale).length) := by
    by_cases hlong : n.fraction.length ≤ targetScale
    · have htake : n.fraction.take targetScale = n.fraction := take_of_length_le hlong
      have hpow : (10 : ℕ) ^ targetScale =
          10 ^ (targetScale - n.fraction.length) * 10 ^ n.fraction.length := by
        rw [← Nat.pow_add, Nat.sub_add_cancel hlong]
      rw [magnitude, used, htake, digits, hpow, ← Nat.mul_assoc,
        Nat.mul_div_cancel _ (Nat.pow_pos (by decide))]
    · have hlen : (n.fraction.take targetScale).length = targetScale := by
        rw [length_take]
        omega
      have hpow : (10 : ℕ) ^ n.fraction.length =
          10 ^ (n.fraction.drop targetScale).length * 10 ^ targetScale := by
        rw [← Nat.pow_add, length_drop, Nat.sub_add_cancel (by omega)]
      have hrest : ofDigitChars 10 (n.fraction.drop targetScale) 0 <
          10 ^ (n.fraction.drop targetScale).length := by
        have hlt := ofDigitChars_lt
          (fun c hc => h.fraction c (mem_of_mem_drop (i := targetScale) hc))
          (show 0 < 10 ^ 0 by decide)
        rwa [Nat.zero_add] at hlt
      have hdig : ofDigitChars 10 n.digits 0 =
          10 ^ (n.fraction.drop targetScale).length * n.magnitude targetScale +
            ofDigitChars 10 (n.fraction.drop targetScale) 0 := by
        rw [← ofDigitChars_eq_ofDigitChars_zero, magnitude, ← ofDigitChars_append,
          used, append_assoc, take_append_drop, digits]
      rw [hlen, Nat.sub_self, Nat.pow_zero, Nat.mul_one, hpow,
        Nat.mul_div_mul_right _ _ (Nat.pow_pos (by decide)), hdig,
        Nat.mul_add_div (Nat.pow_pos (by decide)), Nat.div_eq_of_lt hrest, Nat.add_zero]
  unfold scaled signed
  rw [← hnat]
  split_ifs
  · rw [Int.neg_tdiv]
    rfl
  · rfl

lemma Numeral.Shaped.isDigit_used (h : n.Shaped) (targetScale : ℕ) :
    ∀ c ∈ n.used targetScale, c.isDigit = true := by
  intro c hc
  obtain hwhole | hfraction := mem_append.1 hc
  · exact h.whole c hwhole
  · exact h.fraction c (mem_of_mem_take hfraction)

lemma Numeral.magnitude_eq_zero (h : n.Shaped) :
    n.magnitude targetScale = 0 ↔ ∀ c ∈ n.used targetScale, c = '0' :=
  ofDigitChars_eq_zero (h.isDigit_used targetScale)

/-- With a lost sign the fraction is longer than the target's: there is nothing to scale up, and
at most 18 digits always fit. -/
lemma Numeral.SignLost.unscaled (h : n.Shaped) (hlost : n.SignLost targetScale) :
    (n.fraction.take targetScale).length = targetScale ∧ n.magnitude targetScale < 10 ^ 18 := by
  obtain ⟨-, hfew, hmany, -⟩ := hlost
  constructor
  · simp only [used, Numeral.digits, length_append, length_take] at hfew hmany ⊢
    omega
  · have hlt := ofDigitChars_lt (h.isDigit_used targetScale) (show 0 < 10 ^ 0 by decide)
    rw [Nat.zero_add] at hlt
    exact lt_of_lt_of_le hlt (Nat.pow_le_pow_right (by decide) hfew)

/-- After the loop the sign is put on, unless neither the 19th digit nor the end did so. -/
lemma target_signed {s : Scan} (h : n.Shaped) (hends : Ends n targetScale s) :
    (¬ n.SignLost targetScale →
      (if s.negative ∧ s.digitCnt ≤ 18 then -s.target else s.target) =
        signed n.negative (n.magnitude targetScale)) ∧
    (n.SignLost targetScale →
      (if s.negative ∧ s.digitCnt ≤ 18 then -s.target else s.target) =
        n.magnitude targetScale) := by
  rw [hends.negative, hends.digitCnt, hends.target]
  have hused : (n.used targetScale).length ≤ n.digits.length := by
    simp [used, Numeral.digits]
  constructor
  · intro hsign
    cases hneg : n.negative with
    | false => simp [held, signed]
    | true =>
      by_cases hfew : n.digits.length ≤ 18
      · simp [held, signed, hfew, show ¬ 18 < (n.used targetScale).length by omega]
      · by_cases hmany : 18 < (n.used targetScale).length
        · simp [held, signed, hfew, hmany]
        · have hzero : n.magnitude targetScale = 0 := by
            rw [n.magnitude_eq_zero h]
            by_contra hdigit
            push Not at hdigit
            exact hsign ⟨hneg, by omega, by omega, hdigit⟩
          simp [held, signed, hzero]
  · rintro ⟨hneg, hfew, hmany, -⟩
    simp [held, signed, hneg, show ¬ n.digits.length ≤ 18 by omega,
      show ¬ 18 < (n.used targetScale).length by omega]

lemma convAsciiToInt64_text {asFloat : Text → Except ConvError ℤ}
    (h : n.Valid) (hsign : ¬ n.SignLost targetScale) : convAsciiToInt64 asFloat targetScale n.text =
      if Fits n.negative (n.magnitude targetScale *
          10 ^ (targetScale - (n.fraction.take targetScale).length)) then .ok (n.scaled targetScale)
      else .error .numericOverflow := by
  have htext := foldlM_text (t := targetScale) h
  unfold convAsciiToInt64
  split_ifs at htext with hfits
  · obtain ⟨s, hfold, hends⟩ := htext
    rw [hfold]
    have hle : (n.fraction.take targetScale).length ≤ targetScale := by simp
    dsimp only
    rw [finish, if_neg (hends.digitCnt_ne_zero h), (target_signed h.toShaped hends).1 hsign,
      hends.sourceScale, hends.negative, n.scaled_eq h.toShaped]
    by_cases hlt : (n.fraction.take targetScale).length < targetScale
    · rw [if_pos hlt, upscale_signed _ _ _ hfits]
    · have heq : (n.fraction.take targetScale).length = targetScale := by omega
      rw [if_neg hlt, heq, Nat.sub_self, Nat.pow_zero, Nat.mul_one, if_pos hfits]
      rfl
  · have hlarge : ¬ Fits n.negative (n.magnitude targetScale *
        10 ^ (targetScale - (n.fraction.take targetScale).length)) :=
      fun hle => hfits (hle.of_le (Nat.le_mul_of_pos_right _ (Nat.pow_pos (by decide))))
    rw [htext, if_neg hlarge]

/-- With a lost sign the magnitude is answered. -/
theorem convAsciiToInt64_signLost {asFloat : Text → Except ConvError ℤ}
    (h : n.Valid) (hlost : n.SignLost targetScale) :
    convAsciiToInt64 asFloat targetScale n.text = .ok (n.magnitude targetScale : ℤ) := by
  obtain ⟨hscale, hsmall⟩ := hlost.unscaled h.toShaped
  have hfits : Fits n.negative (n.magnitude targetScale) := by
    rw [hlost.1, fits_true]
    omega
  have htext := foldlM_text (t := targetScale) h
  rw [if_pos hfits] at htext
  obtain ⟨s, hfold, hends⟩ := htext
  unfold convAsciiToInt64
  rw [hfold]
  dsimp only
  rw [finish, if_neg (hends.digitCnt_ne_zero h), (target_signed h.toShaped hends).2 hlost,
    hends.sourceScale, hscale, if_neg (lt_irrefl _), Nat.sub_self]
  rfl

/-- The code accepts the numerals whose scaled value fits in 64 bits and answers that value. -/
def ReadExactly (asFloat : Text → Except ConvError ℤ) (targetScale : ℕ) (source : Text) : Prop :=
  ∀ target, convAsciiToInt64 asFloat targetScale source = .ok target ↔
    ∃ n : Numeral, n.Valid ∧ n.text = source ∧ InInt64 (n.scaled targetScale) ∧
      target = n.scaled targetScale

variable {asFloat : Text → Except ConvError ℤ} {source : Text} {target : ℤ}

lemma exists_numeral (hE : 'E' ∉ source) (he : 'e' ∉ source)
    (hok : convAsciiToInt64 asFloat targetScale source = .ok target) :
    ∃ n : Numeral, n.Valid ∧ n.text = source := by
  unfold convAsciiToInt64 at hok
  match hfold : source.foldlM (scanChar targetScale) {} with
  | .error (.failed error) =>
    rw [hfold] at hok
    cases hok
  | .error .exponent =>
    obtain hmem | hmem := foldlM_exponent hfold
    · exact absurd hmem hE
    · exact absurd hmem he
  | .ok s =>
    rw [hfold] at hok
    obtain ⟨n, htext, hreads⟩ := foldlM_reads reads_start hfold
    refine ⟨n, ⟨hreads.shaped, ?_⟩, htext⟩
    intro hnil
    have hcnt : s.digitCnt = 0 := by rw [hreads.digitCnt, hnil]; rfl
    dsimp only at hok
    rw [finish, if_pos hcnt] at hok
    cases hok

lemma convAsciiToInt64_numeral (h : n.Valid) (hsign : ¬ n.SignLost targetScale) :
    convAsciiToInt64 asFloat targetScale n.text = .ok target ↔
      InInt64 (n.scaled targetScale) ∧ target = n.scaled targetScale := by
  rw [convAsciiToInt64_text h hsign, n.scaled_eq h.toShaped, inInt64_signed]
  generalize n.magnitude targetScale * _ = magnitude
  split_ifs with hfits
  · simp [hfits, eq_comm]
  · simp [hfits]

/-- **Text to integer.** Without an exponent the text is read exactly if and only if it is no
numeral whose sign is lost. -/
theorem readExactly_iff (asFloat : Text → Except ConvError ℤ) (targetScale : ℕ)
    (source : Text) (hE : 'E' ∉ source) (he : 'e' ∉ source) :
    ReadExactly asFloat targetScale source ↔
      ∀ n : Numeral, n.Valid → n.text = source → ¬ n.SignLost targetScale := by
  constructor
  · rintro hexact n hvalid rfl hlost
    obtain ⟨hscale, hsmall⟩ := hlost.unscaled hvalid.toShaped
    have hscaled : n.scaled targetScale = -(n.magnitude targetScale : ℤ) := by
      rw [n.scaled_eq hvalid.toShaped, hscale, Nat.sub_self, Nat.pow_zero, Nat.mul_one, signed,
        if_pos hlost.1]
    have hin : InInt64 (n.scaled targetScale) := by
      rw [hscaled, InInt64, llongMin, llongMax]
      omega
    -- the value asked for is read, and it is the negative of the one answered
    have hread := (hexact (n.scaled targetScale)).2 ⟨n, hvalid, rfl, hin, rfl⟩
    rw [convAsciiToInt64_signLost hvalid hlost, Except.ok.injEq, hscaled] at hread
    have hzero : n.magnitude targetScale = 0 := by omega
    obtain ⟨c, hc, hne⟩ := hlost.2.2.2
    exact hne ((n.magnitude_eq_zero hvalid.toShaped).1 hzero c hc)
  · intro hsign target
    constructor
    · intro hok
      obtain ⟨n, hvalid, rfl⟩ := exists_numeral hE he hok
      exact ⟨n, hvalid, rfl, (convAsciiToInt64_numeral hvalid (hsign n hvalid rfl)).1 hok⟩
    · rintro ⟨n, hvalid, rfl, hin⟩
      exact (convAsciiToInt64_numeral hvalid (hsign n hvalid rfl)).2 hin

lemma Numeral.digits_length_le (n : Numeral) : n.digits.length ≤ n.text.length := by
  simp only [digits, text, length_append]
  omega

def sampleNumeral : Numeral := ⟨[' '], ['-'], [], ['1', '2'], ['.'], ['5'], [' ']⟩

lemma sampleNumeral_valid : sampleNumeral.Valid := by
  refine ⟨⟨?_, .inr (.inr rfl), ?_, ?_, .inr rfl, ?_, ?_⟩, ?_⟩ <;>
    simp [sampleNumeral, Numeral.digits]

/-- The blanks around a negative numeral do not matter and its point is moved. -/
theorem scaled_text_read :
    convAsciiToInt64 (fun _ => .error .convertStringError) 1 " -12.5 ".toList = .ok (-125) := by
  refine ((readExactly_iff _ 1 " -12.5 ".toList (by simp) (by simp)).2 ?_ (-125)).2
    ⟨sampleNumeral, sampleNumeral_valid, rfl, ⟨by decide, by decide⟩, by decide⟩
  rintro n - htext ⟨-, -, hlong, -⟩
  have hle := n.digits_length_le
  rw [htext] at hle
  have hshort : " -12.5 ".toList.length = 7 := rfl
  omega

def signLostNumeral : Numeral := ⟨[], ['-'], [], ['1'], ['.'], replicate 18 '0', []⟩

/-- The sign of the numeral is lost: the code answers 1. -/
theorem sign_lost_with_surplus_digits :
    signLostNumeral.Valid ∧ signLostNumeral.text = "-1.000000000000000000".toList ∧
      InInt64 (signLostNumeral.scaled 0) ∧ signLostNumeral.scaled 0 = -1 ∧
      convAsciiToInt64 (fun _ => .error .convertStringError) 0 signLostNumeral.text = .ok 1 := by
  refine ⟨⟨⟨?_, .inr (.inr rfl), ?_, ?_, .inr rfl, ?_, ?_⟩, ?_⟩, rfl, ⟨by decide, by decide⟩,
    by decide, by decide⟩ <;> simp [signLostNumeral, Numeral.digits]

end Trafodion.AsciiInt64
