import Trafodion.BigNumArithmetic

/-!
# Division of Big Nums

A long division digit by digit. Each quotient digit is estimated from three digits of the dividend
and two of the divisor, whose first digit is at least 256 after a shift by one byte. The estimate
is right or one too large, so one correction is enough.
-/
namespace Trafodion.BigNum

open List ByteStrings Nat

/-- The loop of `SimpleDivHelper` from the most significant digit on, with the last remainder. -/
def simpleDivHelper (divisor : ℕ) : List ℕ → List ℕ × ℕ
  | [] => ([], 0)
  | digit :: dividend =>
    let (quotient, remainder) := simpleDivHelper divisor dividend
    let temp := digit + 65536 * remainder
    (temp / divisor % 65536 :: quotient, temp % divisor % 65536)

/-- The normalizing step: a shift by one byte or none, into one digit more. -/
def normalize (shift : Bool) (data : List ℕ) : List ℕ :=
  if shift then shorts (0#8 :: (ofShorts data ++ [0#8])) else data ++ [0]

/-- The digit `q` of one pass through the main loop, before the correction. -/
def estimate (divisor window : List ℕ) : ℕ :=
  let n := divisor.length - 1
  let temp3 := window.getD (n - 2) 0 + 65536 * window.getD (n - 1) 0 + 65536 ^ 2 * window.getD n 0
  let temp1 := divisor.getD (n - 2) 0 + 65536 * divisor.getD (n - 1) 0
  let q := temp3 / temp1 % 65536
  if q = 0 ∧ window.getD n 0 = divisor.getD (n - 1) 0 then 65535 else q

/-- One pass through the main loop on the digits of the dividend it reads and writes. -/
def divStep (divisor window : List ℕ) : ℕ × List ℕ :=
  let q := estimate divisor window
  let (rest, neg) := subHelper window (mulHelper divisor.length divisor.dropLast [q])
  if neg then ((q + 65535) % 65536, (subHelper divisor rest).1) else (q, rest)

/-- The main loop, over the digits below those of the first pass. -/
def divLoop (divisor window : List ℕ) : List ℕ → List ℕ × List ℕ
  | [] =>
    let (q, rest) := divStep divisor window
    ([q], rest)
  | digit :: digits =>
    let (quotient, rest) := divLoop divisor window digits
    let (q, rest) := divStep divisor (digit :: rest.dropLast)
    (q :: quotient, rest)

/-- The quotient, and whether there is a remainder. -/
def divHelper (dividend divisor : List ℕ) : List ℕ × Bool :=
  let n := divisor.length
  let shift := divisor.getD (n - 1) 0 ≤ 0xFF
  let tempDividend := normalize shift dividend
  let tempDivisor := normalize shift divisor
  if dividend.length < n then
    -- the loop does not run, and the check goes on behind the dividend
    (replicate dividend.length 0, ((tempDividend ++ tempDivisor).take n).any (· ≠ 0))
  else
    let m := dividend.length - n
    let (quotient, rest) := divLoop tempDivisor (tempDividend.drop m) (tempDividend.take m)
    (quotient ++ replicate (n - 1) 0, (rest.take n).any (· ≠ 0))

/-! ### One digit -/

lemma quotient_estimate {X u v a b : ℕ} (ha : a < X) (hb : b < X) (hv : 65536 ≤ v)
    (hlt : u * X + a < (v * X + b) * 65536) :
    (u * X + a) / (v * X + b) ≤ u / v ∧ u / v ≤ (u * X + a) / (v * X + b) + 1 ∧
      u < (v + 1) * 65536 := by
  have hX : 0 < X := by omega
  have hV : 0 < v * X + b := Nat.add_pos_left (Nat.mul_pos (by omega) hX) b
  obtain ⟨Q, hQ⟩ : ∃ Q, Q = (u * X + a) / (v * X + b) := ⟨_, rfl⟩
  have hQlt : Q < 65536 := by
    rw [hQ]
    exact Nat.div_lt_of_lt_mul hlt
  have hlow : Q * (v * X + b) ≤ u * X + a := by
    rw [hQ]
    exact Nat.div_mul_le_self _ _
  have hhigh : u * X + a < (Q + 1) * (v * X + b) := by
    rw [hQ]
    exact Nat.lt_mul_of_div_lt (Nat.lt_succ_self _) hV
  rw [← hQ]
  refine ⟨?_, ?_, ?_⟩
  · rw [Nat.le_div_iff_mul_le (by omega)]
    have hmul : Q * v * X < (u + 1) * X := by nlinarith
    have := Nat.lt_of_mul_lt_mul_right hmul
    omega
  · apply Nat.le_of_lt_succ
    rw [Nat.div_lt_iff_lt_mul (by omega)]
    by_contra hge
    have hle := Nat.mul_le_mul_right X (Nat.le_of_not_lt hge)
    have hmul : (Q + 2) * v * X < (Q + 1) * (v + 1) * X := by nlinarith
    have := Nat.lt_of_mul_lt_mul_right hmul
    nlinarith
  · apply Nat.lt_of_mul_lt_mul_right (a := X)
    nlinarith

/-- The quotient of the leading digits may be 65536. It is 0 in a digit then, which the leading
digits tell from a quotient of 0. -/
theorem digit_estimate {a b c e f u v Q : ℕ} (hu : u = a + 65536 * b + 65536 ^ 2 * c)
    (hv : v = e + 65536 * f) (ha : a < 65536) (hb : b < 65536) (he : e < 65536) (hf : 256 ≤ f)
    (hQ : Q < 65536) (hle : Q ≤ u / v) (hge : u / v ≤ Q + 1) (hlt : u < (v + 1) * 65536) :
    (if u / v % 65536 = 0 ∧ c = f then 65535 else u / v % 65536) < 65536 ∧
      ((if u / v % 65536 = 0 ∧ c = f then 65535 else u / v % 65536) = Q ∨
        (if u / v % 65536 = 0 ∧ c = f then 65535 else u / v % 65536) = Q + 1) := by
  by_cases hbig : u / v = 65536
  · have hmul : 65536 * v ≤ u := by
      rw [← hbig]
      exact div_mul_le_self u v
    rw [if_pos ⟨by rw [hbig], by omega⟩]
    omega
  · rw [mod_eq_of_lt (by omega), if_neg]
    · omega
    · rintro ⟨hzero, rfl⟩
      have hsmall := lt_of_div_eq_zero (by omega) hzero
      omega

lemma div_add_mul {v : ℕ} (hv : 0 < v) (digit x : ℕ) :
    (digit + 65536 * x) / v = (digit + 65536 * (x % v)) / v + 65536 * (x / v) ∧
      (digit + 65536 * x) % v = (digit + 65536 * (x % v)) % v := by
  have hall : digit + 65536 * x = digit + 65536 * (x % v) + v * (65536 * (x / v)) := by
    have hdiv := div_add_mod x v
    rw [mul_left_comm, add_assoc, ← mul_add, add_comm (_ % _), hdiv]
  rw [hall, add_mul_div_left _ _ hv, add_mul_mod_self_left]
  exact ⟨rfl, rfl⟩

variable {l : List ℕ}

lemma Writes.cons {n x d : ℕ} (h : Writes l n x) (hd : d < 65536) :
    Writes (d :: l) (n + 1) (d + 65536 * x) := by
  obtain ⟨rfl, hlt, rfl⟩ := h
  exact ⟨rfl, forall_mem_cons.2 ⟨hd, hlt⟩, ofDigits_cons ..⟩

lemma Writes.split {m n x : ℕ} (h : Writes l (m + n) x) :
    ∃ X Y, Writes (l.take m) m X ∧ Writes (l.drop m) n Y ∧ x = X + 65536 ^ m * Y := by
  obtain ⟨hlen, hlt, rfl⟩ := h
  refine ⟨_, _, ⟨by simp [hlen], fun d hd => hlt d (mem_of_mem_take hd), rfl⟩,
    ⟨by simp [hlen], fun d hd => hlt d (mem_of_mem_drop hd), rfl⟩, ?_⟩
  conv_lhs => rw [← take_append_drop m l, ofDigits_append,
    length_take_of_le (by omega)]

variable {n x : ℕ}

lemma Writes.exists_last (h : Writes l (n + 1) x) :
    ∃ t X, l = l.take n ++ [t] ∧ Writes (l.take n) n X ∧ t < 65536 ∧ x = X + 65536 ^ n * t := by
  obtain ⟨X, Y, hX, hY, rfl⟩ := h.split
  obtain ⟨t, ht⟩ := length_eq_one_iff.1 hY.length_eq
  refine ⟨t, X, by rw [← ht, take_append_drop], hX, hY.lt t (by simp [ht]), ?_⟩
  rw [← hY.value, ht, ofDigits_singleton]

lemma Writes.take (h : Writes l (n + 1) x) (hx : x < 65536 ^ n) : Writes (l.take n) n x := by
  obtain ⟨t, X, -, hX, -, rfl⟩ := h.exists_last
  rwa [← eq_of_add_mul rfl hx]

lemma Writes.dropLast (h : Writes l (n + 1) x) (hx : x < 65536 ^ n) : Writes l.dropLast n x := by
  rw [dropLast_eq_take, h.length_eq]
  exact h.take hx

/-- A divisor after the normalizing step. -/
structure Normalized (divisor : List ℕ) (k V : ℕ) : Prop where
  writes : Writes divisor (k + 3) V
  le : 256 * 65536 ^ (k + 1) ≤ V
  lt : V < 65536 ^ (k + 2)

lemma Writes.exists_three {k x : ℕ} (h : Writes l (k + 3) x) :
    ∃ low a b c X, l = low ++ [a, b, c] ∧ Writes low k X ∧ a < 65536 ∧ b < 65536 ∧
      x = (a + 65536 * b + 65536 ^ 2 * c) * 65536 ^ k + X := by
  obtain ⟨X, Y, hX, hY, rfl⟩ := h.split
  obtain ⟨a, b, c, habc⟩ := length_eq_three.1 hY.length_eq
  refine ⟨l.take k, a, b, c, X, by rw [← habc, take_append_drop], hX,
    hY.lt a (by simp [habc]), hY.lt b (by simp [habc]), ?_⟩
  rw [← hY.value, habc]
  simp only [ofDigits_cons, ofDigits_nil]
  ring

namespace Normalized

variable {divisor window : List ℕ} {k V W : ℕ}

section
variable (h : Normalized divisor k V)
include h

lemma pos : 0 < V := lt_of_lt_of_le (by positivity) h.le

lemma exists_top : ∃ low e f X, divisor = low ++ [e, f, 0] ∧
    Writes low k X ∧ e < 65536 ∧ 256 ≤ f ∧ V = (e + 65536 * f) * 65536 ^ k + X := by
  obtain ⟨hwr, hlow, hhigh⟩ := h
  obtain ⟨low, e, f, c, X, rfl, hX, he, -, rfl⟩ := hwr.exists_three
  have hlt := hX.lt_pow
  have hlow' : 256 * 65536 < e + 65536 * f + 65536 ^ 2 * c + 1 := by
    apply Nat.lt_of_mul_lt_mul_right (a := 65536 ^ k)
    rw [pow_succ] at hlow
    rw [Nat.succ_mul (e + 65536 * f + 65536 ^ 2 * c)]
    omega
  have hhigh' : e + 65536 * f + 65536 ^ 2 * c < 65536 ^ 2 := by
    apply Nat.lt_of_mul_lt_mul_right (a := 65536 ^ k)
    rw [pow_add] at hhigh
    omega
  obtain rfl : c = 0 := by omega
  exact ⟨low, e, f, X, rfl, hX, he, by omega, rfl⟩

section
variable (hw : Writes window (k + 3) W)
include hw

lemma estimate_spec (hlt : W < V * 65536) : estimate divisor window < 65536 ∧
      (estimate divisor window = W / V ∨ estimate divisor window = W / V + 1) := by
  obtain ⟨low, e, f, X, rfl, hX, he, hf, rfl⟩ := h.exists_top
  obtain ⟨wlow, a, b, c, Y, rfl, hY, ha, hb, rfl⟩ := hw.exists_three
  obtain ⟨hle, hge, hu⟩ := quotient_estimate hY.lt_pow hX.lt_pow (by omega) hlt
  have hest : estimate (low ++ [e, f, 0]) (wlow ++ [a, b, c]) =
      if (a + 65536 * b + 65536 ^ 2 * c) / (e + 65536 * f) % 65536 = 0 ∧ c = f then 65535
      else (a + 65536 * b + 65536 ^ 2 * c) / (e + 65536 * f) % 65536 := by
    simp [estimate, getD, hX.length_eq, ← hY.length_eq]
  rw [hest]
  exact digit_estimate rfl rfl ha hb he hf (Nat.div_lt_of_lt_mul hlt) hle hge hu

lemma divStep_spec (hlt : W < V * 65536) :
    (divStep divisor window).1 = W / V ∧ Writes (divStep divisor window).2 (k + 3) (W % V) := by
  obtain ⟨hq, hquot⟩ := h.estimate_spec hw hlt
  have hdiv := div_add_mod W V
  have hmod := mod_lt W h.pos
  simp only [divStep]
  generalize estimate divisor window = q at *
  generalize W / V = Q at *
  have hproduct : Writes (mulHelper divisor.length divisor.dropLast [q]) (k + 3) (V * q) := by
    rw [h.writes.length_eq]
    apply mulHelper_spec (h.writes.dropLast h.lt) (k := 1) ⟨rfl, by simpa using hq, by simp⟩
    rw [pow_succ]
    exact Nat.mul_lt_mul_of_lt_of_le h.lt hq.le (by decide)
  obtain ⟨hneg, hrest⟩ := subHelper_spec hw hproduct
  rw [hneg]
  by_cases hover : W < V * q
  · have hone := hquot.resolve_left fun heq => by rw [heq] at hover; omega
    have hmul : V * q = V * Q + V := by rw [hone, mul_succ]
    rw [if_pos hover] at hrest
    obtain ⟨-, hback⟩ := subHelper_spec h.writes hrest
    rw [if_neg (by omega)] at hback
    rw [if_pos (decide_eq_true hover)]
    refine ⟨by dsimp only; omega, ?_⟩
    rwa [show W % V = V - (V * q - W) by omega]
  · have hsame := hquot.resolve_right fun heq => by
      rw [heq, mul_succ] at hover
      omega
    rw [if_neg hover] at hrest
    rw [if_neg (by simpa using hover)]
    refine ⟨hsame, ?_⟩
    rw [hsame] at hrest hover ⊢
    rwa [show W % V = W - V * Q by omega]

lemma divLoop_spec (hlt : W < V * 65536) {digits : List ℕ} {m D : ℕ} (hd : Writes digits m D) :
    Writes (divLoop divisor window digits).1 (m + 1) ((D + 65536 ^ m * W) / V) ∧
      Writes (divLoop divisor window digits).2 (k + 3) ((D + 65536 ^ m * W) % V) := by
  induction digits generalizing m D with
  | nil =>
    obtain ⟨rfl, -, rfl⟩ := hd
    obtain ⟨hq, hr⟩ := h.divStep_spec hw hlt
    have hdigit := Nat.div_lt_of_lt_mul hlt
    have hnil : Writes [] 0 0 := ⟨rfl, by simp, rfl⟩
    simpa [divLoop, hq, hr] using hnil.cons hdigit
  | cons digit digits ih =>
    obtain ⟨rfl, hdig, rfl⟩ := hd
    obtain ⟨hdigit, hdig⟩ := forall_mem_cons.1 hdig
    obtain ⟨hquot, hrest⟩ := ih ⟨rfl, hdig, rfl⟩
    have hall : Nat.ofDigits 65536 (digit :: digits) + 65536 ^ (digit :: digits).length * W =
        digit + 65536 * (Nat.ofDigits 65536 digits + 65536 ^ digits.length * W) := by
      rw [Nat.ofDigits_cons, length_cons, pow_succ]
      ring
    rw [hall]
    generalize Nat.ofDigits 65536 digits + 65536 ^ digits.length * W = D at *
    have hmod := Nat.mod_lt D h.pos
    have hlt' : digit + 65536 * (D % V) < V * 65536 := by omega
    obtain ⟨hq, hr⟩ :=
      h.divStep_spec ((hrest.dropLast (hmod.trans h.lt)).cons hdigit) hlt'
    obtain ⟨hdiv, hmod'⟩ := div_add_mul h.pos digit D
    rw [hdiv, hmod']
    simp only [divLoop, hq]
    exact ⟨hquot.cons (Nat.div_lt_of_lt_mul hlt'), hr⟩

end

end

end Normalized

/-! ### The normalizing step -/

def scale (shift : Bool) : ℕ := if shift then 256 else 1

lemma normalize_spec (shift : Bool) {data : List ℕ} (h : Writes data n x) :
    Writes (normalize shift data) (n + 1) (scale shift * x) := by
  obtain ⟨rfl, hdata, rfl⟩ := h
  cases shift with
  | false =>
    refine ⟨by simp [normalize], ?_, by simp [normalize, scale, ofDigits_append]⟩
    simpa [normalize, or_imp, forall_and] using hdata
  | true =>
    have hlen := length_ofShorts data
    have hval := ofDigits_shorts (ofShorts data) (by simp [hlen])
    rw [shorts_ofShorts hdata] at hval
    refine ⟨by simp [normalize, length_shorts, hlen]; omega, shorts_lt _, ?_⟩
    simp only [normalize, if_true]
    rw [ofDigits_shorts _ (by simp [hlen, even_add_one]), hval]
    simp [scale, ofDigits_append, ofDigits_cons]

/-- What `DivHelper` reads of a divisor, and what it makes of it. -/
theorem normalize_divisor {divisor : List ℕ} {k V : ℕ} (h : Writes divisor (k + 2) V)
    (htop : divisor.getD (divisor.length - 1) 0 ≠ 0) : 65536 ^ (k + 1) ≤ V ∧
      Normalized (normalize (divisor.getD (divisor.length - 1) 0 ≤ 0xFF) divisor) k
        (scale (divisor.getD (divisor.length - 1) 0 ≤ 0xFF) * V) := by
  have hnorm := normalize_spec (divisor.getD (divisor.length - 1) 0 ≤ 0xFF) h
  obtain ⟨t, X, hd, hX, ht, rfl⟩ := h.exists_last
  have hget : divisor.getD (divisor.length - 1) 0 = t := by
    rw [h.length_eq, hd]
    simp [getD, hX.length_eq]
  rw [hget] at htop hnorm ⊢
  have hlow := hX.lt_pow
  have hpow : 65536 ^ (k + 2) = 65536 ^ (k + 1) * 65536 := pow_succ _ _
  have hone := mul_le_mul_left (65536 ^ (k + 1)) (pos_of_ne_zero htop)
  refine ⟨by omega, hnorm, ?_, ?_⟩
  all_goals rw [scale]
  · split_ifs with hsmall
    · omega
    · have := Nat.mul_le_mul_left (65536 ^ (k + 1)) (Nat.lt_of_not_le (by simpa using hsmall))
      omega
  · split_ifs with hsmall
    · have := mul_le_mul_left (65536 ^ (k + 1)) (of_decide_eq_true hsmall)
      omega
    · have := mul_le_mul_left (65536 ^ (k + 1)) (le_of_lt_succ ht)
      omega

lemma divHelper_spec {dvd divisor : List ℕ} {l k D V : ℕ} (hdvd : Writes dvd l D)
    (hdivisor : Writes divisor (k + 2) V) (htop : divisor.getD (divisor.length - 1) 0 ≠ 0) :
    Writes (divHelper dvd divisor).1 l (D / V) ∧
      (k + 2 ≤ l → ((divHelper dvd divisor).2 = true ↔ D % V ≠ 0)) := by
  obtain ⟨hge, hnorm⟩ := normalize_divisor hdivisor htop
  have hscaled := normalize_spec (divisor.getD (divisor.length - 1) 0 ≤ 0xFF) hdvd
  have hlt := hdvd.lt_pow
  have hzeros (n : ℕ) : Writes (replicate n 0) n 0 :=
    ⟨by simp, fun d hd => by rw [(mem_replicate.1 hd).2]; decide,
      (ofDigits_eq_zero_iff (by decide)).2 fun d hd => (mem_replicate.1 hd).2⟩
  simp only [divHelper]
  generalize decide (divisor.getD (divisor.length - 1) 0 ≤ 0xFF) = shift at *
  rw [hdvd.length_eq, hdivisor.length_eq]
  split_ifs with hshort
  · rw [Nat.div_eq_of_lt]
    · exact ⟨hzeros l, fun hle => absurd hshort (Nat.not_lt.2 hle)⟩
    · exact hlt.trans_le ((Nat.pow_le_pow_right (by decide) (by omega)).trans hge)
  obtain ⟨m, rfl⟩ := Nat.exists_eq_add_of_le' (Nat.le_of_not_lt hshort)
  rw [Nat.add_sub_cancel]
  obtain ⟨X, W, hX, hW, hsum⟩ := (show Writes _ (m + (k + 3)) _ from hscaled).split
  have hpos : 0 < scale shift := by cases shift <;> decide
  have hwindow : W < scale shift * V * 65536 := by
    have hsc : scale shift * D < 65536 ^ m * (256 * 65536 ^ (k + 2)) := by
      rw [Nat.mul_left_comm, ← pow_add]
      apply Nat.mul_lt_mul_of_le_of_lt _ hlt (by decide)
      cases shift <;> decide
    have hle := hnorm.le
    have hlt' := Nat.lt_of_mul_lt_mul_left
      (lt_of_le_of_lt (Nat.le_add_left (65536 ^ m * W) X) (hsum ▸ hsc))
    rw [pow_succ] at hlt'
    omega
  obtain ⟨hq, hr⟩ := hnorm.divLoop_spec hW hwindow hX
  rw [← hsum, Nat.mul_div_mul_left _ _ hpos] at hq
  rw [← hsum] at hr
  constructor
  · refine ⟨by simp [hq.length_eq]; omega, fun d hd => ?_, ?_⟩
    · exact (mem_append.1 hd).elim (hq.lt d) ((hzeros _).lt d)
    · rw [Nat.ofDigits_append, hq.value, (hzeros _).value, Nat.mul_zero, Nat.add_zero]
  · have hrest := hr.take ((Nat.mod_lt _ hnorm.pos).trans hnorm.lt)
    have hzero : D % V = 0 ↔ scale shift * D % (scale shift * V) = 0 := by
      rw [Nat.mul_mod_mul_left]
      simp [hpos.ne']
    intro _
    rw [Ne, hzero, ← hrest.value, ofDigits_eq_zero_iff (by decide)]
    simp

lemma simpleDivHelper_spec {divisor : ℕ} (hpos : 0 < divisor) (hdivisor : divisor < 65536)
    {dvd : List ℕ} {l D : ℕ} (hdvd : Writes dvd l D) :
    Writes (simpleDivHelper divisor dvd).1 l (D / divisor) ∧
      (simpleDivHelper divisor dvd).2 = D % divisor := by
  obtain ⟨rfl, hdig, rfl⟩ := hdvd
  induction dvd with
  | nil => exact ⟨⟨rfl, by simp [simpleDivHelper], by simp [simpleDivHelper]⟩, by simp [simpleDivHelper]⟩
  | cons digit dvd ih =>
    obtain ⟨hdigit, hdig⟩ := forall_mem_cons.1 hdig
    obtain ⟨hquot, hremainder⟩ := ih hdig
    have hmod := Nat.mod_lt (Nat.ofDigits 65536 dvd) hpos
    obtain ⟨hdiv, hmod'⟩ := div_add_mul hpos digit (Nat.ofDigits 65536 dvd)
    have hlt : (digit + 65536 * (Nat.ofDigits 65536 dvd % divisor)) / divisor < 65536 := by
      apply Nat.div_lt_of_lt_mul
      omega
    rw [Nat.ofDigits_cons, hdiv, hmod']
    simp only [simpleDivHelper, hremainder, Nat.mod_eq_of_lt hlt]
    exact ⟨hquot.cons hlt, Nat.mod_eq_of_lt ((Nat.mod_lt _ hpos).trans hdivisor)⟩

/-! ### Signed quotients -/

namespace Num

variable {m n : ℕ}

/-- The digits of the quotient, with the leading zeros of the divisor ignored. -/
def divMagnitudes (left right : List ℕ) : List ℕ :=
  match right.rdropWhile (· = 0) with
  | [divisor] => (simpleDivHelper divisor left).1
  | divisor => (divHelper left divisor).1

lemma divMagnitudes_spec (x : Num m) (y : Num n) (hne : y.digits.rdropWhile (· = 0) ≠ []) :
    Writes (divMagnitudes x.digits y.digits) (m + 1) (x.magnitude / y.magnitude) := by
  have htop : (y.digits.rdropWhile (· = 0)).getLast hne ≠ 0 := by
    simpa using rdropWhile_last_not (· = 0) y.digits hne
  have hy := y.writes.rdropWhile
  unfold divMagnitudes
  generalize y.digits.rdropWhile (· = 0) = divisor at *
  split
  · next divisor =>
    have hval : divisor = y.magnitude := by simpa using hy.value
    rw [← hval]
    exact (simpleDivHelper_spec (Nat.pos_of_ne_zero htop) (hy.lt divisor mem_cons_self) x.writes).1
  · next hsingle =>
    have htwo : 2 ≤ divisor.length := by
      match divisor, hne, hsingle with
      | [d], _, hsingle => exact absurd rfl (hsingle d)
      | _ :: _ :: _, _, _ => simp
    obtain ⟨k, hk⟩ := Nat.exists_eq_add_of_le' htwo
    refine (divHelper_spec x.writes (hk ▸ hy) ?_).1
    rwa [getD_eq_getElem?_getD, ← getLast?_eq_getElem?, getLast?_eq_some_getLast hne]

/-- `div` into a result as long as the left operand: the code it returns, and the buffers. -/
def div (this left : Num m) (right : Num n) : ℤ × OpData m m n :=
  if hzero : right.digits.rdropWhile (· = 0) = [] then
    (-1, ⟨this, left.resetSign, right.resetSign⟩)
  else
    (0, ⟨store (divMagnitudes left.digits right.digits, left.sign != right.sign)
      (divMagnitudes_spec left right hzero).length_eq, left.resetSign, right.resetSign⟩)

lemma magnitude_lt (x : Num n) : x.magnitude < 2 ^ (16 * (n + 1) - 1) := by
  obtain ⟨data, b, hbt, hlen⟩ := x.exists_concat
  have hb : (b &&& 0x7F#8).toNat < 128 := by
    rw [BitVec.toNat_and]
    exact lt_succ_of_le and_le_right
  have hdata : ofDigits 256 (data.map BitVec.toNat) < 256 ^ (2 * n + 1) := by
    rw [← hlen, ← data.length_map BitVec.toNat]
    apply ofDigits_lt_base_pow_length (by decide)
    simp only [mem_map]
    rintro d ⟨x, -, rfl⟩
    exact x.isLt
  rw [magnitude, digits, hbt, clrSign_concat, ofDigits_shorts _ (by simp [hlen, even_add_one]),
    two_pow_eq, map_append, ofDigits_append, length_map, hlen]
  simp only [map_cons, map_nil, ofDigits_singleton]
  have hmul := mul_le_mul_left (256 ^ (2 * n + 1)) (le_of_lt_succ hb)
  omega

/-- **Division.** `DivHelper` stores the quotient and tells whether there is a remainder, and `div`
stores the truncated signed quotient with the operands as they were. -/
theorem division_exact :
    (∀ dividend divisor : List ℕ, (∀ d ∈ dividend, d < 65536) → (∀ d ∈ divisor, d < 65536) →
      divisor.getD (divisor.length - 1) 0 ≠ 0 → 2 ≤ divisor.length →
      divisor.length ≤ dividend.length → (divHelper dividend divisor).1.length = dividend.length ∧
        Nat.ofDigits 65536 (divHelper dividend divisor).1 =
          Nat.ofDigits 65536 dividend / Nat.ofDigits 65536 divisor ∧
        ((divHelper dividend divisor).2 = true ↔
          Nat.ofDigits 65536 dividend % Nat.ofDigits 65536 divisor ≠ 0)) ∧
    ∀ (m n : ℕ) (this x : Num m) (y : Num n), y.toInt ≠ 0 →
      (div this x y).1 = 0 ∧ (div this x y).2.this.toInt = x.toInt.tdiv y.toInt ∧
        (div this x y).2.left = x ∧ (div this x y).2.right = y := by
  constructor
  · intro dividend divisor hdividend hdivisor htop htwo hle
    obtain ⟨k, hk⟩ := Nat.exists_eq_add_of_le' htwo
    obtain ⟨hquotient, hflag⟩ := divHelper_spec ⟨rfl, hdividend, rfl⟩ ⟨hk, hdivisor, rfl⟩ htop
    exact ⟨hquotient.length_eq, hquotient.value, hflag (hk ▸ hle)⟩
  · intro m n this x y hy
    have hne : y.digits.rdropWhile (· = 0) ≠ [] := by
      intro hnil
      have hvalue := y.writes.rdropWhile.value
      rw [hnil, Nat.ofDigits_nil] at hvalue
      apply hy
      simp [toInt, ← hvalue]
    simp only [div, dif_neg hne]
    refine ⟨trivial, ?_, resetSign_eq x, resetSign_eq y⟩
    rw [toInt_store (divMagnitudes_spec x y hne) ((Nat.div_le_self _ _).trans_lt x.magnitude_lt)]
    cases hx : x.sign <;> cases hy : y.sign <;> simp [toInt, hx, hy]

theorem five_by_minusFive : ofDigits 65536 (divHelper [0, 0, 1] [1, 1]).1 = 65536 ^ 2 / 65537 ∧
      (div five five minusFive).2.this.toInt = -1 :=
  ⟨(division_exact.1 [0, 0, 1] [1, 1] (by decide) (by decide) (by decide) (by decide)
      (by decide)).2.1.trans (by decide),
    (division_exact.2 0 0 five five minusFive (by decide)).2.1.trans (by decide)⟩

end Num

end Trafodion.BigNum
