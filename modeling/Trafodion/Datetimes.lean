import Mathlib.Tactic.IntervalCases

/-!
# Datetimes and intervals

`arithDatetimeInterval` converts a datetime to a number of units of the interval, adds or subtracts, and
converts the sum back. For an interval in months the fields behind the month stay as they are. What becomes
of a day that the target month does not have is decided by `validateDate`, which is called for the given
value first and for the result afterwards.
-/
namespace Trafodion.Datetimes

inductive ArithOp
  | add
  | sub
  deriving DecidableEq

/-- A datetime with a date. The fields behind the day are in `time`. -/
@[ext]
structure Datetime (τ : Type*) where
  year : ℤ
  month : ℤ
  day : ℤ
  time : τ
  deriving DecidableEq

variable {τ : Type*}

def daysInMonth (month : ℤ) : ℤ :=
  [0, 31, 29, 31, 30, 31, 30, 31, 31, 30, 31, 30, 31].getD month.toNat 0

def daysInMonthNonLeap (month : ℤ) : ℤ :=
  [0, 31, 28, 31, 30, 31, 30, 31, 31, 30, 31, 30, 31].getD month.toNat 0

variable (operation : ArithOp) (d : Datetime τ) (year : ℤ)

def isLeap : Bool := year % 4 = 0 ∧ (year % 100 ≠ 0 ∨ year % 400 = 0)

/-- The flags that say what is done with the day of a result. -/
structure Flags where
  lastdaymonth : Bool
  lastdayonerr : Bool

/-- The date as it is left, and `LastDayPrevMonth`, or an error. -/
def validateDate (attr : Flags) (intervalFlag lastDayPrevMonth : Bool) :
    Option (Datetime τ × Bool) :=
  let uselastdateflag := intervalFlag && attr.lastdaymonth
  let uselastdateonerrflag := intervalFlag && attr.lastdayonerr
  let invalid : Bool := d.day > daysInMonth d.month ∨ d.month = 2 ∧ d.day > 28 ∧ !isLeap d.year
  if d.year > 9999 ∨ d.year < 1 ∨ d.month > 12 ∨ d.month < 1 ∨ d.day < 1 then none
  else if invalid && !uselastdateonerrflag && !uselastdateflag then none
  else
    let lastDayPrevMonth : Bool :=
      if intervalFlag then lastDayPrevMonth
      else d.day = if isLeap d.year then daysInMonth d.month else daysInMonthNonLeap d.month
    -- the date is adjusted only if one of the flags is set
    let adjusted : Bool :=
      if uselastdateonerrflag then invalid
      else uselastdateflag && (lastDayPrevMonth || (d.month = 2 ∧ d.day > 28 : Bool))
    let lastDay := if d.month = 2 ∧ !isLeap d.year then 28 else daysInMonth d.month
    some (if adjusted then { d with day := lastDay } else d, lastDayPrevMonth)

/-- What an `Int64` holds of a number. -/
def int64 (x : ℤ) : ℤ := x.bmod (2 ^ 64)

/-- The sum of the datetime, in units of the interval, and the interval or its negation. -/
def ArithOp.apply (value interval : ℤ) : ℤ :=
  match operation with
  | .add => value + interval
  | .sub => value - interval

/-- The two conversions and the check of the result depend on the end field of the interval. -/
def arithDatetimeInterval (convertDatetimeToInterval : Datetime τ → ℤ)
    (convertIntervalToDatetime : ℤ → Datetime τ → Option (Datetime τ))
    (validateResult : Bool → Datetime τ → Option (Datetime τ)) (d : Datetime τ) (interval : ℤ) :
    Option (Datetime τ) := do
  let (d, lastDayPrevMonth) ← validateDate d ⟨false, false⟩ false false
  let value := int64 (operation.apply (convertDatetimeToInterval d) interval)
  if value < 0 then none
  else (convertIntervalToDatetime value d).bind (validateResult lastDayPrevMonth)

def datetimeToMonths : ℤ := (d.year - 1) * 12 + (d.month - 1)

def monthsToDatetime (interval : ℤ) (d : Datetime τ) : Option (Datetime τ) :=
  if interval / 12 + 1 > 9999 then none
  else some { d with year := interval / 12 + 1, month := interval % 12 + 1 }

/-- The interval ends in months. -/
def arithMonths (attr : Flags) : Datetime τ → ℤ → Option (Datetime τ) :=
  arithDatetimeInterval operation datetimeToMonths monthsToDatetime fun lastDayPrevMonth d =>
    (validateDate d attr true lastDayPrevMonth).map Prod.fst

/-! ### The calendar -/

def lastDay (year month : ℤ) : ℤ :=
  if isLeap year then daysInMonth month else daysInMonthNonLeap month

structure Datetime.Valid (d : Datetime τ) : Prop where
  year : 1 ≤ d.year ∧ d.year ≤ 9999
  month : 1 ≤ d.month ∧ d.month ≤ 12
  day : 1 ≤ d.day ∧ d.day ≤ lastDay d.year d.month

lemma lastDay_eq {month : ℤ} (h : 1 ≤ month ∧ month ≤ 12) :
    lastDay year month = if month = 2 ∧ !isLeap year then 28 else daysInMonth month := by
  obtain ⟨h1, h12⟩ := h
  unfold lastDay
  cases isLeap year <;> interval_cases month <;> decide

lemma lastDay_bounds {month : ℤ} (h : 1 ≤ month ∧ month ≤ 12) :
    28 ≤ lastDay year month ∧ lastDay year month ≤ 31 ∧ (month = 2 → lastDay year month ≤ 29) ∧
      (month ≠ 2 → 30 ≤ lastDay year month) := by
  obtain ⟨h1, h12⟩ := h
  unfold lastDay
  cases isLeap year <;> interval_cases month <;> decide

variable {d : Datetime τ} {attr : Flags} {last : Bool}

lemma invalid_iff (hmonth : 1 ≤ d.month ∧ d.month ≤ 12) :
    (d.day > daysInMonth d.month ∨ d.month = 2 ∧ d.day > 28 ∧ !isLeap d.year) ↔
      lastDay d.year d.month < d.day := by
  rw [lastDay_eq d.year hmonth]
  by_cases hfeb : d.month = 2
  · rw [hfeb, show daysInMonth 2 = 29 from rfl]
    cases isLeap d.year <;> simp
    omega
  · simp [hfeb]

lemma Datetime.Valid.validateDate_eq (h : d.Valid) :
    validateDate d attr false last = some (d, decide (d.day = lastDay d.year d.month)) := by
  have hrange : ¬(d.year > 9999 ∨ d.year < 1 ∨ d.month > 12 ∨ d.month < 1 ∨ d.day < 1) := by
    have := h.year
    have := h.month
    have := h.day
    omega
  have hinvalid := (not_congr (invalid_iff h.month)).2 (not_lt.2 h.day.2)
  simp only [validateDate, if_neg hrange, hinvalid, lastDay]
  rfl

/-- What `validateDate` makes of a result whose day may be too large. -/
theorem validateDate_result (hyear : 1 ≤ d.year ∧ d.year ≤ 9999)
    (hmonth : 1 ≤ d.month ∧ d.month ≤ 12) (hday : 1 ≤ d.day) :
    (validateDate d attr true last).map Prod.fst =
      if attr.lastdayonerr then some { d with day := min d.day (lastDay d.year d.month) }
      else if attr.lastdaymonth then
        some { d with
          day := if last ∨ d.month = 2 ∧ 28 < d.day then lastDay d.year d.month else d.day }
      else if d.day ≤ lastDay d.year d.month then some d else none := by
  have hrange : ¬(d.year > 9999 ∨ d.year < 1 ∨ d.month > 12 ∨ d.month < 1 ∨ d.day < 1) := by omega
  simp only [validateDate, if_neg hrange, invalid_iff hmonth, ← lastDay_eq d.year hmonth, Bool.true_and]
  cases attr.lastdayonerr with
  | true =>
    rcases le_or_gt d.day (lastDay d.year d.month) with hle | hlt
    · simp [min_eq_left hle, not_lt.2 hle]
    · simp [min_eq_right hlt.le, hlt]
  | false => cases attr.lastdaymonth with
    | true => by_cases hadjusted : last ∨ d.month = 2 ∧ 28 < d.day <;> simp [hadjusted]
    | false =>
      rcases le_or_gt d.day (lastDay d.year d.month) with hle | hlt
      · simp [hle, not_lt.2 hle]
      · simp [hlt, not_le.2 hlt]

/-! ### Adding months -/

/-- A number of an `Int64` added to a small one leaves the range only far from the small numbers. -/
theorem int64_apply {value interval bound : ℤ} (hval : 0 ≤ value) (hbound : value < bound)
    (hsmall : bound ≤ 2 ^ 62) (hinterval : -2 ^ 63 ≤ interval ∧ interval < 2 ^ 63) :
    (int64 (operation.apply value interval) = operation.apply value interval) ∨
      int64 (operation.apply value interval) < 0 ∧ bound ≤ operation.apply value interval := by
  unfold int64 ArithOp.apply
  rw [Int.bmod_def]
  cases operation <;> dsimp only <;> split_ifs <;> omega

lemma arithDatetimeInterval_eq {operation : ArithOp} {ivl : Datetime τ → ℤ}
    {dt : ℤ → Datetime τ → Option (Datetime τ)}
    {res : Bool → Datetime τ → Option (Datetime τ)} {interval : ℤ} (bound : ℤ) (h : d.Valid)
    (hval : 0 ≤ ivl d) (hbound : ivl d < bound) (hsmall : bound ≤ 2 ^ 62)
    (hinterval : -2 ^ 63 ≤ interval ∧ interval < 2 ^ 63)
    (hfails : ∀ value, bound ≤ value → dt value d = none) :
    arithDatetimeInterval operation ivl dt res d interval =
      if 0 ≤ operation.apply (ivl d) interval ∧ operation.apply (ivl d) interval < bound then
        (dt (operation.apply (ivl d) interval) d).bind
          (res (decide (d.day = lastDay d.year d.month))) else none := by
  simp only [arithDatetimeInterval, h.validateDate_eq, Option.bind_eq_bind, Option.bind_some]
  rcases int64_apply operation hval hbound hsmall hinterval with heq | ⟨hneg, hle⟩
  · rw [heq]
    split_ifs with hlt hand hand
    · omega
    · rfl
    · rfl
    · rw [hfails _ (by omega), Option.bind_none]
  · rw [if_pos hneg, if_neg (by omega)]

/-- The year and the month that a number of months after the first month of the year 1 lead to. -/
def targetYear (months : ℤ) : ℤ := months / 12 + 1

def targetMonth (months : ℤ) : ℤ := months % 12 + 1

lemma targetMonth_range (mons : ℤ) : 1 ≤ targetMonth mons ∧ targetMonth mons ≤ 12 := by
  unfold targetMonth
  omega

lemma targetYear_iff {mons : ℤ} :
    (1 ≤ targetYear mons ∧ targetYear mons ≤ 9999) ↔ 0 ≤ mons ∧ mons < 9999 * 12 := by
  unfold targetYear
  omega

lemma arithMonths_eq (attr : Flags) {n : ℤ} (h : d.Valid)
    (hn : -2 ^ 63 ≤ n ∧ n < 2 ^ 63) :
    arithMonths operation attr d n =
      let months := operation.apply (datetimeToMonths d) n
      if 1 ≤ targetYear months ∧ targetYear months ≤ 9999 then
        (validateDate { d with year := targetYear months, month := targetMonth months } attr true
          (decide (d.day = lastDay d.year d.month))).map Prod.fst
      else none := by
  have hyear := h.year
  have hmonth := h.month
  have hfails : ∀ value, 9999 * 12 ≤ value → monthsToDatetime value d = none := by
    intro value hval
    exact if_pos (by omega)
  have hval : 0 ≤ datetimeToMonths d ∧ datetimeToMonths d < 9999 * 12 := by
    unfold datetimeToMonths
    omega
  have heq : arithMonths operation attr d n = _ :=
    arithDatetimeInterval_eq (9999 * 12) h hval.1 hval.2 (by norm_num) hn hfails
  refine heq.trans ?_
  simp only [targetYear_iff]
  split_ifs with hrange
  · rw [monthsToDatetime, if_neg (by omega)]
    rfl
  · rfl

theorem arithMonths_spec (operation : ArithOp) (attr : Flags) (d : Datetime τ) (h : d.Valid) (n : ℤ)
    (hn : -2 ^ 63 ≤ n ∧ n < 2 ^ 63) :
    let months := operation.apply ((d.year - 1) * 12 + (d.month - 1)) n
    let last := lastDay (targetYear months) (targetMonth months)
    let withDay := fun day => (⟨targetYear months, targetMonth months, day, d.time⟩ : Datetime τ)
    (arithMonths operation attr d n =
      if targetYear months < 1 ∨ 9999 < targetYear months then none
      else if attr.lastdayonerr then some (withDay (min d.day last))
      else if attr.lastdaymonth then
        some (withDay (if d.day = lastDay d.year d.month then last else min d.day last))
      else if d.day ≤ last then some (withDay d.day) else none) ∧
    ∀ r ∈ arithMonths operation attr d n, r.Valid := by
  intro months last withDay
  have hday := h.day
  have hmonth := targetMonth_range months
  have hsrc := lastDay_bounds d.year h.month
  have htgt : 28 ≤ last ∧ last ≤ 31 ∧ _ := lastDay_bounds (targetYear months) hmonth
  have heq := arithMonths_eq operation attr h hn
  by_cases hyear : 1 ≤ targetYear months ∧ targetYear months ≤ 9999
  · have hnot : ¬(targetYear months < 1 ∨ 9999 < targetYear months) := by omega
    have hres := (heq.trans (if_pos hyear)).trans
      (validateDate_result (d := withDay d.day) hyear hmonth hday.1)
    -- a day that is not the last of its month is in every month but February
    have hmin : (if decide (d.day = lastDay d.year d.month) = true ∨ targetMonth months = 2 ∧ 28 < d.day
        then last else d.day) = if d.day = lastDay d.year d.month then last else min d.day last := by
      simp only [decide_eq_true_eq]
      split_ifs <;> omega
    refine ⟨by rw [hres, if_neg hnot, ← hmin], fun r hr => ?_⟩
    rw [hres] at hr
    simp only [withDay, decide_eq_true_eq] at hr
    split_ifs at hr
    all_goals cases hr
    all_goals refine ⟨hyear, hmonth, ?_, ?_⟩ <;> dsimp only <;> omega
  · have hout : targetYear months < 1 ∨ 9999 < targetYear months := by omega
    rw [heq.trans (if_neg hyear), if_pos hout]
    exact ⟨rfl, fun r hr => nomatch hr⟩

/-- The last day of January and one month lead to the last day of February. -/
theorem arithMonths_spec_january : (⟨2023, 1, 31, ()⟩ : Datetime Unit).Valid ∧
    arithMonths .add ⟨true, false⟩ ⟨2023, 1, 31, ()⟩ 1 = some ⟨2023, 2, 28, ()⟩ := by
  have hvalid : (⟨2023, 1, 31, ()⟩ : Datetime Unit).Valid := ⟨by decide, by decide, by decide⟩
  exact ⟨hvalid, (arithMonths_spec .add ⟨true, false⟩ _ hvalid 1 (by norm_num)).1.trans (by decide)⟩

variable {r : Datetime τ} {n : ℤ}

lemma arithMonths_eq_some (operation : ArithOp) (h : d.Valid) (hr : r.Valid)
    (hn : -2 ^ 63 ≤ n ∧ n < 2 ^ 63) : arithMonths operation ⟨false, false⟩ d n = some r ↔
      datetimeToMonths r = operation.apply (datetimeToMonths d) n ∧ r.day = d.day ∧
        r.time = d.time := by
  have hyear := hr.year
  have hmonth := hr.month
  rw [arithMonths_eq operation _ h hn]
  generalize operation.apply (datetimeToMonths d) n = months
  have htarget : datetimeToMonths r = months ↔
      targetYear months = r.year ∧ targetMonth months = r.month := by
    unfold datetimeToMonths targetYear targetMonth
    omega
  rw [htarget]
  dsimp only
  split_ifs with hin
  · rw [validateDate_result (d := ⟨targetYear months, targetMonth months, d.day, d.time⟩) hin
      (targetMonth_range months) h.day.1]
    simp only [Bool.false_eq_true, if_false, Option.ite_none_right_eq_some, Option.some.injEq,
      Datetime.ext_iff]
    constructor
    · rintro ⟨-, hy, hm, hd, ht⟩
      exact ⟨⟨hy, hm⟩, hd.symm, ht.symm⟩
    · rintro ⟨⟨hy, hm⟩, hd, ht⟩
      rw [hy, hm, ← hd]
      exact ⟨hr.day.2, rfl, rfl, rfl, ht.symm⟩
  · simp only [false_iff]
    rintro ⟨⟨hy, -⟩, -⟩
    exact hin (hy ▸ hyear)

/-- **Adding and subtracting months** are inverse to each other where both have a result. -/
theorem arithMonths_add_iff_sub (h : d.Valid) (hr : r.Valid) (hn : -2 ^ 63 ≤ n ∧ n < 2 ^ 63) :
    arithMonths .add ⟨false, false⟩ d n = some r ↔ arithMonths .sub ⟨false, false⟩ r n = some d := by
  rw [arithMonths_eq_some .add h hr hn, arithMonths_eq_some .sub hr h hn]
  simp only [ArithOp.apply, eq_comm (a := d.day), eq_comm (a := d.time), and_congr_left_iff]
  omega

theorem arithMonths_sub_thirteen :
    arithMonths .sub ⟨false, false⟩ (⟨2024, 2, 15, ()⟩ : Datetime Unit) 13 = some ⟨2023, 1, 15, ()⟩ :=
  (arithMonths_add_iff_sub ⟨by decide, by decide, by decide⟩ ⟨by decide, by decide, by decide⟩
    (by norm_num)).1 (by decide)

end Trafodion.Datetimes
