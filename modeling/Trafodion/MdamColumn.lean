import Trafodion.MdamUnions

/-!
# Predicates on a key column

A predicate of the network is evaluated to an encoded value, and converting the value to the type
of the column may round it. `getTransformedPredType` makes up for the rounding, and the predicate
becomes an interval of the column. A disjunct is a conjunction of OR groups: the intervals of a
group are united, and the groups are intersected until nothing is left.
-/
namespace Trafodion.Mdam
open OrderDual Option

/-- `dataConvErrorFlag`. -/
inductive ConvResult
  | ok
  | roundedDown
  | roundedDownToMax
  | roundedUp
  | roundedUpToMin
  | failed
  | rounded
  deriving DecidableEq

inductive MdamPredType
  | eq
  | lt
  | le
  | gt
  | ge
  | between
  | isNull
  | isNullDesc
  | isNotNull
  | returnFalse
  deriving DecidableEq

structure Operand (α : Type*) where
  val : α
  convResult : ConvResult

/-- A predicate. A value is `none` if its evaluation fails; IS NULL and IS NOT NULL have no
expression, and their `value` is arbitrary. -/
structure MdamPred (α : Type*) where
  predType : MdamPredType
  value : Option (Operand α)
  value2 : Option (Operand α)
  val1Inclusive : Bool
  val2Inclusive : Bool
  reverseEndpoints : Bool

open MdamPred

variable {α : Type*}

variable (current : ℕ) (p : MdamPred α)

def MdamPred.getStartInclusion : Inclusion :=
  if p.val1Inclusive then .included else .excluded

def MdamPred.getEndInclusion : Inclusion :=
  if p.val2Inclusive then .included else .excluded

/-- The inclusion of the start of an interval after rounding, or `none` if no value is above it. -/
def transformStart : Inclusion → ConvResult → Option Inclusion
  | _, .roundedDownToMax | _, .failed => none
  | .included, .roundedDown => some .excluded
  | .excluded, .roundedUp | .excluded, .roundedUpToMin => some .included
  | inclusion, _ => some inclusion

/-- The inclusion of the end of an interval after rounding, or `none` if no value is below it. -/
def transformEnd : Inclusion → ConvResult → Option Inclusion
  | _, .roundedUpToMin | _, .failed => none
  | .included, .roundedUp => some .excluded
  | .excluded, .roundedDown | .excluded, .roundedDownToMax => some .included
  | inclusion, _ => some inclusion

def startType : Option Inclusion → MdamPredType
  | some .included => .ge
  | some .excluded => .gt
  | none => .returnFalse

def endType : Option Inclusion → MdamPredType
  | some .included => .le
  | some .excluded => .lt
  | none => .returnFalse

def MdamPred.getTransformedPredType (dataConvErrorFlag
    dataConvErrorFlag2 : ConvResult) : MdamPredType × Inclusion × Inclusion :=
  let unchanged := (p.getStartInclusion, p.getEndInclusion)
  match p.predType with
  | .eq => (if dataConvErrorFlag ≠ .ok then .returnFalse else .eq, unchanged)
  | .le => (endType (transformEnd .included dataConvErrorFlag), unchanged)
  | .lt => (endType (transformEnd .excluded dataConvErrorFlag), unchanged)
  | .ge => (startType (transformStart .included dataConvErrorFlag), unchanged)
  | .gt => (startType (transformStart .excluded dataConvErrorFlag), unchanged)
  | .between =>
    match transformStart p.getStartInclusion dataConvErrorFlag,
      transformEnd p.getEndInclusion dataConvErrorFlag2 with
    | some startInclusion, some endInclusion => (.between, startInclusion, endInclusion)
    | _, _ => (.returnFalse, unchanged)
  | t => (t, unchanged)

def MdamPred.evaluate : Option (Operand α × Operand α) :=
  match p.value with
  | none => none
  | some pv => if p.predType = .between then p.value2.map (pv, ·) else some (pv, ⟨pv.val, .ok⟩)

/-- The extremal values of a column. NULL is the highest value of an ascending column and the
lowest one of a descending column. -/
structure Domain (α : Type*) [LinearOrder α] where
  lo : α
  nonNullLo : α
  nonNullHi : α
  hi : α
  lo_le : lo ≤ nonNullLo
  nonNull_le : nonNullLo ≤ nonNullHi
  le_hi : nonNullHi ≤ hi

variable [LinearOrder α]

variable (dom : Domain α)

/-- The `or_accumulator` that a predicate of a type becomes. -/
def orAccumulator (reverseEndpoints : Bool) (pv pv2 : α)
    (startInclusion endInclusion : Inclusion) : MdamPredType → Option (MdamInterval α)
  | .eq => some ⟨⟨pv, .included⟩, ⟨pv, .included⟩, []⟩
  | .le => some ⟨⟨dom.nonNullLo, .included⟩, ⟨pv, .included⟩, []⟩
  | .lt => some ⟨⟨dom.nonNullLo, .included⟩, ⟨pv, .excluded⟩, []⟩
  | .ge => some ⟨⟨pv, .included⟩, ⟨dom.nonNullHi, .included⟩, []⟩
  | .gt => some ⟨⟨pv, .excluded⟩, ⟨dom.nonNullHi, .included⟩, []⟩
  | .between =>
    if reverseEndpoints then some ⟨⟨pv2, endInclusion⟩, ⟨pv, startInclusion⟩, []⟩
    else some ⟨⟨pv, startInclusion⟩, ⟨pv2, endInclusion⟩, []⟩
  | .isNull => some ⟨⟨dom.hi, .included⟩, ⟨dom.hi, .included⟩, []⟩
  | .isNullDesc => some ⟨⟨dom.lo, .included⟩, ⟨dom.lo, .included⟩, []⟩
  | .isNotNull => some ⟨⟨dom.nonNullLo, .included⟩, ⟨dom.nonNullHi, .included⟩, []⟩
  | .returnFalse => none

def MdamPred.interval (p : MdamPred α) : Option (MdamInterval α) :=
  match p.evaluate with
  | none => none
  | some (pv, pv2) =>
    let (predType, startInclusion, endInclusion) :=
      p.getTransformedPredType pv.convResult pv2.convResult
    orAccumulator dom p.reverseEndpoints pv.val pv2.val startInclusion endInclusion predType

def orIn (orResult : List (MdamInterval α)) (p : MdamPred α) :
    List (MdamInterval α) :=
  match p.interval dom with
  | none => orResult
  | some orAccumulator =>
    if orResult.isEmpty then [orAccumulator] else unionSameDisjunct orResult [orAccumulator]

/-! ### The predicate list -/

structure PredNode (α : Type*) where
  disjunctNumber : ℕ
  firstInOrGroup : Bool
  pred : MdamPred α

def positionToCurrentDisjunct (currentPred : List (PredNode α)) :
    List (PredNode α) :=
  currentPred.dropWhile fun p => p.disjunctNumber < current

def positionToNextOr (currentPred : List (PredNode α)) : List (PredNode α) :=
  currentPred.dropWhile fun p => p.disjunctNumber < current && !p.firstInOrGroup

/-- What `positionToNextOr` returns: whether its position is in the current disjunct. -/
def atOr : List (PredNode α) → Bool
  | [] => false
  | p :: _ => p.disjunctNumber = current

def orLoop (dom : Domain α) (current : ℕ) : Bool → List (MdamInterval α) → List (PredNode α) →
    List (MdamInterval α) × List (PredNode α)
  | _, orResult, [] => (orResult, [])
  | returnedAPred, orResult, p :: ps =>
    if p.disjunctNumber = current ∧ ¬ (returnedAPred ∧ p.firstInOrGroup) then
      orLoop dom current true (orIn dom orResult p.pred) ps
    else (orResult, p :: ps)

lemma orLoop_length_le (current : ℕ) (returnedAPred : Bool)
    (orResult : List (MdamInterval α)) (ps : List (PredNode α)) :
    (orLoop dom current returnedAPred orResult ps).2.length ≤ ps.length := by
  induction ps generalizing returnedAPred orResult with
  | nil => simp [orLoop]
  | cons p ps ih =>
    rw [orLoop]
    split_ifs
    · exact (ih _ _).trans (Nat.le_succ _)
    · rfl

lemma orLoop_length_lt {dom : Domain α} {current : ℕ} {orResult : List (MdamInterval α)}
    {ps : List (PredNode α)} (h : atOr current ps) :
    (orLoop dom current false orResult ps).2.length < ps.length := by
  cases ps with
  | nil => cases h
  | cons p ps =>
    have hcur : p.disjunctNumber = current := by simpa [atOr] using h
    rw [orLoop, if_pos (by simp [hcur])]
    exact Nat.lt_succ_of_le (orLoop_length_le ..)

def andLoop (dom : Domain α) (current : ℕ) (gotAPredicate : Bool)
    (tentativeIntervals : List (MdamInterval α)) (currentPred : List (PredNode α)) :
    Bool × List (MdamInterval α) × List (PredNode α) :=
  if _ : atOr current (positionToNextOr current currentPred) ∧ tentativeIntervals ≠ [] then
    let orResult := orLoop dom current false [] (positionToNextOr current currentPred)
    andLoop dom current true (intersect tentativeIntervals orResult.1) orResult.2
  else (gotAPredicate, tentativeIntervals, positionToNextOr current currentPred)
  termination_by currentPred.length
  decreasing_by exact (orLoop_length_lt (And.left ‹_›)).trans_le (List.dropWhile_sublist _).length_le

structure OrGroup (α : Type*) where
  first : MdamPred α
  rest : List (MdamPred α)

def OrGroup.preds (g : OrGroup α) : List (MdamPred α) := g.first :: g.rest

variable (disjunctNumber : ℕ)

def OrGroup.nodes (g : OrGroup α) : List (PredNode α) :=
  ⟨disjunctNumber, true, g.first⟩ :: g.rest.map (⟨disjunctNumber, false, ·⟩)

/-- The list of the predicates of disjuncts, whose numbers begin with `disjunctNumber`. -/
def predList : ℕ → List (List (OrGroup α)) → List (PredNode α)
  | _, [] => []
  | disjunctNumber, groups :: disjuncts =>
    groups.flatMap (OrGroup.nodes disjunctNumber) ++ predList (disjunctNumber + 1) disjuncts

structure MdamColumnGen (α : Type*) [LinearOrder α] where
  domain : Domain α
  disjuncts : List (List (OrGroup α))

structure MdamColumn (α : Type*) [LinearOrder α] where
  columnGenInfo : MdamColumnGen α
  currentPred : List (PredNode α)
  intervals : List (MdamInterval α)
  tentativeIntervals : List (MdamInterval α)
  stopList : List ℕ

def MdamColumn.domain (c : MdamColumn α) : Domain α := c.columnGenInfo.domain

variable (c : MdamColumn α)

def MdamColumn.initCurrentPred : MdamColumn α :=
  { c with currentPred := predList 0 c.columnGenInfo.disjuncts }

/-- `buildDisjunct` of a column, the first one if `isFirst`; it also says whether the disjunct is in
a stop list by now. -/
def MdamColumn.buildDisjunct (isFirst : Bool) (disjunctNumber : ℕ)
    (disjunctNumberInStopList : Bool) : Bool × MdamColumn α :=
  let accumulator : MdamInterval α :=
    ⟨⟨c.domain.lo, .included⟩, ⟨c.domain.hi, .included⟩, []⟩
  let (gotAPredicate, tentativeIntervals, currentPred) := andLoop c.domain disjunctNumber false
    (c.tentativeIntervals ++ [accumulator])
    (positionToCurrentDisjunct disjunctNumber c.currentPred)
  if (gotAPredicate || isFirst) && !disjunctNumberInStopList then
    (true, { c with
      tentativeIntervals := tentativeIntervals
      currentPred := currentPred
      stopList := insertDisjunctNum disjunctNumber c.stopList })
  else (disjunctNumberInStopList, { c with
      tentativeIntervals := tentativeIntervals
      currentPred := currentPred })

def MdamColumn.disjunctIsEmpty : Bool := c.tentativeIntervals.isEmpty

def MdamColumn.tossDisjunct : MdamColumn α := { c with tentativeIntervals := [] }

def MdamColumn.mergeDisjunct (disjunctNumber : ℕ) : MdamColumn α :=
  { c with
    intervals := unionSeparateDisjuncts c.intervals c.tentativeIntervals disjunctNumber
    tentativeIntervals := [] }

/-! ### What a predicate says -/

section operands
variable {β : Type*} [LinearOrder β] {o : Operand β} {least greatest v : β}

/-- How a value compares with the operand itself. A rounded operand lies between two neighbouring
values; an operand that was not converted compares with none. -/
def Operand.compareTo (o : Operand β) (v : β) : Option Ordering :=
  match o.convResult with
  | .ok => some (compare v o.val)
  | .roundedDown => some (if v ≤ o.val then .lt else .gt)
  | .roundedUp => some (if v < o.val then .lt else .gt)
  | .roundedDownToMax => some .lt
  | .roundedUpToMin => some .gt
  | .failed | .rounded => none

def Operand.Below (o : Operand β) (inclusive : Bool) (v : β) : Prop :=
  o.compareTo v = some .lt ∨ inclusive ∧ o.compareTo v = some .eq

def Operand.Above (o : Operand β) (inclusive : Bool) (v : β) : Prop :=
  o.compareTo v = some .gt ∨ inclusive ∧ o.compareTo v = some .eq

def Operand.Fits (least greatest : β) (o : Operand β) : Prop :=
  match o.convResult with
  | .ok | .roundedDown | .roundedUp => least ≤ o.val ∧ o.val ≤ greatest
  | .roundedDownToMax => o.val = greatest
  | .roundedUpToMin => o.val = least
  | .failed => True
  | .rounded => False

def Operand.toDual (o : Operand β) : Operand βᵒᵈ := ⟨OrderDual.toDual o.val, o.convResult⟩

lemma above_iff (h : o.Fits least greatest) (incl : Bool) :
    (least ≤ v ∧ o.Above incl v) ↔ ∃ inclusion ∈
      transformStart (if incl then .included else .excluded) o.convResult,
        (⟨o.val, inclusion⟩ : MdamPoint β).beginContains v := by
  obtain ⟨a, r⟩ := o
  unfold Operand.Above Operand.compareTo
  cases r with
  | ok =>
    have hleast : least ≤ a := h.1
    cases incl with
    | false =>
      simp only [transformStart, some.injEq, compare_gt_iff_gt]
      simpa using fun hlt => hleast.trans hlt.le
    | true =>
      simp only [transformStart, some.injEq, compare_gt_iff_gt, compare_eq_iff_eq]
      simpa [le_iff_lt_or_eq.symm, @eq_comm _ v a] using hleast.trans
  | roundedUp =>
    have hleast : least ≤ a := h.1
    cases incl <;> simpa [transformStart, ite_eq_iff] using hleast.trans
  | roundedDown =>
    have hleast : least ≤ a := h.1
    cases incl <;> simpa [transformStart, ite_eq_iff] using fun hlt => hleast.trans hlt.le
  | roundedUpToMin =>
    obtain rfl : a = least := h
    cases incl <;> simp [transformStart]
  | roundedDownToMax | failed =>
    cases incl <;> simp [transformStart]
  | rounded => exact h.elim

lemma below_iff (h : o.Fits least greatest) (incl : Bool) :
    (v ≤ greatest ∧ o.Below incl v) ↔ ∃ inclusion ∈
      transformEnd (if incl then .included else .excluded) o.convResult,
        (⟨o.val, inclusion⟩ : MdamPoint β).endContains v := by
  obtain ⟨a, r⟩ := o
  unfold Operand.Below Operand.compareTo
  cases r with
  | ok =>
    have hgreatest : a ≤ greatest := h.2
    cases incl with
    | false =>
      simp only [transformEnd, some.injEq, compare_lt_iff_lt]
      simpa using fun hlt => hlt.le.trans hgreatest
    | true =>
      simp only [transformEnd, some.injEq, compare_lt_iff_lt, compare_eq_iff_eq]
      simpa [le_iff_lt_or_eq.symm] using fun hle => hle.trans hgreatest
  | roundedDown =>
    have hgreatest : a ≤ greatest := h.2
    cases incl <;> simpa [transformEnd, ite_eq_iff] using fun hle => hle.trans hgreatest
  | roundedUp =>
    have hgreatest : a ≤ greatest := h.2
    cases incl <;> simpa [transformEnd, ite_eq_iff] using fun hlt => hlt.le.trans hgreatest
  | roundedDownToMax =>
    obtain rfl : a = greatest := h
    cases incl <;> simp [transformEnd]
  | roundedUpToMin | failed =>
    cases incl <;> simp [transformEnd]
  | rounded => exact h.elim

lemma beginContains_toDual {p : MdamPoint β} :
    (⟨toDual p.val, p.inclusion⟩ : MdamPoint βᵒᵈ).beginContains (toDual v) ↔ p.endContains v := by
  obtain ⟨a, inclusion⟩ := p
  cases inclusion <;> simp

lemma endContains_toDual {p : MdamPoint β} :
    (⟨toDual p.val, p.inclusion⟩ : MdamPoint βᵒᵈ).endContains (toDual v) ↔ p.beginContains v := by
  obtain ⟨a, inclusion⟩ := p
  cases inclusion <;> simp

end operands

variable (dom : Domain α) (p : MdamPred α) (v : α)

def Domain.NonNull : Prop := dom.nonNullLo ≤ v ∧ v ≤ dom.nonNullHi

/-- The values between two operands. On a descending column the operands are in the reverse order
of the encoded values. -/
def Between (o o2 : Operand α) (v : α) : Prop :=
  if p.reverseEndpoints then
    o.toDual.Above p.val1Inclusive (toDual v) ∧
      o2.toDual.Below p.val2Inclusive (toDual v)
  else o.Above p.val1Inclusive v ∧ o2.Below p.val2Inclusive v

/-- The value of the column satisfies the predicate. A predicate that cannot be evaluated is not
satisfied. -/
def MdamPred.Satisfies : Prop :=
  match p.predType with
  | .eq => dom.NonNull v ∧ ∃ o ∈ p.value, o.compareTo v = some .eq
  | .lt => dom.NonNull v ∧ ∃ o ∈ p.value, o.Below false v
  | .le => dom.NonNull v ∧ ∃ o ∈ p.value, o.Below true v
  | .gt => dom.NonNull v ∧ ∃ o ∈ p.value, o.Above false v
  | .ge => dom.NonNull v ∧ ∃ o ∈ p.value, o.Above true v
  | .between => dom.NonNull v ∧ ∃ o ∈ p.value, ∃ o2 ∈ p.value2, Between p o o2 v
  | .isNull => p.value.isSome ∧ v = dom.hi
  | .isNullDesc => p.value.isSome ∧ v = dom.lo
  | .isNotNull => p.value.isSome ∧ dom.NonNull v
  | .returnFalse => False

def MdamPred.OperandsFit : Prop :=
  match p.predType with
  | .eq | .lt | .le | .gt | .ge => ∀ o ∈ p.value, o.Fits dom.nonNullLo dom.nonNullHi
  | .between =>
    if p.reverseEndpoints then
      ∀ o, o ∈ p.value ∨ o ∈ p.value2 →
        o.toDual.Fits (toDual dom.nonNullHi) (toDual dom.nonNullLo)
    else ∀ o, o ∈ p.value ∨ o ∈ p.value2 → o.Fits dom.nonNullLo dom.nonNullHi
  | .isNull | .isNullDesc | .isNotNull | .returnFalse => True

variable {dom : Domain α} {p : MdamPred α} {v : α}

lemma contains_mk {b e : MdamPoint α} :
    (⟨b, e, []⟩ : MdamInterval α).contains v ↔ b.beginContains v ∧ e.endContains v := by
  rw [MdamInterval.contains, Bool.and_eq_true]

lemma contains_singleton {a : α} :
    (⟨⟨a, .included⟩, ⟨a, .included⟩, []⟩ : MdamInterval α).contains v ↔ v = a := by
  rw [contains_mk, beginContains_included, endContains_included, and_comm, le_antisymm_iff]

section accumulators
variable {reverse : Bool} {pv pv2 : α} {s e : Inclusion} {t : Option Inclusion}

lemma orAccumulator_endType : orAccumulator dom reverse pv pv2 s e (endType t) =
    t.map fun inclusion => ⟨⟨dom.nonNullLo, .included⟩, ⟨pv, inclusion⟩, []⟩ := by
  rcases t with _ | _ | _ <;> rfl

lemma orAccumulator_startType : orAccumulator dom reverse pv pv2 s e (startType t) =
    t.map fun inclusion => ⟨⟨pv, inclusion⟩, ⟨dom.nonNullHi, .included⟩, []⟩ := by
  rcases t with _ | _ | _ <;> rfl

end accumulators

lemma exists_end_iff {pv : Operand α} (h : pv.Fits dom.nonNullLo dom.nonNullHi)
    (incl : Bool) : (∃ i ∈
      (transformEnd (if incl then .included else .excluded) pv.convResult).map fun inclusion =>
        (⟨⟨dom.nonNullLo, .included⟩, ⟨pv.val, inclusion⟩, []⟩ : MdamInterval α), i.contains v) ↔
      dom.NonNull v ∧ pv.Below incl v := by
  rw [Domain.NonNull, and_assoc, below_iff h]
  simp only [mem_def, map_eq_some_iff, exists_exists_and_eq_and, contains_mk,
    beginContains_included]
  constructor
  · rintro ⟨inclusion, ht, hv⟩
    exact ⟨hv.1, inclusion, ht, hv.2⟩
  · rintro ⟨hlo, inclusion, ht, hv⟩
    exact ⟨inclusion, ht, hlo, hv⟩

lemma exists_start_iff {pv : Operand α} (h : pv.Fits dom.nonNullLo dom.nonNullHi)
    (incl : Bool) : (∃ i ∈
      (transformStart (if incl then .included else .excluded) pv.convResult).map
        fun inclusion => (⟨⟨pv.val, inclusion⟩, ⟨dom.nonNullHi, .included⟩, []⟩ : MdamInterval α),
        i.contains v) ↔ dom.NonNull v ∧ pv.Above incl v := by
  rw [Domain.NonNull, and_right_comm, above_iff h]
  simp only [mem_def, map_eq_some_iff, exists_exists_and_eq_and, contains_mk, endContains_included]
  constructor
  · rintro ⟨inclusion, ht, hv⟩
    exact ⟨⟨inclusion, ht, hv.1⟩, hv.2⟩
  · rintro ⟨⟨inclusion, ht, hv⟩, hhi⟩
    exact ⟨inclusion, ht, hv, hhi⟩

lemma exists_between_iff {pv pv2 : Operand α} {P Q : Prop} {s t : Option Inclusion}
    (hs : P ↔ ∃ inclusion ∈ s, if p.reverseEndpoints then
      (⟨pv.val, inclusion⟩ : MdamPoint α).endContains v
      else (⟨pv.val, inclusion⟩ : MdamPoint α).beginContains v)
    (ht : Q ↔ ∃ inclusion ∈ t, if p.reverseEndpoints then
      (⟨pv2.val, inclusion⟩ : MdamPoint α).beginContains v
      else (⟨pv2.val, inclusion⟩ : MdamPoint α).endContains v) :
    P ∧ Q ↔ ∃ inc ∈ s, ∃ incl ∈ t, ∃ i ∈ orAccumulator dom p.reverseEndpoints
      pv.val pv2.val inc incl .between, i.contains v := by
  rw [hs, ht]
  cases p.reverseEndpoints with
  | false =>
    simp only [orAccumulator, Bool.false_eq_true, if_false, mem_def, some.injEq,
      exists_eq_left', contains_mk]
    constructor
    · rintro ⟨⟨x, hx, hxv⟩, y, hy, hyv⟩
      exact ⟨x, hx, y, hy, hxv, hyv⟩
    · rintro ⟨x, hx, y, hy, hxv, hyv⟩
      exact ⟨⟨x, hx, hxv⟩, y, hy, hyv⟩
  | true =>
    simp only [orAccumulator, if_true, mem_def, some.injEq, exists_eq_left', contains_mk]
    constructor
    · rintro ⟨⟨x, hx, hxv⟩, y, hy, hyv⟩
      exact ⟨x, hx, y, hy, hyv, hxv⟩
    · rintro ⟨x, hx, y, hy, hyv, hxv⟩
      exact ⟨⟨x, hx, hxv⟩, y, hy, hyv⟩

lemma between_iff {pv pv2 : Operand α} (htype : p.predType = .between) (hval : p.value = some pv)
    (hvalue2 : p.value2 = some pv2) (h : p.OperandsFit dom) : dom.NonNull v ∧ Between p pv pv2 v ↔
      ∃ inc ∈ transformStart p.getStartInclusion pv.convResult,
        ∃ incl ∈ transformEnd p.getEndInclusion pv2.convResult,
          ∃ i ∈ orAccumulator dom p.reverseEndpoints pv.val pv2.val inc incl
            .between, i.contains v := by
  unfold MdamPred.OperandsFit at h
  simp only [htype] at h
  unfold Between
  split_ifs at h ⊢ with hreverse
  · have hpv := above_iff (v := OrderDual.toDual v) (h pv (.inl hval)) p.val1Inclusive
    have hpv2 := below_iff (v := OrderDual.toDual v) (h pv2 (.inr hvalue2)) p.val2Inclusive
    rw [← exists_between_iff (P := v ≤ dom.nonNullHi ∧ _) (Q := dom.nonNullLo ≤ v ∧ _)
      (hpv.trans ?_) (hpv2.trans ?_), Domain.NonNull]
    · tauto
    · simp only [hreverse, if_true]
      exact exists_congr fun x => and_congr_right fun _ => beginContains_toDual (p := ⟨pv.val, x⟩)
    · simp only [hreverse, if_true]
      exact exists_congr fun x => and_congr_right fun _ => endContains_toDual (p := ⟨pv2.val, x⟩)
  · have hpv := above_iff (v := v) (h pv (.inl hval)) p.val1Inclusive
    have hpv2 := below_iff (v := v) (h pv2 (.inr hvalue2)) p.val2Inclusive
    rw [← exists_between_iff (hpv.trans ?_) (hpv2.trans ?_), Domain.NonNull]
    · tauto
    · simp only [hreverse]
      rfl
    · simp only [hreverse]
      rfl

/-- A predicate whose operands fit becomes the interval of the values that satisfy it. -/
theorem interval_contains_iff (h : p.OperandsFit dom) :
    (∃ i ∈ p.interval dom, i.contains v) ↔ p.Satisfies dom v := by
  unfold interval evaluate MdamPred.Satisfies
  cases hval : p.value with
  | none => cases htype : p.predType <;> simp
  | some pv =>
    have hfits : (∀ o ∈ p.value, o.Fits dom.nonNullLo dom.nonNullHi) →
      pv.Fits dom.nonNullLo dom.nonNullHi := fun hfits => hfits pv hval
    cases htype : p.predType with
    | between =>
      cases hvalue2 : p.value2 with
      | none => simp
      | some pv2 =>
        have hbtw := between_iff (v := v) htype hval hvalue2 h
        simp only [getTransformedPredType, htype, if_true, map_some, mem_def,
          some.injEq, exists_eq_left']
        rw [hbtw]
        cases transformStart p.getStartInclusion pv.convResult <;>
          cases transformEnd p.getEndInclusion pv2.convResult <;> simp [orAccumulator]
    | lt | le =>
      simp only [MdamPred.OperandsFit, htype] at h
      simp only [getTransformedPredType, htype, reduceCtorEq, if_false,
        orAccumulator_endType, some.injEq, mem_def, exists_eq_left']
      first | exact exists_end_iff (hfits h) false | exact exists_end_iff (hfits h) true
    | gt | ge =>
      simp only [MdamPred.OperandsFit, htype] at h
      simp only [getTransformedPredType, htype, reduceCtorEq, if_false,
        orAccumulator_startType, some.injEq, mem_def, exists_eq_left']
      first | exact exists_start_iff (hfits h) false | exact exists_start_iff (hfits h) true
    | eq =>
      simp only [MdamPred.OperandsFit, htype] at h
      have hpv := hfits h
      obtain ⟨a, r⟩ := pv
      simp only [getTransformedPredType, htype, reduceCtorEq, if_false, mem_def,
        some.injEq, exists_eq_left']
      by_cases hr : r = .ok
      · subst hr
        have hle : dom.nonNullLo ≤ a ∧ a ≤ dom.nonNullHi := hpv
        simp only [ne_eq, not_true_eq_false, if_false, orAccumulator, some.injEq,
          exists_eq_left', contains_singleton, Operand.compareTo, compare_eq_iff_eq]
        refine (and_iff_right_of_imp ?_).symm
        rintro rfl
        exact hle
      · simp only [hr, ne_eq, not_false_eq_true, if_true, orAccumulator, Operand.compareTo]
        cases r <;> simp [ite_eq_iff] at hr ⊢
    | isNull | isNullDesc =>
      simp [getTransformedPredType, htype, orAccumulator, contains_singleton]
    | isNotNull =>
      simp [getTransformedPredType, htype, orAccumulator, MdamInterval.contains, Domain.NonNull]
    | returnFalse => simp [getTransformedPredType, htype, orAccumulator]

end Trafodion.Mdam
