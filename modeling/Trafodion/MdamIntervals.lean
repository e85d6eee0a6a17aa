import Trafodion.IntervalSweeps
import Mathlib.Data.Prod.Lex

/-!
# Interval lists of the MDAM network

The values of a key column are encoded so that they compare as byte strings do; here they are the
elements of a linear order. Endpoints of equal value are ranked `x)`, `[x`, `x]`, `(x`. Two
interval lists are merged endpoint by endpoint, and the intersection and the two kinds of union
are read off the merged list.
-/
namespace Trafodion.Mdam
open IntervalSweeps Option

inductive Inclusion
  | excluded
  | included
  deriving DecidableEq

def Inclusion.reverse : Inclusion → Inclusion
  | .excluded => .included
  | .included => .excluded

inductive EndPointType
  | beginning
  | ending
  deriving DecidableEq

structure MdamPoint (α : Type*) where
  val : α
  inclusion : Inclusion
  deriving DecidableEq

open MdamPoint

structure MdamInterval (α : Type*) where
  beginPoint : MdamPoint α
  endPoint : MdamPoint α
  refList : List ℕ
  deriving DecidableEq

structure MdamEndPoint (α : Type*) where
  point : MdamPoint α
  endPointType : EndPointType
  interval0 : Option (MdamInterval α)
  interval1 : Option (MdamInterval α)

open MdamEndPoint

variable {α : Type*} [LinearOrder α]

variable (p : MdamPoint α) (v : α)

def MdamPoint.beginContains : Bool :=
  match compare p.val v with
  | .lt => true
  | .gt => false
  | .eq => p.inclusion = .included

def MdamPoint.endContains : Bool :=
  match compare p.val v with
  | .lt => false
  | .gt => true
  | .eq => p.inclusion = .included

def MdamInterval.contains (i : MdamInterval α) (v : α) : Bool :=
  i.beginPoint.beginContains v && i.endPoint.endContains v

def MdamPoint.reverseInclusion : MdamPoint α :=
  { p with inclusion := p.inclusion.reverse }

namespace MdamEndPoint

/-- `x)`, `[x`, `x]` and `(x` have the ranks 0, 1, 2 and 3. -/
def rank (e : MdamEndPoint α) : ℕ :=
  match e.endPointType, e.point.inclusion with
  | .beginning, .excluded => 3
  | .beginning, .included => 1
  | .ending, .excluded => 0
  | .ending, .included => 2

def compare (e other : MdamEndPoint α) : Ordering :=
  (Ord.compare e.point.val other.point.val).then (Ord.compare e.rank other.rank)

def givesNonEmptyInterval (e previous : MdamEndPoint α) : Bool :=
  e.point.val ≠ previous.point.val ||
    (previous.point.inclusion = .included &&
      (e.endPointType = .ending && e.point.inclusion = .included ||
        e.endPointType = .beginning && e.point.inclusion = .excluded))

/-- `adjustIntervalPtr`, with the interval that the endpoint has in the list. -/
def adjustIntervalPtr (e : MdamEndPoint α) (interval active : Option (MdamInterval α)) :
    Option (MdamInterval α) :=
  match interval with
  | none => active
  | some i => if e.endPointType = .beginning then some i else none

def reverseInclusion (e : MdamEndPoint α) : MdamEndPoint α :=
  { e with point := e.point.reverseInclusion }

end MdamEndPoint

/-! ### The merger -/

/-- The endpoints of the intervals of list 0, in the order of `MdamIntervalIterator`. -/
def endPoints0 (l : List (MdamInterval α)) : List (MdamEndPoint α) :=
  endPoints (fun i => ⟨i.beginPoint, .beginning, some i, none⟩)
    (fun i => ⟨i.endPoint, .ending, some i, none⟩) l

def endPoints1 (l : List (MdamInterval α)) : List (MdamEndPoint α) :=
  endPoints (fun i => ⟨i.beginPoint, .beginning, none, some i⟩)
    (fun i => ⟨i.endPoint, .ending, none, some i⟩) l

/-- The calls of the merger while its `endPoint0_` is `x`; `next` goes on with the endpoints of
list 0 after it. -/
def mergeInto (x : MdamEndPoint α) (next : List (MdamEndPoint α) → List (MdamEndPoint α)) :
    List (MdamEndPoint α) → List (MdamEndPoint α)
  | [] => x :: next []
  | y :: ys =>
    match x.compare y with
    | .lt => x :: next (y :: ys)
    | .eq => { x with interval1 := y.interval1 } :: next ys
    | .gt => y :: mergeInto x next ys

/-- The endpoints that successive calls of `MdamIntervalListMerger` return. -/
def merge : List (MdamEndPoint α) → List (MdamEndPoint α) → List (MdamEndPoint α)
  | [], ys => ys
  | x :: xs, ys => mergeInto x (merge xs) ys

variable (l otherList : List (MdamInterval α)) (e : MdamEndPoint α)

/-- `activeIntervals_` after an endpoint has been returned. -/
def activeIntervals (active : ℤ) : ℤ :=
  let delta : ℤ := if e.interval0.isSome ∧ e.interval1.isSome then 2 else 1
  if e.endPointType = .beginning then active + delta else active - delta

/-! ### Operations on lists -/

/-- The loop of `intersect`, with `activeIntervals_` after `endPoint1`. -/
def intersectLoop : ℤ → MdamEndPoint α → List (MdamEndPoint α) → List (MdamInterval α)
  | _, _, [] => []
  | active, endPoint1, endPoint2 :: rest =>
    if active = 2 then
      ⟨endPoint1.point, endPoint2.point, []⟩ ::
        intersectLoop (activeIntervals endPoint2 active) endPoint2 rest
    else intersectLoop (activeIntervals endPoint2 active) endPoint2 rest

def intersect : List (MdamInterval α) :=
  match merge (endPoints0 l) (endPoints1 otherList) with
  | [] => []
  | endPoint1 :: rest => intersectLoop (activeIntervals endPoint1 0) endPoint1 rest

/-- The loops of `unionSameDisjunct`. The interval begins with `endPoint1`, or at the next
endpoint. -/
def unionSameLoop : ℤ → Option (MdamEndPoint α) → List (MdamEndPoint α) → List (MdamInterval α)
  | _, _, [] => []
  | active, none, endPoint1 :: rest =>
    unionSameLoop (activeIntervals endPoint1 active) (some endPoint1) rest
  | active, some endPoint1, endPoint2 :: rest =>
    if activeIntervals endPoint2 active ≥ 1 then
      unionSameLoop (activeIntervals endPoint2 active) (some endPoint1) rest
    else
      ⟨endPoint1.point, endPoint2.point, []⟩ ::
        unionSameLoop (activeIntervals endPoint2 active) none rest

def unionSameDisjunct : List (MdamInterval α) :=
  unionSameLoop 0 none (merge (endPoints0 l) (endPoints1 otherList))

/-- `MdamRefList::insert`. -/
def insertDisjunctNum (disjunctNum : ℕ) : List ℕ → List ℕ
  | [] => [disjunctNum]
  | n :: refs =>
    if disjunctNum < n then disjunctNum :: n :: refs
    else if disjunctNum = n then n :: refs
    else n :: insertDisjunctNum disjunctNum refs

/-- A copy of the reference list of interval 0; `disjunctNum` is inserted if interval 1 is
active. -/
def createRefList (interval0 interval1 : Option (MdamInterval α)) (disjunctNum : ℕ) : List ℕ :=
  let refs := match interval0 with
    | none => []
    | some i => i.refList.foldl (fun refs n => insertDisjunctNum n refs) []
  if interval1.isSome then insertDisjunctNum disjunctNum refs else refs

/-- The endpoint as `previousEndPoint`. -/
def asPrevious : MdamEndPoint α :=
  if e.endPointType = .ending then e.reverseInclusion else e

def asEnd : MdamPoint α :=
  if e.endPointType = .beginning then e.point.reverseInclusion else e.point

/-- The loop of `unionSeparateDisjuncts`. -/
def unionSeparateLoop (disjunctNum : ℕ) : ℤ → MdamEndPoint α → Option (MdamInterval α) →
    Option (MdamInterval α) → List (MdamEndPoint α) → List (MdamInterval α)
  | _, _, _, _, [] => []
  | active, previous, interval0, interval1, e :: rest =>
    let tail := unionSeparateLoop disjunctNum (activeIntervals e active) (asPrevious e)
      (e.adjustIntervalPtr e.interval0 interval0) (e.adjustIntervalPtr e.interval1 interval1) rest
    if active ≠ 0 ∧ e.givesNonEmptyInterval previous then
      ⟨previous.point, asEnd e, createRefList interval0 interval1 disjunctNum⟩ :: tail
    else tail

def unionSeparateDisjuncts (disjunctNum : ℕ) :
    List (MdamInterval α) :=
  match merge (endPoints0 l) (endPoints1 otherList) with
  | [] => []
  | e :: rest =>
    unionSeparateLoop disjunctNum (activeIntervals e 0) (asPrevious e)
      (e.adjustIntervalPtr e.interval0 none) (e.adjustIntervalPtr e.interval1 none) rest

/-! ### Positions -/

def cut : α ×ₗ Bool := toLex (e.point.val, decide (2 ≤ e.rank))

/-- The position in the order of the merger. -/
def rankCut : α ×ₗ ℕ := toLex (e.point.val, e.rank)

def pos (v : α) : α ×ₗ Bool := toLex (v, false)

def lo (i : MdamInterval α) : α ×ₗ Bool :=
  toLex (i.beginPoint.val, decide (i.beginPoint.inclusion = .excluded))

def hi (i : MdamInterval α) : α ×ₗ Bool :=
  toLex (i.endPoint.val, decide (i.endPoint.inclusion = .included))

section contains
variable {a v : α}

@[simp]
lemma beginContains_included : (⟨a, .included⟩ : MdamPoint α).beginContains v ↔ a ≤ v := by
  unfold beginContains
  rcases lt_trichotomy a v with hlt | rfl | hgt
  · simp [compare_lt_iff_lt.2 hlt, hlt.le]
  · simp
  · simp [compare_gt_iff_gt.2 hgt, hgt]

@[simp]
lemma beginContains_excluded : (⟨a, .excluded⟩ : MdamPoint α).beginContains v ↔ a < v := by
  unfold beginContains
  rcases lt_trichotomy a v with hlt | rfl | hgt
  · simp [compare_lt_iff_lt.2 hlt, hlt]
  · simp
  · simp [compare_gt_iff_gt.2 hgt, hgt.le]

@[simp]
lemma endContains_included : (⟨a, .included⟩ : MdamPoint α).endContains v ↔ v ≤ a := by
  unfold endContains
  rcases lt_trichotomy a v with hlt | rfl | hgt
  · simp [compare_lt_iff_lt.2 hlt, hlt]
  · simp
  · simp [compare_gt_iff_gt.2 hgt, hgt.le]

@[simp]
lemma endContains_excluded : (⟨a, .excluded⟩ : MdamPoint α).endContains v ↔ v < a := by
  unfold endContains
  rcases lt_trichotomy a v with hlt | rfl | hgt
  · simp [compare_lt_iff_lt.2 hlt, hlt.le]
  · simp
  · simp [compare_gt_iff_gt.2 hgt, hgt]

lemma beginContains_iff (p : MdamPoint α) :
    p.beginContains v ↔ toLex (p.val, decide (p.inclusion = .excluded)) ≤ pos v := by
  obtain ⟨a, inclusion⟩ := p
  rw [pos, Prod.Lex.toLex_le_toLex]
  cases inclusion with
  | excluded => simp
  | included => simp [le_iff_lt_or_eq]

lemma endContains_iff (p : MdamPoint α) :
    p.endContains v ↔ pos v < toLex (p.val, decide (p.inclusion = .included)) := by
  obtain ⟨a, inclusion⟩ := p
  rw [pos, Prod.Lex.toLex_lt_toLex]
  cases inclusion with
  | excluded => simp
  | included => simp [le_iff_lt_or_eq]

lemma contains_iff (i : MdamInterval α) (v : α) : i.contains v ↔ lo i ≤ pos v ∧ pos v < hi i := by
  rw [MdamInterval.contains, Bool.and_eq_true, beginContains_iff, endContains_iff, lo, hi]

end contains

def reading : Reading (MdamEndPoint α) (α ×ₗ Bool) (MdamInterval α) :=
  ⟨cut, fun e => e.endPointType = .beginning, interval0, interval1⟩

def readingBy {C : Type*} (k : MdamEndPoint α → C) : Reading (MdamEndPoint α) C (MdamInterval α) :=
  ⟨k, fun e => e.endPointType = .beginning, interval0, interval1⟩

section

omit [LinearOrder α]

lemma toLex_beginning {e : MdamEndPoint α} (h : e.endPointType = .beginning) :
    toLex (e.point.val, decide (e.point.inclusion = .excluded)) = cut e := by
  unfold cut rank
  rw [h]
  cases e.point.inclusion <;> simp

lemma toLex_ending {e : MdamEndPoint α} (h : e.endPointType = .ending) :
    toLex (e.point.val, decide (e.point.inclusion = .included)) = cut e := by
  unfold cut rank
  rw [h]
  cases e.point.inclusion <;> simp

lemma ends0 : Ends (reading (α := α)) lo hi (fun i => ⟨i.beginPoint, .beginning, some i, none⟩)
    (fun i => ⟨i.endPoint, .ending, some i, none⟩) :=
  ⟨fun _ => (toLex_beginning rfl).symm, fun _ => (toLex_ending rfl).symm, fun _ => rfl,
    fun _ => rfl, fun _ => rfl, fun _ => rfl⟩

lemma ends1 : Ends (reading (α := α)).swap lo hi
    (fun i => ⟨i.beginPoint, .beginning, none, some i⟩)
    (fun i => ⟨i.endPoint, .ending, none, some i⟩) :=
  ⟨fun _ => (toLex_beginning rfl).symm, fun _ => (toLex_ending rfl).symm, fun _ => rfl,
    fun _ => rfl, fun _ => rfl, fun _ => rfl⟩

end

section merging
variable {x y : MdamEndPoint α}

lemma cut_mono (h : rankCut x ≤ rankCut y) : cut x ≤ cut y := by
  refine Prod.Lex.toLex_le_toLex.2 ((Prod.Lex.toLex_le_toLex.1 h).imp_right fun ⟨heq, hrank⟩ => ⟨heq, ?_⟩)
  refine Bool.le_iff_imp.2 fun hx => ?_
  simp only [decide_eq_true_eq] at hx hrank ⊢
  omega

variable {C : Type*} [LinearOrder C] {k : MdamEndPoint α → C}

lemma joins_of_rankCut_eq (hk : ∀ x y, rankCut x ≤ rankCut y → k x ≤ k y)
    (h : rankCut x = rankCut y) : Joins (readingBy k) x y { x with interval1 := y.interval1 } := by
  have hcut : ∀ z, rankCut x = rankCut z → k { x with interval1 := y.interval1 } = k z :=
    fun z hz => le_antisymm (hk _ z hz.le) (hk z _ hz.ge)
  have hrank : x.rank = y.rank := congrArg (fun p => (ofLex p).2) h
  have htype : x.endPointType = y.endPointType := by
    unfold rank at hrank
    cases hx : x.endPointType <;> cases hy : y.endPointType <;>
      cases hx' : x.point.inclusion <;> cases hy' : y.point.inclusion <;> simp_all
  exact ⟨hcut x rfl, hcut y h, rfl, by simp [readingBy, htype], rfl, rfl⟩

lemma merge_nil (xs : List (MdamEndPoint α)) : merge xs [] = xs := by
  induction xs with
  | nil => rfl
  | cons x xs ih => rw [merge, mergeInto, ih]

/-- The merger keeps the order of any position that follows value and rank. -/
theorem merge_merged (hk : ∀ x y, rankCut x ≤ rankCut y → k x ≤ k y) (xs ys : List (MdamEndPoint α)) :
    Merged (readingBy k) xs ys (merge xs ys) := by
  induction xs generalizing ys with
  | nil => exact .nil_left ys
  | cons x xs ih =>
    rw [merge]
    induction ys with
    | nil =>
      rw [mergeInto, merge_nil]
      exact .nil_right _
    | cons y ys ihy =>
      rw [mergeInto]
      have hcmp : x.compare y = Ord.compare (rankCut x) (rankCut y) := rfl
      cases h : x.compare y with
      | lt => exact .lt (hk x y (compare_lt_iff_lt.1 (hcmp ▸ h)).le) (ih (y :: ys))
      | eq => exact .eq (joins_of_rankCut_eq hk (compare_eq_iff_eq.1 (hcmp ▸ h))) (ih ys)
      | gt => exact .gt (hk y x (compare_gt_iff_gt.1 (hcmp ▸ h)).le) ihy

end merging

structure Swept (l l' : List (MdamInterval α)) (zs : List (MdamEndPoint α)) : Prop where
  ascending : Ascending reading zs
  alternates0 : Alternates reading none zs
  alternates1 : Alternates reading.swap none zs
  belongs : ∀ e ∈ zs, e.interval0 ≠ none ∨ e.interval1 ≠ none
  state0 : ∀ p i, stateAt reading p none zs = some i ↔ i ∈ l ∧ lo i ≤ p ∧ p < hi i
  state1 : ∀ p i, stateAt reading.swap p none zs = some i ↔ i ∈ l' ∧ lo i ≤ p ∧ p < hi i

variable {l l' : List (MdamInterval α)}

lemma swept (h : Separated lo hi l) (h' : Separated lo hi l') :
    Swept l l' (merge (endPoints0 l) (endPoints1 l')) := by
  have hmgd : Merged reading _ _ _ :=
    merge_merged (fun _ _ => cut_mono) (endPoints0 l) (endPoints1 l')
  have hnone0 : ∀ e ∈ endPoints1 l', e.interval0 = none := by
    intro e he
    obtain ⟨i, -, rfl | rfl⟩ := mem_endPoints.1 he <;> rfl
  have hnone1 : ∀ e ∈ endPoints0 l, e.interval1 = none := by
    intro e he
    obtain ⟨i, -, rfl | rfl⟩ := mem_endPoints.1 he <;> rfl
  have hsome0 : ∀ e ∈ endPoints0 l, e.interval0 ≠ none := by
    intro e he
    obtain ⟨i, -, rfl | rfl⟩ := mem_endPoints.1 he <;> exact nofun
  have hsome1 : ∀ e ∈ endPoints1 l', e.interval1 ≠ none := by
    intro e he
    obtain ⟨i, -, rfl | rfl⟩ := mem_endPoints.1 he <;> exact nofun
  have hascending1 : Ascending reading.swap (endPoints1 l') := h'.ascending ends1
  refine ⟨hmgd.ascending (h.ascending ends0) hascending1,
    hmgd.alternates_left hnone0 (ends0.alternates l),
    hmgd.swap.alternates_left hnone1 (ends1.alternates l'),
    hmgd.left_or_right hsome0 hsome1, fun p i => ?_, fun p i => ?_⟩
  · rw [hmgd.stateAt_left hnone0]
    exact h.stateAt_eq_some_iff ends0
  · rw [hmgd.swap.stateAt_left hnone1]
    exact h'.stateAt_eq_some_iff ends1

/-! ### Intersection and union -/

def count (s : Option (MdamInterval α)) : ℤ := if s.isSome then 1 else 0

variable {s t : Option (MdamInterval α)} {e : MdamEndPoint α} {es zs : List (MdamEndPoint α)}

section

omit [LinearOrder α]

lemma activeIntervals_eq (hbel : e.interval0 ≠ none ∨ e.interval1 ≠ none)
    (h0 : ∀ d ∈ e.interval0, s = if e.endPointType = .beginning then none else some d)
    (h1 : ∀ d ∈ e.interval1, t = if e.endPointType = .beginning then none else some d) :
    activeIntervals e (count s + count t) =
      count (e.adjustIntervalPtr e.interval0 s) + count (e.adjustIntervalPtr e.interval1 t) := by
  unfold activeIntervals adjustIntervalPtr
  cases hi0 : e.interval0 with
  | none =>
    cases hi1 : e.interval1 with
    | none => simp [hi0, hi1] at hbel
    | some i1 =>
      have ht := h1 i1 hi1
      by_cases htype : e.endPointType = .beginning
      · simp [htype, ht, count]
      · simp [htype, ht, count]
  | some i0 =>
    have hs := h0 i0 hi0
    cases hi1 : e.interval1 with
    | none =>
      by_cases htype : e.endPointType = .beginning
      · simp [htype, hs, count, Int.add_comm]
      · cases t <;> simp [htype, hs, count]
    | some i1 =>
      have ht := h1 i1 hi1
      by_cases htype : e.endPointType = .beginning
      · simp [htype, hs, ht, count]
      · simp [htype, hs, ht, count]

lemma adjust_eq (e : MdamEndPoint α) (s : Option (MdamInterval α)) :
    e.adjustIntervalPtr e.interval0 s = adjust reading e s := by
  cases h : e.interval0 <;> simp [adjustIntervalPtr, adjust, reading, h]

lemma adjust_swap_eq (e : MdamEndPoint α) (s : Option (MdamInterval α)) :
    e.adjustIntervalPtr e.interval1 s = adjust reading.swap e s := by
  cases h : e.interval1 <;>
    simp [adjustIntervalPtr, adjust, reading, Reading.swap, h]

lemma activeIntervals_of_alternates (hbel : ∀ e' ∈ e :: es, e'.interval0 ≠ none ∨
      e'.interval1 ≠ none) (h0 : Alternates reading s (e :: es))
    (h1 : Alternates reading.swap t (e :: es)) : activeIntervals e (count s + count t) =
      count (adjust reading e s) + count (adjust reading.swap e t) := by
  rw [← adjust_eq, ← adjust_swap_eq]
  refine activeIntervals_eq (hbel e List.mem_cons_self) (fun d hd => ?_) fun d hd => ?_
  · simpa [reading] using h0.1 d hd
  · simpa [reading, Reading.swap] using h1.1 d hd

end

lemma Swept.activeIntervals_first (h : Swept l l' (e :: es)) : activeIntervals e 0 =
      count (adjust reading e none) + count (adjust reading.swap e none) :=
  activeIntervals_of_alternates h.belongs h.alternates0 h.alternates1

def intersection (x : Piece (MdamEndPoint α) (MdamInterval α)) : Option (MdamInterval α) :=
  if x.left.isSome ∧ x.right.isSome then some ⟨x.first.point, x.last.point, []⟩ else none

omit [LinearOrder α] in
lemma count_add_eq_two : count s + count t = 2 ↔ s.isSome ∧ t.isSome := by
  cases s <;> cases t <;> simp [count]

omit [LinearOrder α] in
lemma intersectLoop_eq (hbel : ∀ e' ∈ es, e'.interval0 ≠ none ∨ e'.interval1 ≠ none)
    (h0 : Alternates reading s es) (h1 : Alternates reading.swap t es) :
    intersectLoop (count s + count t) e es = (pieces reading s t e es).filterMap intersection := by
  induction es generalizing s t e with
  | nil => rfl
  | cons e' es ih =>
    rw [intersectLoop, activeIntervals_of_alternates hbel h0 h1,
      ih (List.forall_mem_cons.1 hbel).2 h0.2 h1.2, pieces,
      List.filterMap_cons, intersection]
    simp only [count_add_eq_two]
    split_ifs <;> rfl

lemma intersect_eq (h : Swept l l' (merge (endPoints0 l) (endPoints1 l'))) : intersect l l' =
      (allPieces reading (merge (endPoints0 l) (endPoints1 l'))).filterMap intersection := by
  unfold intersect
  cases hzs : merge (endPoints0 l) (endPoints1 l') with
  | nil => rfl
  | cons e es =>
    rw [hzs] at h
    simp only [h.activeIntervals_first]
    exact intersectLoop_eq (List.forall_mem_cons.1 h.belongs).2 h.alternates0.2
      h.alternates1.2

section pieces
variable {x : Piece (MdamEndPoint α) (MdamInterval α)}

omit [LinearOrder α] in
/-- Where both lists are open, the last endpoint was a begin and the next one is an end. -/
theorem types_of_proper (hx : x.Proper reading)
    (hfst : x.first.interval0 ≠ none ∨ x.first.interval1 ≠ none)
    (hlast : x.last.interval0 ≠ none ∨ x.last.interval1 ≠ none) (hleft : x.left.isSome)
    (hrt : x.right.isSome) : x.first.endPointType = .beginning ∧ x.last.endPointType = .ending := by
  constructor
  · obtain ⟨s, hs⟩ := hx.left_eq
    obtain ⟨t, ht⟩ := hx.right_eq
    rw [← adjust_eq] at hs
    rw [← adjust_swap_eq] at ht
    by_contra htype
    rcases hfst with h | h
    · obtain ⟨i, hi⟩ := ne_none_iff_exists'.1 h
      simp [hs, adjustIntervalPtr, hi, htype] at hleft
    · obtain ⟨i, hi⟩ := ne_none_iff_exists'.1 h
      simp [ht, adjustIntervalPtr, hi, htype] at hrt
  · cases htype : x.last.endPointType with
    | ending => rfl
    | beginning =>
      rcases hlast with h | h
      · obtain ⟨i, hi⟩ := ne_none_iff_exists'.1 h
        simp [hx.left_last i hi, reading, htype] at hleft
      · obtain ⟨i, hi⟩ := ne_none_iff_exists'.1 h
        simp [hx.right_last i hi, reading, htype] at hrt

lemma separated_filterMap (h : Ascending reading zs)
    {f : Piece (MdamEndPoint α) (MdamInterval α) → Option (MdamInterval α)}
    (hf : ∀ x ∈ allPieces reading zs, ∀ i ∈ f x, lo i = cut x.first ∧ hi i = cut x.last) :
    Separated lo hi ((allPieces reading zs).filterMap f) := by
  constructor
  · intro i hi
    obtain ⟨x, hx, hxi⟩ := List.mem_filterMap.1 hi
    obtain ⟨hlo, hhi⟩ := hf x hx i hxi
    rw [hlo, hhi]
    exact le_of_mem_allPieces h hx
  · refine List.pairwise_filterMap.2 ((pairwise_allPieces h).imp_of_mem ?_)
    intro x y hx hy hle i hi j hj
    rw [(hf x hx i hi).2, (hf y hy j hj).1]
    exact hle

end pieces

lemma types_of_intersection {x : Piece (MdamEndPoint α) (MdamInterval α)} {i : MdamInterval α}
    (h : Swept l l' zs) (hx : x ∈ allPieces reading zs) (hi : i ∈ intersection x) :
    (x.first.endPointType = .beginning ∧ x.last.endPointType = .ending) ∧
      i = ⟨x.first.point, x.last.point, []⟩ := by
  unfold intersection at hi
  split_ifs at hi with hboth
  · obtain ⟨hfst, hlast⟩ := mem_of_mem_allPieces hx
    refine ⟨?_, (some.inj hi).symm⟩
    exact types_of_proper (proper_of_mem_allPieces h.alternates0 h.alternates1 hx)
      (h.belongs _ hfst) (h.belongs _ hlast) hboth.1 hboth.2
  · cases hi

lemma lo_intersection (h : Swept l l' zs) :
    ∀ x ∈ allPieces reading zs, ∀ i ∈ intersection x, lo i = cut x.first ∧ hi i = cut x.last := by
  intro x hx i hi
  obtain ⟨⟨hbeginning, hending⟩, rfl⟩ := types_of_intersection h hx hi
  exact ⟨toLex_beginning hbeginning, toLex_ending hending⟩

def Covers (l : List (MdamInterval α)) (v : α) : Prop := ∃ i ∈ l, i.contains v

lemma Swept.isSome_iff (h : Swept l l' zs) (v : α) :
    ((stateAt reading (pos v) none zs).isSome ↔ Covers l v) ∧
      ((stateAt reading.swap (pos v) none zs).isSome ↔ Covers l' v) := by
  constructor
  · simp only [isSome_iff_exists, h.state0, Covers, contains_iff]
  · simp only [isSome_iff_exists, h.state1, Covers, contains_iff]

lemma intersect_spec (h : Separated lo hi l) (h' : Separated lo hi l') :
    Separated lo hi (intersect l l') ∧
      ∀ v, Covers (intersect l l') v ↔ Covers l v ∧ Covers l' v := by
  have hsw := swept h h'
  rw [intersect_eq hsw]
  refine ⟨separated_filterMap hsw.ascending (lo_intersection hsw), fun v => ?_⟩
  rw [← (hsw.isSome_iff v).1, ← (hsw.isSome_iff v).2]
  rw [← exists_mem_allPieces_iff hsw.ascending hsw.alternates0 hsw.alternates1
    (P := fun s t => s.isSome ∧ t.isSome) (by simp)]
  constructor
  · rintro ⟨i, hi, hv⟩
    obtain ⟨x, hx, hxi⟩ := List.mem_filterMap.1 hi
    obtain ⟨hlo, hhi⟩ := lo_intersection hsw x hx i hxi
    rw [contains_iff, hlo, hhi] at hv
    refine ⟨x, hx, hv.1, hv.2, ?_⟩
    unfold intersection at hxi
    split_ifs at hxi with hboth
    exact hboth
  · rintro ⟨x, hx, hfst, hlast, hboth⟩
    have hxi : intersection x = some ⟨x.first.point, x.last.point, []⟩ := if_pos hboth
    obtain ⟨hlo, hhi⟩ := lo_intersection hsw x hx _ hxi
    refine ⟨_, List.mem_filterMap.2 ⟨x, hx, hxi⟩, ?_⟩
    rw [contains_iff, hlo, hhi]
    exact ⟨hfst, hlast⟩

end Trafodion.Mdam
