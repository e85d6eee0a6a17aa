import Mathlib.Tactic.Linarith
import Mathlib.Tactic.Ring
import Trafodion.Runs

/-!
# Sequence generators

A session hands out the values of a cached range and fetches the next range from the row of the
sequence. Without a transaction it does so in one of its own. Inside a transaction the row is
read and written outside of any: the session stamps the row first and the range counts only if
the stamp is still there afterwards. A session that lost the stamp has written the row all the
same, and a transaction never looks at the stamp.
-/
namespace Trafodion.SeqGen

open List Function Runs SeqGen

structure Attributes where
  startValue : ℤ
  increment : ℤ
  maxValue : ℤ
  cache : ℕ
  increment_pos : 0 < increment

open Attributes

namespace Attributes

variable (a : Attributes)

def cacheSize : ℕ := if a.cache = 0 then 1 else a.cache

def delta : ℤ := a.increment * a.cacheSize

def advance (value : ℤ) : ℤ :=
  if a.maxValue < value + a.delta then a.maxValue + 1 else value + a.delta

def endValue (a : Attributes) (nextValue : ℤ) : ℤ :=
  let endValue := nextValue + a.increment * (a.cacheSize - 1)
  if a.maxValue < endValue then a.maxValue else endValue

end Attributes

/-- The row of the sequence. The last field counts the transactions of sessions that have
committed a change of it. -/
structure Row where
  nextValue : ℤ
  updTs : ℕ
  commits : ℕ
  deriving DecidableEq, Repr

inductive Attempt
  | start
  | inXn (startValue : ℤ) (commits : ℕ)
  | stamped (updUID : ℕ)
  | read (updUID : ℕ) (startValue : ℤ)
  | written (updUID : ℕ) (startValue : ℤ)
  deriving DecidableEq, Repr

inductive Phase
  | idle
  | fetching (startLocalXn : Bool) (numTries : ℕ) (attempt : Attempt)
  deriving DecidableEq, Repr

structure SeqGenEntry where
  fetchNewRange : Bool := true
  cachedStartValue : ℤ := 0
  cachedCurrValue : ℤ := 0
  cachedEndValue : ℤ := 0
  phase : Phase := .idle
  deriving DecidableEq, Repr

structure Range where
  startLocalXn : Bool
  value : ℤ
  deriving DecidableEq, Repr

structure State (ι : Type) where
  row : Row
  entries : ι → SeqGenEntry
  /-- The UIDs made so far. -/
  uids : List ℕ
  ranges : List Range
  returned : List ℤ

/-- A session calls `getNextSeqVal`, takes its next step, or gets an error from a statement. The
flag of a commit says whether it may succeed. -/
inductive Event (ι : Type)
  | getNextSeqVal (session : ι) (inXn : Bool)
  | readInXn (session : ι)
  | commitWork (session : ι) (possible : Bool)
  | stamp (session : ι) (updUID : ℕ)
  | read (session : ι)
  | write (session : ι)
  | validate (session : ι)
  | fail (session : ι)

variable {ι : Type} [DecidableEq ι]

def init (ι : Type) (a : Attributes) : State ι where
  row := ⟨a.startValue, 0, 0⟩
  entries := fun _ => {}
  uids := [0]
  ranges := []
  returned := []

attribute [local simp] init

namespace State

variable (st : State ι) (s : ι)

def setEntry (e : SeqGenEntry) : State ι :=
  { st with entries := update st.entries s e }

def setPhase (p : Phase) : State ι :=
  st.setEntry s { st.entries s with phase := p }

def retry (startLocalXn : Bool) (numTries : ℕ) : State ι :=
  st.setPhase s
    (if numTries + 1 < 10 then .fetching startLocalXn (numTries + 1) .start else .idle)

/-- `fetchNewRange` after a successful attempt, and the value that is returned. -/
def fetched (a : Attributes) (st : State ι) (s : ι) (startLocalXn : Bool) (value : ℤ) :
    State ι :=
  let e : SeqGenEntry := { st.entries s with
    cachedStartValue := value
    cachedCurrValue := value
    cachedEndValue := a.endValue value
    phase := .idle }
  if a.maxValue < value then st.setEntry s e
  else { st.setEntry s { e with fetchNewRange := false } with
    ranges := ⟨startLocalXn, value⟩ :: st.ranges
    returned := value :: st.returned }

/-- `getNextSeqVal` up to the fetch. -/
def getNextSeqVal (a : Attributes) (st : State ι) (s : ι) (inXn : Bool) : State ι :=
  let e := st.entries s
  let next := e.cachedCurrValue + a.increment
  if e.fetchNewRange then st.setPhase s (.fetching (!inXn) 0 .start)
  else if e.cachedEndValue < next then
    st.setEntry s { e with
      cachedCurrValue := next
      fetchNewRange := true
      phase := .fetching (!inXn) 0 .start }
  else { st.setEntry s { e with cachedCurrValue := next } with returned := next :: st.returned }

end State

variable (a : Attributes) (st : State ι)

def step : Event ι → State ι
  | .getNextSeqVal s inXn =>
    match (st.entries s).phase with
    | .idle => st.getNextSeqVal a s inXn
    | _ => st
  | .readInXn s =>
    match (st.entries s).phase with
    | .fetching true n .start =>
      st.setPhase s (.fetching true n (.inXn st.row.nextValue st.row.commits))
    | _ => st
  | .commitWork s possible =>
    match (st.entries s).phase with
    | .fetching true n (.inXn value commits) =>
      -- of two such transactions at the same time only one commits
      if possible ∧ st.row.commits = commits then
        State.fetched a { st with row := { st.row with
          nextValue := a.advance value, commits := commits + 1 } } s true value
      else st.retry s true n
    | _ => st
  | .stamp s updUID =>
    match (st.entries s).phase with
    | .fetching false n .start =>
      if updUID ∈ st.uids then st
      else State.setPhase { st with
        row := { st.row with updTs := updUID }, uids := updUID :: st.uids } s
          (.fetching false n (.stamped updUID))
    | _ => st
  | .read s =>
    match (st.entries s).phase with
    | .fetching false n (.stamped updUID) =>
      st.setPhase s (.fetching false n (.read updUID st.row.nextValue))
    | _ => st
  | .write s =>
    match (st.entries s).phase with
    | .fetching false n (.read updUID value) =>
      State.setPhase { st with row := { st.row with nextValue := a.advance value } } s
        (.fetching false n (.written updUID value))
    | _ => st
  | .validate s =>
    match (st.entries s).phase with
    | .fetching false n (.written updUID value) =>
      if st.row.updTs = updUID then st.fetched a s false value else st.retry s false n
    | _ => st
  | .fail s =>
    match (st.entries s).phase with
    | .fetching _ _ _ => st.setPhase s .idle
    | _ => st

/-- The steps that do no harm. A transaction commits over the value it read. A write outside of
a transaction does not put the next value back, and if the stamp is still there, no
transaction has got the range it read. -/
def Calm : Event ι → Prop
  | .commitWork s _ =>
    match (st.entries s).phase with
    | .fetching true _ (.inXn value _) => st.row.nextValue = value
    | _ => True
  | .write s =>
    match (st.entries s).phase with
    | .fetching false _ (.read updUID value) =>
      st.row.nextValue ≤ a.advance value ∧
        (st.row.updTs = updUID → ∀ r ∈ st.ranges, r.startLocalXn = true → r.value ≠ value)
    | _ => True
  | _ => True

/-! ### Arithmetic of the ranges -/

namespace Attributes

variable (a : Attributes)

lemma cacheSize_pos : 0 < a.cacheSize := by
  unfold cacheSize
  split_ifs <;> omega

lemma delta_pos : 0 < a.delta :=
  mul_pos a.increment_pos (Int.natCast_pos.2 a.cacheSize_pos)

variable {a}

lemma lt_advance {value : ℤ} (h : value ≤ a.maxValue) : value < a.advance value := by
  have hpos := a.delta_pos
  unfold advance
  split_ifs <;> omega

lemma advance_le_advance {value next : ℤ} (h : a.advance value ≤ next) :
    a.advance value ≤ a.advance next := by
  have hpos := a.delta_pos
  unfold advance at *
  split_ifs at * <;> omega

def Aligned (a : Attributes) (value : ℤ) : Prop := ∃ k : ℕ, value = a.startValue + k * a.delta

def RowValue (a : Attributes) (value : ℤ) : Prop := a.maxValue < value ∨ a.Aligned value

lemma RowValue.advance {value : ℤ} (h : a.RowValue value) : a.RowValue (a.advance value) := by
  have hpos := a.delta_pos
  unfold Attributes.advance
  split_ifs with hlt
  · exact .inl (by omega)
  · obtain hmax | ⟨k, hk⟩ := h
    · exact absurd hmax (by omega)
    · refine .inr ⟨k + 1, ?_⟩
      rw [hk]
      push_cast
      ring

def InRange (a : Attributes) (start value : ℤ) : Prop :=
  ∃ j : ℕ, j < a.cacheSize ∧ value = start + j * a.increment

lemma inRange_self (start : ℤ) : a.InRange start start := ⟨0, a.cacheSize_pos, by simp⟩

lemma InRange.unique {start start' value : ℤ} (h : a.Aligned start) (h' : a.Aligned start')
    (hin : a.InRange start value) (hin' : a.InRange start' value) : start = start' := by
  obtain ⟨k, hk⟩ := h
  obtain ⟨k', hk'⟩ := h'
  obtain ⟨j, hj, hval⟩ := hin
  obtain ⟨j', hj', hval'⟩ := hin'
  have hint : (k * a.cacheSize + j : ℤ) * a.increment = (k' * a.cacheSize + j') * a.increment := by
    have heq := hval.symm.trans hval'
    rw [hk, hk', delta] at heq
    linarith
  have hnat : a.cacheSize * k + j = a.cacheSize * k' + j' := by
    have := mul_right_cancel₀ a.increment_pos.ne' hint
    have hcast : ((a.cacheSize * k + j : ℕ) : ℤ) = (a.cacheSize * k' + j' : ℕ) := by
      push_cast
      linarith
    exact_mod_cast hcast
  have hdiv := congrArg (· / a.cacheSize) hnat
  simp only [Nat.mul_add_div a.cacheSize_pos, Nat.div_eq_of_lt hj, Nat.div_eq_of_lt hj',
    Nat.add_zero] at hdiv
  rw [hk, hk', hdiv]

lemma endValue_le_max {start : ℤ} : a.endValue start ≤ a.maxValue := by
  unfold endValue
  dsimp only
  split_ifs <;> omega

lemma inRange_of_le_endValue {start : ℤ} {j : ℕ}
    (h : start + j * a.increment ≤ a.endValue start) : j < a.cacheSize := by
  have hle : start + j * a.increment ≤ start + a.increment * (a.cacheSize - 1) := by
    refine h.trans ?_
    unfold endValue
    dsimp only
    split_ifs <;> omega
  have hmul : (j : ℤ) * a.increment ≤ (a.cacheSize - 1) * a.increment := by linarith
  have hj := le_of_mul_le_mul_right hmul a.increment_pos
  omega

end Attributes

/-! ### What holds in every run -/

def Phase.value : Phase → Option ℤ
  | .fetching _ _ (.inXn value _) => some value
  | .fetching _ _ (.read _ value) => some value
  | .fetching _ _ (.written _ value) => some value
  | _ => none

attribute [local simp] Phase.value

def Phase.updUID : Phase → Option ℕ
  | .fetching _ _ (.stamped updUID) => some updUID
  | .fetching _ _ (.read updUID _) => some updUID
  | .fetching _ _ (.written updUID _) => some updUID
  | _ => none

attribute [local simp] Phase.updUID

/-- An entry reads values of the row, fetches only when its range is used up, and stays within
its range otherwise. -/
structure SeqGenEntry.Shaped (a : Attributes) (e : SeqGenEntry) : Prop where
  value : ∀ v, e.phase.value = some v → a.RowValue v
  fetching : e.fetchNewRange = false → e.phase = .idle
  start : e.fetchNewRange = false → a.Aligned e.cachedStartValue
  curr : e.fetchNewRange = false →
    ∃ j : ℕ, e.cachedCurrValue = e.cachedStartValue + j * a.increment
  last : e.fetchNewRange = false → e.cachedEndValue = a.endValue e.cachedStartValue

structure Shaped (a : Attributes) (st : State ι) : Prop where
  row : a.RowValue st.row.nextValue
  entries : ∀ s, (st.entries s).Shaped a
  ranges : ∀ r ∈ st.ranges, r.value ≤ a.maxValue ∧ a.Aligned r.value
  returned : ∀ x ∈ st.returned, x ≤ a.maxValue ∧ ∃ k : ℕ, x = a.startValue + k * a.increment

lemma Attributes.Aligned.add {a : Attributes} {start : ℤ} (h : a.Aligned start) (j : ℕ) :
    ∃ k : ℕ, start + j * a.increment = a.startValue + k * a.increment := by
  obtain ⟨k, hk⟩ := h
  refine ⟨k * a.cacheSize + j, ?_⟩
  rw [hk, delta]
  push_cast
  ring

namespace Shaped

variable {a : Attributes} {st : State ι}

lemma setEntry (h : Shaped a st) (s : ι) {e : SeqGenEntry} (he : e.Shaped a) :
    Shaped a (st.setEntry s e) := by
  refine { h with entries := ?_ }
  exact (forall_update_iff st.entries fun _ e => e.Shaped a).2 ⟨he, fun s' _ => h.entries s'⟩

variable {s : ι}

section
variable (h : Shaped a st)
include h

lemma setPhase {p : Phase} (hfetch : p = .idle ∨ (st.entries s).fetchNewRange = true)
    (hp : ∀ v, p.value = some v → a.RowValue v) : Shaped a (st.setPhase s p) := by
  have he := h.entries s
  refine h.setEntry s ⟨hp, fun hfls => ?_, he.start, he.curr, he.last⟩
  refine hfetch.resolve_right fun htrue => ?_
  rw [hfls] at htrue
  cases htrue

omit [DecidableEq ι] in
lemma setRow {r : Row} (hrow : a.RowValue r.nextValue) : Shaped a { st with row := r } :=
  { h with row := hrow }

lemma retry (hfetch : (st.entries s).fetchNewRange = true)
    (startLocalXn : Bool) (tries : ℕ) : Shaped a (st.retry s startLocalXn tries) := by
  refine h.setPhase (.inr hfetch) fun v hv => ?_
  split_ifs at hv <;> cases hv

lemma fetched (hfetch : (st.entries s).fetchNewRange = true)
    {startLocalXn : Bool} {value : ℤ} (hval : a.RowValue value) :
    Shaped a (st.fetched a s startLocalXn value) := by
  unfold State.fetched
  split_ifs with hmax
  · refine h.setEntry s ⟨by simp, ?_, ?_, ?_, ?_⟩ <;> simp [hfetch]
  · have halign := hval.resolve_left hmax
    have hent : Shaped a (st.setEntry s { st.entries s with
        fetchNewRange := false
        cachedStartValue := value
        cachedCurrValue := value
        cachedEndValue := a.endValue value
        phase := .idle }) :=
      h.setEntry s ⟨by simp, fun _ => rfl, fun _ => halign,
        fun _ => ⟨0, by simp⟩, fun _ => rfl⟩
    have halign' := halign.add 0
    exact { hent with
      ranges := forall_mem_cons.2 ⟨⟨not_lt.1 hmax, halign⟩, h.ranges⟩
      returned := forall_mem_cons.2 ⟨⟨not_lt.1 hmax, by simpa using halign'⟩, h.returned⟩ }

lemma getNextSeqVal (s : ι) (inXn : Bool) : Shaped a (st.getNextSeqVal a s inXn) := by
  have he := h.entries s
  unfold State.getNextSeqVal
  dsimp only
  split_ifs with hfetch hlast
  · exact h.setPhase (.inr hfetch) (by simp)
  · refine h.setEntry s ⟨by simp, ?_, ?_, ?_, ?_⟩ <;> simp
  · have hfetch' : (st.entries s).fetchNewRange = false := by simpa using hfetch
    obtain ⟨j, hj⟩ := he.curr hfetch'
    have hnext : (st.entries s).cachedCurrValue + a.increment =
        (st.entries s).cachedStartValue + (j + 1 : ℕ) * a.increment := by
      rw [hj]
      push_cast
      ring
    have hent : Shaped a (st.setEntry s { st.entries s with
        cachedCurrValue := (st.entries s).cachedCurrValue + a.increment }) :=
      h.setEntry s ⟨he.value, he.fetching, he.start, fun _ => ⟨j + 1, hnext⟩, he.last⟩
    refine { hent with returned := forall_mem_cons.2 ⟨⟨?_, ?_⟩, h.returned⟩ }
    · rw [he.last hfetch', not_lt] at hlast
      exact hlast.trans a.endValue_le_max
    · rw [hnext]
      exact (he.start hfetch').add (j + 1)

end

section

omit [DecidableEq ι]

lemma init (a : Attributes) : Shaped a (init ι a) :=
  { row := .inr ⟨0, by simp⟩
    entries := fun s => by
      refine ⟨?_, ?_, ?_, ?_, ?_⟩ <;> simp
    ranges := by simp
    returned := by simp }

lemma used_up (h : Shaped a st) {b : Bool} {n : ℕ} {t : Attempt}
    (hph : (st.entries s).phase = .fetching b n t) : (st.entries s).fetchNewRange = true := by
  by_contra hfetch
  have hidle := (h.entries s).fetching (by simpa using hfetch)
  rw [hph] at hidle
  cases hidle

lemma rowValue (h : Shaped a st) {p : Phase} {v : ℤ}
    (hph : (st.entries s).phase = p) (hv : p.value = some v) : a.RowValue v :=
  (h.entries s).value v (by rw [hph, hv])

end

lemma step (h : Shaped a st) (ev : Event ι) : Shaped a (SeqGen.step a st ev) := by
  -- a call that does not fit the phase of its session changes nothing
  cases ev with (simp only [SeqGen.step]; split; case h_2 => exact h)
  | getNextSeqVal s inXn => exact h.getNextSeqVal s inXn
  | readInXn s | read s =>
    next hph =>
    refine h.setPhase (.inr (h.used_up hph)) fun v hv => ?_
    cases hv
    exact h.row
  | commitWork s possible =>
    next n value commits hph =>
    have hval := h.rowValue hph rfl
    split_ifs
    · have hrow : Shaped a { st with
          row := ⟨a.advance value, st.row.updTs, commits + 1⟩ } := h.setRow hval.advance
      exact hrow.fetched (h.used_up hph) hval
    · exact h.retry (h.used_up hph) _ _
  | stamp s updUID =>
    next n hph =>
    split_ifs
    · exact h
    · have hrow : Shaped a { st with
          row := { st.row with updTs := updUID }, uids := updUID :: st.uids } :=
        { h with row := h.row }
      exact hrow.setPhase (.inr (h.used_up hph)) (by simp)
  | write s =>
    next hph =>
    have hval := h.rowValue hph rfl
    refine Shaped.setPhase ?_ (.inr (h.used_up hph)) fun v hv => ?_
    · exact h.setRow hval.advance
    · cases hv
      exact hval
  | validate s =>
    next hph =>
    split_ifs
    · exact h.fetched (h.used_up hph) (h.rowValue hph rfl)
    · exact h.retry (h.used_up hph) _ _
  | fail s => exact h.setPhase (.inl rfl) (by simp)

end Shaped

/-! ### What holds in calm runs -/

def Exclusive {κ : Type} (f : ι → Option κ) : Prop :=
  ∀ s s' k, f s = some k → f s' = some k → s = s'

lemma Exclusive.update {κ : Type} (g : SeqGenEntry → Option κ) {f : ι → SeqGenEntry}
    (h : Exclusive fun s => g (f s)) {s : ι} {e : SeqGenEntry}
    (ho : ∀ k, g e = some k → ∀ s', s' ≠ s → g (f s') ≠ some k) :
    Exclusive fun s' => g (update f s e s') := by
  intro s₁ s₂ k h₁ h₂
  simp only [update_apply] at h₁ h₂
  split_ifs at h₁ h₂ with hs₁ hs₂ hs₂
  · rw [hs₁, hs₂]
  · exact absurd h₂ (ho k h₁ s₂ hs₂)
  · exact absurd h₁ (ho k h₂ s₁ hs₁)
  · exact h s₁ s₂ k h₁ h₂

def SeqGenEntry.owned (e : SeqGenEntry) : Option ℤ :=
  if e.fetchNewRange then none else some e.cachedStartValue

attribute [local simp] SeqGenEntry.owned

/-- While its stamp is there, nobody but a transaction can have got the range a session has
read, and nobody at all once the session has written. -/
def Pending (a : Attributes) (row : Row) (ranges : List Range) : Phase → Prop
  | .fetching _ _ (.read updUID value) =>
    row.updTs = updUID → ∀ r ∈ ranges, r.value = value → r.startLocalXn = true
  | .fetching _ _ (.written updUID value) =>
    a.advance value ≤ row.nextValue ∧
      (row.updTs = updUID → ∀ r ∈ ranges, r.value ≠ value)
  | _ => True

/-- What a session waits for stays if the row goes on, and a range that is new while its stamp is
there comes from a transaction and lies behind the row. -/
theorem Pending.mono {a : Attributes} {row row' : Row} {ranges ranges' : List Range} {p : Phase}
    (h : Pending a row ranges p)
    (hnext : ∀ v, a.advance v ≤ row.nextValue → a.advance v ≤ row'.nextValue)
    (hstamp : ∀ u, p.updUID = some u → row'.updTs = u → row.updTs = u ∧ ∀ r ∈ ranges',
      r ∈ ranges ∨ r.startLocalXn = true ∧ ∀ v, a.advance v ≤ row.nextValue → r.value ≠ v) :
    Pending a row' ranges' p := by
  match p with
  | .idle | .fetching _ _ .start | .fetching _ _ (.inXn _ _) | .fetching _ _ (.stamped _) => trivial
  | .fetching _ _ (.read u v) =>
    intro heq r hr hrv
    obtain ⟨hold, hranges⟩ := hstamp u rfl heq
    exact (hranges r hr).elim (fun hr => h hold r hr hrv) And.left
  | .fetching _ _ (.written u v) =>
    refine ⟨hnext v h.1, fun heq r hr => ?_⟩
    obtain ⟨hold, hranges⟩ := hstamp u rfl heq
    exact (hranges r hr).elim (h.2 hold r) fun hnew => hnew.2 v h.1

structure Unique (a : Attributes) (st : State ι) : Prop where
  uids : ∀ s u, (st.entries s).phase.updUID = some u → u ∈ st.uids
  stamps : Exclusive fun s => (st.entries s).phase.updUID
  passed : ∀ r ∈ st.ranges, a.advance r.value ≤ st.row.nextValue
  nodup : (st.ranges.map Range.value).Nodup
  pending : ∀ s, Pending a st.row st.ranges (st.entries s).phase
  owned : ∀ s v, (st.entries s).owned = some v → ∃ r ∈ st.ranges, r.value = v
  owners : Exclusive fun s => (st.entries s).owned
  returned : ∀ x ∈ st.returned, ∃ r ∈ st.ranges, a.InRange r.value x ∧
    ∀ s, (st.entries s).owned = some r.value → x ≤ (st.entries s).cachedCurrValue
  nodup_returned : st.returned.Nodup

namespace Unique

variable {a : Attributes} {st : State ι} {s : ι}

/-- A session goes on with its stamp or without one, and with its range or without one. -/
theorem setEntry (h : Unique a st) {e : SeqGenEntry} (huid : ∀ u, e.phase.updUID = some u →
      u ∈ st.uids ∧ ∀ s', s' ≠ s → (st.entries s').phase.updUID ≠ some u)
    (hpend : Pending a st.row st.ranges e.phase)
    (howned : ∀ v, e.owned = some v → (st.entries s).owned = some v ∧
      (st.entries s).cachedCurrValue ≤ e.cachedCurrValue) : Unique a (st.setEntry s e) := by
  refine { h with uids := ?_, stamps := ?_, pending := ?_, owned := ?_, owners := ?_,
                  returned := ?_ }
  · exact (forall_update_iff st.entries fun _ e => ∀ u, e.phase.updUID = some u → u ∈ st.uids).2
      ⟨fun u hu => (huid u hu).1, fun s' _ => h.uids s'⟩
  · exact h.stamps.update (fun e => e.phase.updUID) fun u hu => (huid u hu).2
  · exact (forall_update_iff st.entries fun _ e => Pending a st.row st.ranges e.phase).2
      ⟨hpend, fun s' _ => h.pending s'⟩
  · exact (forall_update_iff st.entries fun _ e => ∀ v, e.owned = some v → ∃ r ∈ st.ranges, r.value = v).2
      ⟨fun v hv => h.owned s v (howned v hv).1, fun s' _ => h.owned s'⟩
  · refine h.owners.update SeqGenEntry.owned fun v hv s' hs' hoth => hs' ?_
    exact h.owners s' s v hoth (howned v hv).1
  · intro x hx
    obtain ⟨r, hr, hin, hle⟩ := h.returned x hx
    refine ⟨r, hr, hin, ?_⟩
    exact (forall_update_iff st.entries fun _ e => e.owned = some r.value → x ≤ e.cachedCurrValue).2
      ⟨fun hv => (hle s (howned _ hv).1).trans (howned _ hv).2, fun s' _ => hle s'⟩

lemma setPhase (h : Unique a st) {p : Phase}
    (huid : ∀ u, p.updUID = some u → (st.entries s).phase.updUID = some u)
    (hpend : Pending a st.row st.ranges p) : Unique a (st.setPhase s p) := by
  refine h.setEntry (fun u hu => ⟨h.uids s u (huid u hu), fun s' hs' hoth => ?_⟩) hpend
    fun v hv => ⟨hv, le_rfl⟩
  exact hs' (h.stamps s' s u hoth (huid u hu))

lemma retry (h : Unique a st) (s : ι) (startLocalXn : Bool) (tries : ℕ) :
    Unique a (st.retry s startLocalXn tries) := by
  unfold State.retry
  split_ifs <;> exact h.setPhase (by simp) trivial

omit [DecidableEq ι] in
lemma setRow (h : Unique a st) {r : Row}
    (hpassed : ∀ v, a.advance v ≤ st.row.nextValue → a.advance v ≤ r.nextValue)
    (hstamp : r.updTs = st.row.updTs ∨ r.updTs ∉ st.uids) : Unique a { st with row := r } := by
  refine { h with passed := fun x hx => hpassed _ (h.passed x hx), pending := fun s => ?_ }
  refine (h.pending s).mono hpassed fun u hu heq => ⟨?_, fun _ => .inl⟩
  obtain hsame | hnew := hstamp
  · rw [← hsame, heq]
  · rw [heq] at hnew
    exact absurd (h.uids s u hu) hnew

variable {value : ℤ}

lemma fetched (h : Unique a st) (hshp : Shaped a st)
    (hfetch : (st.entries s).fetchNewRange = true) {startLocalXn : Bool}
    (hval : a.RowValue value) (hpassed : a.advance value ≤ st.row.nextValue)
    (hnew : value ≤ a.maxValue → ∀ r ∈ st.ranges, r.value ≠ value)
    (hpend : value ≤ a.maxValue → ∀ s', s' ≠ s →
      Pending a st.row (⟨startLocalXn, value⟩ :: st.ranges) (st.entries s').phase) :
    Unique a (st.fetched a s startLocalXn value) := by
  unfold State.fetched
  split_ifs with hmax
  · exact h.setEntry (by simp) trivial (by simp [hfetch])
  · have hle := not_lt.1 hmax
    have halign := hval.resolve_left hmax
    have hnone : ∀ s', (st.entries s').owned ≠ some value := by
      intro s' hs'
      obtain ⟨r, hr, heq⟩ := h.owned s' value hs'
      exact hnew hle r hr heq
    refine ⟨?_, ?_, ?_, ?_, ?_, ?_, ?_, ?_, ?_⟩
    · exact (forall_update_iff st.entries fun _ e => ∀ u, e.phase.updUID = some u → u ∈ st.uids).2
        ⟨by simp, fun s' _ => h.uids s'⟩
    · exact h.stamps.update (fun e => e.phase.updUID) (by simp)
    · exact forall_mem_cons.2 ⟨hpassed, h.passed⟩
    · refine nodup_cons.2 ⟨fun hmem => ?_, h.nodup⟩
      obtain ⟨r, hr, heq⟩ := mem_map.1 hmem
      exact hnew hle r hr heq
    · exact (forall_update_iff st.entries fun _ e =>
        Pending a st.row (⟨startLocalXn, value⟩ :: st.ranges) e.phase).2 ⟨trivial, hpend hle⟩
    · refine (forall_update_iff st.entries fun _ e => ∀ v, e.owned = some v →
        ∃ r ∈ (⟨startLocalXn, value⟩ :: st.ranges : List Range), r.value = v).2
          ⟨?_, fun s' _ v hv => ?_⟩
      · rintro v hv
        refine ⟨_, mem_cons_self, ?_⟩
        simpa using hv
      · obtain ⟨r, hr, heq⟩ := h.owned s' v hv
        exact ⟨r, mem_cons_of_mem _ hr, heq⟩
    · refine h.owners.update SeqGenEntry.owned fun v hv s' _ hoth => ?_
      have heq : value = v := by simpa using hv
      exact hnone s' (heq ▸ hoth)
    · intro x hx
      obtain rfl | hx := mem_cons.1 hx
      · refine ⟨_, mem_cons_self, a.inRange_self _, ?_⟩
        exact (forall_update_iff st.entries fun _ e => e.owned = some x → x ≤ e.cachedCurrValue).2
          ⟨fun _ => le_rfl, fun s' _ hoth => absurd hoth (hnone s')⟩
      · obtain ⟨r, hr, hin, hcurr⟩ := h.returned x hx
        refine ⟨r, mem_cons_of_mem _ hr, hin, ?_⟩
        refine (forall_update_iff st.entries fun _ e => e.owned = some r.value → x ≤ e.cachedCurrValue).2
          ⟨fun hv => ?_, fun s' _ => hcurr s'⟩
        have heq : value = r.value := by simpa using hv
        exact absurd heq.symm (hnew hle r hr)
    · refine nodup_cons.2 ⟨fun hmem => ?_, h.nodup_returned⟩
      obtain ⟨r, hr, hin, -⟩ := h.returned value hmem
      exact hnew hle r hr
        (Attributes.InRange.unique (hshp.ranges r hr).2 halign hin (a.inRange_self value))

lemma getNextSeqVal (h : Unique a st) (hshp : Shaped a st) (inXn : Bool)
    (hidle : (st.entries s).phase = .idle) : Unique a (st.getNextSeqVal a s inXn) := by
  unfold State.getNextSeqVal
  dsimp only
  split_ifs with hfetch hlast
  · exact h.setPhase (by simp) trivial
  · exact h.setEntry (by simp) trivial (by simp)
  · have he := hshp.entries s
    have hfetch' : (st.entries s).fetchNewRange = false := by simpa using hfetch
    have hpos := a.increment_pos
    have howned : (st.entries s).owned = some (st.entries s).cachedStartValue := by
      simp [hfetch']
    obtain ⟨r, hr, hst0⟩ := h.owned s _ howned
    obtain ⟨j, hj⟩ := he.curr hfetch'
    have hnext : (st.entries s).cachedCurrValue + a.increment =
        r.value + (j + 1 : ℕ) * a.increment := by
      rw [hj, hst0]
      push_cast
      ring
    have hin : a.InRange r.value ((st.entries s).cachedCurrValue + a.increment) := by
      refine ⟨j + 1, ?_, hnext⟩
      rw [he.last hfetch', not_lt, hnext, hst0] at hlast
      exact inRange_of_le_endValue hlast
    have hent : Unique a (st.setEntry s { st.entries s with
        cachedCurrValue := (st.entries s).cachedCurrValue + a.increment }) := by
      refine h.setEntry (by simp [hidle]) ?_ fun v hv => ⟨hv, by simp; omega⟩
      rw [hidle]
      trivial
    refine { hent with returned := ?_, nodup_returned := ?_ }
    · refine forall_mem_cons.2 ⟨⟨r, hr, hin, ?_⟩, hent.returned⟩
      refine (forall_update_iff st.entries fun _ e => e.owned = some r.value → _ ≤ e.cachedCurrValue).2
        ⟨fun _ => le_rfl, fun s' hs' hoth => absurd ?_ hs'⟩
      exact h.owners s' s r.value hoth (howned.trans (by rw [hst0]))
    · refine nodup_cons.2 ⟨fun hmem => ?_, h.nodup_returned⟩
      -- the value would have been returned from the same range, but lies behind it
      obtain ⟨r', hr', hin', hcurr⟩ := h.returned _ hmem
      have heq := Attributes.InRange.unique (hshp.ranges r' hr').2 (hshp.ranges r hr).2
        hin' hin
      have hle := hcurr s (by rw [howned, heq, hst0])
      omega

omit [DecidableEq ι] in
lemma init (a : Attributes) : Unique a (init ι a) := by
  refine ⟨?_, ?_, ?_, ?_, ?_, ?_, ?_, ?_, ?_⟩ <;>
    simp [Exclusive, Pending]

section
variable (h : Unique a st) (hshp : Shaped a st)
include h hshp

lemma commitWork {n : ℕ}
    {commits : ℕ} (hph : (st.entries s).phase = .fetching true n (.inXn value commits))
    (hcalm : st.row.nextValue = value) : Unique a (State.fetched a
      { st with row := ⟨a.advance value, st.row.updTs, commits + 1⟩ } s true value) := by
  have hval := hshp.rowValue hph rfl
  have hbehind : ∀ v, a.advance v ≤ st.row.nextValue → value ≤ a.maxValue → v ≠ value := by
    rintro v hv hle rfl
    have hlt := lt_advance hle
    omega
  have hrow : Unique a { st with row := ⟨a.advance value, st.row.updTs, commits + 1⟩ } := by
    refine h.setRow (fun v hv => ?_) (.inl rfl)
    rw [hcalm] at hv
    exact advance_le_advance hv
  refine hrow.fetched (hshp.setRow hval.advance) (hshp.used_up hph) hval le_rfl
    (fun hle r hr => hbehind _ (h.passed r hr) hle) fun hle s' _ => ?_
  refine (h.pending s').mono (fun v hv => ?_) fun u _ heq => ⟨heq, fun r hr => ?_⟩
  · rw [hcalm] at hv
    exact advance_le_advance hv
  · obtain rfl | hr := mem_cons.1 hr
    · exact .inr ⟨rfl, fun v hv => (hbehind v hv hle).symm⟩
    · exact .inl hr

lemma validate {n : ℕ} {u : ℕ} (hph : (st.entries s).phase = .fetching false n (.written u value))
    (hstamp : st.row.updTs = u) : Unique a (st.fetched a s false value) := by
  have hpend := h.pending s
  rw [hph] at hpend
  refine h.fetched hshp (hshp.used_up hph) (hshp.rowValue hph rfl) hpend.1
    (fun _ => hpend.2 hstamp) fun _ s' hs' => ?_
  refine (h.pending s').mono (fun _ => id) fun u' hu' heq => absurd ?_ hs'
  have hmine : (st.entries s).phase.updUID = some u' := by
    rw [hph, ← heq, hstamp]
    rfl
  exact h.stamps s' s u' hu' hmine

lemma step (ev : Event ι) (hcalm : Calm a st ev) : Unique a (SeqGen.step a st ev) := by
  cases ev with (simp only [SeqGen.step]; split; case h_2 => exact h)
  | getNextSeqVal s inXn =>
    next hph => exact h.getNextSeqVal hshp inXn hph
  | readInXn s | fail s => exact h.setPhase (by simp) trivial
  | commitWork s possible =>
    next hph =>
    simp only [Calm, hph] at hcalm
    split_ifs
    · exact h.commitWork hshp hph hcalm
    · exact h.retry _ _ _
  | stamp s updUID =>
    next n hph =>
    split_ifs with hmem
    · exact h
    · have hrow : Unique a { st with
          row := { st.row with updTs := updUID }, uids := updUID :: st.uids } :=
        { h.setRow (r := { st.row with updTs := updUID }) (fun _ hv => hv) (.inr hmem) with
          uids := fun s' u hu => mem_cons_of_mem _ (h.uids s' u hu) }
      refine hrow.setEntry (fun u hu => ?_) trivial fun v hv => ⟨hv, le_rfl⟩
      cases hu
      exact ⟨mem_cons_self, fun s' _ hoth => hmem (h.uids s' updUID hoth)⟩
  | read s =>
    next hph =>
    refine h.setPhase (fun u' hu' => by rw [hph]; exact hu') fun _ r hr heq => ?_
    -- the row is past every range
    have hlt := Attributes.lt_advance (hshp.ranges r hr).1
    have hle := h.passed r hr
    omega
  | write s =>
    next n u value hph =>
    simp only [Calm, hph] at hcalm
    have hpend := h.pending s
    rw [hph] at hpend
    have hrow : Unique a { st with row := { st.row with nextValue := a.advance value } } :=
      h.setRow (fun v hv => hv.trans hcalm.1) (.inl rfl)
    refine hrow.setPhase (fun u' hu' => by rw [hph]; exact hu') ⟨le_rfl, ?_⟩
    intro hstamp r hr heq
    exact hcalm.2 hstamp r hr (hpend hstamp r hr heq) heq
  | validate s =>
    next hph =>
    split_ifs with hstamp
    · exact h.validate hshp hph hstamp
    · exact h.retry _ _ _

end

end Unique

/-- **Sequence values.** In every run the values are those of the sequence, and in every calm run
none is returned twice. -/
theorem sequence_values (a : Attributes) (l : List (Event ι)) :
    (∀ x ∈ (run (step a) (init ι a) l).returned,
      x ≤ a.maxValue ∧ ∃ k : ℕ, x = a.startValue + k * a.increment) ∧
    (Runs.Guarded (step a) (Calm a) (init ι a) l → (run (step a) (init ι a) l).returned.Nodup) := by
  constructor
  · exact (run_invariant (fun _ ev h => h.step ev) (Shaped.init a) l).returned
  · intro hcalm
    have hinv : Shaped a (run (step a) (init ι a) l) ∧
        Unique a (run (step a) (init ι a) l) :=
      hcalm.invariant (I := fun st => Shaped a st ∧ Unique a st)
        (fun st ev h hev => ⟨h.1.step ev, h.2.step h.1 ev hev⟩) ⟨Shaped.init a, Unique.init a⟩
    exact hinv.2.nodup_returned

def hundred : Attributes := ⟨1, 1, 100, 0, one_pos⟩

def stampedFetch (s updUID : ℕ) : List (Event ℕ) :=
  [.getNextSeqVal s true, .stamp s updUID, .read s, .write s, .validate s]

/-- A session inside a transaction and one with a transaction of its own. -/
theorem two_sessions_distinct : Runs.Guarded (step hundred) (Calm hundred) (init ℕ hundred)
      (stampedFetch 0 1 ++ [.getNextSeqVal 1 false, .readInXn 1, .commitWork 1 true]) ∧
    (run (step hundred) (init ℕ hundred) (stampedFetch 0 1 ++
      [.getNextSeqVal 1 false, .readInXn 1, .commitWork 1 true])).returned = [2, 1] ∧
    (run (step hundred) (init ℕ hundred) (stampedFetch 0 1 ++
      [.getNextSeqVal 1 false, .readInXn 1, .commitWork 1 true])).returned.Nodup := by
  have hcalm : Runs.Guarded (step hundred) (Calm hundred) (init ℕ hundred)
      (stampedFetch 0 1 ++ [.getNextSeqVal 1 false, .readInXn 1, .commitWork 1 true]) := by
    refine ⟨trivial, trivial, trivial, ⟨by decide, by decide⟩, trivial, trivial, trivial,
      rfl, trivial⟩
  exact ⟨hcalm, by decide, (sequence_values hundred _).2 hcalm⟩

/-- A session that lost its stamp puts the next value back: the value 2 is returned twice. -/
theorem stale_write_returns_twice : (run (step hundred) (init ℕ hundred)
      ([.getNextSeqVal 2 true, .stamp 2 1, .read 2] ++ stampedFetch 0 2 ++ stampedFetch 0 3 ++
        [.write 2] ++ stampedFetch 1 4)).returned = [2, 2, 1] := by
  decide

end Trafodion.SeqGen
