import Trafodion.SequenceGenerator

/-!
# Sequences that cycle

A session that finds the row of a `CYCLE` sequence past the maximum restarts the sequence in a second
transaction. That does not look at the row, which another session may have restarted meanwhile.
-/
namespace Trafodion.SeqGen.Cycle

open List Function Runs Attributes

/-- A range that was handed out, and `next_value` after it. -/
structure Fetch where
  value : ℤ
  nextValue : ℤ
  deriving DecidableEq, Repr

structure State (ι : Type) where
  nextValue : ℤ
  /-- The sessions between the two calls of `SeqGenCliInterfaceUpdAndValidateMulti`. -/
  recycling : ι → Bool
  /-- Newest first. -/
  fetches : List Fetch

/-- A transaction with `recycleQry` off or on commits, or the session gives up. -/
inductive Event (ι : Type)
  | fetch (session : ι)
  | recycle (session : ι)
  | fail (session : ι)

variable {ι : Type} [DecidableEq ι] (a : Attributes)

def init (ι : Type) : State ι := ⟨a.startValue, fun _ => false, []⟩

/-- The row is updated; `fetchNewRange` refuses a range that begins past the maximum. -/
def State.handOut (st : State ι) (value nextValue : ℤ) : State ι :=
  { st with
    nextValue := nextValue
    fetches := if a.maxValue < value then st.fetches else ⟨value, nextValue⟩ :: st.fetches }

def step (st : State ι) : Event ι → State ι
  | .fetch s =>
    if st.recycling s then st
    else
      { st.handOut a st.nextValue (a.advance st.nextValue) with
        recycling := update st.recycling s (a.maxValue < st.nextValue) }
  | .recycle s =>
    if st.recycling s then
      { st.handOut a a.startValue (a.startValue + a.delta) with
        recycling := update st.recycling s false }
    else st
  | .fail s => { st with recycling := update st.recycling s false }

def Fetch.Holds (f : Fetch) (v : ℤ) : Prop :=
  ∃ j : ℕ, v = f.value + j * a.increment ∧ v ≤ a.endValue f.value

/-- If a value is in two ranges, `next_value` passed the maximum between them and all values from the
first range on were handed out. A range begins with the start value exactly if the range before it
exhausted the sequence. -/
def FullCycles (fetches : List Fetch) : Prop :=
  (∀ q g m f p v, fetches = q ++ g :: (m ++ f :: p) → f.Holds a v → g.Holds a v →
    (∃ h ∈ m ++ [f], a.maxValue < h.nextValue) ∧
      ∀ k : ℕ, f.value + k * a.increment ≤ a.maxValue →
        ∃ h ∈ m ++ [f], h.Holds a (f.value + k * a.increment)) ∧
  ∀ q g f p, fetches = q ++ g :: f :: p → (g.value = a.startValue ↔ a.maxValue < f.nextValue)

/-- A session restarts the sequence only while it is used up. -/
def Timely (st : State ι) : Event ι → Prop
  | .recycle s => st.recycling s = true → a.maxValue < st.nextValue
  | _ => True

/-! ### The ranges of timely restarts -/

/-- `next_value` when the newest range was handed out. -/
def rowAfter : List Fetch → ℤ
  | [] => a.startValue
  | f :: _ => f.nextValue

/-- Each range begins where the last one ended, or with the start value after a passage. -/
inductive Orderly : List Fetch → Prop
  | nil : Orderly []
  | cons {l : List Fetch} {f : Fetch} (hl : Orderly l) (hmax : f.value ≤ a.maxValue)
    (hvalue : f.value = rowAfter a l ∧ rowAfter a l ≤ a.maxValue ∨
      f.value = a.startValue ∧ a.maxValue < rowAfter a l)
    (hnext : f.nextValue = f.value + a.delta ∨
      a.maxValue < f.nextValue ∧ a.maxValue < f.value + a.delta) : Orderly (f :: l)

variable {a} {l m p q : List Fetch} {f g : Fetch}

lemma Orderly.suffix (h : Orderly a (q ++ l)) : Orderly a l := by
  induction q with
  | nil => exact h
  | cons f q ih =>
    cases h with
    | cons hl => exact ih hl

lemma Orderly.start_le (h : Orderly a l) :
    a.startValue ≤ rowAfter a l ∧ (l ≠ [] → a.startValue < rowAfter a l) := by
  have hpos := a.delta_pos
  induction h with
  | nil => exact ⟨le_rfl, fun h => absurd rfl h⟩
  | @cons l f hl hmax hvalue hnext ih =>
    have hlt : a.startValue < f.nextValue := by omega
    exact ⟨hlt.le, fun _ => hlt⟩

lemma rowAfter_mem (a : Attributes) (m p : List Fetch) (f : Fetch) :
    ∃ h ∈ m ++ [f], h.nextValue = rowAfter a (m ++ f :: p) := by
  cases m with
  | nil => exact ⟨f, by simp, rfl⟩
  | cons h m => exact ⟨h, by simp, rfl⟩

lemma holds_or_later (hnext : f.nextValue = f.value + a.delta ∨
      a.maxValue < f.nextValue ∧ a.maxValue < f.value + a.delta) {k : ℕ} {v : ℤ}
    (hv : v = f.value + k * a.increment) (hmax : v ≤ a.maxValue) :
    f.Holds a v ∨ f.nextValue ≤ a.maxValue ∧ ∃ j : ℕ, v = f.nextValue + j * a.increment := by
  have hpos := a.increment_pos
  rcases lt_or_ge k a.cacheSize with hk | hk
  · have hle : (k : ℤ) * a.increment ≤ (a.cacheSize - 1) * a.increment :=
      mul_le_mul_of_nonneg_right (by omega) hpos.le
    refine .inl ⟨k, hv, ?_⟩
    unfold endValue
    dsimp only
    split_ifs <;> linarith
  · obtain ⟨j, rfl⟩ := Nat.exists_eq_add_of_le hk
    have hj : v = f.value + a.delta + j * a.increment := by
      rw [hv, delta]
      push_cast
      ring
    have hj0 : 0 ≤ j * a.increment := mul_nonneg (by omega) hpos.le
    have hrow : f.nextValue = f.value + a.delta := by omega
    exact .inr ⟨by omega, j, hrow ▸ hj⟩

/-- The values of the sequence are handed out without gaps up to a passage. -/
theorem Orderly.holds_or_later (h : Orderly a (m ++ f :: p)) {k : ℕ} {v : ℤ}
    (hv : v = f.value + k * a.increment) (hmax : v ≤ a.maxValue) :
    (∃ g ∈ m ++ [f], g.Holds a v) ∨ (∀ g ∈ m ++ [f], g.nextValue ≤ a.maxValue) ∧
      ∃ j : ℕ, v = rowAfter a (m ++ f :: p) + j * a.increment := by
  induction m with
  | nil =>
    cases h with
    | cons _ _ _ hnext => simpa [rowAfter] using Cycle.holds_or_later hnext hv hmax
  | cons g m ih =>
    cases h with
    | cons hl _ hvalue hnext =>
      rcases ih hl with ⟨e, he, hholds⟩ | ⟨hnone, j, hj⟩
      · exact .inl ⟨e, mem_cons_of_mem _ he, hholds⟩
      obtain ⟨e, he, hrow⟩ := rowAfter_mem a m p f
      have hval := (hvalue.resolve_right fun h => absurd (hrow ▸ h.2) (not_lt.2 (hnone e he))).1
      rcases Cycle.holds_or_later hnext (hval ▸ hj) hmax with hholds | ⟨hle, hlater⟩
      · exact .inl ⟨g, by simp, hholds⟩
      · exact .inr ⟨forall_mem_cons.2 ⟨hle, hnone⟩, hlater⟩

lemma Orderly.le_rowAfter (h : Orderly a (m ++ f :: p))
    (hnone : ∀ g ∈ m ++ [f], g.nextValue ≤ a.maxValue) :
    f.value + a.delta ≤ rowAfter a (m ++ f :: p) := by
  have hpos := a.delta_pos
  induction m with
  | nil =>
    have hle := hnone f (by simp)
    cases h with
    | cons _ _ _ hnext =>
      change _ ≤ f.nextValue
      omega
  | cons g m ih =>
    obtain ⟨hle, hnone⟩ := forall_mem_cons.1 hnone
    obtain ⟨e, he, hrow⟩ := rowAfter_mem a m p f
    have hbefore := hnone e he
    cases h with
    | cons hl _ hvalue hnext =>
      have hstep := ih hl hnone
      change _ ≤ g.nextValue
      simp only [append_eq] at *
      omega

lemma Orderly.fullCycles (h : Orderly a l) : FullCycles a l := by
  refine ⟨?_, ?_⟩
  · rintro q g m f p v rfl ⟨j, rfl, hlast⟩ ⟨i, hi, -⟩
    cases h.suffix with
    | cons hl _ hvalue =>
      have hpassed : ∃ e ∈ m ++ [f], a.maxValue < e.nextValue := by
        by_contra hnone
        push Not at hnone
        obtain ⟨e, he, hrow⟩ := rowAfter_mem a m p f
        have hle := hnone e he
        -- the range of `g` begins behind the range of `f`
        have hrange := hl.le_rowAfter hnone
        have hj : j * a.increment < a.cacheSize * a.increment :=
          mul_lt_mul_of_pos_right (by exact_mod_cast inRange_of_le_endValue hlast) a.increment_pos
        have hi0 : 0 ≤ i * a.increment := mul_nonneg (by omega) a.increment_pos.le
        rw [delta, mul_comm] at hrange
        omega
      refine ⟨hpassed, fun k hk => (hl.holds_or_later rfl hk).resolve_right ?_⟩
      rintro ⟨hnone, -⟩
      obtain ⟨e, he, hpast⟩ := hpassed
      exact absurd hpast (not_lt.2 (hnone e he))
  · rintro q g f p rfl
    cases h.suffix with
    | cons hl _ hvalue =>
      have hlt := hl.start_le.2 (cons_ne_nil _ _)
      rw [rowAfter] at hvalue hlt
      omega

variable {st : State ι}

structure Restarted (a : Attributes) (st : State ι) : Prop where
  orderly : Orderly a st.fetches
  row : st.nextValue = rowAfter a st.fetches ∨
    a.maxValue < st.nextValue ∧ a.maxValue < rowAfter a st.fetches
  recycling : ∀ s, st.recycling s = true → st.fetches = [] → a.maxValue < a.startValue

omit [DecidableEq ι] in
lemma Restarted.handOut (h : Restarted a st) {value nextValue : ℤ} (recycling : ι → Bool)
    (hvalue : value ≤ a.maxValue → value = rowAfter a st.fetches ∧ rowAfter a st.fetches ≤ a.maxValue ∨
      value = a.startValue ∧ a.maxValue < rowAfter a st.fetches)
    (hpast : a.maxValue < value → a.maxValue < rowAfter a st.fetches)
    (hnext : nextValue = value + a.delta ∨ a.maxValue < nextValue ∧ a.maxValue < value + a.delta) :
    Restarted a { st.handOut a value nextValue with recycling := recycling } := by
  have hpos := a.delta_pos
  unfold State.handOut
  split_ifs with hmax
  · refine ⟨h.orderly, .inr ⟨?_, hpast hmax⟩, fun _ _ hnil => ?_⟩
    · dsimp only
      omega
    · have hrow := hpast hmax
      rwa [show st.fetches = [] from hnil] at hrow
  · rw [not_lt] at hmax
    exact ⟨.cons h.orderly hmax (hvalue hmax) hnext, .inl rfl, fun _ _ hnil => nomatch hnil⟩

lemma Restarted.step (e : Event ι) (h : Restarted a st) (htimely : Timely a st e) :
    Restarted a (step a st e) := by
  have hrow := h.row
  cases e with
  | fetch s =>
    rw [Cycle.step]
    split_ifs with hs
    · exact h
    · refine h.handOut _ (fun hmax => by omega) (fun hmax => by omega) ?_
      unfold advance
      split_ifs <;> omega
  | recycle s =>
    rw [Cycle.step]
    split_ifs with hs
    · have hused := htimely hs
      exact h.handOut _ (fun _ => by omega) (fun _ => by omega) (.inl rfl)
    · exact h
  | fail s =>
    refine ⟨h.orderly, h.row, fun s' hs' => h.recycling s' ?_⟩
    by_cases hss : s' = s
    · simp [Cycle.step, hss] at hs'
    · simpa [Cycle.step, hss] using hs'

/-- A restart of a sequence that is not used up begins with the start value too early. -/
theorem Restarted.timely (h : Restarted a st) (e : Event ι)
    (hfull : FullCycles a (Cycle.step a st e).fetches) : Timely a st e := by
  cases e with
  | fetch s | fail s => trivial
  | recycle s =>
    intro hs
    by_contra hmax
    have hrow := h.row
    have hstart := h.orderly.start_le.1
    have hout : (Cycle.step a st (.recycle s)).fetches =
        ⟨a.startValue, a.startValue + a.delta⟩ :: st.fetches := by
      rw [Cycle.step, if_pos hs, State.handOut]
      exact if_neg (by omega)
    cases hl : st.fetches with
    | nil =>
      have := h.recycling s hs hl
      omega
    | cons f p =>
      rw [hl] at hout hrow
      have hpast := (hfull.2 [] _ f p hout).1 rfl
      rw [rowAfter] at hrow
      omega

lemma fetches_step (st : State ι) (e : Event ι) :
    ∃ q, (step a st e).fetches = q ++ st.fetches := by
  have hout (value nextValue : ℤ) :
      ∃ q, (st.handOut a value nextValue).fetches = q ++ st.fetches := by
    unfold State.handOut
    split_ifs
    · exact ⟨[], rfl⟩
    · exact ⟨[_], rfl⟩
  cases e with
  | fetch s | recycle s =>
    rw [step]
    split_ifs
    all_goals first | exact hout _ _ | exact ⟨[], rfl⟩
  | fail s => exact ⟨[], rfl⟩

lemma FullCycles.suffix (h : FullCycles a (q ++ l)) : FullCycles a l := by
  refine ⟨fun q' g m f p v heq => ?_, fun q' g f p heq => ?_⟩
  · exact h.1 (q ++ q') g m f p v (by rw [heq, append_assoc])
  · exact h.2 (q ++ q') g f p (by rw [heq, append_assoc])

/-- **Cycles.** The values come back only after full cycles exactly if every restart finds the sequence
used up. -/
theorem fullCycles_iff_timely (a : Attributes) (l : List (Event ι)) :
    FullCycles a (run (step a) (init a ι) l).fetches ↔
      Guarded (step a) (Timely a) (init a ι) l := by
  have hinv {l : List (Event ι)} (hl : Guarded (step a) (Timely a) (init a ι) l) :
      Restarted a (run (step a) (init a ι) l) :=
    hl.invariant (fun _ e h => h.step e) ⟨.nil, .inl rfl, by simp [init]⟩
  refine ⟨fun h => ?_, fun h => (hinv h).orderly.fullCycles⟩
  induction l using List.reverseRecOn with
  | nil => trivial
  | append_singleton l e ih =>
    rw [run_snoc] at h
    obtain ⟨q, hq⟩ := fetches_step (a := a) (run (step a) (init a ι) l) e
    have hl := ih (hq ▸ h).suffix
    exact Guarded.append.2 ⟨hl, (hinv hl).timely e h, trivial⟩

/-- Two sessions find a sequence of 1 to 4 used up and both restart it: 1 and 2 are handed out twice. -/
theorem restarted_twice :
    let a : Attributes := ⟨1, 1, 4, 2, by decide⟩
    let st := run (step a) (init a Bool)
      [.fetch true, .fetch true, .fetch true, .fetch false, .recycle true, .recycle false]
    st.fetches = [⟨1, 3⟩, ⟨1, 3⟩, ⟨3, 5⟩, ⟨1, 3⟩] ∧ ¬ FullCycles a st.fetches := by
  intro a st
  have hst : st.fetches = [⟨1, 3⟩, ⟨1, 3⟩, ⟨3, 5⟩, ⟨1, 3⟩] := by decide
  exact ⟨hst, fun h => absurd ((h.2 [] _ _ _ hst).1 rfl) (by decide)⟩

end Trafodion.SeqGen.Cycle
