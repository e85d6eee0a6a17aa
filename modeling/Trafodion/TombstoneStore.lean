import Mathlib.Data.List.Basic
import Mathlib.Data.Nat.Basic
import Mathlib.Order.Basic

/-!
# Timestamped cells with tombstones

A store is the list of the cells applied to it. A cell is a value or a tombstone for one
version of a column, all versions of a column, one version of a family or all versions of a
family. Tombstones hide versions at or before their timestamp whenever they were applied,
and of two values with one timestamp the later one counts.
-/
namespace TombstoneStore

inductive Kind
  | put
  | delete
  | deleteColumn
  | deleteFamilyVersion
  | deleteFamily
  deriving DecidableEq, Repr

structure Cell (R F Q V : Type*) where
  row : R
  family : F
  qualifier : Q
  timestamp : ℕ
  kind : Kind
  value : V
  deriving DecidableEq, Repr

variable {R F Q V : Type*}

def newer (best : Option (Cell R F Q V)) (p : Cell R F Q V) : Option (Cell R F Q V) :=
  if best.all fun b => b.timestamp ≤ p.timestamp then some p else best

lemma foldl_newer_mem {l : List (Cell R F Q V)} {best : Option (Cell R F Q V)}
    {p : Cell R F Q V} (h : l.foldl newer best = some p) : best = some p ∨ p ∈ l := by
  induction l generalizing best with
  | nil => exact Or.inl h
  | cons a l ih =>
    rcases ih h with hbest | hmem
    · unfold newer at hbest
      split_ifs at hbest
      · cases hbest
        exact Or.inr List.mem_cons_self
      · exact Or.inl hbest
    · exact Or.inr (List.mem_cons_of_mem _ hmem)

lemma le_foldl_newer {l : List (Cell R F Q V)} {best : Option (Cell R F Q V)}
    {q : Cell R F Q V} (hq : best = some q ∨ q ∈ l) :
    ∃ p, l.foldl newer best = some p ∧ q.timestamp ≤ p.timestamp := by
  induction l generalizing best q with
  | nil =>
    rcases hq with rfl | hq
    · exact ⟨q, rfl, le_rfl⟩
    · simp at hq
  | cons a l ih =>
    by_cases ha : (best.all fun b => b.timestamp ≤ a.timestamp) = true
    · have hnew : newer best a = some a := by rw [newer, if_pos ha]
      rcases hq with rfl | hq
      · obtain ⟨p, hp, hle⟩ := ih (Or.inl hnew)
        exact ⟨p, hp, (by simpa using ha : q.timestamp ≤ a.timestamp).trans hle⟩
      · rcases List.mem_cons.1 hq with rfl | hq
        · exact ih (Or.inl hnew)
        · exact ih (Or.inr hq)
    · have hnew : newer best a = best := by rw [newer, if_neg ha]
      rcases hq with hq | hq
      · exact ih (Or.inl (hnew.trans hq))
      · rcases List.mem_cons.1 hq with rfl | hq
        · cases best with
          | none => simp at ha
          | some b =>
            obtain ⟨p, hp, hle⟩ := ih (Or.inl hnew)
            have hlt : q.timestamp < b.timestamp := by simpa using ha
            exact ⟨p, hp, hlt.le.trans hle⟩
        · exact ih (Or.inr hq)

variable [DecidableEq R] [DecidableEq F] [DecidableEq Q]

/-- Whether the tombstone `d` hides the value `p`. -/
def covers (d p : Cell R F Q V) : Bool :=
  d.row = p.row && d.family = p.family &&
    match d.kind with
    | .put => false
    | .delete => d.qualifier = p.qualifier && p.timestamp = d.timestamp
    | .deleteColumn => d.qualifier = p.qualifier && p.timestamp ≤ d.timestamp
    | .deleteFamilyVersion => p.timestamp = d.timestamp
    | .deleteFamily => p.timestamp ≤ d.timestamp

/-- The values of a column that no tombstone hides, in the order they were applied. -/
def versions (store : List (Cell R F Q V)) (row : R) (family : F) (qualifier : Q) :
    List (Cell R F Q V) :=
  store.filter fun p => p.kind = .put && p.row = row && p.family = family &&
    p.qualifier = qualifier && !store.any fun d => covers d p

/-- The newest visible value of a column, with its timestamp. -/
def get (store : List (Cell R F Q V)) (row : R) (family : F) (qualifier : Q) :
    Option (ℕ × V) :=
  ((versions store row family qualifier).foldl newer none).map fun p => (p.timestamp, p.value)

lemma exists_of_get {store : List (Cell R F Q V)} {row : R} {family : F} {qualifier : Q}
    {x : ℕ × V} (h : get store row family qualifier = some x) :
    ∃ p ∈ store, p.kind = .put ∧ p.row = row ∧ p.family = family ∧
      p.qualifier = qualifier ∧ p.timestamp = x.1 ∧ ∀ d ∈ store, covers d p = false := by
  obtain ⟨p, hp, rfl⟩ := Option.map_eq_some_iff.1 h
  rcases foldl_newer_mem hp with hnone | hmem
  · simp at hnone
  · obtain ⟨hsto, hvisible⟩ := List.mem_filter.1 hmem
    simp only [Bool.and_eq_true, decide_eq_true_eq, Bool.not_eq_true', List.any_eq_false,
      Bool.not_eq_true] at hvisible
    obtain ⟨⟨⟨⟨hkind, hrow⟩, hfamily⟩, hqualifier⟩, hcover⟩ := hvisible
    exact ⟨p, hsto, hkind, hrow, hfamily, hqualifier, rfl, hcover⟩

lemma le_get_of_uncovered {store : List (Cell R F Q V)} {p : Cell R F Q V}
    (hp : p ∈ store) (hkind : p.kind = .put) (hcover : ∀ d ∈ store, covers d p = false) :
    ∃ x, get store p.row p.family p.qualifier = some x ∧ p.timestamp ≤ x.1 := by
  have hmem : p ∈ versions store p.row p.family p.qualifier := by
    refine List.mem_filter.2 ⟨hp, ?_⟩
    simpa [hkind] using hcover
  obtain ⟨q, hq, hle⟩ := le_foldl_newer (Or.inr hmem)
  refine ⟨(q.timestamp, q.value), ?_, hle⟩
  rw [get, hq]
  rfl

lemma covers_eq_false_of_lt {d p : Cell R F Q V} (h : d.timestamp < p.timestamp) :
    covers d p = false := by
  have hle : ¬ p.timestamp ≤ d.timestamp := by omega
  have hne : ¬ p.timestamp = d.timestamp := by omega
  unfold covers
  cases d.kind <;> simp [hle, hne]

/-- A value that is newer than all of `D` is lost if `D` is replaced by cells that hide it and
have no newer value. -/
theorem get_ne_of_covers {D D' : List (Cell R F Q V)} {p c : Cell R F Q V}
    (hkind : p.kind = .put) (hD : ∀ d ∈ D, d.timestamp < p.timestamp)
    (hD' : ∀ d ∈ D', d.kind = .put → d.timestamp < p.timestamp) (hc : c ∈ D')
    (hcov : covers c p = true) :
    get (p :: D) p.row p.family p.qualifier ≠ get (p :: D') p.row p.family p.qualifier := by
  intro heq
  have huncovered : ∀ d ∈ p :: D, covers d p = false := List.forall_mem_cons.2
    ⟨by simp [covers, hkind], fun d hd => covers_eq_false_of_lt (hD d hd)⟩
  obtain ⟨x, hx, hle⟩ := le_get_of_uncovered List.mem_cons_self hkind huncovered
  rw [heq] at hx
  obtain ⟨q, hq, hqkind, -, -, -, hqtime, hqcover⟩ := exists_of_get hx
  rcases List.mem_cons.1 hq with rfl | hq
  · rw [hqcover c (List.mem_cons_of_mem _ hc)] at hcov
    exact absurd hcov (by simp)
  · have hlt := hD' q hq hqkind
    omega

end TombstoneStore
