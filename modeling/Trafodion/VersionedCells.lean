import Mathlib.Data.List.Basic
import Mathlib.Data.Nat.Basic
import Mathlib.Order.Basic

/-!
# Columns of timestamped versions

A column holds at most one value per timestamp, newest first. A put at a timestamp that
is already there replaces its value. Reads take the newest value or the newest `n`.
-/
namespace VersionedCells

open List

variable {V : Type*}

structure Column (V : Type*) where
  cells : List (ℕ × V)
  sorted : cells.Pairwise fun a b => b.1 < a.1

def insertCell (t : ℕ) (v : V) : List (ℕ × V) → List (ℕ × V)
  | [] => [(t, v)]
  | c :: l =>
    if c.1 < t then (t, v) :: c :: l
    else if c.1 = t then (t, v) :: l
    else c :: insertCell t v l

attribute [local simp] insertCell

variable {t : ℕ} {v : V} {l : List (ℕ × V)}

lemma mem_insertCell {x : ℕ × V} (hx : x ∈ insertCell t v l) : x = (t, v) ∨ x ∈ l := by
  induction l with
  | nil => simpa using hx
  | cons c l ih =>
    unfold insertCell at hx
    split_ifs at hx with hlt heq
    · simpa using hx
    · rcases mem_cons.1 hx with rfl | hx
      · exact Or.inl rfl
      · exact Or.inr (mem_cons_of_mem _ hx)
    · rcases mem_cons.1 hx with rfl | hx
      · exact Or.inr mem_cons_self
      · exact (ih hx).imp_right (mem_cons_of_mem _)

lemma sorted_insertCell (t : ℕ) (v : V) (h : l.Pairwise fun a b => b.1 < a.1) :
    (insertCell t v l).Pairwise fun a b => b.1 < a.1 := by
  induction l with
  | nil => simp
  | cons c l ih =>
    obtain ⟨hc, hl⟩ := pairwise_cons.1 h
    unfold insertCell
    split_ifs with hlt heq
    · exact pairwise_cons.2 ⟨forall_mem_cons.2 ⟨hlt, fun x hx => (hc x hx).trans hlt⟩, h⟩
    · exact pairwise_cons.2 ⟨fun x hx => heq ▸ hc x hx, hl⟩
    · refine pairwise_cons.2 ⟨fun x hx => ?_, ih hl⟩
      rcases mem_insertCell hx with rfl | hx
      · omega
      · exact hc x hx

namespace Column

def empty : Column V := ⟨[], List.Pairwise.nil⟩

variable (c : Column V) (t : ℕ)

def put (v : V) : Column V :=
  ⟨insertCell t v c.cells, sorted_insertCell t v c.sorted⟩

/-- Puts in the order of the list. -/
def putAll (l : List (ℕ × V)) : Column V :=
  l.foldl (fun c x => c.put x.1 x.2) c

def newest : Option V := c.cells.head?.map Prod.snd

/-- The values of the newest `n` versions, newest first. -/
def versions (n : ℕ) : List V := (c.cells.take n).map Prod.snd

/-- The versions older than `t`. -/
def below : Column V :=
  ⟨c.cells.filter fun x => x.1 < t, c.sorted.filter _⟩

def Bounded : Prop := ∀ x ∈ c.cells, x.1 ≤ t

@[ext] lemma ext {c d : Column V} (h : c.cells = d.cells) : c = d := by
  cases c
  cases d
  cases h
  rfl

lemma bounded_empty : (empty : Column V).Bounded t := by
  intro x hx
  simp [empty] at hx

variable {c : Column V}

lemma Bounded.mono {s t : ℕ} (h : c.Bounded s) (hst : s ≤ t) :
    c.Bounded t := fun x hx => (h x hx).trans hst

lemma Bounded.put {s t : ℕ} (h : c.Bounded t) (hst : s ≤ t) (v : V) : (c.put s v).Bounded t := by
  intro x hx
  rcases mem_insertCell hx with rfl | hx
  · exact hst
  · exact h x hx

variable {t : ℕ}

/-- A put at or after every version there becomes the newest, and what it leaves of the
others are those strictly older. -/
theorem cells_put_of_bounded (h : c.Bounded t) (v : V) :
    (c.put t v).cells = (t, v) :: (c.below t).cells := by
  obtain ⟨cells, sorted⟩ := c
  cases cells with
  | nil => rfl
  | cons x l =>
    obtain ⟨hx, -⟩ := pairwise_cons.1 sorted
    have hxt : x.1 ≤ t := h x mem_cons_self
    have hl : l.filter (fun y => y.1 < t) = l := by
      rw [filter_eq_self]
      intro y hy
      simpa using (hx y hy).trans_le hxt
    by_cases hlt : x.1 < t
    · simp [Column.put, below, hlt, hl]
    · simp [Column.put, below, hl, le_antisymm hxt (not_lt.1 hlt)]

lemma newest_put_of_bounded (h : c.Bounded t) (v : V) : (c.put t v).newest = some v := by
  rw [newest, cells_put_of_bounded h]
  rfl

lemma filter_insertCell (s t : ℕ) (v : V) (l : List (ℕ × V)) :
    (insertCell s v l).filter (fun x => x.1 < t) =
      if s < t then insertCell s v (l.filter fun x => x.1 < t) else l.filter fun x => x.1 < t := by
  induction l with
  | nil => by_cases hst : s < t <;> simp [hst]
  | cons c l ih =>
    by_cases hcs : c.1 < s
    · by_cases hst : s < t
      · simp [hcs, hst, hcs.trans hst]
      · simp [hcs, hst]
    · by_cases heq : c.1 = s
      · by_cases hst : s < t <;> simp [heq, hst]
      · by_cases hst : s < t
        · by_cases hct : c.1 < t <;> simp [hcs, heq, hct, hst, ih]
        · have hct : ¬ c.1 < t := by omega
          simp [hcs, heq, hct, hst, ih]

lemma below_put (c : Column V) (s t : ℕ) (v : V) :
    (c.put s v).below t = if s < t then (c.below t).put s v else c.below t := by
  have h := filter_insertCell s t v c.cells
  split_ifs at h ⊢ with hst
  · exact Column.ext h
  · exact Column.ext h

lemma below_putAll (c : Column V) (t : ℕ) (l : List (ℕ × V)) :
    (c.putAll l).below t = (c.below t).putAll (l.filter fun x => x.1 < t) := by
  induction l generalizing c with
  | nil => rfl
  | cons x l ih =>
    change ((c.put x.1 x.2).putAll l).below t = _
    rw [ih, below_put, filter_cons]
    by_cases hx : x.1 < t
    · rw [if_pos hx, if_pos (decide_eq_true hx)]
      rfl
    · rw [if_neg hx, if_neg (by simpa using hx)]

lemma bounded_putAll {l : List (ℕ × V)} (hc : c.Bounded t)
    (hl : ∀ x ∈ l, x.1 ≤ t) : (c.putAll l).Bounded t := by
  induction l generalizing c with
  | nil => exact hc
  | cons x l ih =>
    exact ih (hc.put (hl x mem_cons_self) x.2) (forall_mem_cons.1 hl).2

lemma putAll_append (c : Column V) (l m : List (ℕ × V)) :
    c.putAll (l ++ m) = (c.putAll l).putAll m := foldl_append

/-- After puts with non-decreasing timestamps the last put is the newest version, and
the versions below it are those of the puts with a strictly smaller timestamp. -/
theorem cells_putAll_snoc {l : List (ℕ × V)} {v : V} (h : ∀ x ∈ l, x.1 ≤ t) :
    ((empty : Column V).putAll (l ++ [(t, v)])).cells =
      (t, v) :: ((empty : Column V).putAll (l.filter fun x => x.1 < t)).cells := by
  rw [putAll_append]
  change ((empty.putAll l).put t v).cells = _
  rw [cells_put_of_bounded (bounded_putAll (bounded_empty t) h), below_putAll]
  rfl

end Column

end VersionedCells
