import Mathlib.Algebra.Order.BigOperators.Group.List
import Mathlib.Algebra.Order.Ring.Nat
import Mathlib.Data.List.Sort

/-!
# Merging several lists

A merge takes, step by step, a head that is smallest among the heads of all lists. If the lists
are sorted, what it takes is sorted, and together with what is left it is a permutation of what
there was.
-/
namespace KWayMerge

open List Function

variable {α K : Type*} [LinearOrder K] (key : α → K) (n : ℕ)

def SortedBy (l : List α) : Prop := l.Pairwise fun x y => key x ≤ key y

/-- All elements of the first `n` lists. -/
def contents (p : ℕ → List α) : List α := (range n).flatMap p

/-- Taking `r` from the head of list `j`. -/
structure Takes (p : ℕ → List α) (j : ℕ) (r : α) (rest : List α) : Prop where
  lt : j < n
  head : p j = r :: rest
  least : ∀ i, i < n → ∀ x ∈ (p i).head?, key r ≤ key x

/-- The list of the elements taken on the way from `p` to `p'`. -/
inductive Merges : (ℕ → List α) → List α → (ℕ → List α) → Prop
  | done (p) : Merges p [] p
  | take {p j r rest out p'} : Takes key n p j r rest →
      Merges (update p j rest) out p' → Merges p (r :: out) p'

variable {key n} {p p' : ℕ → List α}

lemma mem_contents {x : α} : x ∈ contents n p ↔ ∃ j, j < n ∧ x ∈ p j := by
  simp [contents]

lemma contents_eq_nil (h : ∀ j, j < n → p j = []) : contents n p = [] := by
  rw [contents, flatMap_eq_nil_iff]
  exact fun j hj => h j (mem_range.1 hj)

lemma contents_congr (h : ∀ j, j < n → p j = p' j) : contents n p = contents n p' := by
  rw [contents, contents, flatMap, flatMap, map_congr_left fun j hj => h j (mem_range.1 hj)]

variable {j : ℕ}

lemma length_contents_lt {q : ℕ → List α} (hle : ∀ i, i < n → (p i).length ≤ (q i).length)
    (hj : j < n) (hlt : (p j).length < (q j).length) :
    (contents n p).length < (contents n q).length := by
  rw [contents, contents, length_flatMap, length_flatMap]
  exact sum_lt_sum _ _ (fun i hi => hle i (mem_range.1 hi)) ⟨j, mem_range.2 hj, hlt⟩

variable {rest : List α}

lemma contents_update_perm {r : α} (hj : j < n) (hhead : p j = r :: rest) :
    (r :: contents n (update p j rest)).Perm (contents n p) := by
  induction n with
  | zero => omega
  | succ n ih =>
    have hsucc : ∀ q : ℕ → List α, contents (n + 1) q = contents n q ++ q n := by
      intro q
      simp [contents, range_succ]
    rw [hsucc, hsucc]
    by_cases hjn : j = n
    · subst hjn
      have hsame : contents j (update p j rest) = contents j p :=
        contents_congr fun i hi => update_of_ne (by omega) _ _
      rw [hsame, update_self, hhead]
      exact perm_middle.symm
    · rw [update_of_ne (Ne.symm hjn), ← cons_append]
      exact (ih (by omega)).append_right _

lemma SortedBy.update (h : ∀ i, i < n → SortedBy key (p i)) {r : α}
    (hhead : p j = r :: rest) : ∀ i, i < n → SortedBy key (update p j rest i) := by
  intro i hi
  by_cases hij : i = j
  · subst hij
    rw [update_self]
    have := h i hi
    rw [hhead] at this
    exact (pairwise_cons.1 this).2
  · rw [update_of_ne hij]
    exact h i hi

lemma Takes.le (hsorted : ∀ i, i < n → SortedBy key (p i)) {r : α}
    (h : Takes key n p j r rest) {x : α} (hx : x ∈ contents n p) : key r ≤ key x := by
  obtain ⟨i, hi, hx⟩ := mem_contents.1 hx
  have hle := h.least i hi
  have hsort := hsorted i hi
  cases hp : p i with
  | nil =>
    rw [hp] at hx
    cases hx
  | cons y l =>
    rw [hp] at hx hle hsort
    have hy : key r ≤ key y := hle y rfl
    rcases mem_cons.1 hx with rfl | hx
    · exact hy
    · exact hy.trans ((pairwise_cons.1 hsort).1 x hx)

lemma Merges.perm {out : List α} (h : Merges key n p out p') :
    (out ++ contents n p').Perm (contents n p) := by
  induction h with
  | done => exact List.Perm.refl _
  | take htake hrest ih =>
    exact (ih.cons _).trans (contents_update_perm htake.lt htake.head)

lemma Merges.sorted {out : List α} (h : Merges key n p out p')
    (hsort : ∀ i, i < n → SortedBy key (p i)) : SortedBy key out := by
  induction h with
  | done => exact List.Pairwise.nil
  | take htake hrest ih =>
    refine List.Pairwise.cons ?_ (ih (SortedBy.update hsort htake.head))
    intro x hx
    have hx' := hrest.perm.mem_iff.1 (mem_append_left _ hx)
    exact htake.le hsort
      ((contents_update_perm htake.lt htake.head).mem_iff.1 (mem_cons_of_mem _ hx'))

end KWayMerge
