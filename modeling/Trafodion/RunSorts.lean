import Trafodion.ByteStrings
import Trafodion.Rearrangements

/-!
# The sorts that generate runs

`Qsort` sorts the keys of a run in place, with `quickSort`, `iterativeQuickSort` or `heapSort`. An
access to the array is refused outside of it: an answer `none` is such an access, or no fuel.
-/
namespace Trafodion.Qsort
open ByteStrings Rearrangements

variable {keySize : ℕ} {ρ : Type}

abbrev Key (keySize : ℕ) := { bytes : List Byte // bytes.length = keySize }

/-- A key and its record, both pointers. The key may be `NULL`. -/
structure RecKeyBuffer (keySize : ℕ) (ρ : Type) where
  key_ : Option (Key keySize)
  rec_ : ρ
deriving DecidableEq

instance instInhabitedRecKeyBuffer [Inhabited ρ] : Inhabited (RecKeyBuffer keySize ρ) :=
  ⟨⟨none, default⟩⟩

def key1IsSmaller : ℤ := -1

def keysAreEqual : ℤ := 0

def key1IsGreater : ℤ := 1

def strCmp (left right : List Byte) : ℤ :=
  match memcmp left right with
  | .lt => -1
  | .eq => 0
  | .gt => 1

/-- `SortAlgo::compare` -/
def compare : Option (Key keySize) → Option (Key keySize) → ℤ
  | some key1, some key2 => strCmp key1.1 key2.1
  | none, none => keysAreEqual
  | none, some _ => key1IsSmaller
  | some _, none => key1IsGreater

abbrev Keys (keySize : ℕ) (ρ : Type) := Array (RecKeyBuffer keySize ρ)

variable {key1 key2 : Option (Key keySize)} (keysToSort : Keys keySize ρ)

def swapIfGreater (i j : ℤ) : Option (Keys keySize ρ) := do
  let x ← read keysToSort i
  let y ← read keysToSort j
  if key1IsGreater ≤ compare x.key_ y.key_ then swap keysToSort i j else pure keysToSort

/-! ### Quick sort -/

variable (left right : ℤ)

/-- The array with the median at `right - 1`, and the key of it. -/
def median :
    Option (Keys keySize ρ × Option (Key keySize)) := do
  let center := (left + right) / 2
  let keysToSort ← swapIfGreater keysToSort left center
  let keysToSort ← swapIfGreater keysToSort left right
  let keysToSort ← swapIfGreater keysToSort center right
  let keysToSort ← swap keysToSort center (right - 1)
  let pivot ← read keysToSort (right - 1)
  pure (keysToSort, pivot.key_)

/-- `while (compare(keysToSort[++i].key_, pivot) <= KEY1_IS_SMALLER);` -/
def scanUp (keysToSort : Keys keySize ρ) (pivot : Option (Key keySize)) : ℕ → ℤ → Option ℤ
  | 0, _ => none
  | fuel + 1, i => do
    let x ← read keysToSort (i + 1)
    if compare x.key_ pivot ≤ key1IsSmaller then scanUp keysToSort pivot fuel (i + 1)
    else pure (i + 1)

/-- `while (compare(keysToSort[--j].key_, pivot) >= KEY1_IS_GREATER);` -/
def scanDown (keysToSort : Keys keySize ρ) (pivot : Option (Key keySize)) : ℕ → ℤ → Option ℤ
  | 0, _ => none
  | fuel + 1, j => do
    let x ← read keysToSort (j - 1)
    if key1IsGreater ≤ compare x.key_ pivot then scanDown keysToSort pivot fuel (j - 1)
    else pure (j - 1)

/-- The `for` loop of `quickSort`. A scan leaves the array after as many steps as it has entries. -/
def partition (pivot : Option (Key keySize)) :
    ℕ → Keys keySize ρ → ℤ → ℤ → Option (Keys keySize ρ × ℤ)
  | 0, _, _, _ => none
  | fuel + 1, keysToSort, i, j => do
    let i ← scanUp keysToSort pivot (keysToSort.size + 1) i
    let j ← scanDown keysToSort pivot (keysToSort.size + 1) j
    if i < j then
      let keysToSort ← swap keysToSort i j
      partition pivot fuel keysToSort i j
    else pure (keysToSort, i)

def quickSort : ℕ → Keys keySize ρ → ℤ → ℤ → Option (Keys keySize ρ)
  | 0, _, _, _ => none
  | fuel + 1, keysToSort, left, right =>
    if left + 1 < right then do
      let (keysToSort, pivot) ← median keysToSort left right
      let (keysToSort, i) ← partition pivot (keysToSort.size + 1) keysToSort left (right - 1)
      let keysToSort ← swap keysToSort i (right - 1)
      let keysToSort ← quickSort fuel keysToSort left (i - 1)
      quickSort fuel keysToSort (i + 1) right
    else if left < right then swapIfGreater keysToSort left right
    else pure keysToSort

/-! ### Quick sort with a stack of its own -/

structure Stack where
  entries : List ℤ
  written : ℕ
deriving DecidableEq

/-- `runSize_ * sizeof(Int64)*2` bytes are allocated. -/
def stackEntries (runSize : ℕ) : ℕ := runSize * 2

def Stack.push (l r : ℤ) (stack : Stack) : Stack :=
  ⟨r :: l :: stack.entries, max stack.written (stack.entries.length + 2)⟩

def Stack.pop (stack : Stack) : Option (ℤ × ℤ × Stack) :=
  match stack.entries with
  | r :: l :: entries => some (l, r, { stack with entries := entries })
  | _ => none

/-- The inner loop, for the `count` values of `i` up to `right`. -/
def gatherSmaller (left : ℤ) : ℕ → ℤ → ℤ → Keys keySize ρ → Option (Keys keySize ρ × ℤ)
  | 0, _, last, keysToSort => some (keysToSort, last)
  | count + 1, i, last, keysToSort => do
    let x ← read keysToSort i
    let y ← read keysToSort left
    if compare x.key_ y.key_ ≤ key1IsSmaller then
      let keysToSort ← swap keysToSort (last + 1) i
      gatherSmaller left count (i + 1) (last + 1) keysToSort
    else gatherSmaller left count (i + 1) last keysToSort

/-- One segment is split at `last`. -/
def splitSegment :
    Option (Keys keySize ρ × ℤ) := do
  let position := (left + right) / 2
  let keysToSort ← swap keysToSort left position
  let (keysToSort, last) ← gatherSmaller left (right - left).toNat (left + 1) left keysToSort
  let keysToSort ← swap keysToSort left last
  pure (keysToSort, last)

def iterativeQuickSortLoop : ℕ → Keys keySize ρ → Stack → Option (Keys keySize ρ × Stack)
  | 0, _, _ => none
  | fuel + 1, keysToSort, stack => do
    let (left, right, stack) ← stack.pop
    if left = -1 ∧ right = -1 then pure (keysToSort, stack)
    else if left < right then
      let (keysToSort, last) ← splitSegment keysToSort left right
      iterativeQuickSortLoop fuel keysToSort
        ((stack.push left (last - 1)).push (last + 1) right)
    else iterativeQuickSortLoop fuel keysToSort stack

def iterativeQuickSort (fuel : ℕ) (keysToSort : Keys keySize ρ) (left right : ℤ) :
    Option (Keys keySize ρ × Stack) :=
  if right ≤ left then some (keysToSort, ⟨[], 0⟩)
  else iterativeQuickSortLoop fuel keysToSort
    ((Stack.push (-1) (-1) ⟨[], 0⟩).push left right)

/-! ### Heap sort -/

def maxChild (root bottom : ℤ) : Option ℤ :=
  if root * 2 = bottom then pure (root * 2)
  else do
    let x ← read keysToSort (root * 2)
    let y ← read keysToSort (root * 2 + 1)
    if key1IsGreater ≤ compare x.key_ y.key_ then pure (root * 2) else pure (root * 2 + 1)

def siftDown : ℕ → Keys keySize ρ → ℤ → ℤ → Option (Keys keySize ρ)
  | 0, _, _, _ => none
  | fuel + 1, keysToSort, root, bottom =>
    if root * 2 ≤ bottom then do
      let child ← maxChild keysToSort root bottom
      let x ← read keysToSort root
      let y ← read keysToSort child
      if compare x.key_ y.key_ ≤ key1IsSmaller then
        let keysToSort ← swap keysToSort root child
        siftDown fuel keysToSort child bottom
      else pure keysToSort
    else pure keysToSort

/-- The first loop of `heapSort`, for `i` from `count - 1` down to 0. -/
def buildHeap (fuel : ℕ) (bottom : ℤ) : ℕ → Keys keySize ρ → Option (Keys keySize ρ)
  | 0, keysToSort => some keysToSort
  | count + 1, keysToSort => do
    let keysToSort ← siftDown fuel keysToSort count bottom
    buildHeap fuel bottom count keysToSort

/-- The second loop of `heapSort`, for `i` from `count` down to 1. -/
def drainHeap (fuel : ℕ) : ℕ → Keys keySize ρ → Option (Keys keySize ρ)
  | 0, keysToSort => some keysToSort
  | count + 1, keysToSort => do
    let keysToSort ← swap keysToSort 0 (count + 1)
    let keysToSort ← siftDown fuel keysToSort 0 count
    drainHeap fuel count keysToSort

def heapSort (fuel : ℕ) (keysToSort : Keys keySize ρ) (runsize : ℕ) :
    Option (Keys keySize ρ) := do
  let keysToSort ← buildHeap fuel (runsize - 1) (runsize / 2 + 1) keysToSort
  drainHeap fuel (runsize - 1) keysToSort

/-! ### Keys in order -/

/-- The place of a key in the order of `compare`. -/
def rank : Option (Key keySize) → ℕ
  | none => 0
  | some key => value key.1 + 1

lemma strCmp_cases (k l : Key keySize) :
    (value k.1 < value l.1 ∧ strCmp k.1 l.1 = -1) ∨ (value k.1 = value l.1 ∧ strCmp k.1 l.1 = 0) ∨
      (value l.1 < value k.1 ∧ strCmp k.1 l.1 = 1) := by
  rw [strCmp, memcmp_eq_compare (k.2.trans l.2.symm)]
  rcases lt_trichotomy (value k.1) (value l.1) with h | h | h
  · rw [compare_lt_iff_lt.2 h]
    exact .inl ⟨h, rfl⟩
  · rw [compare_eq_iff_eq.2 h]
    exact .inr (.inl ⟨h, rfl⟩)
  · rw [compare_gt_iff_gt.2 h]
    exact .inr (.inr ⟨h, rfl⟩)

lemma compare_cases (key1 key2 : Option (Key keySize)) :
    (rank key1 < rank key2 ∧ compare key1 key2 = -1) ∨
      (rank key1 = rank key2 ∧ compare key1 key2 = 0) ∨
        (rank key2 < rank key1 ∧ compare key1 key2 = 1) := by
  cases key1 with
  | none =>
    cases key2 with
    | none => exact .inr (.inl ⟨rfl, rfl⟩)
    | some l => exact .inl ⟨Nat.succ_pos _, rfl⟩
  | some k =>
    cases key2 with
    | none => exact .inr (.inr ⟨Nat.succ_pos _, rfl⟩)
    | some l =>
      rcases strCmp_cases k l with h | h | h
      · exact .inl ⟨Nat.succ_lt_succ h.1, h.2⟩
      · exact .inr (.inl ⟨congrArg Nat.succ h.1, h.2⟩)
      · exact .inr (.inr ⟨Nat.succ_lt_succ h.1, h.2⟩)

lemma compare_smaller : compare key1 key2 ≤ key1IsSmaller ↔ rank key1 < rank key2 := by
  have := compare_cases key1 key2
  unfold key1IsSmaller
  omega

lemma compare_greater : key1IsGreater ≤ compare key1 key2 ↔ rank key2 < rank key1 := by
  have := compare_cases key1 key2
  unfold key1IsGreater
  omega

lemma compare_le_zero : compare key1 key2 ≤ 0 ↔ rank key1 ≤ rank key2 := by
  have := compare_cases key1 key2
  omega

lemma rank_injective : Function.Injective (@rank keySize) := by
  intro key1 key2 h
  cases key1 with
  | none =>
    cases key2 with
    | none => rfl
    | some l => cases h
  | some k =>
    cases key2 with
    | none => cases h
    | some l =>
      have hval := value_injective (k.2.trans l.2.symm) (Nat.succ.inj h)
      rw [Subtype.ext hval]

def keyRank (x : RecKeyBuffer keySize ρ) : ℕ := rank x.key_

end Trafodion.Qsort
