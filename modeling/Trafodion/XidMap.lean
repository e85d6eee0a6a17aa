import Mathlib.Algebra.Group.Int.Defs
import Mathlib.Data.List.TakeWhile
import Trafodion.Runs

/-!
# The map of the XA transactions

`XID_MAP` is a multimap whose keys are sums of the decimal digits in an XID, so that entries of one key are
told apart by `xid_eq`. That compares the data as strings, up to the first NUL, and `remove` walks on
while it finds the XID and not while it does not.
-/
namespace Trafodion.XidMap

open List Runs

structure Xid where
  formatID : ℤ
  gtridLength : ℕ
  bqualLength : ℕ
  data : List ℕ
  deriving DecidableEq, Repr

/-- `XIDtokey`; a character that is not a digit counts 0. -/
def xidToKey (x : Xid) : ℤ :=
  (x.data.take (x.gtridLength + x.bqualLength)).zipIdx.foldl (fun key (c, i) =>
    key + (if 48 ≤ c ∧ c ≤ 57 then c - 48 else 0 : ℕ) * 65536 ^ (i % 4)) 0

/-- `CTmXaTxn`, as far as the map reads it. -/
structure XaTxn where
  xid : Xid
  seqnum : ℕ
  deriving DecidableEq, Repr

def XaTxn.xidEq (x : Xid) (t : XaTxn) : Bool :=
  x.formatID = t.xid.formatID && x.bqualLength = t.xid.bqualLength && x.gtridLength = t.xid.gtridLength &&
    x.data.takeWhile (· ≠ 0) = t.xid.data.takeWhile (· ≠ 0)

section
variable (key : Xid → ℤ)

variable (m : List XaTxn)

/-- A new entry goes behind those of its key. -/
def put (t : XaTxn) : List XaTxn :=
  m.takeWhile (key ·.xid ≤ key t.xid) ++ t :: m.dropWhile (key ·.xid ≤ key t.xid)

variable (x : Xid)

/-- The entries that `get_first` and `get_next` go through, to the end of the map. -/
def walk : List XaTxn := m.dropWhile (key ·.xid ≠ key x)

def get : Option XaTxn := (walk key m x).find? (·.xidEq x)

def remove : Option XaTxn × List XaTxn :=
  match (walk key m x).dropWhile (·.xidEq x) with
  | [] => (none, m)
  | t :: rest => (some t, m.takeWhile (key ·.xid ≠ key x) ++ (walk key m x).takeWhile (·.xidEq x) ++ rest)

inductive Call
  | put (t : XaTxn)
  | get (x : Xid)
  | remove (x : Xid)

def step : Call → List XaTxn
  | .put t => put key m t
  | .get _ => m
  | .remove x => (remove key m x).2

/-- What a map by XID does with its entries `m`. -/
def Right : Call → Prop
  | .put t => ∀ u, u ∈ put key m t ↔ u = t ∨ u ∈ m
  | .get x => get key m x = m.find? (·.xid = x)
  | .remove x => remove key m x = (m.find? (·.xid = x), m.filter (·.xid ≠ x))

/-- A `get` does not meet an XID that only has the same string before its own, and a `remove` of an XID that is
not in the map meets no others. -/
def Harmless : Call → Prop
  | .put _ => True
  | .get x => ∀ t ∈ (walk key m x).takeWhile (·.xid ≠ x), ¬ t.xidEq x
  | .remove x => ∀ t ∈ walk key m x, t.xid ≠ x ∧ t.xidEq x

variable {m : List XaTxn} {x : Xid} {t : XaTxn}

lemma xidEq_of_eq (h : t.xid = x) : t.xidEq x := by simp [XaTxn.xidEq, h]

lemma find?_walk (m : List XaTxn) (x : Xid) : (walk key m x).find? (·.xid = x) = m.find? (·.xid = x) := by
  induction m with
  | nil => rfl
  | cons t m ih =>
    unfold walk at *
    rw [dropWhile_cons]
    split_ifs with hkey
    · have hne : t.xid ≠ x := fun h => by simp [h] at hkey
      rw [ih, find?_cons_of_neg (by simpa using hne)]
    · rfl

lemma find?_eq_find?_iff {α : Type*} {p q : α → Bool} (hpq : ∀ a, q a → p a) (l : List α) :
    l.find? p = l.find? q ↔ ∀ a ∈ l.takeWhile (!q ·), ¬ p a := by
  induction l with
  | nil => simp
  | cons a l ih =>
    cases hq : q a with
    | true => simp [hq, hpq a hq]
    | false =>
      cases hp : p a with
      | true =>
        have hne : some a ≠ l.find? q := fun h => by simp [find?_some h.symm] at hq
        simp [hq, hp, hne]
      | false => simp [hq, hp, ih]

lemma remove_right_iff (m : List XaTxn) (x : Xid) :
    remove key m x = (m.find? (·.xid = x), m.filter (·.xid ≠ x)) ↔
      ∀ t ∈ walk key m x, t.xid ≠ x ∧ t.xidEq x := by
  have hfind := find?_walk key m x
  unfold remove
  constructor
  · intro h
    split at h
    · next hnil =>
      have hnone := hfind.trans (Prod.ext_iff.1 h).1.symm
      exact fun t ht => ⟨by simpa using find?_eq_none.1 hnone t ht, dropWhile_eq_nil_iff.1 hnil t ht⟩
    · next t rest hcons =>
      have hx : t.xid = x := by simpa using find?_some (Prod.ext_iff.1 h).1.symm
      have hne := head?_dropWhile_not (·.xidEq x) (walk key m x)
      rw [hcons] at hne
      simp [xidEq_of_eq hx] at hne
  · intro h
    have hnone : m.find? (·.xid = x) = none := by
      rw [← hfind, find?_eq_none]
      exact fun t ht => by simpa using (h t ht).1
    rw [dropWhile_eq_nil_iff.2 fun t ht => (h t ht).2, hnone, filter_eq_self.2]
    exact fun t ht => by simpa using find?_eq_none.1 hnone t ht

lemma right_iff (m : List XaTxn) (c : Call) : Right key m c ↔ Harmless key m c := by
  cases c with
  | put t =>
    refine iff_of_true (fun u => ?_) trivial
    rw [put, mem_append, mem_cons, or_left_comm, ← mem_append, takeWhile_append_dropWhile]
  | get x =>
    rw [Right, Harmless, ← find?_walk key, get, find?_eq_find?_iff fun t ht => xidEq_of_eq (by simpa using ht)]
    simp
  | remove x => exact remove_right_iff key m x

end

/-- **The map.** The calls of a sequence do what a map by XID does, each on the entries that the calls before it left,
exactly if they are harmless. -/
theorem calls_right_iff (key : Xid → ℤ) (calls : List Call) :
    Guarded (step key) (Right key) [] calls ↔ Guarded (step key) (Harmless key) [] calls := by
  rw [show Right key = Harmless key from funext₂ fun m c => propext (right_iff key m c)]

/-- Two transactions with one key, of which the wrong one is removed. -/
theorem other_transaction_removed :
    let a : XaTxn := ⟨⟨1, 1, 0, [97]⟩, 1⟩
    let b : XaTxn := ⟨⟨1, 1, 0, [98]⟩, 2⟩
    let m := run (step xidToKey) [] [.put a, .put b]
    get xidToKey m a.xid = some a ∧ remove xidToKey m a.xid = (some b, [a]) := by
  decide

end Trafodion.XidMap
