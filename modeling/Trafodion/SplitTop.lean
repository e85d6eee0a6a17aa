import Mathlib.Algebra.Ring.Nat
import Mathlib.Data.List.Sort
import Trafodion.Runs

/-!
# Split-top

`workUp` of a split-top node moves the rows of its children to the parent. Without a merge
expression it goes around a ring of the children that have something, up to three entries at a
time. With one it keeps a sequence of children ordered by the keys of their head rows and takes
the first child once every active child is in the sequence. The model is one request that has
been sent to all the children.
-/
namespace Trafodion.SplitTop

inductive Request
  | getAll
  | getN (n : ℕ)
  deriving DecidableEq, Repr

inductive WorkState
  | allSentDown | merging | cancelling | endOfData | finished
  deriving DecidableEq, Repr

inductive Entry (α : Type)
  | row (r : α)
  | noData
  deriving DecidableEq, Repr

/-- The sets of children are lists with the last child first, in which order they are visited. A
merge sequence has the encoded keys with the children. The entries sent to the parent have the
child they came from, which the parent does not see; `none` is the end of data. -/
structure Tcb (α κ : Type) where
  state : WorkState
  activeChildren : List ℕ
  currActiveChild : ℕ
  matchCountForGetN : ℕ
  mergeSequence : List (ℕ × κ)
  unmergedChildren : List ℕ
  queues : ℕ → List (Entry α)
  /-- Places left in the up queue of the parent. -/
  free : ℕ
  up : List (Option (ℕ × α))
  /-- The head of an empty queue was read. -/
  emptyRead : Bool

variable {α κ : Type}

namespace Tcb

variable (req : Request) (t : Tcb α κ)

def insertUp (e : Option (ℕ × α)) : Tcb α κ :=
  { t with up := t.up ++ [e], free := t.free - 1 }

variable (ch : ℕ)

def removeHead : Tcb α κ :=
  { t with queues := Function.update t.queues ch (t.queues ch).tail }

/-- The row of a child: sent up, unless the request has enough rows. The flag says that no more
entries of the child are to be taken now. -/
def takeRow (r : α) : Tcb α κ × Bool :=
  let t := { t with matchCountForGetN := t.matchCountForGetN + 1 }
  match req with
  | .getAll => ((t.insertUp (some (ch, r))).removeHead ch, false)
  | .getN n =>
    if n ≤ t.matchCountForGetN then
      if t.state = .cancelling then (t.removeHead ch, false)
      else
        -- the last row that is needed
        let t := if t.matchCountForGetN = n then t.insertUp (some (ch, r)) else t
        (({ t with state := .cancelling }).removeHead ch, true)
    else ((t.insertUp (some (ch, r))).removeHead ch, false)

/-- One pass of the loop over the entries of a child. The flags say that no more are to be taken
now and that the child has ended. -/
def takeEntry : Tcb α κ × Bool × Bool :=
  match (t.queues ch).head? with
  | none => ({ t with emptyRead := true }, true, false)
  | some (.row r) => ((t.takeRow req ch r).1, (t.takeRow req ch r).2, false)
  | some .noData =>
    ({ t.removeHead ch with activeChildren := t.activeChildren.erase ch }, true, true)

/-- The loop over the entries of a child. Returns `iterIdx` and whether the child has ended. -/
def takeEntries (req : Request) (ch : ℕ) : ℕ → ℕ → Tcb α κ → Tcb α κ × ℕ × Bool
  | more, iterIdx, t =>
    let (t', stop, ended) := t.takeEntry req ch
    if t'.free = 0 then (t', iterIdx, ended)
    else if stop then (t', iterIdx + 1, ended)
    else match more with
      | 0 => (t', iterIdx + 1, ended)
      | more + 1 => takeEntries req ch more (iterIdx + 1) t'

def readyChildren : List (ℕ × ℕ) :=
  (t.activeChildren.map fun ch => (ch, (t.queues ch).length)).filter (0 < ·.2)

/-- One pass over the ring of ready children: the first takes its turn and goes to the end or,
when it has no more entries, leaves the ring. -/
def readyPass (ch entryCnt : ℕ) (ring : List (ℕ × ℕ)) :
    Tcb α κ × List (ℕ × ℕ) :=
  let iterLmt := if 3 < entryCnt then 3 else entryCnt
  let (t', iterIdx, ended) := takeEntries req ch (iterLmt - 1) 1 t
  let entryCnt := entryCnt - (iterIdx - 1)
  if ended ∨ entryCnt = 0 then (t', ring) else (t', ring ++ [(ch, entryCnt)])

def readyLoop (req : Request) : ℕ → Tcb α κ → List (ℕ × ℕ) → Tcb α κ
  | 0, t, _ => t
  | _ + 1, t, [] => t
  | fuel + 1, t, (ch, entryCnt) :: ring =>
    if t.free = 0 then t
    else readyLoop req fuel (t.readyPass req ch entryCnt ring).1 (t.readyPass req ch entryCnt ring).2

/-! ### The merge -/

def searchKey [LinearOrder κ] (seq : List (ℕ × κ)) (newKey : κ) (lowIndex highIndex : ℕ) : ℕ :=
  if lowIndex < highIndex then
    match seq[(lowIndex + highIndex) / 2]? with
    | some (_, testKey) =>
      if newKey ≤ testKey then searchKey seq newKey lowIndex ((lowIndex + highIndex) / 2)
      else searchKey seq newKey ((lowIndex + highIndex) / 2 + 1) highIndex
    | none => highIndex
  else highIndex
termination_by highIndex - lowIndex

variable (seq : List (ℕ × κ)) (i : ℕ)

def insertAt (x : ℕ × κ) : List (ℕ × κ) :=
  seq.take i ++ x :: seq.drop i

/-- The loop over the unmerged children: a row puts its child into the merge sequence, the end
of a child is returned at once. -/
def mergeChildren [LinearOrder κ] (key : α → κ) (queues : ℕ → List (Entry α)) :
    List ℕ → List (ℕ × κ) → List ℕ → List (ℕ × κ) × List ℕ × Option ℕ
  | [], seq, unmerged => (seq, unmerged, none)
  | ch :: visit, seq, unmerged =>
    match (queues ch).head? with
    | none => mergeChildren key queues visit seq unmerged
    | some (.row r) =>
      mergeChildren key queues visit
        (insertAt seq (searchKey seq (key r) 0 seq.length) (ch, key r)) (unmerged.erase ch)
    | some .noData => (seq, unmerged.erase ch, some ch)

def findAnyChild : Option ℕ :=
  let before := t.activeChildren.filter (· < t.currActiveChild)
  let around := match t.activeChildren with
    | [] => []
    | last :: rest => last :: rest.takeWhile fun ch => before.head? ≠ some ch
  (before ++ around).find? fun ch => (t.queues ch).length ≠ 0

/-- The first child of the sequence, if every active child is in it. Its next row is to be merged
again. -/
def chooseFirst (unmerged : List ℕ) : Tcb α κ × Option ℕ :=
  match seq with
  | (ch, _) :: rest =>
    if seq.length = t.activeChildren.length then
      ({ t with
        mergeSequence := rest
        unmergedChildren := unmerged.orderedInsert (· ≥ ·) ch }, some ch)
    else ({ t with mergeSequence := seq, unmergedChildren := unmerged }, none)
  | [] => ({ t with mergeSequence := seq, unmergedChildren := unmerged }, none)

def findAny : Tcb α κ × Option ℕ :=
  match t.findAnyChild with
  | some ch => ({ t with currActiveChild := ch }, some ch)
  | none => (t, none)

def findMerged [LinearOrder κ] (key : α → κ) (t : Tcb α κ) : Tcb α κ × Option ℕ :=
  match mergeChildren key t.queues t.unmergedChildren t.mergeSequence t.unmergedChildren with
  | (seq, unmerged, some ch) =>
    ({ t with mergeSequence := seq, unmergedChildren := unmerged }, some ch)
  | (seq, unmerged, none) => t.chooseFirst seq unmerged

def startMerge : Tcb α κ :=
  if t.state = .allSentDown then
    { t with mergeSequence := [], unmergedChildren := t.activeChildren, state := .merging }
  else t

/-- `findNextReadyChild`: any child once the request is cancelled, otherwise the next in the
merge sequence. -/
def findNextReadyChild [LinearOrder κ] (key : α → κ) (t : Tcb α κ) : Tcb α κ × Option ℕ :=
  if t.startMerge.state = .cancelling then t.startMerge.findAny else t.startMerge.findMerged key

def mergeLoop [LinearOrder κ] (key : α → κ) (req : Request) : ℕ → Tcb α κ → Tcb α κ
  | 0, t => t
  | fuel + 1, t =>
    if t.free = 0 then t
    else match t.findNextReadyChild key with
      | (t', none) => t'
      | (t', some ch) => mergeLoop key req fuel (t'.takeEntry req ch).1

def queued : ℕ := (t.activeChildren.map fun ch => (t.queues ch).length).sum

def upLoop [LinearOrder κ] (mergeKey : Option (α → κ)) (req : Request) (t : Tcb α κ) : Tcb α κ :=
  match mergeKey with
  | some key => mergeLoop key req (t.queued + 1) t
  | none => readyLoop req (t.queued + 1) t t.readyChildren

def endRequest : Tcb α κ :=
  if t.activeChildren = [] then
    if t.free = 0 then { t with state := .endOfData }
    else { t.insertUp none with state := .finished }
  else t

/-- `workUp` for the request. -/
def workUp [LinearOrder κ] (mergeKey : Option (α → κ)) (req : Request) (t : Tcb α κ) : Tcb α κ :=
  if t.state = .finished then t else (t.upLoop mergeKey req).endRequest

end Tcb

structure Node (α κ : Type) where
  tcb : Tcb α κ
  pending : ℕ → List (Entry α)

/-- A child delivers its next entry, a child whose request is cancelled gives up its rows, the
parent takes an entry, or the node works. -/
inductive Event
  | deliver (ch : ℕ)
  | giveUp (ch : ℕ)
  | parentTakes
  | workUp

def step [LinearOrder κ] (mergeKey : Option (α → κ)) (req : Request) (size : ℕ)
    (s : Node α κ) : Event → Node α κ
  | .deliver ch =>
    match s.pending ch with
    | [] => s
    | e :: rest =>
      { tcb := { s.tcb with
          queues := Function.update s.tcb.queues ch (s.tcb.queues ch ++ [e]) }
        pending := Function.update s.pending ch rest }
  | .giveUp ch =>
    if s.tcb.state = .cancelling ∧ s.pending ch ≠ [] then
      { s with pending := Function.update s.pending ch [.noData] }
    else s
  | .parentTakes =>
    if s.tcb.free < size then { s with tcb := { s.tcb with free := s.tcb.free + 1 } } else s
  | .workUp => { s with tcb := s.tcb.workUp mergeKey req }

/-- A request that has been sent to some children, with what an earlier request has left of the
merge. -/
def start (active : List ℕ) (rows : ℕ → List α) (size : ℕ) (mergeSequence : List (ℕ × κ))
    (unmergedChildren : List ℕ) : Node α κ where
  tcb :=
    { state := .allSentDown
      activeChildren := active
      currActiveChild := 0
      matchCountForGetN := 0
      mergeSequence := mergeSequence
      unmergedChildren := unmergedChildren
      queues := fun _ => []
      free := size
      up := []
      emptyRead := false }
  pending := fun ch => if ch ∈ active then (rows ch).map .row ++ [.noData] else []

end Trafodion.SplitTop
