import Trafodion.Pipelines
import Trafodion.MergeJoin

/-!
# Nested join

`ExOnljTcb` takes requests from its parent, sends each to its left child, sends the rows that come
back to its right child, and returns the replies of the right child, each part in a work procedure
of its own. Several requests may be under way. The model has `GET_ALL` requests that the parent may
cancel, errors of the children and errors of the expressions, without rowset options.

The procedures that send entries to the parent keep a pointer to the entry they fill, which is that
at the tail of the queue when it was fetched. `putEntry` fills the entry pointed to, and inserts the
one at the tail.
-/
namespace Trafodion.NestedJoin
open MergeJoin (Kind)

inductive Eval
  | yes
  | no
  | error
  deriving DecidableEq, Repr

inductive Item (α : Type)
  | row (a : α)
  | error
  deriving DecidableEq, Repr

structure Tdb (α β : Type) where
  kind : Kind
  beforePred : α → Eval
  ljExpr : Option (α → β → Eval)
  afterPred : α → Option β → Eval

structure Children (α β : Type) where
  left : ℕ → List (Item α)
  right : ℕ → α → List (Item β)

inductive LeftStep
  | started
  | notEmpty
  | empty
  | done
  | cancelled
  deriving DecidableEq, Repr

structure PrivateState where
  leftStep : LeftStep := .done
  leftMatches : ℕ := 0
  leftOnlyRows : ℕ := 0
  outerMatched : Bool := false
  startRightIndex : ℕ := 0
  endRightIndex : ℕ := 0
  deriving DecidableEq, Repr

structure LeftEntry (α : Type) where
  index : ℕ
  request : ℕ
  reply : Option (Item α)
  deriving DecidableEq, Repr

structure Down (ι : Type) where
  index : ℕ
  parentIndex : ℕ
  pending : List ι
  cancelled : Bool
  deriving DecidableEq, Repr

inductive UpStatus (α β : Type)
  | okMmore (row : α × Option β)
  | sqlError
  | noData
  deriving DecidableEq, Repr

structure UpEntry (α β : Type) where
  request : ℕ
  status : UpStatus α β
  deriving DecidableEq, Repr

/-- The requests `head` to `phaseOne` are with the left child, those from there to `tail` are not
yet. The left up queue is split where `phaseTwo_` points to. An entry of `up` that was inserted
without being filled is `none`. `raised` collects the requests of which an expression failed, and
`fault` records a failed assertion. -/
structure Tcb (α β : Type) where
  head : ℕ
  phaseOne : ℕ
  tail : ℕ
  noMore : ℕ → Bool
  pstate : ℕ → PrivateState
  leftDown : List (Down (Item α))
  leftTail : ℕ
  handled : List (LeftEntry α)
  fresh : List (LeftEntry α)
  rightDown : List (Down (Item β))
  rightTail : ℕ
  rightUp : List (ℕ × Option (Item β))
  up : List (Option (UpEntry α β))
  free : ℕ
  raised : List ℕ
  fault : Bool

variable {α β : Type}

namespace Tcb

variable (u : ℕ) (k : ℕ)

def setState (p : PrivateState) (t : Tcb α β) : Tcb α β :=
  { t with pstate := Function.update t.pstate k p }

/-! ### Cancelling -/

def Down.cancel {ι : Type} (d : Down ι) : Down ι := { d with cancelled := true }

variable (j : Tdb α β) (l : α) (r : β) (c : Children α β) (t : Tcb α β)

def cancelLeft : Tcb α β :=
  { t with leftDown := t.leftDown.map fun d => if d.parentIndex = k then Down.cancel d else d }

def cancelRight : Tcb α β :=
  let p := t.pstate k
  { t with
    rightDown := t.rightDown.map fun d =>
      if p.startRightIndex ≤ d.index ∧ d.index < p.endRightIndex then Down.cancel d else d
    pstate := Function.update t.pstate k { p with startRightIndex := p.endRightIndex } }

def cancelParentRequest : Tcb α β :=
  let s := { t with noMore := Function.update t.noMore k true }
  match (t.pstate k).leftStep with
  | .notEmpty => (s.cancelLeft k).cancelRight k
  | .done => s.cancelRight k
  | .started => s.cancelLeft k
  | .empty => s
  | .cancelled => s

/-! ### Phase one -/

def sendLeft : Tcb α β :=
  if t.noMore t.phaseOne then
    { t.setState t.phaseOne { leftStep := .cancelled } with phaseOne := t.phaseOne + 1 }
  else
    { t.setState t.phaseOne { leftStep := .started } with
      leftDown := t.leftDown ++ [⟨t.phaseOne, t.phaseOne, c.left t.phaseOne, false⟩]
      phaseOne := t.phaseOne + 1 }

def phase1Loop (c : Children α β) (leftSize : ℕ) : ℕ → Tcb α β → Tcb α β
  | 0, t => t
  | n + 1, t => if leftSize ≤ t.leftDown.length then t else phase1Loop c leftSize n (t.sendLeft c)

def workPhase1 (leftSize : ℕ) (t : Tcb α β) : Tcb α β :=
  phase1Loop c leftSize (t.tail - t.phaseOne) t

/-! ### Phase two -/

variable (rightSize : ℕ) (e : LeftEntry α)

def pass (es : List (LeftEntry α)) (t : Tcb α β) : Tcb α β :=
  { t with handled := t.handled ++ [e], fresh := es }

def notEmpty (p : PrivateState) (rightTail : ℕ) : PrivateState :=
  if p.leftStep = .started then { p with leftStep := .notEmpty, startRightIndex := rightTail } else p

def skipLeft : Tcb α β :=
  let p := t.pstate k
  let q := if p.leftStep = .started then
      { p with leftStep := .notEmpty, startRightIndex := t.rightTail, endRightIndex := t.rightTail }
    else p
  t.setState k { q with leftOnlyRows := q.leftOnlyRows + 1 }

def leftError : Tcb α β :=
  let p := notEmpty (t.pstate k) t.rightTail
  let s := (t.setState k { p with endRightIndex := t.rightTail }).cancelParentRequest k
  s.setState k { s.pstate k with leftOnlyRows := (s.pstate k).leftOnlyRows + 1 }

/-- What the right child returns if it is asked for one row. -/
def firstRow : List (Item β) → List (Item β)
  | [] => []
  | .row r :: _ => [.row r]
  | .error :: is => .error :: firstRow is

/-- What the right child is asked for: one row in a semi join or an anti join, else all; nothing if
the predicate failed. So the assertion that the row of a semi join is the first one cannot fail. -/
def rightItems (index : ℕ) (l : α) : List (Item β) :=
  if j.beforePred l = .yes then
    if j.kind = .semi ∨ j.kind = .anti then firstRow (c.right index l) else c.right index l
  else []

def sendRight (k index : ℕ) (l : α) (t : Tcb α β) : Tcb α β :=
  let p := notEmpty (t.pstate k) t.rightTail
  { t.setState k { p with endRightIndex := t.rightTail + 1, leftMatches := p.leftMatches + 1 } with
    rightDown := t.rightDown ++
      [⟨t.rightTail, index, rightItems j c t.rightTail l, j.beforePred l != .yes⟩]
    rightTail := t.rightTail + 1
    fault := t.fault || (t.pstate k).leftOnlyRows != 0 }

def leftEnd : Tcb α β :=
  let p := t.pstate k
  match p.leftStep with
  | .started =>
    t.setState k
      { p with
        leftStep := .empty
        startRightIndex := t.rightTail
        endRightIndex := t.rightTail
        leftOnlyRows := p.leftOnlyRows + 1 }
  | .notEmpty =>
    t.setState k { p with leftStep := .done, leftOnlyRows := p.leftOnlyRows + 1 }
  | _ => { t with fault := true }

def leftReply (t : Tcb α β) :
    Option (Tcb α β) :=
  match e.reply with
  | none => some (t.leftEnd e.request)
  | some (.row l) =>
    if t.noMore e.request then some (t.skipLeft e.request)
    else if rightSize ≤ t.rightDown.length then none
    else if j.beforePred l = .error then
      some (({ t with raised := t.raised ++ [e.request] } : Tcb α β).leftError e.request)
    else some (t.sendRight j c e.request e.index l)
  | some .error =>
    if t.noMore e.request then some (t.skipLeft e.request) else some (t.leftError e.request)

def phase2Loop (j : Tdb α β) (c : Children α β) (rightSize : ℕ) :
    List (LeftEntry α) → Tcb α β → Tcb α β
  | [], t => t
  | e :: es, t =>
    match t.leftReply j c rightSize e with
    | none => t
    | some s => phase2Loop j c rightSize es (s.pass e es)

def workPhase2 (t : Tcb α β) : Tcb α β :=
  phase2Loop j c rightSize t.fresh t

/-! ### Phase three -/

/-- Fill the entry that the pointer `u` points to, and insert the entry at the tail. -/
def putEntry (e : UpEntry α β) (t : Tcb α β) : Tcb α β :=
  { t with
    up := if u = t.up.length then t.up ++ [some e] else t.up.set u (some e) ++ [none]
    free := t.free - 1 }

def handleErrorsFromEval : Tcb α β :=
  putEntry u ⟨t.head, .sqlError⟩
    { t.cancelParentRequest t.head with raised := t.raised ++ [t.head] }

def setMatched (b : Bool) (t : Tcb α β) : Tcb α β :=
  t.setState t.head { t.pstate t.head with outerMatched := b }

/-- An error of an expression is reported if there is room. The answer is the pointer to go on with,
or that the procedure returns. -/
def evalError : Tcb α β × Option ℕ :=
  if t.free = 0 then (t, none) else (t.handleErrorsFromEval t.up.length, some t.up.length)

def rightPart : Option β :=
  if j.kind = .semi ∨ j.kind = .anti then none else some r

def returnRow : Tcb α β × Option ℕ :=
  match j.afterPred l (rightPart j r) with
  | .error => t.evalError
  | .no => (t, some t.up.length)
  | .yes =>
    if j.kind = .anti then (t, some t.up.length)
    else if t.free = 0 then (t, none)
    else (t.putEntry t.up.length ⟨t.head, .okMmore (l, rightPart j r)⟩, some t.up.length)

def rightRow (refused : Bool) (l : α) (r : β) (t : Tcb α β) : Tcb α β × Option ℕ :=
  match j.beforePred l with
  | .error => t.evalError
  | .no => (t, some t.up.length)
  | .yes =>
    match j.ljExpr with
    | none => (t.setMatched true).returnRow j l r
    | some f =>
      if refused then (t.setMatched true, none)
      else if f l r = .error then (t.setMatched true).evalError
      else (t.setMatched true).returnRow j l r

def nullExtend : Tcb α β × Option ℕ :=
  if t.free = 0 then (t, none)
  else
    match j.afterPred l none with
    | .yes => (t.putEntry t.up.length ⟨t.head, .okMmore (l, none)⟩, some (t.up.length + 1))
    -- the pointer is not fetched again
    | .error => (t.handleErrorsFromEval t.up.length, some t.up.length)
    | .no => (t, some t.up.length)

def finishLeft : Tcb α β :=
  let p := t.pstate t.head
  { t.setState t.head { p with leftMatches := p.leftMatches - 1, outerMatched := false } with
    handled := t.handled.tail }

def rightEnd : Tcb α β × Option ℕ :=
  if (j.kind = .left ∨ j.kind = .anti) ∧ (t.pstate t.head).outerMatched = false ∧
      t.noMore t.head = false then
    match t.nullExtend j l with
    | (s, none) => (s, none)
    | (s, some u) => (s.finishLeft, some u)
  else (t.finishLeft, some t.up.length)

def rightError : Tcb α β × Option ℕ :=
  if t.free = 0 then (t, none)
  else ((t.putEntry t.up.length ⟨t.head, .sqlError⟩).cancelParentRequest t.head, some t.up.length)

def rightReply (refused : Bool) (e : ℕ × Option (Item β)) (t : Tcb α β) :
    Tcb α β × Option ℕ :=
  match t.handled with
  | ⟨index, _, some (.row l)⟩ :: _ =>
    if e.1 = index then
      match e.2 with
      | none => t.rightEnd j l
      | some i =>
        if t.noMore t.head then (t, some t.up.length)
        else
          match i with
          | .row r => t.rightRow j refused l r
          | .error => t.rightError
    else ({ t with fault := true }, none)
  | _ => ({ t with fault := true }, none)

def rightLoop (j : Tdb α β) : (ℕ → Bool) → List (ℕ × Option (Item β)) → ℕ → Tcb α β →
    Tcb α β × Option ℕ
  | _, [], u, t => (t, some u)
  | refused, e :: es, u, t =>
    if (t.pstate t.head).leftMatches = 0 then (t, some u)
    else
      match t.rightReply j (refused 0) e with
      | (s, none) => (s, none)
      | (s, some v) => rightLoop j (fun n => refused (n + 1)) es v { s with rightUp := es }

def dropLeftOnly : Tcb α β :=
  let p := t.pstate t.head
  { t.setState t.head { p with leftOnlyRows := p.leftOnlyRows - 1 } with
    handled := t.handled.tail }

def isError : Option (Item α) → Bool
  | some .error => true
  | _ => false

def leftOnlyLoop : ℕ → ℕ → Tcb α β → Tcb α β × Option ℕ
  | 0, u, t => (t, some u)
  | n + 1, u, t =>
    match t.handled with
    | [] => ({ t with fault := true }, none)
    | e :: _ =>
      if e.request = t.head then
        if isError e.reply then
          if t.free = 0 then (t, none)
          else
            let s := t.putEntry u ⟨t.head, .sqlError⟩
            leftOnlyLoop n s.up.length s.dropLeftOnly
        else leftOnlyLoop n u t.dropLeftOnly
      else ({ t with fault := true }, none)

def endRequest : Tcb α β :=
  { t.putEntry u ⟨t.head, .noData⟩ with head := t.head + 1 }

/-- The right child is through with the left rows it was given. The answer says whether the request
is ended. -/
def afterRight : Tcb α β × Bool :=
  match leftOnlyLoop (t.pstate t.head).leftOnlyRows u t with
  | (s, none) => (s, false)
  | (s, some u) =>
    if (s.pstate s.head).leftStep = .notEmpty ∨ s.free = 0 then (s, false)
    else (s.endRequest u, true)

def headRequest (refused : ℕ → Bool) (t : Tcb α β) : Tcb α β × Bool :=
  if (t.pstate t.head).leftStep = .started then (t, false)
  else
    match rightLoop j refused t.rightUp t.up.length t with
    | (s, none) => (s, false)
    | (s, some u) => if (s.pstate s.head).leftMatches ≠ 0 then (s, false) else s.afterRight u

def phase3Loop (j : Tdb α β) (refused : ℕ → ℕ → Bool) : ℕ → Tcb α β → Tcb α β
  | 0, t => t
  | n + 1, t =>
    match t.headRequest j (refused n) with
    | (s, false) => s
    | (s, true) => phase3Loop j refused n s

def workPhase3 (refused : ℕ → ℕ → Bool) (t : Tcb α β) : Tcb α β :=
  phase3Loop j refused (t.phaseOne - t.head) t

def workCancel : Tcb α β :=
  (List.range' t.head (t.phaseOne - t.head)).foldl
    (fun s k => if s.noMore k then s.cancelParentRequest k else s) t

end Tcb

/-! ### Runs -/

inductive Event
  | parentSends
  | parentCancels (k : ℕ)
  | parentTakes
  | deliverLeft (early : Bool)
  | deliverRight (early : Bool)
  | workPhase1
  | workPhase2
  | workPhase3 (refused : ℕ → ℕ → Bool)
  | workCancel

variable {ι : Type} (early : Bool)

/-- The next reply of a child: an item, or the end of the first request. A cancelled request may be
ended early. -/
def Down.reply (d : Down ι) : Option ι × Option (Down ι) :=
  match d.pending with
  | [] => (none, none)
  | i :: is => if early && d.cancelled then (none, none) else (some i, some { d with pending := is })

def nextReply : List (Down ι) → Option (ℕ × Option ι × List (Down ι))
  | [] => none
  | d :: ds => some (d.parentIndex, (d.reply early).1, (d.reply early).2.toList ++ ds)

/-- The sizes of the parent's two queues and of the children's down queues. -/
structure Sizes where
  parentDown : ℕ
  parentUp : ℕ
  left : ℕ
  right : ℕ

def step (j : Tdb α β) (c : Children α β) (size : Sizes) (t : Tcb α β) : Event → Tcb α β
  | .parentSends => if t.tail - t.head < size.parentDown then { t with tail := t.tail + 1 } else t
  | .parentCancels k =>
    if t.head ≤ k ∧ k < t.tail then { t with noMore := Function.update t.noMore k true } else t
  | .parentTakes => if t.free < size.parentUp then { t with free := t.free + 1 } else t
  | .deliverLeft early =>
    match nextReply early t.leftDown with
    | none => t
    | some (k, reply, ds) =>
      { t with
        fresh := t.fresh ++ [⟨t.leftTail, k, reply⟩]
        leftTail := t.leftTail + 1
        leftDown := ds }
  | .deliverRight early =>
    match nextReply early t.rightDown with
    | none => t
    | some (i, reply, ds) => { t with rightUp := t.rightUp ++ [(i, reply)], rightDown := ds }
  | .workPhase1 => t.workPhase1 c size.left
  | .workPhase2 => t.workPhase2 j c size.right
  | .workPhase3 refused => t.workPhase3 j refused
  | .workCancel => t.workCancel

def initial (size : Sizes) : Tcb α β :=
  { head := 0
    phaseOne := 0
    tail := 0
    noMore := fun _ => false
    pstate := fun _ => {}
    leftDown := []
    leftTail := 0
    handled := []
    fresh := []
    rightDown := []
    rightTail := 0
    rightUp := []
    up := []
    free := size.parentUp
    raised := []
    fault := false }

end Trafodion.NestedJoin
