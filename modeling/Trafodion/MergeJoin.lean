import Mathlib.Data.List.Infix
import Trafodion.SplitTop

/-!
# Merge join

One request of `ex_mj_tcb`, with children whose entries arrive at any time and a parent queue of any
size. A call of `work` passes through the loop until a pass returns; whether the tuple pool refuses
a tuple is decided anew in each pass. The pool of duplicates and the tuple space are both lists that
are read again from the start.
-/
namespace Trafodion.MergeJoin

open List

open SplitTop (Entry Request)

inductive Kind
  | inner
  | left
  | semi
  | anti
  deriving DecidableEq, Repr

/-- The plan: keys, predicates and the request. A row without right part is the left row alone, or
null-extended. -/
structure Tdb (α β κ : Type) where
  kind : Kind
  leftKey : α → κ
  rightKey : β → κ
  preJoinExpr : Option (α → β → Bool)
  postJoinExpr : α → Option β → Bool
  parallel : Bool
  request : Request

inductive MjStep
  | uninitialized
  | empty
  | getLeft
  | getRight
  | returnOneRow
  | saveDupRight
  | saveDupRightTspace
  | rewindOverflow
  | returnSavedDupRows
  | returnOverflowRows
  | finishLeft
  | cancel
  | done
  | doneNeverStarted
  deriving DecidableEq, Repr

inductive PostIoStep
  | getLeft
  | returnSavedDupRows
  deriving DecidableEq, Repr

def PostIoStep.step : PostIoStep → MjStep
  | .getLeft => .getLeft
  | .returnSavedDupRows => .returnSavedDupRows

inductive LookAhead
  | unchecked
  | different
  | duplicate
  | noData
  deriving DecidableEq, Repr

structure Saved (β : Type) where
  rows : List β
  rest : List β
  deriving DecidableEq, Repr

namespace Saved
variable {β : Type}

variable (s : Saved β)

def insert (r : β) : Saved β := { s with rows := s.rows ++ [r] }

def rewind : Saved β := { s with rest := s.rows }

def advance : Saved β := { s with rest := s.rest.tail }

def discard : Saved β := ⟨[], []⟩

end Saved

structure Child (α : Type) where
  queue : List (Entry α)
  pending : List (Entry α)
  requested : Bool
  cancelled : Bool
  deriving DecidableEq, Repr

/-- Where `prevRightAtp_` points to: the rows behind it change with each row saved there. -/
inductive SavedIn
  | dupAtp
  | tspaceAtp
  deriving DecidableEq, Repr

/-- `fault` records that a missing entry or row was used. -/
structure Tcb (α β : Type) where
  step : MjStep
  postIoStep : PostIoStep
  outerMatched : Bool
  matchCount : ℕ
  lookAheadState : LookAhead
  savedRetCode : Bool
  saveFirstDupAtp : Bool
  prevRightAtp : Option SavedIn
  dupPool : Saved β
  tspace : Saved β
  left : Child α
  right : Child β
  free : ℕ
  up : List (Option (α × Option β))
  down : Bool
  fault : Bool
  deriving DecidableEq, Repr

variable {α β κ : Type}

/-! ### The join -/

namespace Tdb

variable (j : Tdb α β κ) (l : α)

/-- An anti join has the flag of a semi join as well. -/
def isSemiJoin : Bool := j.kind = .semi || j.kind = .anti

def satisfies (r : β) : Bool :=
  match j.preJoinExpr with
  | none => true
  | some p => p l r

def joinRow (ms : List β) : List (α × Option β) :=
  let matched := ms.filter (j.satisfies l)
  let rows := match j.kind with
    | .inner => matched.map fun r => (l, some r)
    | .left => if matched = [] then [(l, none)] else matched.map fun r => (l, some r)
    | .semi => if matched = [] then [] else [(l, none)]
    | .anti => if matched = [] then [(l, none)] else []
  rows.filter fun x => j.postJoinExpr x.1 x.2

variable [LinearOrder κ]

def matching (j : Tdb α β κ) (l : α) (rs : List β) : List β :=
  rs.filter fun r => j.rightKey r = j.leftKey l

def join (j : Tdb α β κ) (ls : List α) (rs : List β) : List (α × Option β) :=
  ls.flatMap fun l => j.joinRow l (j.matching l rs)

def answer (j : Tdb α β κ) (ls : List α) (rs : List β) : List (α × Option β) :=
  match j.request with
  | .getAll => j.join ls rs
  | .getN n => (j.join ls rs).take n

end Tdb

/-! ### The operator -/

def Child.cancel (c : Child α) : Child α := { c with cancelled := true }

namespace Tcb

variable (j : Tdb α β κ) (refused : Bool) (l : α) (r : β) (t : Tcb α β)

def noSavedDups : Bool := t.dupPool.rows.isEmpty && t.tspace.rows.isEmpty

def enough : Bool :=
  match j.request with
  | .getAll => false
  | .getN n => n ≤ t.matchCount

def checkLimit : Tcb α β :=
  if t.step ≠ .cancel ∧ t.step ≠ .done ∧ t.step ≠ .doneNeverStarted ∧ t.enough j then
    if t.step = .uninitialized ∨ t.step = .empty then { t with step := .doneNeverStarted }
    else { t with left := t.left.cancel, right := t.right.cancel, step := .cancel }
  else t

def sendRow (r : Option β) (t : Tcb α β) : Tcb α β :=
  if j.postJoinExpr l r then
    { t with matchCount := t.matchCount + 1, up := t.up ++ [some (l, r)], free := t.free - 1 }
  else t

def returnRow : Tcb α β :=
  if j.satisfies l r then
    if j.kind = .anti then { t with outerMatched := true }
    else sendRow j l (if j.kind = .semi then none else some r) { t with outerMatched := true }
  else t

def rewindTo (s : PostIoStep) (t : Tcb α β) : Tcb α β :=
  if t.tspace.rows = [] then { t with dupPool := t.dupPool.rewind, step := s.step }
  else { t with dupPool := t.dupPool.rewind, postIoStep := s, step := .rewindOverflow }

def currentDup : Option β :=
  if t.dupPool.rows = [] then t.tspace.rest.head? else t.dupPool.rest.head?

/-- The row behind `prevRightAtp_`. -/
def prevRight : Option β :=
  match t.prevRightAtp with
  | none => none
  | some .dupAtp => t.dupPool.rows.getLast?
  | some .tspaceAtp => t.tspace.rows.getLast?

/-! ### The loop ends

What a pass that goes on uses up: an entry of a child, or else a place in the order in which the
steps follow each other for one left row. -/

def entries : ℕ :=
  t.left.queue.length + t.left.pending.length + (t.right.queue.length + t.right.pending.length)

def rank : ℕ :=
  let saved := t.dupPool.rows.length + t.tspace.rows.length
  let dupRest := t.dupPool.rest.length
  let tspaceRest := t.tspace.rest.length
  match t.step with
  | .uninitialized => saved + dupRest + tspaceRest + 13
  | .empty => saved + dupRest + tspaceRest + 12
  | .rewindOverflow =>
    match t.postIoStep with
    | .getLeft => saved + dupRest + t.tspace.rows.length + 11
    | .returnSavedDupRows => dupRest + t.tspace.rows.length + 6
  | .getLeft => saved + dupRest + tspaceRest + 10
  | .getRight => saved + tspaceRest + 9
  | .returnOneRow => saved + tspaceRest + 8
  | .saveDupRight => saved + tspaceRest + 8
  | .saveDupRightTspace => saved + tspaceRest + 7
  | .returnSavedDupRows => dupRest + tspaceRest + 5
  | .returnOverflowRows => tspaceRest + 4
  | .finishLeft => 3
  | .cancel => 2
  | .done => 1
  | .doneNeverStarted => 1

def Drops (s t : Tcb α β) : Prop :=
  s.entries < t.entries ∨ s.entries = t.entries ∧ s.rank < t.rank

lemma Drops.trans {s t u : Tcb α β} (h : s.Drops t) (h' : t.Drops u) : s.Drops u := by
  unfold Drops at *
  omega

lemma Drops.lex {s t : Tcb α β} (h : s.Drops t) :
    Prod.Lex (· < ·) (· < ·) (s.entries, s.rank) (t.entries, t.rank) :=
  Prod.lex_def.2 h

/-- Returning a row touches nothing that the steps depend on, except whether the row matched. -/
theorem sendRow_frame (r : Option β) (t : Tcb α β) :
    ∃ c u f, t.sendRow j l r = { t with matchCount := c, up := u, free := f } := by
  unfold sendRow
  split_ifs
  · exact ⟨_, _, _, rfl⟩
  · exact ⟨t.matchCount, t.up, t.free, rfl⟩

lemma returnRow_frame :
    ∃ m c u f, t.returnRow j l r =
      { t with outerMatched := m, matchCount := c, up := u, free := f } := by
  unfold returnRow
  split_ifs
  · exact ⟨_, t.matchCount, t.up, t.free, rfl⟩
  · obtain ⟨c, u, f, h⟩ := sendRow_frame j l none { t with outerMatched := true }
    exact ⟨true, c, u, f, h⟩
  · obtain ⟨c, u, f, h⟩ := sendRow_frame j l (some r) { t with outerMatched := true }
    exact ⟨true, c, u, f, h⟩
  · exact ⟨t.outerMatched, t.matchCount, t.up, t.free, rfl⟩

lemma checkLimit_drops : t.checkLimit j = t ∨ (t.checkLimit j).Drops t := by
  unfold checkLimit
  split_ifs with hlimit hst0
  · right
    rcases hst0 with h | h <;> exact .inr ⟨rfl, by simp only [rank, h]; omega⟩
  · right
    refine .inr ⟨rfl, ?_⟩
    have hrank : t.step ≠ .cancel → t.step ≠ .done → t.step ≠ .doneNeverStarted → 2 < t.rank := by
      intro h1 h2 h3
      unfold rank
      dsimp only
      split <;> first | contradiction | (split <;> omega) | omega
    exact hrank hlimit.1 hlimit.2.1 hlimit.2.2.1
  · exact .inl rfl

/-! ### The steps -/

def getLeft [LinearOrder κ] (j : Tdb α β κ) (t : Tcb α β) : Tcb α β × Bool :=
  match t.left.queue with
  | [] => (t, false)
  | .noData :: _ =>
    ({ t with step := .cancel, right := if j.parallel then t.right else t.right.cancel }, true)
  | .row l :: _ =>
    if t.noSavedDups then ({ t with step := .getRight }, true)
    else
      match t.currentDup with
      | none => ({ t with fault := true }, false)
      | some r =>
        if j.leftKey l = j.rightKey r then ({ t with step := .returnSavedDupRows }, true)
        else ({ t with dupPool := .discard, tspace := .discard, step := .getRight }, true)

def lookAhead [LinearOrder κ] (j : Tdb α β κ) (next : Option (Entry α)) (r : β) (t : Tcb α β) : LookAhead :=
  if t.lookAheadState = .unchecked then
    match next with
    | none => .unchecked
    | some (.row l) => if j.leftKey l = j.rightKey r then .duplicate else .different
    | some .noData => .noData
  else t.lookAheadState

def matchRight (la : LookAhead) (t : Tcb α β) : Tcb α β :=
  if la = .duplicate ∨ la = .unchecked then
    { t with lookAheadState := la, saveFirstDupAtp := true, savedRetCode := true,
             step := .saveDupRight }
  else { t with lookAheadState := la, step := .returnOneRow }

def getRight [LinearOrder κ] (j : Tdb α β κ) (t : Tcb α β) : Tcb α β × Bool :=
  match t.right.queue with
  | [] => (t, false)
  | .noData :: _ =>
    if j.kind = .left ∨ j.kind = .anti then ({ t with step := .finishLeft }, true)
    else
      ({ t with step := .cancel, left := if j.parallel then t.left else t.left.cancel }, true)
  | .row r :: rq =>
    match t.left.queue with
    | .row l :: lq =>
      if j.leftKey l = j.rightKey r then (t.matchRight (t.lookAhead j lq.head? r), true)
      else if j.leftKey l < j.rightKey r then ({ t with step := .finishLeft }, true)
      else ({ t with right := { t.right with queue := rq } }, true)
    | _ => ({ t with fault := true }, false)

def returnOneRow : Tcb α β × Bool :=
  match t.left.queue with
  | .row l :: _ =>
    match t.right.queue with
    | .row r :: rq =>
      if j.isSemiJoin ∧ t.outerMatched then
        ({ t with right := { t.right with queue := rq }, step := .getRight }, true)
      else if refused then (t, false)
      else
        ({ t.returnRow j l r with right := { t.right with queue := rq }, step := .getRight }, true)
    | _ => ({ t with fault := true }, false)
  | _ => ({ t with fault := true }, false)

def isDup [LinearOrder κ] (j : Tdb α β κ) (r : β) (t : Tcb α β) : Option Bool :=
  if t.savedRetCode then some true
  else t.prevRight.map fun p => decide (j.rightKey r = j.rightKey p)

def saveRow (rq : List (Entry β)) (place : SavedIn) (t : Tcb α β) : Tcb α β :=
  { t with
    dupPool := if place = .dupAtp then t.dupPool.insert r else t.dupPool
    tspace := if place = .tspaceAtp then t.tspace.insert r else t.tspace
    prevRightAtp := if t.saveFirstDupAtp then some place else t.prevRightAtp
    saveFirstDupAtp := false
    savedRetCode := false
    right := { t.right with queue := rq } }

def saveDupRight [LinearOrder κ] (j : Tdb α β κ) (refused : Bool) (t : Tcb α β) : Tcb α β × Bool :=
  match t.right.queue with
  | [] => (t, false)
  | .noData :: _ => ({ t with prevRightAtp := none }.rewindTo .returnSavedDupRows, true)
  | .row r :: rq =>
    match t.isDup j r with
    | none => ({ t with fault := true }, false)
    | some true =>
      if j.isSemiJoin = false ∨ j.preJoinExpr.isSome ∨ t.noSavedDups then
        if t.step = .saveDupRightTspace then (t.saveRow r rq .tspaceAtp, true)
        else if refused then ({ t with step := .saveDupRightTspace, savedRetCode := true }, true)
        else (t.saveRow r rq .dupAtp, true)
      else ({ t with savedRetCode := false, right := { t.right with queue := rq } }, true)
    | some false => (t.rewindTo .returnSavedDupRows, true)

def returnSavedDupRows : Tcb α β × Bool :=
  match t.dupPool.rest with
  | r :: _ =>
    match t.left.queue with
    | .row l :: _ =>
      if j.isSemiJoin ∧ (t.returnRow j l r).outerMatched then
        ({ t.returnRow j l r with step := .finishLeft }, true)
      else ({ t.returnRow j l r with dupPool := t.dupPool.advance }, true)
    | _ => ({ t with fault := true }, false)
  | [] => ({ t with step := if t.tspace.rows = [] then .finishLeft else .returnOverflowRows }, true)

def returnOverflowRows (j : Tdb α β κ) (refused : Bool) (t : Tcb α β) : Tcb α β × Bool :=
  match t.tspace.rest with
  | r :: rest =>
    if refused then (t, false)
    else
      match t.left.queue with
      | .row l :: _ =>
        if j.isSemiJoin ∧ (t.returnRow j l r).outerMatched then
          ({ t.returnRow j l r with step := .finishLeft }, true)
        else
          ({ t.returnRow j l r with
              tspace := t.tspace.advance
              step := if rest = [] then .finishLeft else .returnOverflowRows }, true)
      | _ => ({ t with fault := true }, false)
  | [] => ({ t with step := .finishLeft }, true)

def nextLeft : Tcb α β :=
  match t.lookAheadState with
  | .different => { t with step := .getRight }
  | .noData =>
    { t with step := .cancel, right := if j.parallel then t.right else t.right.cancel }
  | .duplicate => t.rewindTo .returnSavedDupRows
  | .unchecked => t.rewindTo .getLeft

def returnUnmatched : Tcb α β :=
  if t.outerMatched = false ∧ (j.kind = .left ∨ j.kind = .anti) then t.sendRow j l none else t

def finishLeft : Tcb α β × Bool :=
  match t.left.queue with
  | .row l :: lq =>
    ({ nextLeft j { t.returnUnmatched j l with
          left := { t.left with queue := lq }, outerMatched := false } with
        lookAheadState := .unchecked }, true)
  | _ => ({ t with fault := true }, false)

def isRow : Entry α → Bool
  | .row _ => true
  | .noData => false

def cancel : Tcb α β × Bool :=
  let s := { t with
    dupPool := .discard
    tspace := .discard
    left := { t.left with queue := t.left.queue.dropWhile isRow }
    right := { t.right with queue := t.right.queue.dropWhile isRow } }
  if s.left.queue = [] ∨ s.right.queue = [] then (s, false) else ({ s with step := .done }, true)

def stop : Tcb α β × Bool :=
  ({ t with
      up := t.up ++ [none]
      free := t.free - 1
      left := { t.left with
        queue := if t.step = .doneNeverStarted then t.left.queue else t.left.queue.tail }
      right := { t.right with
        queue := if t.step = .doneNeverStarted then t.right.queue else t.right.queue.tail }
      step := .empty
      matchCount := 0
      outerMatched := false
      prevRightAtp := none
      saveFirstDupAtp := false
      lookAheadState := .unchecked
      down := false }, false)

def start : Tcb α β :=
  { t with
    left := { t.left with requested := true }
    right := { t.right with requested := true }
    step := .getLeft }

def whenFree (f : Tcb α β → Tcb α β × Bool) (t : Tcb α β) : Tcb α β × Bool :=
  if t.free = 0 then (t, false) else f t

def doStep [LinearOrder κ] (j : Tdb α β κ) (refused : Bool) (t : Tcb α β) : Tcb α β × Bool :=
  match t.step with
  | .uninitialized => ({ t with matchCount := 0, step := .empty, outerMatched := false }, true)
  | .empty => (t.start, true)
  | .getLeft => t.getLeft j
  | .getRight => t.getRight j
  | .returnOneRow => t.whenFree (returnOneRow j refused)
  | .saveDupRight => t.saveDupRight j refused
  | .saveDupRightTspace => t.saveDupRight j refused
  | .rewindOverflow => ({ t with tspace := t.tspace.rewind, step := t.postIoStep.step }, true)
  | .returnSavedDupRows => t.whenFree (returnSavedDupRows j)
  | .returnOverflowRows => t.whenFree (returnOverflowRows j refused)
  | .finishLeft => t.whenFree (finishLeft j)
  | .cancel => t.cancel
  | .done => t.whenFree stop
  | .doneNeverStarted => t.whenFree stop

def pass [LinearOrder κ] (j : Tdb α β κ) (refused : Bool) (t : Tcb α β) : Tcb α β × Bool :=
  (t.checkLimit j).doStep j refused

lemma rewindTo_entries (s : PostIoStep) (t : Tcb α β) : (t.rewindTo s).entries = t.entries := by
  unfold rewindTo
  split_ifs <;> rfl

variable {t : Tcb α β}

lemma getLeft_drops [LinearOrder κ] (j : Tdb α β κ) (hstep : t.step = .getLeft)
    (hgo : (t.getLeft j).2 = true) : (t.getLeft j).1.Drops t := by
  unfold getLeft at hgo ⊢
  split at hgo
  next => cases hgo
  next =>
    refine .inr ⟨?_, by simp only [rank, hstep]; omega⟩
    split_ifs <;> rfl
  next l lq hq =>
    split_ifs at hgo ⊢ with hnone
    · exact .inr ⟨rfl, by simp only [rank, hstep]; omega⟩
    · split at hgo
      next => cases hgo
      next r hr =>
        split_ifs
        · exact .inr ⟨rfl, by simp only [rank, hstep]; omega⟩
        · exact .inr ⟨rfl, by simp only [rank, hstep, Saved.discard, length_nil]; omega⟩

lemma getRight_drops [LinearOrder κ] (j : Tdb α β κ) (hstep : t.step = .getRight)
    (hgo : (t.getRight j).2 = true) : (t.getRight j).1.Drops t := by
  unfold getRight at hgo ⊢
  split at hgo
  next => cases hgo
  next =>
    split_ifs
    · exact .inr ⟨rfl, by simp only [rank, hstep]; omega⟩
    · refine .inr ⟨?_, by simp only [rank, hstep]; omega⟩
      simp only [entries]
    · refine .inr ⟨?_, by simp only [rank, hstep]; omega⟩
      simp only [entries, Child.cancel]
  next r rq hr =>
    split at hgo
    next l lq hl =>
      split_ifs
      · unfold matchRight
        split_ifs <;> exact .inr ⟨rfl, by simp only [rank, hstep]; omega⟩
      · exact .inr ⟨rfl, by simp only [rank, hstep]; omega⟩
      · exact .inl (by simp only [entries, hr, length_cons]; omega)
    next => cases hgo

lemma returnOneRow_drops
    (hgo : (t.returnOneRow j refused).2 = true) : (t.returnOneRow j refused).1.Drops t := by
  unfold returnOneRow at hgo ⊢
  split at hgo
  next l lq hl =>
    split at hgo
    next r rq hr =>
      obtain ⟨m, c, u, f, hrow⟩ := t.returnRow_frame j l r
      split_ifs at hgo ⊢
      · exact .inl (by simp only [entries, hr, length_cons]; omega)
      · exact .inl (by simp only [hrow, entries, hr, length_cons]; omega)
    next => cases hgo
  next => cases hgo

lemma rewindTo_rank (t : Tcb α β) : (t.rewindTo .returnSavedDupRows).rank ≤
      t.dupPool.rows.length + t.tspace.rows.length + t.tspace.rest.length + 6 := by
  unfold rewindTo
  split_ifs with h
  · simp only [rank, PostIoStep.step, Saved.rewind]
    omega
  · simp only [rank, Saved.rewind]
    omega

lemma saveDupRight_drops [LinearOrder κ] (j : Tdb α β κ) (refused : Bool)
    (hstep : t.step = .saveDupRight ∨ t.step = .saveDupRightTspace)
    (hgo : (t.saveDupRight j refused).2 = true) : (t.saveDupRight j refused).1.Drops t := by
  have hrank : t.dupPool.rows.length + t.tspace.rows.length + t.tspace.rest.length + 6 < t.rank := by
    rcases hstep with h | h <;> simp only [rank, h] <;> omega
  unfold saveDupRight at hgo ⊢
  split at hgo
  next => cases hgo
  next =>
    refine .inr ⟨rewindTo_entries _ _, lt_of_le_of_lt (rewindTo_rank _) hrank⟩
  next r rq hr =>
    split at hgo
    next => cases hgo
    next =>
      split_ifs with hsave htsp href
      · exact .inl (by simp only [saveRow, entries, hr, length_cons]; omega)
      · have hdup : t.step = .saveDupRight := hstep.resolve_right htsp
        exact .inr ⟨rfl, by simp only [rank, hdup]; omega⟩
      · exact .inl (by simp only [saveRow, entries, hr, length_cons]; omega)
      · exact .inl (by simp only [entries, hr, length_cons]; omega)
    next => exact .inr ⟨rewindTo_entries _ _, lt_of_le_of_lt (rewindTo_rank _) hrank⟩

lemma returnSavedDupRows_drops
    (hstep : t.step = .returnSavedDupRows) (hgo : (t.returnSavedDupRows j).2 = true) :
    (t.returnSavedDupRows j).1.Drops t := by
  unfold returnSavedDupRows at hgo ⊢
  split at hgo
  next r rest hr =>
    split at hgo
    next l lq hl =>
      obtain ⟨m, c, u, f, hrow⟩ := t.returnRow_frame j l r
      split_ifs
      · exact .inr ⟨by rw [hrow]; rfl, by simp only [rank, hstep]; omega⟩
      · refine .inr ⟨by rw [hrow]; rfl, ?_⟩
        simp only [hrow, rank, hstep, Saved.advance, hr, length_cons, tail_cons]
        omega
    next => cases hgo
  next hr =>
    refine .inr ⟨rfl, ?_⟩
    split_ifs <;> simp only [rank, hstep] <;> omega

lemma returnOverflowRows_drops
    (hstep : t.step = .returnOverflowRows) (hgo : (t.returnOverflowRows j refused).2 = true) :
    (t.returnOverflowRows j refused).1.Drops t := by
  unfold returnOverflowRows at hgo ⊢
  split at hgo
  next r rest hr =>
    cases refused with
    | true => cases hgo
    | false =>
      rw [if_neg Bool.false_ne_true] at hgo ⊢
      split at hgo
      next l lq hl =>
        obtain ⟨m, c, u, f, hrow⟩ := t.returnRow_frame j l r
        split_ifs
        · exact .inr ⟨by rw [hrow]; rfl, by simp only [rank, hstep]; omega⟩
        · exact .inr ⟨by rw [hrow]; rfl, by simp only [rank, hstep]; omega⟩
        · refine .inr ⟨by rw [hrow]; rfl, ?_⟩
          simp only [rank, hstep, Saved.advance, hr, length_cons, tail_cons]
          omega
      next => cases hgo
  next => exact .inr ⟨rfl, by simp only [rank, hstep]; omega⟩

lemma nextLeft_entries (t : Tcb α β) : (t.nextLeft j).entries = t.entries := by
  unfold nextLeft
  split
  next => rfl
  next =>
    split_ifs <;> rfl
  next => exact rewindTo_entries _ _
  next => exact rewindTo_entries _ _

lemma returnUnmatched_frame (t : Tcb α β) :
    ∃ c u f, t.returnUnmatched j l = { t with matchCount := c, up := u, free := f } := by
  unfold returnUnmatched
  split_ifs
  · exact t.sendRow_frame j l none
  · exact ⟨t.matchCount, t.up, t.free, rfl⟩

lemma finishLeft_drops (hgo : (t.finishLeft j).2 = true) : (t.finishLeft j).1.Drops t := by
  unfold finishLeft at hgo ⊢
  split at hgo
  next l lq hl =>
    left
    obtain ⟨c, u, f, hrow⟩ := t.returnUnmatched_frame j l
    refine lt_of_eq_of_lt (nextLeft_entries j _) ?_
    simp only [hrow, entries, hl, length_cons]
    omega
  next => cases hgo

lemma cancel_drops (hstep : t.step = .cancel) (hgo : t.cancel.2 = true) : t.cancel.1.Drops t := by
  have hleft := (dropWhile_suffix (l := t.left.queue) isRow).length_le
  have hrt := (dropWhile_suffix (l := t.right.queue) isRow).length_le
  unfold cancel at hgo ⊢
  dsimp only at hgo ⊢
  split_ifs at hgo ⊢
  unfold Drops
  simp only [entries, rank, hstep]
  omega

lemma whenFree_drops {f : Tcb α β → Tcb α β × Bool} (hgo : (t.whenFree f).2 = true)
    (hf : (f t).2 = true → (f t).1.Drops t) : (t.whenFree f).1.Drops t := by
  unfold whenFree at hgo ⊢
  split_ifs at hgo ⊢
  exact hf hgo

lemma doStep_drops [LinearOrder κ] (j : Tdb α β κ) (refused : Bool)
    (hgo : (t.doStep j refused).2 = true) : (t.doStep j refused).1.Drops t := by
  unfold doStep at hgo ⊢
  split at hgo
  next h => exact .inr ⟨rfl, by simp only [rank, h]; omega⟩
  next h => exact .inr ⟨rfl, by simp only [start, rank, h]; omega⟩
  next h => exact getLeft_drops j h hgo
  next h => exact getRight_drops j h hgo
  next => exact whenFree_drops hgo (returnOneRow_drops j refused)
  next h => exact saveDupRight_drops j refused (.inl h) hgo
  next h => exact saveDupRight_drops j refused (.inr h) hgo
  next h =>
    refine .inr ⟨rfl, ?_⟩
    cases hio : t.postIoStep with
    | getLeft | returnSavedDupRows =>
      simp only [rank, h, hio, PostIoStep.step, Saved.rewind]
      omega
  next h => exact whenFree_drops hgo (returnSavedDupRows_drops j h)
  next h => exact whenFree_drops hgo (returnOverflowRows_drops j refused h)
  next => exact whenFree_drops hgo (finishLeft_drops j)
  next h => exact cancel_drops h hgo
  next => exact whenFree_drops hgo fun hstop => by cases hstop
  next => exact whenFree_drops hgo fun hstop => by cases hstop

lemma pass_drops [LinearOrder κ] (j : Tdb α β κ) (refused : Bool)
    (hgo : (t.pass j refused).2 = true) : (t.pass j refused).1.Drops t := by
  obtain hsame | hlimit := t.checkLimit_drops j
  · unfold pass at hgo ⊢
    rw [hsame] at hgo ⊢
    exact doStep_drops j refused hgo
  · exact (doStep_drops j refused hgo).trans hlimit

def work [LinearOrder κ] (j : Tdb α β κ) (refused : ℕ → Bool) (t : Tcb α β) : Tcb α β :=
  if t.down then
    if hgo : (t.pass j (refused 0)).2 = true then
      work j (fun n => refused (n + 1)) (t.pass j (refused 0)).1
    else (t.pass j (refused 0)).1
  else t
termination_by (t.entries, t.rank)
decreasing_by exact (pass_drops j _ hgo).lex

end Tcb

/-! ### Runs -/

/-- An entry arrives, a cancelled child ends early, the parent takes an entry, or the operator
works. -/
inductive Event
  | deliverLeft
  | deliverRight
  | giveUpLeft
  | giveUpRight
  | parentTakes
  | work (refused : ℕ → Bool)

def Child.deliver (c : Child α) : Child α :=
  match c.pending with
  | [] => c
  | e :: rest => if c.requested then { c with queue := c.queue ++ [e], pending := rest } else c

def Child.giveUp (c : Child α) : Child α :=
  if c.cancelled ∧ c.pending ≠ [] then { c with pending := [.noData] } else c

def step [LinearOrder κ] (j : Tdb α β κ) (size : ℕ) (t : Tcb α β) : Event → Tcb α β
  | .deliverLeft => { t with left := t.left.deliver }
  | .deliverRight => { t with right := t.right.deliver }
  | .giveUpLeft => { t with left := t.left.giveUp }
  | .giveUpRight => { t with right := t.right.giveUp }
  | .parentTakes => if t.free < size then { t with free := t.free + 1 } else t
  | .work refused => t.work j refused

def Child.ofRows (rows : List α) : Child α :=
  { queue := [], pending := rows.map .row ++ [.noData], requested := false, cancelled := false }

def initial (ls : List α) (rs : List β) (size : ℕ) : Tcb α β :=
  { step := .uninitialized
    postIoStep := .getLeft
    outerMatched := false
    matchCount := 0
    lookAheadState := .unchecked
    savedRetCode := false
    saveFirstDupAtp := false
    prevRightAtp := none
    dupPool := .discard
    tspace := .discard
    left := .ofRows ls
    right := .ofRows rs
    free := size
    up := []
    down := true
    fault := false }

end Trafodion.MergeJoin
