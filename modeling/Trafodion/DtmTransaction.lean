import Mathlib.Data.Int.Notation
import Trafodion.Runs

/-!
# A transaction of the distributed transaction manager

The state machine of `TM_TX_Info` in non-sync mode. A request runs `state_change` on the events
it stands for; `state_change` loops over the state of the transaction and calls the branches of
the resource managers. What those calls return is part of the request (`Results`): no request
makes one of them twice. `log` records the calls, the trans-state records and the replies in the
order in which they are made. `abort ()` stops the process, so the functions that may call it
return in `Except`, with the session at that point as the error.
-/
namespace Trafodion.Dtm

/-- `TM_TX_STATE` -/
inductive TxState
  | notx | active | idle | forgotten | committed | aborting | aborted | committing | preparing
  | prepared | forgetting | forgettingHeur | forgottenHeur | beginning | hungCommitted
  | hungAborted | abortingPart2 | terminating
  deriving DecidableEq, Repr

/-! Return codes of the branches and file-system errors, with the values of the headers. -/

def xaOk : ℤ := 0
def xaRdonly : ℤ := 3
def xaHeurMix : ℤ := 5
def xaHeurRb : ℤ := 6
def xaHeurCom : ℤ := 7
def xaHeurHaz : ℤ := 8
def xaerRmerr : ℤ := -3
def xaerNota : ℤ := -4
def xaerProto : ℤ := -6
def xaerRmfail : ℤ := -7
def xaerDupid : ℤ := -8
def retOk : ℤ := 0
def retReadOnly : ℤ := 2
def commitConflict : ℤ := 5

def feOk : ℤ := 0
def feLocked : ℤ := 73
def feEndedTransid : ℤ := 76
def feInvTransid : ℤ := 78
def feDeviceDownForTmf : ℤ := 85
def feAbortedTransid : ℤ := 97
def feTxNotSuspended : ℤ := 717
def feJoinsOutstanding : ℤ := 730

/-- The codes that `state_change_abort_helper` and `state_change_commit_helper` take for a
heuristic completion. -/
def Heuristic (error : ℤ) : Prop :=
  error = xaHeurHaz ∨ error = xaHeurCom ∨ error = xaHeurRb ∨ error = xaHeurMix

instance (error : ℤ) : Decidable (Heuristic error) := inferInstanceAs (Decidable (_ ∨ _))

inductive Redrive
  | redriveRollback | redriveCommit
  deriving DecidableEq, Repr

/-- What the branch calls of one request return. `completeAfterCommit` and
`completeAfterRollback` are the two calls of `completeRequest_branches`; `prepareMarks` says
that a resource manager marked the transaction for rollback while it prepared. -/
structure Results where
  endTse : ℤ := 0
  prepareHbase : ℤ := 0
  prepareTse : ℤ := 0
  prepareMarks : Bool := false
  numRmPartic : ℕ := 1
  commitHbase : ℤ := 0
  commitTse : ℤ := 0
  completeAfterCommit : ℤ := 0
  rollbackHbase : ℤ := 0
  rollbackTse : ℤ := 0
  completeAfterRollback : ℤ := 0
  deriving DecidableEq, Repr

inductive Entry
  | endBranches (error : ℤ)
  | prepareBranches (error : ℤ)
  | commitBranches (hbase tse : ℤ)
  | rollbackBranches (hbase tse : ℤ)
  | completeRequest (error : ℤ)
  | forgetHeurBranches
  | transState (state : TxState)
  | reply (error : ℤ)
  deriving DecidableEq, Repr

/-- The fields of `TM_TX_Info` that the state machine reads. With `cleanup` the count
`iv_cleanup_sem` is not 0: the object is given back when its thread lets go of it, and until then
`txn_object_good` refuses every request for it. -/
structure Tx where
  state : TxState
  enderPid : ℕ
  numActivePartic : ℕ
  markForRollback : Bool := false
  tmAborted : Bool := false
  tseAborted : Bool := false
  applAborted : Bool := false
  heurAborted : Bool := false
  readOnly : Bool := false
  wroteTransState : Bool := false
  transactionBusy : Bool := false
  hungEvent : Option Redrive := none
  cleanup : Bool := false
  deriving DecidableEq, Repr

namespace Tx

def abortFlags (tx : Tx) : Bool :=
  tx.tmAborted || tx.tseAborted || tx.applAborted || tx.heurAborted

def isAborting (tx : Tx) : Bool :=
  tx.state = .aborting || tx.state = .abortingPart2 || tx.state = .aborted ||
    tx.state = .hungAborted || tx.abortFlags || tx.markForRollback

/-- A transaction after `TX_BEGIN_COMPLETE`. -/
def begun (enderPid numActivePartic : ℕ) : Tx :=
  { state := .active
    enderPid := enderPid
    numActivePartic := numActivePartic }

end Tx

/-- `CTmTxMessage`: the request being processed, with the error of its response. -/
structure Message where
  replyPending : Bool
  responseError : ℤ := feOk
  deriving DecidableEq, Repr

structure Session where
  tx : Tx
  msg : Message
  log : List Entry := []
  deriving DecidableEq, Repr

namespace Session

variable (early : Bool) (r : Results) (s : Session) (state : TxState)

def setState : Session :=
  { s with tx := { s.tx with state := state } }

def record (e : Entry) : Session := { s with log := s.log ++ [e] }

/-- `CTmTxMessage::reply()`; a message that was answered, or that nobody waits for, is not. -/
def reply (s : Session) : Session :=
  if s.msg.replyPending then
    { s.record (.reply s.msg.responseError) with msg := { s.msg with replyPending := false } }
  else s

def responseError (s : Session) (error : ℤ) : Session :=
  { s with msg := { s.msg with responseError := error } }

/-- `CTmTxMessage::reply(short)` -/
def replyWith (error : ℤ) : Session := (s.responseError error).reply

def writeTransState : Session :=
  { s.record (.transState state) with tx := { s.tx with wroteTransState := true } }

def addHungTimerEvent (r : Redrive) : Session :=
  if s.tx.hungEvent = none then { s with tx := { s.tx with hungEvent := some r } } else s

def cancelHungEvent : Session := { s with tx := { s.tx with hungEvent := none } }

def resetTransactionBusy : Session :=
  { s with tx := { s.tx with transactionBusy := false } }

def incCleanup : Session := { s with tx := { s.tx with cleanup := true } }

/-! ### CTmTxBranches -/

def endBranches (s : Session) (r : Results) : Session × ℤ :=
  (s.record (.endBranches r.endTse), r.endTse)

/-- How `CTmTxBranches::prepare_branches` combines the two answers. -/
def prepareResult (hbase tse : ℤ) : ℤ :=
  if hbase = retReadOnly ∧ (tse = xaRdonly ∨ tse = xaerNota) then xaOk
  else if (if tse = xaRdonly ∨ tse = xaerNota then xaOk else tse) ≠ retOk then xaerRmerr
  else if (if hbase = retReadOnly then retOk else hbase) ≠ xaOk then
    (if hbase = retReadOnly then retOk else hbase)
  else xaOk

def prepareBranches (s : Session) (r : Results) : Session × ℤ :=
  let error := prepareResult r.prepareHbase r.prepareTse
  let marks := s.tx.markForRollback || r.prepareMarks ||
    (error ≠ xaOk && error ≠ xaRdonly : Bool)
  ({ s.record (.prepareBranches error) with tx := { s.tx with markForRollback := marks } }, error)

def commitBranches (s : Session) (r : Results) : Session × ℤ :=
  (s.record (.commitBranches r.commitHbase r.commitTse),
    if r.commitHbase ≠ retOk then xaerRmerr
    else if r.commitTse ≠ xaOk then r.commitTse else xaOk)

/-- The results of the two calls are dropped; only what `completeRequest_branches` returns is
heeded. The calls of the resource managers clear the response error of a rollback that nobody
but the application asked for. -/
def rollbackBranches (s : Session) (r : Results) (errorCondition : Bool) : Session × ℤ :=
  let s := s.record (.rollbackBranches r.rollbackHbase r.rollbackTse)
  let s := if errorCondition then s else s.responseError feOk
  let s := s.reply
  let s := s.record (.completeRequest r.completeAfterRollback)
  (s, if r.completeAfterRollback ≠ retOk then xaerRmerr else xaOk)

def forgetHeurBranches (s : Session) : Session :=
  ((s.record .forgetHeurBranches).writeTransState .forgottenHeur).setState .forgottenHeur

/-! ### The helpers of the state machine -/

def stateChangeAbortSet (error : ℤ) : Session :=
  let s := { s with tx := { s.tx with state := .aborting, tmAborted := true } }
  if s.msg.replyPending then s.replyWith error else s

def stateChangeAbortHelper (r : Results) : Session :=
  let s := { s with tx := { s.tx with wroteTransState := true } }
  let (s, error) := s.rollbackBranches r (s.tx.tmAborted || s.tx.tseAborted)
  if error = xaOk then s.setState .aborted
  else if Heuristic error then s.setState .forgettingHeur
  else (s.setState .hungAborted).addHungTimerEvent .redriveRollback

/-- `early` is the setting `earlyCommitReply`. What `completeRequest_branches` returns after the
commit is dropped. -/
def stateChangeCommitHelper (r : Results) (early : Bool) : Session :=
  if s.tx.readOnly then
    (if s.msg.replyPending then s.replyWith feOk else s).setState .forgetting
  else
    let s := if s.tx.wroteTransState then s else s.writeTransState .committed
    let (s, error) := s.commitBranches r
    if error = xaOk then
      let s := s.setState .forgetting
      let s := if early && s.msg.replyPending then s.replyWith feOk else s
      s.record (.completeRequest r.completeAfterCommit)
    else if Heuristic error then s.setState .forgettingHeur
    else (s.setState .hungCommitted).resetTransactionBusy.addHungTimerEvent .redriveCommit

/-- The flag says whether the loop of `TX_COMMIT` goes on. A commit conflict falls through to
the other errors. -/
def stateChangePrepareHelper (r : Results) : Session × Bool :=
  let (s, error) := s.prepareBranches r
  if s.tx.markForRollback then
    let s := s.responseError (if error = commitConflict then feLocked else feAbortedTransid)
    ({ s with tx := { s.tx with state := .aborting, tseAborted := true } }, false)
  else if error = xaRdonly ∨ error = xaOk then (s.setState .committing, true)
  else if error = xaerRmfail then (s.stateChangeAbortSet feDeviceDownForTmf, false)
  else if error = commitConflict then
    ((s.stateChangeAbortSet feLocked).stateChangeAbortSet feAbortedTransid, false)
  else (s.stateChangeAbortSet feAbortedTransid, false)

/-! ### The loops of `state_change` -/

/-- One turn of the loop of `TX_COMMIT`, with whether the loop goes on. -/
def commitStep : Except Session (Session × Bool) :=
  match s.tx.state with
  | .active =>
    let (s, error) := if s.tx.markForRollback then (s, xaOk) else s.endBranches r
    if error = xaOk ∧ s.tx.markForRollback = false then .ok (s.setState .preparing, true)
    else .ok (s.stateChangeAbortSet feAbortedTransid, false)
  | .preparing =>
    let (s, goesOn) := s.stateChangePrepareHelper r
    if goesOn = false then .ok (s, false)
    else if r.numRmPartic = 0 then
      .ok ({ s with tx := { s.tx with state := .committed, readOnly := true } }, true)
    else .ok ({ s with tx := { s.tx with readOnly := false } }, true)
  | .committing => .ok (s.setState .committed, true)
  | .committed => .ok (s.stateChangeCommitHelper r early, true)
  | .forgettingHeur | .forgottenHeur => .ok (s.forgetHeurBranches.setState .forgotten, true)
  | .forgetting =>
    .ok ((if s.tx.readOnly then s else s.writeTransState .forgotten).setState .forgotten, true)
  | .forgotten | .hungCommitted => .ok (s, false)
  | _ => .error s

/-- One turn of the loop of `TX_ROLLBACK`. -/
def rollbackStep : Except Session (Session × Bool) :=
  match s.tx.state with
  | .beginning | .active => .ok ((s.endBranches r).1.setState .aborting, true)
  | .aborting => .ok (s.setState .abortingPart2, true)
  | .abortingPart2 => .ok (s.stateChangeAbortHelper r, true)
  | .aborted => .ok (s.setState .forgetting, true)
  | .forgettingHeur | .forgottenHeur => .ok (s.forgetHeurBranches.setState .forgotten, true)
  | .forgetting => .ok (s.setState .forgotten, true)
  | .forgotten | .hungAborted => .ok (s, false)
  | _ => .error s

/-- The loop around a step that says whether to go on. The states that a transaction runs
through are ordered, so seven turns are enough: from each state in which a request finds the
transaction, the loop has stopped by then. -/
def loop (step : Session → Except Session (Session × Bool)) : ℕ → Session → Except Session Session
  | 0, s => .ok s
  | n + 1, s =>
    match step s with
    | .error s => .error s
    | .ok (s, true) => loop step n s
    | .ok (s, false) => .ok s

def turns : ℕ := 7

/-- The states in which `TX_COMMIT` does not stop the process. -/
def acceptsCommit : Bool :=
  state ∈ [.active, .committed, .forgotten, .committing, .forgetting, .hungCommitted,
    .forgettingHeur]

def acceptsRollback : Bool :=
  state ∈ [.beginning, .active, .aborting, .abortingPart2, .aborted, .hungAborted, .forgetting,
    .forgotten, .forgettingHeur]

def stateChangeCommit : Except Session Session :=
  if acceptsCommit s.tx.state then loop (commitStep early r) turns s else .error s

def stateChangeRollback : Except Session Session :=
  if acceptsRollback s.tx.state then loop (rollbackStep r) turns s else .error s

/-- `TX_FORGET` -/
def stateChangeForget : Except Session Session :=
  match s.tx.state with
  | .forgettingHeur => .ok (s.forgetHeurBranches.setState .forgotten)
  | .forgottenHeur | .forgetting => .ok (s.setState .forgotten)
  | .forgotten => .ok s
  | _ => .error s

/-! ### The requests -/

/-- The end of `req_forget`: the object is to be given back, unless the transaction hangs. -/
def terminate : Session :=
  { s with tx := { s.tx with
      transactionBusy := false
      cleanup := s.tx.cleanup || (s.tx.state ≠ .hungCommitted && s.tx.state ≠ .hungAborted) } }

def reqForget : Except Session Session :=
  if s.tx.state = .forgettingHeur ∨ s.tx.state = .forgottenHeur then
    s.stateChangeForget.map terminate
  else .ok s.terminate

def reqAbortComplete : Except Session Session :=
  if s.tx.state ≠ .forgetting ∧ s.tx.state ≠ .forgotten then
    (stateChangeRollback r s).map reply
  else .ok s.reply

def reqEndComplete : Except Session Session :=
  if s.tx.isAborting then
    let s := if s.msg.responseError ≠ feLocked then s.responseError feAbortedTransid else s
    (stateChangeRollback r s).map fun s => if s.msg.replyPending then s.replyWith feOk else s
  else
    (stateChangeCommit early r s).map fun s => if s.msg.replyPending then s.replyWith feOk else s

/-- ENDTRANSACTION from the process `pid`. -/
def reqEnd (pid : ℕ) (r : Results) (s : Session) : Except Session Session :=
  if s.tx.enderPid ≠ pid then do
    let s ← stateChangeRollback r (s.stateChangeAbortSet feAbortedTransid)
    let s ← reqAbortComplete r s
    reqForget s
  else if s.tx.state ≠ .active ∧ s.tx.state ≠ .committed then
    reqForget (s.replyWith (if s.tx.isAborting then feAbortedTransid else feEndedTransid))
  else if 1 < s.tx.numActivePartic then
    .ok (s.replyWith feJoinsOutstanding).resetTransactionBusy
  else do
    let s ← stateChangeCommit early r s
    let s ← reqEndComplete early r s
    reqForget s

def mayRollback : Bool :=
  state ∈ [.beginning, .active, .aborting, .abortingPart2, .aborted, .hungAborted, .forgetting,
    .forgotten]

/-- `rollback_txn`. Where the state is not one to roll back from, the object is to be given back
all the same; at rest that is so for HUNGCOMMITTED. -/
def rollbackTxn : Except Session Session :=
  if mayRollback s.tx.state then stateChangeRollback r s
  else
    .ok (if s.msg.replyPending then
        s.replyWith (if s.tx.isAborting then feAbortedTransid else feEndedTransid)
      else s).resetTransactionBusy.incCleanup

/-- What follows `rollback_txn` in `req_abort` and for an internal rollback. -/
def finishRollback : Except Session Session := do
  let s ← rollbackTxn r s
  let s ← if s.tx.transactionBusy then reqAbortComplete r s else .ok s
  reqForget s

/-- ABORTTRANSACTION, and TSE_DOOMTX from a resource manager that is known (`tse`). -/
def reqAbort (tse : Bool) (r : Results) (s : Session) : Except Session Session :=
  finishRollback r (if tse then { s with tx := { s.tx with tseAborted := true } }
    else { s with tx := { s.tx with applAborted := true } })

def redriverollbackTxn : Except Session Session := do
  let s ← stateChangeRollback r (s.cancelHungEvent.setState .abortingPart2)
  reqForget s

def redrivecommitTxn : Except Session Session := do
  let s ← stateChangeCommit early r (s.cancelHungEvent.setState .committed)
  reqForget s

/-- `doom_txn`: the rollback follows with the next ENDTRANSACTION or ABORTTRANSACTION. -/
def doomTxn : Session :=
  if s.tx.state = .notx ∨ s.tx.state = .beginning ∨ s.tx.state = .active ∨
      s.tx.state = .preparing then
    { s with tx := { s.tx with markForRollback := true, applAborted := true } }
  else s

end Session

inductive Request
  | endTransaction (pid : ℕ)
  | abortTransaction
  | tseDoomTx
  | doomTx
  | rollback
  | redriveRollback
  | redriveCommit
  deriving DecidableEq, Repr

namespace Request

/-- Somebody waits for the reply. DOOMTX and TSE_DOOMTX run `doom_txn` and are answered before
TSE_DOOMTX is queued; that part is the event `doomTx`. -/
def awaited : Request → Bool
  | .endTransaction _ | .abortTransaction => true
  | _ => false

def process (early : Bool) (r : Results) : Request → Session → Except Session Session
  | .endTransaction pid, s => s.reqEnd early pid r
  | .abortTransaction, s => s.reqAbort false r
  | .tseDoomTx, s => s.reqAbort true r
  | .doomTx, s => .ok s.doomTxn
  | .rollback, s => s.finishRollback r
  | .redriveRollback, s => s.redriverollbackTxn r
  | .redriveCommit, s => s.redrivecommitTxn early r

end Request

structure Event where
  request : Request
  results : Results := {}
  deriving DecidableEq, Repr

/-- The transaction manager while it serves one transaction; `running` is false once the process
has called `abort ()`. -/
structure Manager where
  tx : Tx
  log : List Entry := []
  running : Bool := true
  deriving DecidableEq, Repr

namespace Manager

def step (early : Bool) (m : Manager) (e : Event) : Manager :=
  if m.running then
    if m.tx.cleanup then
      { m with log := m.log ++ if e.request.awaited then [.reply feInvTransid] else [] }
    else match e.request.process early e.results ⟨m.tx, ⟨e.request.awaited, feOk⟩, m.log⟩ with
    | .ok s => { m with tx := s.tx, log := s.log }
    | .error s => ⟨s.tx, s.log, false⟩
  else m

def run (early : Bool) (m : Manager) (l : List Event) : Manager := Runs.run (step early) m l

def begun (enderPid numActivePartic : ℕ) : Manager := ⟨.begun enderPid numActivePartic, [], true⟩

end Manager

end Trafodion.Dtm
