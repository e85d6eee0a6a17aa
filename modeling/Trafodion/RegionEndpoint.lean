import Trafodion.FiniteMaps
import Trafodion.RegionTransactionState
import Mathlib.Algebra.Group.Nat.Defs
import Mathlib.Algebra.Order.Group.Unbundled.Int
import Mathlib.Data.Finset.Image
import Mathlib.Data.List.Sort

/-!
# The transactional endpoint of a region

`TrxRegionEndpoint` keeps the transactions of one region. State objects live in a heap and
the collections hold references to them, so that a change of a state is seen through every
collection. Calls are atomic. What the surroundings decide (the time, whether a call into
the region or the log throws) is an argument of the call.
-/
namespace Trafodion.Region
open TombstoneStore TransactionState

inductive LogOp
  | commitRequest
  | commit
  | abort
  | controlPointCommit
  deriving DecidableEq, Repr

structure Tag where
  op : LogOp
  tid : TransId
  deriving DecidableEq

structure WALEdit where
  tag : Option Tag
  kvs : List KeyValue
  deriving DecidableEq

inductive Append
  | written
  | threw (logged : Bool)
  deriving DecidableEq, Repr

inductive Vote
  | commitOk
  | commitOkReadOnly
  | commitUnsuccessful
  | commitConflict
  deriving DecidableEq, Repr

inductive Failure
  | unknownTransaction
  | nonPendingTransaction
  | commitFailure
  | regionThrew
  | logThrew
  | indexOutOfBounds
  | nullPointer
  deriving DecidableEq, Repr

inductive Reply
  | returned
  | vote (v : Vote)
  | threw (f : Failure)
  deriving DecidableEq, Repr

structure Endpoint where
  tabledescriptor : TableDescriptor
  heap : Ref → TransactionState
  nextRef : Ref
  transactionsById : AList fun _ : TransId => Ref
  commitedTransactionsBySequenceNumber : AList fun _ : ℤ => Ref
  commitPendingTransactions : Finset Ref
  indoubtTransactionsById : AList fun _ : TransId => List KeyValue
  indoubtTransactionsCountByTmid : AList fun _ : BitVec 32 => ℕ
  nextSequenceId : ℤ
  reconstructIndoubts : Bool
  started : Bool
  editGenerated : Bool
  tHLog : List WALEdit
  store : List (Cell Bytes Bytes Bytes Bytes)

/-- The transaction manager of a transaction, `(int) (transactionId >> 32)`. -/
def tmid (transactionId : TransId) : BitVec 32 := (transactionId.sshiftRight 32).setWidth 32

def maxCommitPendingWaits : ℕ := 10

/-- `getAndIncrement` on a 32-bit counter wraps around. -/
def increment (n : ℤ) : ℤ := Int.bmod (n + 1) (2 ^ 32)

/-- A change of one transaction. -/
abbrev StateMap := TransactionState → TransactionState

/-- The cells of a region. -/
abbrev Cells := List (Cell Bytes Bytes Bytes Bytes)

namespace Endpoint

variable (r : Ref) (f : TransactionState → TransactionState) (e : Endpoint)

def modify : Endpoint :=
  { e with heap := Function.update e.heap r (f (e.heap r)) }

@[simp] lemma modify_heap_self :
    (e.modify r f).heap r = f (e.heap r) := Function.update_self _ _ _

lemma modify_heap_of_ne {r u : Ref} (h : u ≠ r) (f : StateMap)
    (e : Endpoint) : (e.modify r f).heap u = e.heap u := Function.update_of_ne h _ _

variable (how : Append) (record : WALEdit)

def append (e : Endpoint) : Endpoint :=
  { e with tHLog := e.tHLog ++ [record] }

/-- One iteration of `constructIndoubtTransactions`. The new state has no writes. -/
def reinstate (transactionId : TransId) : Endpoint :=
  { e with
    heap := Function.update e.heap e.nextRef
      { new transactionId with
        startSequenceNumber := e.nextSequenceId
        reInstated := true
        status := .commitPending
        sequenceNumber := some e.nextSequenceId }
    nextRef := e.nextRef + 1
    transactionsById := e.transactionsById.insert transactionId e.nextRef
    commitPendingTransactions := insert e.nextRef e.commitPendingTransactions
    nextSequenceId := increment e.nextSequenceId
    commitedTransactionsBySequenceNumber :=
      e.commitedTransactionsBySequenceNumber.insert e.nextSequenceId e.nextRef }

def indoubtIds : List TransId :=
  e.indoubtTransactionsById.keys.insertionSort fun s t => s.toInt ≤ t.toInt

def constructIndoubtTransactions : Endpoint :=
  if e.indoubtTransactionsById.keys = [] then
    { e with started := true, reconstructIndoubts := true }
  else if e.reconstructIndoubts then e
  else { e.indoubtIds.foldl reinstate e with reconstructIndoubts := true }

/-- The new state object of `beginTransaction`. -/
def allocate (transactionId : TransId) (e : Endpoint) : Endpoint :=
  { e with
    heap := Function.update e.heap e.nextRef
      { new transactionId with
        startSequenceNumber := e.nextSequenceId
        transactionsToCheck := e.commitPendingTransactions }
    nextRef := e.nextRef + 1
    transactionsById := e.transactionsById.insert transactionId e.nextRef }

def beginTransaction (transactionId : TransId) (e : Endpoint) : Endpoint :=
  let e := if e.reconstructIndoubts then e else e.constructIndoubtTransactions
  match e.transactionsById.lookup transactionId with
  | some _ => e
  | none => e.allocate transactionId

def beginTransIfNotExist (transactionId : TransId) (e : Endpoint) : Endpoint :=
  match e.transactionsById.lookup transactionId with
  | some _ => e
  | none => e.beginTransaction transactionId

def onState (transactionId : TransId) (f : TransactionState → TransactionState)
    (e : Endpoint) : Endpoint :=
  let e := e.beginTransIfNotExist transactionId
  match e.transactionsById.lookup transactionId with
  | some r => e.modify r f
  | none => e

def getScanner (transactionId : TransId) (range : ScanRange) (e : Endpoint) : Endpoint :=
  e.onState transactionId (addScan range)

def put (transactionId : TransId) (now : ℕ) (p : Put) (e : Endpoint) : Endpoint :=
  e.onState transactionId (addWrite e.tabledescriptor now p)

def delete (transactionId : TransId) (now : ℕ) (d : Delete) (e : Endpoint) : Endpoint :=
  e.onState transactionId (addDelete e.tabledescriptor now d)

/-- `get` scans the one row. -/
def get (transactionId : TransId) (row : Bytes) (e : Endpoint) : Endpoint :=
  e.getScanner transactionId ⟨some row, some row⟩

/-- `matched` tells whether the value read is the one asked for. -/
def checkAndPut (transactionId : TransId) (row : Bytes) (matched : Bool) (now : ℕ) (p : Put)
    (e : Endpoint) : Endpoint :=
  let e := e.get transactionId row
  if matched then e.put transactionId now p else e

def checkAndDelete (transactionId : TransId) (row : Bytes) (matched : Bool) (now : ℕ)
    (d : Delete) (e : Endpoint) : Endpoint :=
  let e := e.get transactionId row
  if matched then e.delete transactionId now d else e

def retireTransaction : Endpoint :=
  { e.modify r clearState with
    transactionsById := e.transactionsById.erase (e.heap r).transactionId }

/-- The transactions with a sequence number from `start` up to the next one. -/
def commitedSince (start : ℤ) (e : Endpoint) : List Ref :=
  (List.range (e.nextSequenceId - start).toNat).filterMap fun k : ℕ =>
    e.commitedTransactionsBySequenceNumber.lookup (start + k)

/-- The loop of `hasConflict(state)` that collects the transactions to check. -/
def addTransactionsToCheck : Endpoint :=
  e.modify r fun state =>
    { state with transactionsToCheck := state.transactionsToCheck ∪
        (e.commitedSince state.startSequenceNumber).toFinset }

def hasConflict : Bool :=
  decide (∃ u ∈ (e.heap r).transactionsToCheck, (e.heap r).hasConflictWith (e.heap u))

def prepare : Endpoint :=
  { e.modify r fun state =>
      { state with status := .commitPending, sequenceNumber := some e.nextSequenceId } with
    commitPendingTransactions := insert r e.commitPendingTransactions
    nextSequenceId := increment e.nextSequenceId
    commitedTransactionsBySequenceNumber :=
      e.commitedTransactionsBySequenceNumber.insert e.nextSequenceId r }

def logAppend (e : Endpoint) : Endpoint :=
  match how with
  | .written => e.append record
  | .threw logged => if logged then e.append record else e

def commitRequestRecord : WALEdit :=
  ⟨some ⟨.commitRequest, (e.heap r).transactionId⟩, (e.heap r).edit⟩

def commitRequest (transactionId : TransId) (how : Append) (e : Endpoint) :
    Endpoint × Reply :=
  match e.transactionsById.lookup transactionId with
  | none => (e, .vote .commitUnsuccessful)
  | some r =>
    let e := e.addTransactionsToCheck r
    if e.hasConflict r then
      ((e.modify r (setStatus .aborted)).retireTransaction r, .vote .commitConflict)
    else if (e.heap r).hasWrite then
      let e := e.prepare r
      (e.logAppend how (e.commitRequestRecord r),
        if how = .written then .vote .commitOk else .threw .logThrew)
    else
      ((e.modify r (setStatus .commited)).retireTransaction r, .vote .commitOkReadOnly)

/-- The last of them starts the region; the flush of `startRegionAfterRecovery` is taken to
succeed. -/
def resolveIndoubt (transactionId : TransId) (e : Endpoint) : Endpoint :=
  let indoubt := e.indoubtTransactionsById.erase transactionId
  let tm := tmid transactionId
  { e with
    indoubtTransactionsById := indoubt
    indoubtTransactionsCountByTmid :=
      match e.indoubtTransactionsCountByTmid.lookup tm with
      | none | some 1 => e.indoubtTransactionsCountByTmid.erase tm
      | some 0 => e.indoubtTransactionsCountByTmid
      | some (count + 1) => e.indoubtTransactionsCountByTmid.insert tm count
    started := e.started || indoubt.keys = [] }

def settleIndoubt : Endpoint :=
  if (e.heap r).reInstated then e.resolveIndoubt (e.heap r).transactionId else e

def removePending : Endpoint :=
  { e with commitPendingTransactions := e.commitPendingTransactions.erase r }

/-- `HRegion.put` or `HRegion.delete` of one write. -/
def applyAction (now : ℕ) (a : WriteAction) (e : Endpoint) : Endpoint :=
  { e with store := e.store ++ a.regionCells e.tabledescriptor now }

def applyWrites (now : ℕ) : List WriteAction → Option ℕ → Endpoint → Endpoint × Bool
  | [], _, e => (e, false)
  | _ :: _, some 0, e => (e, true)
  | a :: l, throwsAt, e => applyWrites now l (throwsAt.map (· - 1)) (e.applyAction now a)

end Endpoint

/-- The mutation that replay builds from a logged cell. Timestamps of deletes are dropped,
and a delete of all versions of a column gives an empty `Delete`. -/
def rebuild (kv : KeyValue) : WriteAction :=
  match kv.type with
  | .put => .put ⟨kv.row, [⟨kv.row, kv.family, kv.qualifier, kv.timestamp, .put, kv.value⟩],
      by simp, by simp⟩
  | .deleteFamily => .delete ⟨kv.row, none,
      [⟨kv.row, kv.family, [], none, .deleteFamily, []⟩], by simp⟩
  | .delete => .delete ⟨kv.row, none,
      [⟨kv.row, kv.family, kv.qualifier, none, .delete, []⟩], by simp⟩
  | .deleteColumn | .deleteFamilyVersion => .delete ⟨kv.row, none, [], by simp⟩

def WriteAction.stamp (now : ℕ) : WriteAction → WriteAction
  | .put p => .put (p.stamp now)
  | .delete d => .delete (d.stamp now)

/-- `addWrite` or `addDelete`. -/
def TransactionState.addMutation (htd : TableDescriptor) (now : ℕ) (a : WriteAction)
    (state : TransactionState) : TransactionState :=
  match a with
  | .put p => state.addWrite htd now p
  | .delete d => state.addDelete htd now d

namespace Endpoint

/-- The second phase of a reinstated transaction: each logged cell is buffered as a new
write and put into the region, which logs it without a tag. -/
def applyIndoubt (now : ℕ) (r : Ref) : List KeyValue → Option ℕ → Endpoint → Endpoint × Bool
  | [], _, e => (e, false)
  | kv :: l, throwsAt, e =>
    let e := e.modify r (addMutation e.tabledescriptor now (rebuild kv))
    let a := (rebuild kv).stamp now
    if throwsAt = some 0 then (e, true)
    else applyIndoubt now r l (throwsAt.map (· - 1))
      ((e.applyAction now a).append ⟨none, a.getCells e.tabledescriptor⟩)

variable (r : Ref) (how : Append) (e : Endpoint)

/-- The record of a commit: the whole edit for the first commit of the region server, else
its first cell. -/
def commitRecord : Option WALEdit :=
  let state := e.heap r
  if e.editGenerated then
    state.edit.head?.map fun kv => ⟨some ⟨.commit, state.transactionId⟩, [kv]⟩
  else some ⟨some ⟨.controlPointCommit, state.transactionId⟩, state.edit⟩

/-- The end of `commit(state)`, after the log record. -/
def finishCommit : Endpoint × Reply :=
  let e := e.modify r (setStatus .commited)
  let pending := (e.heap r).hasWrite || (e.heap r).reInstated
  if pending && r ∉ e.commitPendingTransactions then (e, .threw .commitFailure)
  else
    let e := if pending then e.removePending r else e
    (((e.settleIndoubt r).modify r fun state =>
      { state with commitProgress := .commited }).retireTransaction r, .returned)

/-- `commit(state)` once the writes are in the region. -/
def logCommit : Endpoint × Reply :=
  if (e.heap r).hasWrite || (e.heap r).reInstated then
    match e.commitRecord r with
    | none => (e, .threw .indexOutOfBounds)
    | some record =>
      match how with
      | .written => finishCommit r { e.append record with editGenerated := true }
      | .threw _ => (e.logAppend how record, .threw .logThrew)
  else finishCommit r e

def failCommit : Endpoint × Reply :=
  ((e.modify r (setStatus .aborted)).retireTransaction r, .threw .regionThrew)

/-- `commit(state)`. `throwsAt` is the index of the write that throws, if one does. -/
def commitState (now : ℕ) (throwsAt : Option ℕ) (how : Append) (e : Endpoint) :
    Endpoint × Reply :=
  let state := e.heap r
  if state.reInstated then
    match e.indoubtTransactionsById.lookup state.transactionId with
    | none => (e, .threw .nullPointer)
    | some kvs =>
      let (e, threw) := e.applyIndoubt now r kvs throwsAt
      if threw then e.failCommit r else e.logCommit r how
  else
    let (e, threw) := e.applyWrites now state.writeOrdering throwsAt
    if threw then e.failCommit r else e.logCommit r how

def commit (transactionId : TransId) (ignoreUnknown : Bool) (now : ℕ) (throwsAt : Option ℕ)
    (how : Append) (e : Endpoint) : Endpoint × Reply :=
  match e.transactionsById.lookup transactionId with
  | none => (e, if ignoreUnknown then .returned else .threw .unknownTransaction)
  | some r =>
    if (e.heap r).status ≠ .commitPending then (e, .threw .nonPendingTransaction)
    else match (e.heap r).commitProgress with
      | .commited | .committing => (e, .returned)
      | .none =>
        (e.modify r fun state => { state with commitProgress := .committing }).commitState
          r now throwsAt how

/-- The end of `abortTransaction`, after the log record. -/
def finishAbort : Endpoint × Reply :=
  (((e.removePending r).settleIndoubt r).retireTransaction r, .returned)

def abortTransaction (transactionId : TransId) (how : Append) (e : Endpoint) :
    Endpoint × Reply :=
  match e.transactionsById.lookup transactionId with
  | none => (e, .threw .unknownTransaction)
  | some r =>
    if (e.heap r).status = .aborted then (e, .returned)
    else
      let e := e.modify r (setStatus .aborted)
      if (e.heap r).hasWrite then
        match (e.heap r).edit.head? with
        | none => (e, .threw .indexOutOfBounds)
        | some kv =>
          match how with
          | .written => finishAbort r (e.append ⟨some ⟨.abort, transactionId⟩, [kv]⟩)
          | .threw _ =>
            (e.logAppend how ⟨some ⟨.abort, transactionId⟩, [kv]⟩, .threw .logThrew)
      else finishAbort r e

def leaseExpired (transactionId : TransId) (now : ℕ) (throwsAt : Option ℕ) (how : Append)
    (e : Endpoint) : Endpoint :=
  match e.transactionsById.lookup transactionId with
  | none => e
  | some r =>
    let e := { e with transactionsById := e.transactionsById.erase transactionId }
    match (e.heap r).status with
    | .pending => (e.modify r (setStatus .aborted)).retireTransaction r
    | .commitPending =>
      if (e.heap r).commitPendingWaits > maxCommitPendingWaits then
        (e.commitState r now throwsAt how).1
      else
        { e.modify r fun state =>
            { state with commitPendingWaits := state.commitPendingWaits + 1 } with
          transactionsById := e.transactionsById.insert (e.heap r).transactionId r }
    | .commited | .aborted => e

def getMinStartSequenceNumber : Option ℤ :=
  (e.transactionsById.entries.map fun x => (e.heap x.2).startSequenceNumber).min?

def removeUnNeededCommitedTransactions : Endpoint :=
  let minStartSeqNumber := e.getMinStartSequenceNumber.getD (2 ^ 31 - 1)
  let bySequence := e.commitedTransactionsBySequenceNumber
  let unNeeded := bySequence.keys.filter (· < minStartSeqNumber)
  { e with commitedTransactionsBySequenceNumber := FiniteMaps.eraseAll bySequence unNeeded }

end Endpoint

inductive Op
  | beginTransaction (transactionId : TransId)
  | getScanner (transactionId : TransId) (range : ScanRange)
  | put (transactionId : TransId) (now : ℕ) (p : Put)
  | delete (transactionId : TransId) (now : ℕ) (d : Delete)
  | checkAndPut (transactionId : TransId) (row : Bytes) (matched : Bool) (now : ℕ) (p : Put)
  | checkAndDelete (transactionId : TransId) (row : Bytes) (matched : Bool) (now : ℕ)
      (d : Delete)
  | commitRequest (transactionId : TransId) (how : Append)
  | commit (transactionId : TransId) (ignoreUnknown : Bool) (now : ℕ) (throwsAt : Option ℕ)
      (how : Append)
  | abortTransaction (transactionId : TransId) (how : Append)
  | removeUnNeededCommitedTransactions

def Op.transactionId : Op → Option TransId
  | .beginTransaction t | .getScanner t _ | .put t _ _ | .delete t _ _
  | .checkAndPut t _ _ _ _ | .checkAndDelete t _ _ _ _ | .commitRequest t _
  | .commit t _ _ _ _ | .abortTransaction t _ => some t
  | .removeUnNeededCommitedTransactions => none

def Op.writtenRows : Op → List Bytes
  | .put _ _ p => [p.row]
  | .delete _ _ d => [d.row]
  | .checkAndPut _ _ matched _ p => if matched then [p.row] else []
  | .checkAndDelete _ _ matched _ d => if matched then [d.row] else []
  | _ => []

namespace Endpoint

variable (tm : BitVec 32) (e : Endpoint)

def call : Op → Endpoint × Reply
  | .beginTransaction t => (e.beginTransaction t, .returned)
  | .getScanner t range => (e.getScanner t range, .returned)
  | .put t now p => (e.put t now p, .returned)
  | .delete t now d => (e.delete t now d, .returned)
  | .checkAndPut t row matched now p => (e.checkAndPut t row matched now p, .returned)
  | .checkAndDelete t row matched now d => (e.checkAndDelete t row matched now d, .returned)
  | .commitRequest t how => e.commitRequest t how
  | .commit t ignoreUnknown now throwsAt how => e.commit t ignoreUnknown now throwsAt how
  | .abortTransaction t how => e.abortTransaction t how
  | .removeUnNeededCommitedTransactions => (e.removeUnNeededCommitedTransactions, .returned)

def step (op : Op) : Endpoint := (e.call op).1

def recoveryRequest : Endpoint × Finset TransId :=
  let e := if e.reconstructIndoubts then e else e.constructIndoubtTransactions
  let unresolved :=
    if e.started then e.commitPendingTransactions.image fun r => (e.heap r).transactionId
    else e.indoubtTransactionsById.keys.toFinset
  (e, unresolved.filter (tmid · = tm))

/-- The endpoint of a region that is opened on `store` with the given in-doubt maps. Other regions of
the server may have set `editGenerated` before. -/
def opened (htd : TableDescriptor) (store : List (Cell Bytes Bytes Bytes Bytes))
    (indoubt : AList fun _ : TransId => List KeyValue)
    (counts : AList fun _ : BitVec 32 => ℕ) (editGenerated : Bool) : Endpoint where
  tabledescriptor := htd
  heap _ := new 0
  nextRef := 0
  transactionsById := ∅
  commitedTransactionsBySequenceNumber := ∅
  commitPendingTransactions := ∅
  indoubtTransactionsById := indoubt
  indoubtTransactionsCountByTmid := counts
  nextSequenceId := 0
  reconstructIndoubts := false
  started := false
  editGenerated := editGenerated
  tHLog := []
  store := store

end Endpoint

inductive Event
  | call (op : Op)
  | leaseExpired (transactionId : TransId) (now : ℕ) (throwsAt : Option ℕ) (how : Append)
  | recoveryRequest (tm : BitVec 32)

def Endpoint.react (e : Endpoint) : Event → Endpoint
  | .call op => e.step op
  | .leaseExpired t now throwsAt how => e.leaseExpired t now throwsAt how
  | .recoveryRequest tm => (e.recoveryRequest tm).1

end Trafodion.Region
