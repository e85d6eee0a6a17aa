import Trafodion.RegionOutcomes
import Trafodion.TlogClient
import Trafodion.TlogLookup

/-!
# Two-phase commit between a client and its regions

`HBaseTxClient` asks the regions of a transaction to prepare, writes its decision to the
transaction log and sends it to the regions. Requests travel over a network that may lose,
repeat, delay and reorder them. Regions crash and reopen, leases run out, the client takes
control points and restarts, and recovery threads decide by the log what to do with transactions
that a region reports.
-/
namespace Trafodion.TwoPhaseCommit
open Region
open Tlog (TxState)

inductive Request
  | commitRequest
  | commit (ignoreUnknown : Bool)
  | abort
  deriving DecidableEq, Repr

structure Message (ρ : Type*) where
  region : ρ
  transactionId : TransId
  request : Request
  deriving DecidableEq

/-- What `doPrepareX` returns to `prepareCommit`. -/
inductive PrepareResult
  | commitTrue
  | commitFalse
  | commitFalseConflict
  | commitReadOnly
  | exception
  deriving DecidableEq, Repr

/-- The client's `TransactionState`, with the answers to a running `prepareCommit`. -/
structure ClientState (ρ : Type*) where
  status : TxState
  participatingRegions : List ρ
  regionsToIgnore : List ρ
  prepared : List PrepareResult

/-- The return codes of `HBaseTxClient.prepareCommit`. -/
inductive ReturnCode
  | ok
  | readOnly
  | hasConflict
  | paramErr
  | noCommitEx
  | notx
  deriving DecidableEq, Repr

namespace ClientState

variable {ρ : Type*} [DecidableEq ρ]

def new : ClientState ρ := ⟨.active, [], [], []⟩

variable (p : ρ) (ts : ClientState ρ)

def addRegion : ClientState ρ :=
  if p ∈ ts.participatingRegions then ts
  else { ts with participatingRegions := ts.participatingRegions ++ [p] }

def addRegionToIgnore : ClientState ρ :=
  if p ∈ ts.regionsToIgnore then ts
  else { ts with regionsToIgnore := ts.regionsToIgnore ++ [p] }

/-- The end of `doPrepareX`; anything but a vote is an exception that outlives the retries. -/
def doPrepareX (reply : Reply) (ts : ClientState ρ) : ClientState ρ :=
  let answer (ts : ClientState ρ) (result : PrepareResult) : ClientState ρ :=
    { ts with prepared := ts.prepared ++ [result] }
  match reply with
  | .vote .commitOk => answer ts .commitTrue
  | .vote .commitOkReadOnly => answer (ts.addRegionToIgnore p) .commitReadOnly
  | .vote .commitConflict => answer (ts.addRegionToIgnore p) .commitFalseConflict
  | .vote .commitUnsuccessful => answer (ts.addRegionToIgnore p) .commitFalse
  | .returned | .threw _ => answer ts .exception

/-- The loop of `prepareCommit` over the answers. A conflict takes precedence. -/
def commitError (answers : List PrepareResult) : Option Vote :=
  answers.foldl (fun error answer =>
    match answer with
    | .commitFalse => if error = some .commitConflict then error else some .commitUnsuccessful
    | .commitFalseConflict => some .commitConflict
    | .commitTrue | .commitReadOnly | .exception => error) none

/-- The result of `TransactionManager.prepareCommit`, or its exception. -/
def prepareCommit : Option Vote :=
  if .exception ∈ ts.prepared then none
  else match commitError ts.prepared with
    | some error => some error
    | none => some (if .commitTrue ∈ ts.prepared then .commitOk else .commitOkReadOnly)

/-- The regions that `doCommit` and `abort` send to. -/
def secondPhaseRegions : List ρ :=
  ts.participatingRegions.filter fun p => p ∉ ts.regionsToIgnore

end ClientState

/-- Which log a recovery thread reads. The rescue thread that `nodeDown` starts reads the log
of its own transaction manager. -/
inductive Audit
  | own
  | unreadable
  | ofRescuer
  deriving DecidableEq, Repr

/-- What stays the same in a run: the settings of the client, what HBase decides about its log,
the table of each region, and the regions that HBase finds for a table. -/
structure Setup (ρ : Type*) where
  settings : Tlog.Settings
  environment : Tlog.Environment
  location : ρ → Tlog.Region
  regionLocations : DelimitedText.Text → List Tlog.Region
  /-- Other regions of the server have set `editGenerated` before the region is opened. -/
  editGenerated : ρ → Bool

/-- The client, its log, the regions and the requests sent so far. `written` are the records
that the client has ever put into its log; `voted`, `committed` and `aborted` record what the
regions have done. -/
structure System (ρ : Type*) where
  setup : Setup ρ
  region : ρ → Endpoint
  mapTransactionStates : AList fun _ : TransId => ClientState ρ
  tLog : Tlog.TmAuditTlog
  written : List (TransId × TxState)
  sent : List (Message ρ)
  voted : List (ρ × TransId)
  committed : List (ρ × TransId)
  aborted : List (ρ × TransId)

/-- What happens to the second phase at the client: the log or the sending of the requests
may throw. Requests after the one that throws are never delivered. -/
structure ClientIO where
  logThrows : Bool
  sendThrows : Bool

structure Delivery where
  now : ℕ
  throwsAt : Option ℕ
  how : Append
  answered : Bool

namespace System

variable {ρ : Type*} [DecidableEq ρ]

def start (setup : Setup ρ) (tables : ρ → TableDescriptor)
    (store : ρ → List (TombstoneStore.Cell Bytes Bytes Bytes Bytes)) : System ρ where
  setup := setup
  region p := (Observer.start (tables p) (store p)).endpoint (setup.editGenerated p)
  mapTransactionStates := ∅
  tLog := .created
  written := []
  sent := []
  voted := []
  committed := []
  aborted := []

variable (p : ρ) (e : Endpoint)

/-- Region `p` goes on as `e`, having committed and aborted the given transactions. -/
def record (committed aborted : List TransId) (s : System ρ) :
    System ρ :=
  { s with
    region := Function.update s.region p e
    committed := s.committed ++ committed.map (p, ·)
    aborted := s.aborted ++ aborted.map (p, ·) }

variable (transactionId : TransId) (s : System ρ)

/-- Region `p` goes on as `e`. -/
def settle : System ρ :=
  s.record p e ((s.region p).resolved .commited e) ((s.region p).resolved .aborted e)

def send (targets : List ρ) (transactionId : TransId) (request : Request) (s : System ρ) :
    System ρ :=
  { s with sent := s.sent ++ targets.map (⟨·, transactionId, request⟩) }

def putState (ts : ClientState ρ) (s : System ρ) : System ρ :=
  { s with mapTransactionStates := s.mapTransactionStates.insert transactionId ts }

def removeState : System ρ :=
  { s with mapTransactionStates := s.mapTransactionStates.erase transactionId }

/-- `tLog.putSingleRecord`. -/
def putSingleRecord (state : TxState) (regions : List ρ) (forced : Bool) (s : System ρ) :
    System ρ :=
  { s with
    tLog := s.tLog.putSingleRecord s.setup.settings s.setup.environment transactionId state
      (regions.map s.setup.location) forced
    written := s.written ++ [(transactionId, state)] }

def putForgotten : System ρ :=
  if s.setup.settings.useForgotten then
    s.putSingleRecord transactionId .forgotten [] s.setup.settings.forceForgotten
  else s

def beginTransaction : System ρ :=
  s.putState transactionId .new

/-- `callRegisterRegion`. For an unknown transaction the region is added to a new state that
does not get into the map. -/
def callRegisterRegion (p : ρ) (s : System ρ) : System ρ :=
  match s.mapTransactionStates.lookup transactionId with
  | none => s
  | some ts => s.putState transactionId (ts.addRegion p)

/-- The first half of `prepareCommit`: one request for each participating region. -/
def prepareCommit : System ρ :=
  match s.mapTransactionStates.lookup transactionId with
  | none => s
  | some ts =>
    (s.putState transactionId { ts with prepared := [] }).send ts.participatingRegions
      transactionId .commitRequest

/-- The second half of `prepareCommit`, once all answers are in. -/
def prepareCommitReturns : System ρ × ReturnCode :=
  match s.mapTransactionStates.lookup transactionId with
  | none => (s, .notx)
  | some ts =>
    match ts.prepareCommit with
    | some .commitOk => (s, .ok)
    | some .commitOkReadOnly => (s.removeState transactionId, .readOnly)
    | some .commitConflict => (s, .hasConflict)
    | some .commitUnsuccessful => (s, .paramErr)
    | none => (s, .noCommitEx)

def doCommit (io : ClientIO) (s : System ρ) : System ρ :=
  match s.mapTransactionStates.lookup transactionId with
  | none => s
  | some ts =>
    let s := s.putState transactionId { ts with status := .committed }
    if io.logThrows then s
    else
      let s := (s.putSingleRecord transactionId .committed ts.participatingRegions true).send
        ts.secondPhaseRegions transactionId (.commit false)
      if io.sendThrows then s else s.putForgotten transactionId

def abortTransaction (io : ClientIO) (s : System ρ) : System ρ :=
  match s.mapTransactionStates.lookup transactionId with
  | none => s
  | some ts =>
    let s := s.putState transactionId { ts with status := .aborted }
    if io.logThrows then s
    else
      let s := (s.putSingleRecord transactionId .aborted ts.participatingRegions false).send
        ts.secondPhaseRegions transactionId .abort
      if io.sendThrows then s.removeState transactionId else s.putForgotten transactionId

def completeRequest (throws : Bool) (s : System ρ) : System ρ :=
  if throws then s else s.removeState transactionId

/-- The map as the log sees it. -/
def logStates : AList fun _ : TransId => Tlog.TransactionState where
  entries := s.mapTransactionStates.entries.map fun x =>
    ⟨x.1, x.1, x.2.status, x.2.participatingRegions.map s.setup.location⟩
  nodupKeys := by
    have h := s.mapTransactionStates.nodupKeys
    unfold List.NodupKeys List.keys at h ⊢
    rwa [List.map_map]

/-- The transactions that a control point writes a record for. -/
def rewritten : List TransId :=
  (s.mapTransactionStates.entries.filter fun x => x.2.status = .committed).map Sigma.fst

/-- A control point rewrites the committed transactions of the map, and may delete rows. -/
def addControlPoint : System ρ :=
  { s with
    tLog := s.tLog.addControlPoint s.setup.settings s.setup.environment s.logStates
    written := s.written ++ s.rewritten.map (·, .committed) }

/-- The client process restarts, and what is in its write buffers is lost. -/
def restart : System ρ :=
  { s with mapTransactionStates := ∅, tLog := s.tLog.reopened }

def receive (reply : Reply) (s : System ρ) : System ρ :=
  match s.mapTransactionStates.lookup transactionId with
  | none => s
  | some ts => s.putState transactionId (ts.doPrepareX p reply)

def deliver (m : Message ρ) (d : Delivery) (s : System ρ) : System ρ :=
  if m ∈ s.sent then
    let e := s.region m.region
    match m.request with
    | .commitRequest =>
      let (e', reply) := e.commitRequest m.transactionId d.how
      let s := s.settle m.region e'
      let s := if reply = .vote .commitOk then
        { s with voted := s.voted ++ [(m.region, m.transactionId)] } else s
      if d.answered then s.receive m.region m.transactionId reply else s
    | .commit ignoreUnknown =>
      s.settle m.region (e.commit m.transactionId ignoreUnknown d.now d.throwsAt d.how).1
    | .abort => s.settle m.region (e.abortTransaction m.transactionId d.how).1
  else s

def work (op : Op) (s : System ρ) : System ρ :=
  match op with
  | .commitRequest _ _ | .commit _ _ _ _ _ | .abortTransaction _ _ => s
  | op => s.settle p ((s.region p).step op)

def leaseExpired (p : ρ) (transactionId : TransId) (d : Delivery) (s : System ρ) : System ρ :=
  s.settle p ((s.region p).leaseExpired transactionId d.now d.throwsAt d.how)

def recoveryRequest (p : ρ) (tm : BitVec 32) (s : System ρ) : System ρ :=
  s.settle p ((s.region p).recoveryRequest tm).1

def unresolved : List TransId :=
  ((List.range e.nextRef).filter fun r => (e.heap r).status = .commitPending).map
      (fun r => (e.heap r).transactionId) ++
    if e.reconstructIndoubts then [] else e.indoubtTransactionsById.keys

/-- The region server of `p` crashes and the region is opened with the files `base` and the
surviving part of its log. Replay commits the transactions with commit records; a vote that
is neither replayed nor in doubt again is an abort. -/
def crash (base : List (TombstoneStore.Cell Bytes Bytes Bytes Bytes))
    (survived : List (ℕ × WALEdit)) (s : System ρ) : System ρ :=
  let e := s.region p
  let log := survived.map Prod.snd
  if log <+: e.tHLog then
    let e' := ((Observer.start e.tabledescriptor base).restore survived).endpoint
      (s.setup.editGenerated p)
    let lost := (unresolved e).filter fun t =>
      (p, t) ∈ s.voted ∧ t ∉ e'.indoubtTransactionsById.keys ∧ t ∉ commitTids log
    s.record p e' (commitTids log) lost
  else s

/-- The status that `audit.getTransactionState` leaves in a new state of the transaction. -/
def getTransactionState (audit : Audit) : TxState :=
  match audit with
  | .own => (Tlog.getTransactionState s.setup.settings.numLogs s.setup.settings.versions
      s.setup.regionLocations s.tLog.store ⟨transactionId, .active, []⟩).status
  | .unreadable => .active
  | .ofRescuer => .notx

/-- One transaction of `RecoveryThread.run`: the regions that report it or that its log record
names get the decision, and an abort if no commit is found. -/
def recover (audit : Audit) (targets : List ρ) (s : System ρ) :
    System ρ :=
  if s.getTransactionState transactionId audit = .committed then
    s.send targets transactionId (.commit true)
  else s.send targets transactionId .abort

end System

inductive Event (ρ : Type*)
  | beginTransaction (transactionId : TransId)
  | callRegisterRegion (transactionId : TransId) (p : ρ)
  | prepareCommit (transactionId : TransId)
  | prepareCommitReturns (transactionId : TransId)
  | doCommit (transactionId : TransId) (io : ClientIO)
  | abortTransaction (transactionId : TransId) (io : ClientIO)
  | completeRequest (transactionId : TransId) (throws : Bool)
  | addControlPoint
  | restart
  | deliver (m : Message ρ) (d : Delivery)
  | work (p : ρ) (op : Op)
  | leaseExpired (p : ρ) (transactionId : TransId) (d : Delivery)
  | recoveryRequest (p : ρ) (tm : BitVec 32)
  | crash (p : ρ) (base : List (TombstoneStore.Cell Bytes Bytes Bytes Bytes))
      (survived : List (ℕ × WALEdit))
  | recover (transactionId : TransId) (audit : Audit) (targets : List ρ)

def System.step {ρ : Type*} [DecidableEq ρ] (s : System ρ) : Event ρ → System ρ
  | .beginTransaction t => s.beginTransaction t
  | .callRegisterRegion t p => s.callRegisterRegion t p
  | .prepareCommit t => s.prepareCommit t
  | .prepareCommitReturns t => (s.prepareCommitReturns t).1
  | .doCommit t io => s.doCommit t io
  | .abortTransaction t io => s.abortTransaction t io
  | .completeRequest t throws => s.completeRequest t throws
  | .addControlPoint => s.addControlPoint
  | .restart => s.restart
  | .deliver m d => s.deliver m d
  | .work p op => s.work p op
  | .leaseExpired p t d => s.leaseExpired p t d
  | .recoveryRequest p tm => s.recoveryRequest p tm
  | .crash p base survived => s.crash p base survived
  | .recover t audit targets => s.recover t audit targets

def sampleSetup : Setup Bool where
  settings := Tlog.defaultSettings
  environment := Tlog.tickingClock
  location _ := ⟨Tlog.sampleTable, 0⟩
  regionLocations := Tlog.sampleLocations
  editGenerated _ := false

end Trafodion.TwoPhaseCommit
