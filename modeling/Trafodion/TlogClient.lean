import Trafodion.FiniteMaps
import Trafodion.Runs
import Trafodion.TlogRecord
import Mathlib.Order.Monotone.Defs

/-!
# The transaction client and its log

`TmAuditTlog` writes records through one HBase table handle per log, each with a write
buffer on the client side. `HBaseTxClient` keeps the states of the live transactions and
writes their decisions. A control point rewrites the committed transactions that are still
live, and every fifth one deletes rows whose records are older than five control points.
Calls run one after the other.
-/
namespace Trafodion.Tlog
open DelimitedText VersionedCells

/-- The environment variables read by the two constructors. `TM_TLOG_MAX_VERSIONS` counts
only when it is above five. -/
structure Settings where
  numLogs : NumLogs
  versions : ℕ
  le_versions : 5 ≤ versions
  ageCommitted : Bool
  forceControlPoint : Bool
  useAutoFlush : Bool
  useForgotten : Bool
  forceForgotten : Bool

/-- What HBase decides: the timestamp of the `k`-th cell it applies, which does not
decrease, and whether the put of the record with a given number fills the write buffer. -/
structure Environment where
  clock : ℕ → ℕ
  monotone_clock : Monotone clock
  bufferFull : ℕ → Bool

def defaultSettings : Settings := ⟨.one, 5, le_rfl, false, false, true, true, false⟩

/-- Each cell gets a new millisecond. -/
def tickingClock : Environment := ⟨id, monotone_id, fun _ => false⟩

/-- The log with the tables it is kept in. `applied` counts the cells put into the log
tables, and `controlPoints` is the control point table. -/
structure TmAuditTlog where
  asn : ℕ
  store : Store
  buffers : ℕ → List ((ℕ × BitVec 64) × Text)
  applied : ℕ
  currControlPt : ℕ
  controlPoints : AList fun _ : ℕ => ℕ

namespace TmAuditTlog

variable (cfg : Settings) (env : Environment) (tl : TmAuditTlog)

variable (lvAsn : ℕ) (column : Column Text) (i : ℕ) (p : (ℕ × BitVec 64) × Text)

def applyPut :
    TmAuditTlog :=
  { tl with
    store := tl.store.put p.1 (env.clock tl.applied) p.2
    applied := tl.applied + 1 }

/-- `table[i].flushCommits()`. -/
def flushCommits (tl : TmAuditTlog) : TmAuditTlog :=
  { (tl.buffers i).foldl (applyPut env) tl with buffers := Function.update tl.buffers i [] }

/-- `table[i].put(p)`: the put is buffered, and the buffer is sent at once with auto flush
or when it is full. -/
def tablePut (full : Bool) (tl : TmAuditTlog) : TmAuditTlog :=
  let tl := { tl with buffers := Function.update tl.buffers i (tl.buffers i ++ [p]) }
  if cfg.useAutoFlush || full then flushCommits env i tl else tl

def putSingleRecord (transid : TransId)
    (state : TxState) (regions : List Region) (forced : Bool) (tl : TmAuditTlog) :
    TmAuditTlog :=
  let i := cfg.numLogs.lockIndex transid
  let value := record tl.asn transid state (regions.map Region.table)
  let full := env.bufferFull tl.asn
  let tl := { tl with asn := tl.asn + 1 }
  let tl := tablePut cfg env i (cfg.numLogs.row transid, value) full tl
  if forced && !cfg.useAutoFlush then flushCommits env i tl else tl

/-- One iteration of `writeControlPointRecords`. -/
def rewriteEntry (e : Sigma fun _ : TransId => TransactionState) : TmAuditTlog :=
  if e.2.status = .committed then
    putSingleRecord cfg env e.1 .committed e.2.participatingRegions cfg.forceControlPoint tl
  else tl

def writeControlPointRecords
    (map : AList fun _ : TransId => TransactionState) (tl : TmAuditTlog) : TmAuditTlog :=
  map.entries.foldl (rewriteEntry cfg env) tl

/-- `HBaseAuditControlPoint.doControlPoint`. -/
def doControlPoint (sequenceNumber : ℕ) (tl : TmAuditTlog) : TmAuditTlog :=
  { tl with
    currControlPt := tl.currControlPt + 1
    controlPoints := tl.controlPoints.insert (tl.currControlPt + 1) sequenceNumber }

def header (value : Text) : Option (ℤ × TxState) :=
  match tokens ',' value with
  | asnToken :: _ :: stateToken :: _ =>
    (parseLong asnToken).map fun asn => (asn, TxState.ofName stateToken)
  | _ => none

/-- Whether `deleteAgedEntries(lvAsn)` puts a row on its delete list. -/
def selects : Bool :=
  match column.newest.bind header with
  | some (asn, .forgotten) => asn < lvAsn
  | some (asn, .committed) | some (asn, .aborted) =>
    asn < lvAsn && (cfg.ageCommitted ||
      (column.versions cfg.versions).any fun value =>
        match header value with
        | some (asn, .forgotten) => asn < lvAsn
        | _ => false)
  | _ => false

def deleteAgedEntries (tl : TmAuditTlog) : TmAuditTlog :=
  { tl with store := fun row =>
      if selects cfg lvAsn (tl.store row) then Column.empty else tl.store row }

/-- `HBaseAuditControlPoint.deleteAgedRecords`. -/
def deleteAgedRecords (controlPoint : ℕ) (tl : TmAuditTlog) : TmAuditTlog :=
  let deleteList := tl.controlPoints.keys.filter fun k => k < controlPoint
  { tl with controlPoints := FiniteMaps.eraseAll tl.controlPoints deleteList }

/-- The bound that `addControlPoint` passes to `deleteAgedEntries` after the control point
has been written, if it calls it. -/
def agedAsn : Option ℕ :=
  if 5 < tl.currControlPt ∧ tl.currControlPt % 5 = 0 then
    (tl.controlPoints.lookup (tl.currControlPt - 5)).filter (0 < ·)
  else none

def writeControlPoint
    (map : AList fun _ : TransId => TransactionState) (tl : TmAuditTlog) : TmAuditTlog :=
  let tl := writeControlPointRecords cfg env map tl
  doControlPoint tl.asn { tl with asn := tl.asn + 1 }

def addControlPoint
    (map : AList fun _ : TransId => TransactionState) (tl : TmAuditTlog) : TmAuditTlog :=
  let tl := writeControlPoint cfg env map tl
  if 5 < tl.currControlPt then
    let tl := match tl.agedAsn with
      | some lvAsn => deleteAgedEntries cfg lvAsn tl
      | none => tl
    deleteAgedRecords (tl.currControlPt - 5) tl
  else tl

def created : TmAuditTlog :=
  doControlPoint 1 ⟨1, Store.empty, fun _ => [], 0, 1, ∅⟩

/-- `getCurrControlPt`: the largest key of the control point table. -/
def getCurrControlPt : ℕ := tl.controlPoints.keys.foldl max 0

/-- The constructors in a new process: buffers are lost, and the sequence number is the one
of the last control point. -/
def reopened : TmAuditTlog :=
  let asn := (tl.controlPoints.lookup tl.getCurrControlPt).getD 1
  doControlPoint asn
    { tl with asn := asn, buffers := fun _ => [], currControlPt := tl.getCurrControlPt }

end TmAuditTlog

structure HBaseTxClient where
  mapTransactionStates : AList fun _ : TransId => TransactionState
  tLog : TmAuditTlog

namespace HBaseTxClient

/-- The calls of the client. A flag tells whether the inner call to the transaction manager
throws; `readOnly` is its answer to `prepareCommit`. -/
inductive Call
  | beginTransaction (transid : TransId)
  | registerRegion (transid : TransId) (region : Region)
  | prepareCommit (transid : TransId) (readOnly : Bool)
  | doCommit (transid : TransId) (throws : Bool)
  | abortTransaction (transid : TransId) (throws : Bool)
  | completeRequest (transid : TransId) (throws : Bool)
  | addControlPoint
  | restart
  deriving DecidableEq

variable (cfg : Settings) (env : Environment) (c : HBaseTxClient)

def putState (ts : TransactionState) : HBaseTxClient :=
  { c with mapTransactionStates := c.mapTransactionStates.insert ts.transactionId ts }

variable (transid : TransId)

def removeState : HBaseTxClient :=
  { c with mapTransactionStates := c.mapTransactionStates.erase transid }

def putRecord (state : TxState) (regions : List Region) (forced : Bool) : HBaseTxClient :=
  { c with tLog := c.tLog.putSingleRecord cfg env transid state regions forced }

def beginTransaction : HBaseTxClient :=
  c.putState ⟨transid, .active, []⟩

def registerRegion (region : Region) :
    HBaseTxClient :=
  match c.mapTransactionStates.lookup transid with
  | none => c
  | some ts => c.putState (ts.addRegion region)

def prepareCommit (readOnly : Bool) : HBaseTxClient :=
  match c.mapTransactionStates.lookup transid with
  | none => c
  | some _ => if readOnly then c.removeState transid else c

def putForgotten : HBaseTxClient :=
  if cfg.useForgotten then putRecord cfg env c transid .forgotten [] cfg.forceForgotten else c

variable (throws : Bool)

def doCommit : HBaseTxClient :=
  match c.mapTransactionStates.lookup transid with
  | none => c
  | some ts =>
    let c := c.putState (ts.setStatus .committed)
    let c := putRecord cfg env c transid .committed ts.participatingRegions true
    if throws then c else putForgotten cfg env c transid

def abortTransaction : HBaseTxClient :=
  match c.mapTransactionStates.lookup transid with
  | none => c
  | some ts =>
    let c := c.putState (ts.setStatus .aborted)
    let c := putRecord cfg env c transid .aborted ts.participatingRegions false
    if throws then c.removeState transid else putForgotten cfg env c transid

def completeRequest : HBaseTxClient :=
  match c.mapTransactionStates.lookup transid with
  | none => c
  | some _ => if throws then c else c.removeState transid

def addControlPoint (cfg : Settings) (env : Environment) (c : HBaseTxClient) :
    HBaseTxClient :=
  { c with tLog := c.tLog.addControlPoint cfg env c.mapTransactionStates }

def step : Call → HBaseTxClient
  | .beginTransaction transid => c.beginTransaction transid
  | .registerRegion transid region => c.registerRegion transid region
  | .prepareCommit transid readOnly => c.prepareCommit transid readOnly
  | .doCommit transid throws => doCommit cfg env c transid throws
  | .abortTransaction transid throws => abortTransaction cfg env c transid throws
  | .completeRequest transid throws => c.completeRequest transid throws
  | .addControlPoint => addControlPoint cfg env c
  | .restart => ⟨∅, c.tLog.reopened⟩

def start : HBaseTxClient := ⟨∅, TmAuditTlog.created⟩

end HBaseTxClient

end Trafodion.Tlog
