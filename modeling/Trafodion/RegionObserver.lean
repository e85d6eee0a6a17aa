import Trafodion.OpenEntries
import Trafodion.RegionSecondPhase

/-!
# Replay of a region's log

When a region is opened after a crash, `TrxRegionObserver` sees each surviving log edit in
`preWALRestore`. It collects prepared transactions and replays committed ones. What is still
prepared at `postOpen` is in doubt and is handed to the endpoint.
-/
namespace Trafodion.Region
open TombstoneStore FiniteMaps OpenEntries

def WALEdit.contextTag (logEdit : WALEdit) : Option Tag :=
  if logEdit.kvs = [] then none else logEdit.tag

structure Observer where
  tabledescriptor : TableDescriptor
  pendingTransactionsById : AList fun _ : TransId => List KeyValue
  store : List (Cell Bytes Bytes Bytes Bytes)
  /-- The edits that the replay itself generates. -/
  tHLog : List WALEdit

namespace Observer

variable (now : ℕ) (o : Observer)

/-- `my_Region.put` or `my_Region.delete` of the mutation rebuilt from one cell. -/
def replayCell (kv : KeyValue) : Observer :=
  let a := rebuild kv
  { o with
    store := o.store ++ a.regionCells o.tabledescriptor now
    tHLog := o.tHLog ++ [⟨none, (a.getCells o.tabledescriptor).map (KeyValue.stamp now)⟩] }

def replayCommittedTransaction (val : List KeyValue) (o : Observer) : Observer :=
  val.foldl (replayCell now) o

def preWALRestore (logEdit : WALEdit) (o : Observer) : Observer :=
  match logEdit.contextTag with
  | none => { o with store := o.store ++ logEdit.kvs.map (KeyValue.cell now) }
  | some ⟨.commitRequest, tid⟩ =>
    if tid ∈ o.pendingTransactionsById then o
    else { o with
      pendingTransactionsById := o.pendingTransactionsById.insert tid logEdit.kvs }
  | some ⟨.abort, tid⟩ =>
    { o with pendingTransactionsById := o.pendingTransactionsById.erase tid }
  | some ⟨.commit, tid⟩ =>
    match o.pendingTransactionsById.lookup tid with
    | none => o
    | some walB =>
      { o.replayCommittedTransaction now walB with
        pendingTransactionsById := o.pendingTransactionsById.erase tid }
  | some ⟨.controlPointCommit, tid⟩ =>
    { o.replayCommittedTransaction now logEdit.kvs with
      pendingTransactionsById := o.pendingTransactionsById.erase tid }

def start (htd : TableDescriptor) (store : List (Cell Bytes Bytes Bytes Bytes)) : Observer :=
  ⟨htd, ∅, store, []⟩

def restore (log : List (ℕ × WALEdit)) : Observer :=
  log.foldl (fun o x => o.preWALRestore x.1 x.2) o

/-- One iteration of the loop of `postOpen`. -/
def countIndoubt (counts : AList fun _ : BitVec 32 => ℕ) (transactionId : TransId) :
    AList fun _ : BitVec 32 => ℕ :=
  counts.insert (tmid transactionId) ((counts.lookup (tmid transactionId)).getD 0 + 1)

def postOpen : AList fun _ : BitVec 32 => ℕ :=
  o.pendingTransactionsById.keys.foldl countIndoubt ∅

def endpoint (editGenerated : Bool) : Endpoint :=
  { Endpoint.opened o.tabledescriptor o.store o.pendingTransactionsById o.postOpen editGenerated with
    tHLog := o.tHLog }

lemma replayCommittedTransaction_frame (val : List KeyValue) (o : Observer) :
    (o.replayCommittedTransaction now val).pendingTransactionsById = o.pendingTransactionsById ∧
      (o.replayCommittedTransaction now val).tabledescriptor = o.tabledescriptor := by
  induction val generalizing o with
  | nil => exact ⟨rfl, rfl⟩
  | cons kv val ih => exact ih (o.replayCell now kv)

end Observer

def WALEdit.entry (logEdit : WALEdit) : OpenEntries.Record TransId (List KeyValue) :=
  match logEdit.contextTag with
  | none => .other
  | some ⟨.commitRequest, tid⟩ => .opens tid logEdit.kvs
  | some ⟨.commit, tid⟩ | some ⟨.abort, tid⟩ | some ⟨.controlPointCommit, tid⟩ => .closes tid

namespace Observer

lemma preWALRestore_pending (now : ℕ) (logEdit : WALEdit) (o : Observer) :
    (o.preWALRestore now logEdit).pendingTransactionsById =
      apply o.pendingTransactionsById logEdit.entry := by
  unfold preWALRestore WALEdit.entry
  match logEdit.contextTag with
  | none => rfl
  | some ⟨.commitRequest, tid⟩ =>
    simp only [apply]
    split_ifs <;> rfl
  | some ⟨.abort, tid⟩ => rfl
  | some ⟨.controlPointCommit, tid⟩ => rfl
  | some ⟨.commit, tid⟩ =>
    cases hpend : o.pendingTransactionsById.lookup tid with
    | none => simp only [hpend, apply, erase_of_lookup_eq_none hpend]
    | some walB => simp only [hpend, apply]

end Observer

end Trafodion.Region
