import Trafodion.TombstoneStore
import Mathlib.Data.Finset.Insert
import Mathlib.Order.Lex
import Mathlib.Data.List.Lex

/-!
# The state of a transaction at a region

A region buffers the writes of a transaction until the second phase of its commit. The
state holds the buffered writes, the log edit built from them, the ranges the transaction
has read, and references to the transactions it must be checked against.
-/
namespace Trafodion.Region
open TombstoneStore

/-- Byte arrays, ordered as `Bytes.compareTo` orders them. -/
abbrev Bytes := List (Fin 256)

instance byteNeZero : @NeZero ℕ Zero.ofOfNat0 256 := ⟨Nat.succ_ne_zero 255⟩

abbrev TransId := BitVec 64

abbrev Ref := ℕ

/-- A `KeyValue` of a mutation or of a log edit. No timestamp is `LATEST_TIMESTAMP`. -/
structure KeyValue where
  row : Bytes
  family : Bytes
  qualifier : Bytes
  timestamp : Option ℕ
  type : Kind
  value : Bytes
  deriving DecidableEq, Repr

variable (now : ℕ) (kv : KeyValue)

/-- `updateLatestStamp`. -/
def KeyValue.stamp : KeyValue :=
  { kv with timestamp := some (kv.timestamp.getD now) }

def KeyValue.cell : Cell Bytes Bytes Bytes Bytes :=
  ⟨kv.row, kv.family, kv.qualifier, kv.timestamp.getD now, kv.type, kv.value⟩

/-- A `Put`. The client rejects a put without columns. -/
structure Put where
  row : Bytes
  cells : List KeyValue
  nonempty : cells ≠ []
  sound : ∀ kv ∈ cells, kv.row = row ∧ kv.type = .put
  deriving DecidableEq

/-- A `Delete`. Without cells it stands for the whole row. -/
structure Delete where
  row : Bytes
  timestamp : Option ℕ
  cells : List KeyValue
  sound : ∀ kv ∈ cells, kv.row = row ∧ kv.type ≠ .put
  deriving DecidableEq

def Put.column (row family qualifier value : Bytes) : Put :=
  ⟨row, [⟨row, family, qualifier, none, .put, value⟩], by simp, by simp⟩

def Delete.wholeRow (row : Bytes) : Delete := ⟨row, none, [], by simp⟩

structure TableDescriptor where
  families : List Bytes
  nonempty : families ≠ []
  deriving DecidableEq

lemma one_family_nonempty : ([[1]] : List Bytes) ≠ [] := List.cons_ne_nil _ _

def Put.stamp (now : ℕ) (p : Put) : Put where
  row := p.row
  cells := p.cells.map (KeyValue.stamp now)
  nonempty := by simpa using p.nonempty
  sound := by
    intro kv hkv
    obtain ⟨kv', hmem, rfl⟩ := List.mem_map.1 hkv
    exact p.sound kv' hmem

def Delete.stamp (now : ℕ) (d : Delete) : Delete where
  row := d.row
  timestamp := some (d.timestamp.getD now)
  cells := d.cells.map (KeyValue.stamp now)
  sound := by
    intro kv hkv
    obtain ⟨kv', hmem, rfl⟩ := List.mem_map.1 hkv
    exact d.sound kv' hmem

inductive WriteAction
  | put (p : Put)
  | delete (d : Delete)
  deriving DecidableEq

namespace WriteAction

def getRow : WriteAction → Bytes
  | put p => p.row
  | delete d => d.row

def getCells (htd : TableDescriptor) : WriteAction → List KeyValue
  | put p => p.cells
  | delete d =>
    if d.cells = [] then
      htd.families.map fun family => ⟨d.row, family, [], d.timestamp, .deleteFamily, []⟩
    else d.cells

lemma getCells_ne_nil (htd : TableDescriptor) (a : WriteAction) : a.getCells htd ≠ [] := by
  cases a with
  | put p => exact p.nonempty
  | delete d =>
    simp only [getCells]
    split_ifs with h
    · simpa using htd.nonempty
    · exact h

/-- What `HRegion.put` and `HRegion.delete` add to the region. -/
def regionCells (htd : TableDescriptor) (now : ℕ) (a : WriteAction) :
    List (Cell Bytes Bytes Bytes Bytes) :=
  (a.getCells htd).map (KeyValue.cell now)

end WriteAction

inductive Status
  | pending
  | commitPending
  | commited
  | aborted
  deriving DecidableEq, Repr

inductive CommitProgress
  | none
  | committing
  | commited
  deriving DecidableEq, Repr

structure ScanRange where
  startRow : Option Bytes
  endRow : Option Bytes
  deriving DecidableEq

def ScanRange.contains (s : ScanRange) (rowKey : Bytes) : Bool :=
  !(s.startRow.any fun startRow => rowKey < startRow) &&
    !(s.endRow.any fun endRow => endRow < rowKey)

structure TransactionState where
  transactionId : TransId
  status : Status
  scans : List ScanRange
  writeOrdering : List WriteAction
  transactionsToCheck : Finset Ref
  startSequenceNumber : ℤ
  sequenceNumber : Option ℤ
  commitPendingWaits : ℕ
  reInstated : Bool
  edit : List KeyValue
  commitProgress : CommitProgress

namespace TransactionState

def new (transactionId : TransId) : TransactionState :=
  ⟨transactionId, .pending, [], [], ∅, 0, none, 0, false, [], .none⟩

def addRead (rowKey : Bytes) (state : TransactionState) : TransactionState :=
  { state with scans := state.scans ++ [⟨some rowKey, some rowKey⟩] }

def addScan (range : ScanRange) (state : TransactionState) : TransactionState :=
  { state with scans := state.scans ++ [range] }

def addAction (htd : TableDescriptor) (waction : WriteAction) (state : TransactionState) :
    TransactionState :=
  { state with
    writeOrdering := state.writeOrdering ++ [waction]
    edit := state.edit ++ waction.getCells htd }

def addWrite (htd : TableDescriptor) (now : ℕ) (write : Put) (state : TransactionState) :
    TransactionState :=
  (state.addRead write.row).addAction htd (.put (write.stamp now))

/-- Unlike `addWrite`, this records no read of the row. -/
def addDelete (htd : TableDescriptor) (now : ℕ) (delete : Delete) (state : TransactionState) :
    TransactionState :=
  state.addAction htd (.delete (delete.stamp now))

variable (state : TransactionState)

def hasWrite : Bool := state.writeOrdering.length > 0

def clearState : TransactionState :=
  { state with transactionsToCheck := ∅, writeOrdering := [], scans := [] }

def setStatus (status : Status) (state : TransactionState) : TransactionState :=
  { state with status := status }

def writeRows : List Bytes := state.writeOrdering.map (·.getRow)

/-- `hasConflict(checkAgainst)`. -/
def hasConflictWith (state checkAgainst : TransactionState) : Bool :=
  if checkAgainst.status = .aborted then false
  else checkAgainst.writeRows.any fun row =>
    state.transactionId ≠ checkAgainst.transactionId &&
      state.scans.any fun scanRange => scanRange.contains row

def Reads (row : Bytes) : Prop :=
  ∃ s ∈ state.scans, s.contains row = true

instance (state : TransactionState) (row : Bytes) : Decidable (state.Reads row) :=
  inferInstanceAs (Decidable (∃ s ∈ state.scans, s.contains row = true))

lemma hasConflictWith_eq_false_iff {state chk : TransactionState} :
    state.hasConflictWith chk = false ↔
      chk.status = .aborted ∨ state.transactionId = chk.transactionId ∨
        ∀ row ∈ chk.writeRows, ¬ state.Reads row := by
  unfold hasConflictWith Reads
  by_cases ha : chk.status = .aborted
  · simp [ha]
  · by_cases hid : state.transactionId = chk.transactionId
    · simp [ha, hid]
    · simp [ha, hid]

end TransactionState

end Trafodion.Region
