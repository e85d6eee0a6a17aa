import Trafodion.DelimitedText
import Trafodion.VersionedCells

/-!
# Records of the transaction log

The transaction manager keeps one row per transaction in its log tables. Each write puts a
comma-separated text into the single column of the row, and `getTransactionState` reads the
newest text, or the older versions when the newest one says `FORGOTTEN`.
-/
namespace Trafodion.Tlog
open DelimitedText VersionedCells

abbrev TransId := BitVec 64

/-- The `TM_TX_STATE` constants; `unknown` is the value `-1`. -/
inductive TxState
  | notx | active | forgotten | committed | aborting | aborted | committing | preparing
  | forgetting | prepared | forgettingHeur | beginning | hungCommitted | hungAborted | idle
  | forgottenHeur | abortingPart2 | terminating | unknown
  deriving DecidableEq, Repr

open TxState

namespace TxState

def name : TxState → Text
  | notx => "NOTX".toList
  | active => "ACTIVE".toList
  | forgotten => "FORGOTTEN".toList
  | committed => "COMMITTED".toList
  | aborting => "ABORTING".toList
  | aborted => "ABORTED".toList
  | committing => "COMMITTING".toList
  | preparing => "PREPARING".toList
  | forgetting => "FORGETTING".toList
  | prepared => "PREPARED".toList
  | forgettingHeur => "FORGETTING_HEUR".toList
  | beginning => "BEGINNING".toList
  | hungCommitted => "HUNGCOMMITTED".toList
  | hungAborted => "HUNGABORTED".toList
  | idle => "IDLE".toList
  | forgottenHeur => "FORGOTTEN_HEUR".toList
  | abortingPart2 => "ABORTING_PART2".toList
  | terminating => "TERMINATING".toList
  | unknown => []

/-- The names that `getTransactionState` compares with, in its order. -/
def compared : List TxState :=
  [committed, aborted, active, prepared, notx, forgotten, aborting, committing, preparing,
    forgetting, forgettingHeur, beginning, hungCommitted, hungAborted, idle, forgottenHeur,
    abortingPart2, terminating]

def ofName (s : Text) : TxState := (compared.find? fun st => st.name = s).getD unknown

lemma ofName_name (st : TxState) : ofName st.name = st := by
  cases st <;> decide

lemma comma_notMem_name (st : TxState) : ',' ∉ st.name := by
  cases st <;> decide

lemma name_ne_nil {st : TxState} (h : st ≠ unknown) : st.name ≠ [] := by
  cases st <;> first | exact absurd rfl h | decide

end TxState

/-- A table name of HBase: not empty, and built from letters, digits and `_ - . :`. -/
structure TableName where
  chars : Text
  nonempty : chars ≠ []
  legal : ∀ c ∈ chars, c.isAlphanum ∨ c ∈ ['_', '-', '.', ':']
  deriving DecidableEq

open TableName

lemma TableName.comma_notMem (n : TableName) : ',' ∉ n.chars := by
  intro h
  rcases n.legal ',' h with h | h <;> revert h <;> decide

structure Region where
  table : TableName
  id : ℕ
  deriving DecidableEq

/-- The number of log tables, `TM_TLOG_NUM_LOGS`. -/
inductive NumLogs
  | one | two | four | eight | sixteen | thirtyTwo
  deriving DecidableEq, Repr

namespace NumLogs

def hashKey : NumLogs → BitVec 64
  | one => 0b0
  | two => 0b1
  | four => 0b11
  | eight => 0b111
  | sixteen => 0b1111
  | thirtyTwo => 0b11111

def hashShiftFactor : NumLogs → ℕ
  | one => 63
  | two => 63
  | four => 62
  | eight => 61
  | sixteen => 60
  | thirtyTwo => 59

variable (n : NumLogs) (transid : TransId)

/-- The row key. The mask is the `int` literal `0xFFFFFFFF`, which is `-1` as a `long`. -/
def key : BitVec 64 :=
  ((transid &&& n.hashKey) <<< n.hashShiftFactor) + (transid &&& BitVec.allOnes 64)

def lockIndex : ℕ := (transid &&& n.hashKey).toNat

def row : ℕ × BitVec 64 :=
  (n.lockIndex transid, n.key transid)

lemma row_injective : Function.Injective n.row := by
  intro s t h
  have hindex : s &&& n.hashKey = t &&& n.hashKey := BitVec.eq_of_toNat_eq (congrArg Prod.fst h)
  have hkey : n.key s = n.key t := congrArg Prod.snd h
  unfold key at hkey
  rwa [hindex, BitVec.add_right_inj, BitVec.and_allOnes, BitVec.and_allOnes] at hkey

end NumLogs

def filler : Text := [' ', ' ']

variable (tables : List TableName)

def tableString : Text :=
  tables.flatMap fun name => if name.chars.length > 0 then ',' :: name.chars else []

/-- The text that `putSingleRecord` writes. -/
def record (asn : ℕ) (transid : TransId) (state : TxState) (tables : List TableName) : Text :=
  valueOf asn ++ ',' :: (valueOf transid.toInt ++ ',' :: (state.name ++
    ',' :: (filler ++ ',' :: tableString tables)))

lemma tokens_tableString : tokens ',' (tableString tables) = tables.map chars := by
  have h : tableString tables = (tables.map chars).flatMap (',' :: ·) := by
    rw [tableString, List.flatMap_map]
    congr 1
    funext name
    rw [if_pos (List.length_pos_iff.2 name.nonempty)]
  rw [h]
  refine tokens_flatMap_cons ?_ ?_
  · exact List.forall_mem_map.2 fun name _ => name.comma_notMem
  · exact List.forall_mem_map.2 fun name _ => name.nonempty

/-- What a reader sees of a record: sequence number, transaction, state, filler, tables. -/
theorem tokens_record (asn : ℕ) (tid : TransId) (state : TxState)
    (tables : List TableName) (h : state ≠ .unknown) : tokens ',' (record asn tid state tables) =
      valueOf asn :: valueOf tid.toInt :: state.name :: filler :: tables.map chars := by
  unfold record
  rw [tokens_append_cons (comma_notMem_valueOf _) (valueOf_ne_nil _),
    tokens_append_cons (comma_notMem_valueOf _) (valueOf_ne_nil _),
    tokens_append_cons state.comma_notMem_name (name_ne_nil h),
    tokens_append_cons (by decide) (by decide), tokens_tableString]

/-- The part of the client's `TransactionState` that recovery fills in. A set of regions is
a list without repetitions. -/
structure TransactionState where
  transactionId : TransId
  status : TxState
  participatingRegions : List Region
  deriving DecidableEq

namespace TransactionState

variable (ts : TransactionState)

def addRegion (r : Region) : TransactionState :=
  if r ∈ ts.participatingRegions then ts
  else { ts with participatingRegions := ts.participatingRegions ++ [r] }

def setStatus (st : TxState) : TransactionState :=
  { ts with status := st }

def clearParticipatingRegions : TransactionState :=
  { ts with participatingRegions := [] }

/-- The loop over the table tokens. `regionLocations` is the lookup of HBase. -/
def addTables (regionLocations : Text → List Region) (ts : TransactionState)
    (tables : List Text) : TransactionState :=
  tables.foldl (fun ts name => (regionLocations name).foldl addRegion ts) ts

variable {ts : TransactionState}

lemma mem_addRegion {r s : Region} :
    s ∈ (ts.addRegion r).participatingRegions ↔ s ∈ ts.participatingRegions ∨ s = r := by
  unfold addRegion
  split_ifs with h
  · constructor
    · exact Or.inl
    · rintro (hs | rfl)
      · exact hs
      · exact h
  · simp

lemma mem_foldl_addRegion {l : List Region} {s : Region} :
    s ∈ (l.foldl addRegion ts).participatingRegions ↔ s ∈ ts.participatingRegions ∨ s ∈ l := by
  induction l generalizing ts with
  | nil => simp
  | cons r l ih => rw [List.foldl_cons, ih, mem_addRegion, List.mem_cons, or_assoc]

lemma mem_addTables {locs : Text → List Region} {tables : List Text} {s : Region} :
    s ∈ (ts.addTables locs tables).participatingRegions ↔
      s ∈ ts.participatingRegions ∨ ∃ name ∈ tables, s ∈ locs name := by
  induction tables generalizing ts with
  | nil => simp [addTables]
  | cons name tables ih =>
    change s ∈ (addTables locs _ tables).participatingRegions ↔ _
    rw [ih, mem_foldl_addRegion]
    simp [or_assoc]

end TransactionState

/-- The secondary search of `getTransactionState` over the versions of a row, newest
first. The result is the state found and the tokens that follow it in the last text looked
at; `none` is the exception of a text with too few tokens. -/
def secondarySearch : List Text → List Text → Option (TxState × List Text)
  | [], rest => some (.notx, rest)
  | v :: vs, _ =>
    match tokens ',' v with
    | [] => secondarySearch vs []
    | _ :: _ :: stateToken :: rest =>
      if stateToken = name .committed then some (.committed, rest)
      else if stateToken = name .aborted then some (.aborted, rest)
      else secondarySearch vs rest
    | _ => none

variable (versions : ℕ) (regionLocations : Text → List Region) (column : Column Text)

/-- The state and the remaining tokens for a row whose newest text is `value`. -/
def lookup (value : Text) :
    Option (TxState × List Text) :=
  match tokens ',' value with
  | [] => some (.unknown, [])
  | _ :: _ :: stateString :: rest =>
    if ofName stateString = .forgotten then
      secondarySearch (column.versions versions) rest
    else some (ofName stateString, rest)
  | _ => none

/-- `getTransactionState` once the row is read. Exceptions are swallowed by the source, and
leave what was done before them. -/
def loadState (ts : TransactionState) : TransactionState :=
  match column.newest with
  | none => ts.setStatus .notx
  | some [] => ts.setStatus .notx
  | some value =>
    let ts := ts.clearParticipatingRegions
    match lookup versions column value with
    | some (lvTxState, _filler :: tables) =>
      (ts.addTables regionLocations tables).setStatus lvTxState
    | _ => ts

abbrev Store := ℕ × BitVec 64 → Column Text

namespace Store

def empty : Store := fun _ => Column.empty

def put (store : Store) (row : ℕ × BitVec 64) (timestamp : ℕ) (value : Text) : Store :=
  Function.update store row ((store row).put timestamp value)

lemma put_same (store : Store) (row : ℕ × BitVec 64) (timestamp : ℕ) (value : Text) :
    store.put row timestamp value row = (store row).put timestamp value :=
  Function.update_self _ _ _

lemma put_of_ne (store : Store) {row row' : ℕ × BitVec 64} (h : row' ≠ row) (timestamp : ℕ)
    (value : Text) : store.put row timestamp value row' = store row' :=
  Function.update_of_ne h _ _

end Store

def getTransactionState (n : NumLogs) (versions : ℕ) (regionLocations : Text → List Region)
    (store : Store) (ts : TransactionState) : TransactionState :=
  loadState versions regionLocations (store (n.row ts.transactionId)) ts

variable (versions : ℕ) (asn : ℕ) (tid : TransId)

lemma record_ne_nil (state : TxState)
    (tables : List TableName) : record asn tid state tables ≠ [] := by
  simp [record]

lemma lookup_record_of_ne_forgotten (column : Column Text) (asn : ℕ)
    (tid : TransId) {state : TxState} (tables : List TableName) (hu : state ≠ .unknown)
    (hf : state ≠ .forgotten) : lookup versions column (record asn tid state tables) =
      some (state, filler :: tables.map chars) := by
  simp [lookup, tokens_record asn tid state tables hu, ofName_name, hf]

lemma lookup_record_forgotten (column : Column Text) (asn : ℕ)
    (tid : TransId) (tables : List TableName) :
    lookup versions column (record asn tid .forgotten tables) =
      secondarySearch (column.versions versions) (filler :: tables.map chars) := by
  simp [lookup, tokens_record asn tid .forgotten tables (by decide), ofName_name]

lemma secondarySearch_forgotten
    (vs rest : List Text) : secondarySearch (record asn tid .forgotten tables :: vs) rest =
      secondarySearch vs (filler :: tables.map chars) := by
  have hc : name .forgotten ≠ name .committed := by decide
  have ha : name .forgotten ≠ name .aborted := by decide
  simp [secondarySearch, tokens_record asn tid .forgotten tables (by decide), hc, ha]

lemma secondarySearch_decision {state : TxState} (h : state = .committed ∨ state = .aborted)
    (vs rest : List Text) : secondarySearch (record asn tid state tables :: vs) rest =
      some (state, filler :: tables.map chars) := by
  have hac : name .aborted ≠ name .committed := by decide
  rcases h with rfl | rfl
  · simp [secondarySearch, tokens_record asn tid .committed tables (by decide)]
  · simp [secondarySearch, tokens_record asn tid .aborted tables (by decide), hac]

end Trafodion.Tlog
