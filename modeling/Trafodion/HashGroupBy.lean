import Mathlib.Algebra.BigOperators.Group.List.Basic
import Mathlib.Algebra.Ring.Nat
import Trafodion.Runs

/-!
# Hash group-by

`ex_hash_grby_tcb` puts the groups of its input into clusters by the hash value of the grouping
columns. When memory is short a cluster is spilled: its groups are written to a sequence of the
scratch file, and the groups that follow are written behind them. When the input has been read, the
clusters that were not spilled are complete. Each spilled one is then used as the input, with other
hash values. Without aggregates, groups are returned when they are first seen; the first spill then
writes groups that have been returned, which are kept apart and read back first.

One event is one call of a work procedure. It says whether an insert that needs memory fails, and
which cluster is spilled then. Waiting for I/O, for the parent's queue or for the result pool changes
nothing.
-/
namespace Trafodion.HashGroupBy

/-- The operator. The expression for one row multiplies its value to the aggregate, and that for
groups read back multiplies theirs. -/
structure Tdb (α γ A : Type) where
  key : α → γ
  hash : γ → ℕ
  aggregates : Bool
  value : α → A
  having : γ × A → Bool
  bucketCount : ℕ
  bucketCount_pos : 0 < bucketCount

structure HashRow (γ A : Type) where
  key : γ
  hashValue : ℕ
  aggr : A
  deriving DecidableEq, Repr

inductive ClusterState
  | chained
  | flushed
  deriving DecidableEq, Repr

/-- A cluster, of one bucket. The rows `kept` are in the buffer, but not in the hash table. The two
sequences are those at `seqIDIndex_` 0 and 1. -/
structure Cluster (γ A : Type) where
  state : ClusterState := .chained
  kept : List (HashRow γ A) := []
  table : List (HashRow γ A) := []
  seqZero : List (HashRow γ A) := []
  seqOne : List (HashRow γ A) := []
  deriving DecidableEq, Repr

def mask31 (hashValue : ℕ) : ℕ := hashValue % 2 ^ 31

def respread (hashValue : ℕ) : ℕ := mask31 (hashValue + (hashValue &&& 0x03ff00) >>> 8)

section

variable {α γ A : Type} [DecidableEq γ] [CommMonoid A]

namespace Cluster

variable (noAggregates : Bool) (keep : ℕ) (r : HashRow γ A) (c : Cluster γ A)

def bufferPool : List (HashRow γ A) := c.kept ++ c.table

def has (key : γ) (hashValue : ℕ) (c : Cluster γ A) : Bool :=
  c.table.any fun r => r.hashValue = hashValue ∧ r.key = key

def aggregate (key : γ) (hashValue : ℕ) (value : A) (c : Cluster γ A) : Cluster γ A :=
  { c with
    table := c.table.map fun r =>
      if r.hashValue = hashValue ∧ r.key = key then { r with aggr := r.aggr * value } else r }

def insert : Cluster γ A := { c with table := c.table ++ [r] }

/-- `spill`, with the most recent rows kept in the buffer. They are not put into the new hash table:
`flush` has forgotten about the kept buffer when `spill` looks for it. The first spill without
aggregates keeps nothing, and starts another sequence. -/
def spill : Cluster γ A :=
  if c.state = .chained ∧ noAggregates then
    { state := .flushed, seqOne := c.seqZero ++ c.bufferPool }
  else
    let written := c.bufferPool.length - keep
    { c with
      state := .flushed
      kept := c.bufferPool.drop written
      table := []
      seqZero := c.seqZero ++ c.bufferPool.take written }

end Cluster

inductive State
  | readChild
  | readOfRow
  | evaluate
  | done
  deriving DecidableEq, Repr

/-- `tail` and `rows` are what is left of the two sequences of the cluster that is read back.
`resultRows` are the groups moved to the result buffer, of which those are returned that pass the
having expression. -/
structure Tcb (α γ A : Type) where
  state : State
  child : List α
  clusterList : List (ℕ × Cluster γ A)
  ofClusterList : List (Cluster γ A)
  tail : List (HashRow γ A)
  rows : List (HashRow γ A)
  resultRows : List (γ × A)

structure Spill where
  bucket : ℕ
  keep : ℕ
  deriving DecidableEq, Repr

namespace Tcb

variable (tdb : Tdb α γ A)

variable (fails : Option Spill) (t : Tcb α γ A)

def returned : List (γ × A) := t.resultRows.filter tdb.having

def clusterOf (bucket : ℕ) (t : Tcb α γ A) : Cluster γ A :=
  ((t.clusterList.find? fun p => p.1 = bucket).map Prod.snd).getD {}

def modify (bucket : ℕ) (f : Cluster γ A → Cluster γ A) (t : Tcb α γ A) : Tcb α γ A :=
  { t with clusterList := t.clusterList.map fun p => if p.1 = bucket then (p.1, f p.2) else p }

/-- One row for its group: the group is found, or the row is inserted as a new one, or an insert
fails and a cluster is spilled. The answer says whether the row is used up. -/
def group (key : γ) (hashValue : ℕ) (value : A) (returns : Bool) (fails : Option Spill)
    (t : Tcb α γ A) : Tcb α γ A × Bool :=
  let bucket := hashValue % tdb.bucketCount
  let cluster := t.clusterOf bucket
  if cluster.has key hashValue then
    (if tdb.aggregates then t.modify bucket (Cluster.aggregate key hashValue value) else t, true)
  else
    match fails with
    | some s => (t.modify s.bucket (Cluster.spill (!tdb.aggregates) s.keep), false)
    | none =>
      let aggr := if tdb.aggregates then value else 1
      let inserted := t.modify bucket (Cluster.insert ⟨key, hashValue, aggr⟩)
      if tdb.aggregates = false ∧ cluster.state = .chained ∧ returns then
        ({ inserted with resultRows := t.resultRows ++ [(key, aggr)] }, true)
      else (inserted, true)

def workReadChild : Tcb α γ A :=
  match t.child with
  | [] => { t with state := .evaluate }
  | x :: xs =>
    match group tdb (tdb.key x) (mask31 (tdb.hash (tdb.key x))) (tdb.value x) true fails t with
    | (s, true) => { s with child := xs }
    | (s, false) => s

def workReadOverFlowRow : Tcb α γ A :=
  match t.tail, t.rows with
  | r :: tail, _ =>
    let fails := if tdb.aggregates then fails else none
    match group tdb r.key (respread r.hashValue) r.aggr false fails t with
    | (s, true) => { s with tail := tail }
    | (s, false) => s
  | [], r :: rows =>
    match group tdb r.key (respread r.hashValue) r.aggr true fails t with
    | (s, true) => { s with rows := rows }
    | (s, false) => s
  | [], [] => { t with state := .evaluate }

def allocate : List (ℕ × Cluster γ A) := (List.range tdb.bucketCount).reverse.map fun i => (i, {})

/-- The rows of a complete cluster, which `workReturnRows` moves to the result buffer. -/
def resultsOf (c : Cluster γ A) : List (γ × A) :=
  if tdb.aggregates then c.bufferPool.map fun r => (r.key, r.aggr) else []

def written (c : Cluster γ A) : Cluster γ A :=
  if c.bufferPool.isEmpty then c else c.spill (!tdb.aggregates) 0

def workEvaluate : Tcb α γ A :=
  match t.clusterList with
  | (_, c) :: clusters =>
    match c.state with
    | .chained => { t with clusterList := clusters, resultRows := t.resultRows ++ resultsOf tdb c }
    | .flushed =>
      { t with clusterList := clusters, ofClusterList := t.ofClusterList ++ [written tdb c] }
  | [] =>
    match t.ofClusterList with
    | input :: rest =>
      { t with
        state := .readOfRow
        clusterList := allocate tdb
        ofClusterList := rest
        tail := if tdb.aggregates then [] else input.seqOne
        rows := input.seqZero }
    | [] => { t with state := .done }

end Tcb

variable (tdb : Tdb α γ A) (t : Tcb α γ A)

def step (fails : Option Spill) : Tcb α γ A :=
  match t.state with
  | .readChild => t.workReadChild tdb fails
  | .readOfRow => t.workReadOverFlowRow tdb fails
  | .evaluate => t.workEvaluate tdb
  | .done => t

def initial (input : List α) : Tcb α γ A where
  state := .readChild
  child := input
  clusterList := Tcb.allocate tdb
  ofClusterList := []
  tail := []
  rows := []
  resultRows := []

end

end Trafodion.HashGroupBy
