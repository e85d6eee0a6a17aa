import Trafodion.TlogRecord

/-!
# Looking up the decision on a transaction

The log is written for many transactions in any order. The writes for one transaction are
its decision, rewrites of a commit decision at control points, and at most one `FORGOTTEN`.
HBase gives each put a millisecond timestamp that does not decrease, and a put with the
timestamp of an earlier one replaces it, so a `FORGOTTEN` can hide the decision.
-/
namespace Trafodion.Tlog

open List DelimitedText VersionedCells Column TableName TransactionState

structure Written where
  asn : ℕ
  state : TxState
  tables : List TableName
  timestamp : ℕ

open Written

def Written.cell (w : Written) (transid : TransId) : ℕ × Text :=
  (w.timestamp, record w.asn transid w.state w.tables)

variable (n : NumLogs) (store : Store) (log : List (TransId × Written))

def writeAll : Store :=
  log.foldl (fun store x => store.put (n.row x.1) (x.2.cell x.1).1 (x.2.cell x.1).2) store

/-- The writes for one transaction, in order: the decision, then `rest`. -/
structure Lifetime (decision : Written) (rest : List Written) : Prop where
  decided : decision.state = .committed ∨ decision.state = .aborted
  later : ∀ w ∈ rest, w.state = .forgotten ∨
    (w.state = .committed ∧ decision.state = .committed)
  once : rest.countP (fun w => w.state = .forgotten) ≤ 1
  clock : (decision :: rest).Pairwise fun v w => v.timestamp ≤ w.timestamp

/-- The state is the decision, and the regions are those of the tables that one of the
records of that decision names. -/
def Finds (regionLocations : Text → List Region) (decision : Written) (rest : List Written)
    (ts : TransactionState) : Prop :=
  ts.status = decision.state ∧ ∃ w ∈ decision :: rest, w.state = decision.state ∧
    ∀ r, r ∈ ts.participatingRegions ↔ ∃ name ∈ w.tables, r ∈ regionLocations name.chars

variable {n : NumLogs} {transid : TransId} {decision : Written} {rest : List Written}
  {regionLocations : Text → List Region} {versions : ℕ}

lemma writeAll_row : writeAll n store log (n.row transid) = (store (n.row transid)).putAll
      (((log.filter fun x => x.1 = transid).map Prod.snd).map fun w => w.cell transid) := by
  induction log generalizing store with
  | nil => rfl
  | cons x log ih =>
    change writeAll n (store.put _ _ _) log (n.row transid) = _
    rw [ih]
    by_cases hx : x.1 = transid
    · subst hx
      rw [Store.put_same, filter_cons_of_pos (by simp)]
      rfl
    · have hrow : n.row transid ≠ n.row x.1 := fun h => hx (n.row_injective h).symm
      rw [Store.put_of_ne _ hrow, filter_cons_of_neg (by simpa using hx)]

variable (ts : TransactionState) {init : List Written} {w : Written}

lemma Lifetime.ne_unknown (h : Lifetime decision rest) (hw : w ∈ decision :: rest) :
    w.state ≠ .unknown := by
  rcases mem_cons.1 hw with rfl | hw
  · rcases h.decided with hd | hd <;> simp [hd]
  · rcases h.later w hw with hs | ⟨hs, -⟩ <;> simp [hs]

lemma Lifetime.decision_of_ne_forgotten (h : Lifetime decision rest) (hw : w ∈ decision :: rest)
    (hf : w.state ≠ .forgotten) : w.state = decision.state := by
  rcases mem_cons.1 hw with rfl | hw
  · rfl
  · obtain ⟨hs, hd⟩ := (h.later w hw).resolve_left hf
    rw [hs, hd]

lemma finds_addTables (hw : w ∈ decision :: rest) (hs : w.state = decision.state) :
    Finds regionLocations decision rest ((ts.clearParticipatingRegions.addTables
      regionLocations (w.tables.map chars)).setStatus w.state) := by
  refine ⟨hs, w, hw, hs, fun r => ?_⟩
  change r ∈ (addTables _ _ _).participatingRegions ↔ _
  rw [mem_addTables]
  simp [clearParticipatingRegions]

lemma loadState_of_newest {column : Column Text} (hnew : column.newest = some (w.cell transid).2)
    {st : TxState} {tables : List TableName}
    (hlook : lookup versions column (w.cell transid).2 = some (st, filler :: tables.map chars)) :
    loadState versions regionLocations column ts =
      (ts.clearParticipatingRegions.addTables regionLocations (tables.map chars)).setStatus st := by
  unfold loadState
  rw [hnew]
  split
  · contradiction
  · rename_i heq
    exact absurd (Option.some.inj heq) (record_ne_nil _ _ _ _)
  · rename_i value hval heq
    cases heq
    simp only [hlook]

lemma cells_of_last (h : ∀ v ∈ init, v.timestamp ≤ w.timestamp) :
    ((empty : Column Text).putAll ((init ++ [w]).map fun v => v.cell transid)).cells =
      w.cell transid :: ((empty : Column Text).putAll ((init.filter fun v =>
        v.timestamp < w.timestamp).map fun v => v.cell transid)).cells := by
  have hb : ∀ x ∈ init.map fun v => v.cell transid, x.1 ≤ w.timestamp :=
    forall_mem_map.2 h
  rw [map_append, map_singleton, cell, cells_putAll_snoc hb, filter_map]
  rfl

section
variable (h : Lifetime decision rest)
include h

section
variable (hspl : decision :: rest = init ++ [w])
include hspl

lemma loadState_of_last_decision (hf : w.state ≠ .forgotten) (ts : TransactionState) :
    Finds regionLocations decision rest (loadState versions regionLocations
      ((empty : Column Text).putAll ((decision :: rest).map fun v => v.cell transid)) ts) := by
  have hw : w ∈ decision :: rest := by simp [hspl]
  have hclock := h.clock
  rw [hspl, pairwise_append] at hclock
  have hcells := @cells_of_last transid init w fun v hv => hclock.2.2 v hv w (mem_singleton_self w)
  rw [hspl, loadState_of_newest ts (w := w) (by rw [newest, hcells]; rfl)
    (lookup_record_of_ne_forgotten versions _ w.asn transid w.tables (h.ne_unknown hw) hf)]
  exact finds_addTables ts hw (h.decision_of_ne_forgotten hw hf)

lemma Lifetime.init_ne_forgotten (hf : w.state = .forgotten) {v : Written}
    (hv : v ∈ init) : v.state ≠ .forgotten := by
  have hdecision : decision.state ≠ .forgotten := by
    rcases h.decided with hd | hd <;> simp [hd]
  have hcnt := congrArg (countP fun v : Written => v.state = .forgotten) hspl
  rw [countP_cons_of_neg (by simpa using hdecision), countP_append] at hcnt
  have hone : [w].countP (fun v => v.state = .forgotten) = 1 := by simp [hf]
  have hzero : init.countP (fun v => v.state = .forgotten) = 0 := by
    have := h.once
    omega
  simpa using countP_eq_zero.1 hzero v hv

lemma Lifetime.decision_mem_init (hf : w.state = .forgotten) :
    decision ∈ init ∧ ∀ v ∈ init, decision.timestamp ≤ v.timestamp := by
  cases init with
  | nil =>
    have hd : decision = w := (cons.inj hspl).1
    rcases h.decided with hd' | hd' <;> simp [hd, hf] at hd'
  | cons v init =>
    obtain ⟨rfl, hrest⟩ := cons.inj hspl
    refine ⟨mem_cons_self, forall_mem_cons.2 ⟨le_rfl, fun u hu => ?_⟩⟩
    exact (pairwise_cons.1 h.clock).1 u (by rw [hrest]; simp [hu])

/-- A last `FORGOTTEN` leads to the versions before it: the search finds the decision
exactly when one of its records has an older timestamp. -/
theorem loadState_of_last_forgotten (hf : w.state = .forgotten) (hvers : 5 ≤ versions)
    (ts : TransactionState) :
    Finds regionLocations decision rest (loadState versions regionLocations
      ((empty : Column Text).putAll ((decision :: rest).map fun v => v.cell transid)) ts) ↔
      decision.timestamp < w.timestamp := by
  obtain ⟨hmem, hmin⟩ := h.decision_mem_init hspl hf
  have hclock := h.clock
  rw [hspl, pairwise_append] at hclock
  have hcells := @cells_of_last transid init w fun v hv => hclock.2.2 v hv w (mem_singleton_self w)
  have hnew : ((empty : Column Text).putAll
      ((init ++ [w]).map fun v => v.cell transid)).newest = some (w.cell transid).2 := by
    rw [newest, hcells]
    rfl
  obtain ⟨k, rfl⟩ := Nat.exists_eq_add_of_le' hvers
  have hsearch := lookup_record_forgotten (k + 5)
    ((empty : Column Text).putAll ((init ++ [w]).map fun v => v.cell transid)) w.asn transid w.tables
  rw [versions, hcells] at hsearch
  rw [hspl]
  rcases eq_nil_or_concat' (init.filter fun v => v.timestamp < w.timestamp) with
    holder | ⟨older, v, holder⟩
  · -- Every record of the decision was overwritten by the `FORGOTTEN`.
    have hlt : ¬ decision.timestamp < w.timestamp := by
      intro hlt
      have hd : decision ∈ init.filter fun v => v.timestamp < w.timestamp :=
        mem_filter.2 ⟨hmem, by simpa using hlt⟩
      simp [holder] at hd
    refine iff_of_false (fun hfinds => ?_) hlt
    rw [holder] at hsearch
    change _ = secondarySearch ((w.cell transid).2 :: []) _ at hsearch
    rw [cell, hf, secondarySearch_forgotten] at hsearch
    rw [loadState_of_newest ts hnew (by rw [cell, hf]; exact hsearch)] at hfinds
    have hstat : TxState.notx = decision.state := hfinds.1
    rcases h.decided with hd | hd <;> simp [hd] at hstat
  · have hv : v ∈ init.filter fun v => v.timestamp < w.timestamp := by simp [holder]
    obtain ⟨hvinit, hvlt⟩ := mem_filter.1 hv
    have hlt : decision.timestamp < w.timestamp :=
      (hmin v hvinit).trans_lt (by simpa using hvlt)
    refine iff_of_true ?_ hlt
    have holderClock := hclock.1.filter fun v => v.timestamp < w.timestamp
    rw [holder, pairwise_append] at holderClock
    have holderCells := @cells_of_last transid older v
      fun u hu => holderClock.2.2 u hu v (mem_singleton_self v)
    have hvmem : v ∈ decision :: rest := by simp [hspl, hvinit]
    have hst := h.decision_of_ne_forgotten hvmem (h.init_ne_forgotten hspl hf hvinit)
    rw [holder, holderCells] at hsearch
    change _ = secondarySearch ((w.cell transid).2 :: (v.cell transid).2 :: _) _ at hsearch
    rw [cell, hf, secondarySearch_forgotten, cell,
      secondarySearch_decision _ _ _ (hst ▸ h.decided)] at hsearch
    rw [loadState_of_newest ts hnew (by rw [cell, hf]; exact hsearch)]
    exact finds_addTables ts hvmem hst

end

lemma loadState_finds_iff (hvers : 5 ≤ versions) (ts : TransactionState) :
    Finds regionLocations decision rest (loadState versions regionLocations
      ((empty : Column Text).putAll ((decision :: rest).map fun v => v.cell transid)) ts) ↔
    ∀ w, rest.getLast? = some w → w.state = .forgotten → decision.timestamp < w.timestamp := by
  obtain ⟨init, w, hspl⟩ : ∃ init w, decision :: rest = init ++ [w] :=
    ⟨_, _, (dropLast_append_getLast (cons_ne_nil decision rest)).symm⟩
  by_cases hf : w.state = .forgotten
  · rw [loadState_of_last_forgotten h hspl hf hvers ts]
    obtain ⟨hmem, -⟩ := h.decision_mem_init hspl hf
    have hlast : rest.getLast? = some w := by
      obtain ⟨v, init, rfl⟩ := exists_cons_of_ne_nil (ne_nil_of_mem hmem)
      rw [(cons.inj hspl).2]
      simp
    constructor
    · intro hlt v hv _
      rw [hlast] at hv
      cases hv
      exact hlt
    · intro hall
      exact hall w hlast hf
  · refine iff_of_true (loadState_of_last_decision h hspl hf ts) fun v hv hvf => ?_
    have hlast : (decision :: rest).getLast? = some v := by
      rw [getLast?_cons, hv]
      rfl
    rw [hspl, getLast?_concat] at hlast
    cases hlast
    exact absurd hvf hf

end

/-- `getTransactionState` finds the decision on a transaction unless a `FORGOTTEN`, written
last, has the timestamp of the decision and so of every record between them. -/
theorem getTransactionState_finds_decision_iff (n : NumLogs) (versions : ℕ)
    (hversions : 5 ≤ versions) (regionLocations : Text → List Region)
    (log : List (TransId × Written)) (decision : Written) (rest : List Written)
    (ts : TransactionState)
    (hlog : (log.filter fun x => x.1 = ts.transactionId).map Prod.snd = decision :: rest)
    (h : Lifetime decision rest) : Finds regionLocations decision rest
      (getTransactionState n versions regionLocations (writeAll n Store.empty log) ts) ↔
    ∀ w, rest.getLast? = some w → w.state = .forgotten → decision.timestamp < w.timestamp := by
  rw [getTransactionState, writeAll_row, hlog]
  exact loadState_finds_iff h hversions ts

/-- A table `T` with one region. -/
def sampleTable : TableName := ⟨['T'], by decide, forall_mem_singleton.2 (.inl rfl)⟩

def sampleLocations (name : Text) : List Region :=
  if name = sampleTable.chars then [⟨sampleTable, 0⟩] else []

/-- A committed transaction, and its `FORGOTTEN` one millisecond later. -/
theorem getTransactionState_finds_committed :
    Finds sampleLocations ⟨1, .committed, [sampleTable], 7⟩ [⟨2, .forgotten, [], 8⟩]
      (getTransactionState .two 5 sampleLocations (writeAll .two Store.empty
        [(3, ⟨1, .committed, [sampleTable], 7⟩), (3, ⟨2, .forgotten, [], 8⟩)])
        ⟨3, .active, []⟩) := by
  refine (getTransactionState_finds_decision_iff .two 5 le_rfl _ _ _ _ _ rfl
    ⟨Or.inl rfl, by simp, by decide, by simp⟩).2 ?_
  intro w hw _
  cases hw
  decide

/-- The `FORGOTTEN` of a committed transaction falls in the same millisecond, and the
lookup ends with `NOTX`. -/
theorem decision_hidden_by_forgotten :
    Lifetime ⟨1, .committed, [sampleTable], 7⟩ [⟨2, .forgotten, [], 7⟩] ∧
    ¬ Finds sampleLocations ⟨1, .committed, [sampleTable], 7⟩ [⟨2, .forgotten, [], 7⟩]
      (getTransactionState .two 5 sampleLocations (writeAll .two Store.empty
        [(3, ⟨1, .committed, [sampleTable], 7⟩), (3, ⟨2, .forgotten, [], 7⟩)])
        ⟨3, .active, []⟩) := by
  refine ⟨⟨Or.inl rfl, by simp, by decide, by simp⟩, fun h => ?_⟩
  have hstatus := h.1
  revert hstatus
  decide

end Trafodion.Tlog
