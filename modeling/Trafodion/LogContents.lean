import Trafodion.TlogAgeing
import Trafodion.TlogLookup

/-!
# What the transaction log holds

Whatever the client does to its log, the texts in the log tables and in the write buffers are
records it has written. A lookup therefore answers `COMMITTED` only for a transaction with such a
record, and it does answer so if the newest version of the row is one, or the version under a
`FORGOTTEN`.
-/
namespace Trafodion.Tlog

open List Function DelimitedText VersionedCells

namespace TmAuditTlog

/-- Every text in the log tables and in the write buffers satisfies `P`. -/
structure Holds (P : ℕ × BitVec 64 → Text → Prop) (tl : TmAuditTlog) : Prop where
  stored : ∀ row, ∀ x ∈ (tl.store row).cells, P row x.2
  buffered : ∀ i, ∀ p ∈ tl.buffers i, P p.1 p.2

variable {P : ℕ × BitVec 64 → Text → Prop} {cfg : Settings} {env : Environment} {tl : TmAuditTlog}

lemma Holds.mono {Q : ℕ × BitVec 64 → Text → Prop} (h : Holds P tl)
    (hPQ : ∀ row value, P row value → Q row value) : Holds Q tl :=
  ⟨fun row x hx => hPQ _ _ (h.stored row x hx), fun i p hp => hPQ _ _ (h.buffered i p hp)⟩

lemma Holds.applyPut (h : Holds P tl) {p : (ℕ × BitVec 64) × Text} (hp : P p.1 p.2) :
    Holds P (applyPut env tl p) := by
  refine ⟨fun row x hx => ?_, h.buffered⟩
  change x ∈ (tl.store.put p.1 _ p.2 row).cells at hx
  by_cases hrow : row = p.1
  · subst hrow
    rw [Store.put_same] at hx
    obtain rfl | hx := mem_insertCell hx
    · exact hp
    · exact h.stored _ x hx
  · rw [Store.put_of_ne _ hrow] at hx
    exact h.stored row x hx

lemma Holds.flushCommits (h : Holds P tl) (i : ℕ) : Holds P (flushCommits env i tl) := by
  have hfold : Holds P ((tl.buffers i).foldl (TmAuditTlog.applyPut env) tl) :=
    foldlRecOn _ _ h fun _ h' p hp => h'.applyPut (h.buffered i p hp)
  exact ⟨hfold.stored, fun j p hp => h.buffered j p (mem_buffers_flushCommits hp).2⟩

lemma Holds.putSingleRecord (h : Holds P tl) {transid : TransId} {state : TxState}
    (hP : ∀ asn tables, P (cfg.numLogs.row transid) (record asn transid state tables))
    (rgs : List Region) (frc : Bool) :
    Holds P (putSingleRecord cfg env transid state rgs frc tl) := by
  obtain ⟨n, -, heq⟩ := @putSingleRecord_eq cfg env tl transid state rgs frc
  have henqueue : Holds P (enqueue (cfg.numLogs.lockIndex transid) (cfg.numLogs.row transid,
      record tl.asn transid state (rgs.map Region.table)) tl) := by
    refine ⟨h.stored, fun i p hp => ?_⟩
    obtain ⟨-, rfl⟩ | hp := mem_buffers_enqueue hp
    · exact hP _ _
    · exact h.buffered i p hp
  rw [heq]
  exact Function.Iterate.rec (Holds P) henqueue (fun _ h' => h'.flushCommits _) n

lemma Holds.writeControlPoint (h : Holds P tl) {map : AList fun _ : TransId => TransactionState}
    (hP : ∀ e ∈ map.entries, e.2.status = .committed →
      ∀ asn tables, P (cfg.numLogs.row e.1) (record asn e.1 .committed tables)) :
    Holds P (writeControlPoint cfg env map tl) := by
  have hfold : Holds P (map.entries.foldl (rewriteEntry cfg env) tl) := by
    refine foldlRecOn _ _ h fun _ h' e he => ?_
    unfold rewriteEntry
    split_ifs with hcomm
    · exact h'.putSingleRecord (hP e he hcomm) _ _
    · exact h'
  exact ⟨hfold.stored, hfold.buffered⟩

lemma Holds.deleteAgedEntries (h : Holds P tl) (lvAsn : ℕ) :
    Holds P (deleteAgedEntries cfg lvAsn tl) := by
  refine ⟨fun row x hx => ?_, h.buffered⟩
  change x ∈ (if selects cfg lvAsn (tl.store row) then Column.empty else tl.store row).cells at hx
  split_ifs at hx
  · cases hx
  · exact h.stored row x hx

lemma Holds.addControlPoint (h : Holds P tl) {map : AList fun _ : TransId => TransactionState}
    (hP : ∀ e ∈ map.entries, e.2.status = .committed →
      ∀ asn tables, P (cfg.numLogs.row e.1) (record asn e.1 .committed tables)) :
    Holds P (addControlPoint cfg env map tl) := by
  have hw := @Holds.writeControlPoint P cfg env tl h map hP
  unfold TmAuditTlog.addControlPoint
  dsimp only
  split_ifs
  · split
    · exact ⟨(hw.deleteAgedEntries _).stored, hw.buffered⟩
    · exact ⟨hw.stored, hw.buffered⟩
  · exact hw

lemma Holds.reopened (h : Holds P tl) : Holds P tl.reopened :=
  ⟨h.stored, fun _ _ hp => absurd hp not_mem_nil⟩

lemma holds_created : Holds P created :=
  ⟨fun _ _ hx => absurd hx not_mem_nil, fun _ _ hp => absurd hp not_mem_nil⟩

end TmAuditTlog

/-- The text is a record of a decision in `written`, or a `FORGOTTEN`, in the row of its
transaction. -/
def Recorded (n : NumLogs) (written : List (TransId × TxState)) (row : ℕ × BitVec 64)
    (value : Text) : Prop :=
  ∃ asn transid state tables, row = n.row transid ∧ value = record asn transid state tables ∧
    (state = .committed ∨ state = .aborted ∨ state = .forgotten) ∧ (transid, state) ∈ written

/-- The newest version of the row is a `COMMITTED` record, or it is a `FORGOTTEN` and the version
before it is one. -/
def commitShown (column : Column Text) : Bool :=
  match (column.versions 2).map TmAuditTlog.header with
  | some (_, .committed) :: _ => true
  | [some (_, .forgotten), some (_, .committed)] => true
  | _ => false

variable {n : NumLogs} {written : List (TransId × TxState)} {transid : TransId}
  {column : Column Text} {versions : ℕ} {regionLocations : Text → List Region}

lemma Recorded.exists_record {value : Text} (h : Recorded n written (n.row transid) value) :
    ∃ asn state tables, value = record asn transid state tables ∧
      (state = .committed ∨ state = .aborted ∨ state = .forgotten) ∧
      (transid, state) ∈ written := by
  obtain ⟨asn, transid', state, tables, hrow, hvalue, hstate, hmem⟩ := h
  obtain rfl := n.row_injective hrow
  exact ⟨asn, state, tables, hvalue, hstate, hmem⟩

/-- By induction on the versions: only a record that says so ends the search with `COMMITTED`. -/
lemma written_of_secondarySearch {vs rest rest' : List Text}
    (h : ∀ v ∈ vs, Recorded n written (n.row transid) v)
    (hsearch : secondarySearch vs rest = some (.committed, rest')) :
    (transid, .committed) ∈ written := by
  induction vs generalizing rest with
  | nil => cases hsearch
  | cons v vs ih =>
    obtain ⟨hv, hvs⟩ := forall_mem_cons.1 h
    obtain ⟨asn, state, tables, rfl, rfl | rfl | rfl, hmem⟩ := hv.exists_record
    · exact hmem
    · rw [secondarySearch_decision tables asn transid (.inr rfl)] at hsearch
      cases hsearch
    · rw [secondarySearch_forgotten] at hsearch
      exact ih hvs hsearch

/-- A lookup that answers `COMMITTED` has found a record that was written. -/
theorem written_of_getTransactionState {store : Store}
    (h : ∀ x ∈ (store (n.row transid)).cells, Recorded n written (n.row transid) x.2)
    (hstatus : (getTransactionState n versions regionLocations store
      ⟨transid, .active, []⟩).status = .committed) : (transid, .committed) ∈ written := by
  unfold getTransactionState at hstatus
  dsimp only at hstatus
  generalize hcolumn : store (n.row transid) = column at h hstatus
  unfold loadState at hstatus
  cases hcells : column.cells with
  | nil =>
    rw [show column.newest = none by rw [Column.newest, hcells]; rfl] at hstatus
    cases hstatus
  | cons x cells =>
    have hnewest : column.newest = some x.2 := by rw [Column.newest, hcells]; rfl
    have hversions : ∀ v ∈ column.versions versions, Recorded n written (n.row transid) v := by
      intro v hv
      obtain ⟨y, hy, rfl⟩ := mem_map.1 hv
      exact h y (mem_of_mem_take hy)
    obtain ⟨asn, state, tables, hx, hstate, hmem⟩ :=
      (h x (by rw [hcells]; exact mem_cons_self)).exists_record
    rw [hnewest, hx] at hstatus
    split at hstatus
    · cases hstatus
    · cases hstatus
    · rename_i value hne heq
      cases heq
      dsimp only at hstatus
      obtain rfl | rfl | rfl := hstate
      · exact hmem
      · rw [lookup_record_of_ne_forgotten _ _ _ _ _ (by decide) (by decide)] at hstatus
        cases hstatus
      · rw [lookup_record_forgotten] at hstatus
        split at hstatus
        · rename_i st tok tbl hsearch
          obtain rfl : st = .committed := hstatus
          exact written_of_secondarySearch hversions hsearch
        · cases hstatus

/-- The lookup answers `COMMITTED` where the row shows the commit. -/
theorem getTransactionState_of_commitShown {store : Store} (hversions : 5 ≤ versions)
    (h : ∀ x ∈ (store (n.row transid)).cells, Recorded n written (n.row transid) x.2)
    (hshown : commitShown (store (n.row transid)) = true) :
    (getTransactionState n versions regionLocations store
      ⟨transid, .active, []⟩).status = .committed := by
  unfold getTransactionState
  dsimp only
  generalize hcolumn : store (n.row transid) = column at h hshown
  obtain ⟨k, rfl⟩ := Nat.exists_eq_add_of_le' hversions
  unfold commitShown Column.versions at hshown
  cases hcells : column.cells with
  | nil =>
    rw [hcells] at hshown
    cases hshown
  | cons x cells =>
    rw [hcells] at h hshown
    obtain ⟨asn, state, tables, hx, hstate, -⟩ := (h x mem_cons_self).exists_record
    have hnewest : column.newest = some (Written.cell ⟨asn, state, tables, x.1⟩ transid).2 := by
      rw [Column.newest, hcells, Written.cell, ← hx]
      rfl
    obtain rfl | rfl | rfl := hstate
    · have hlook : lookup (k + 5) column (record asn transid .committed tables) =
          some (.committed, filler :: tables.map TableName.chars) :=
        lookup_record_of_ne_forgotten _ _ _ _ _ (by decide) (by decide)
      rw [loadState_of_newest _ hnewest hlook]
      rfl
    · simp [hx, TmAuditTlog.header_record] at hshown
    · -- the version under the `FORGOTTEN` is the one the search ends at
      cases cells with
      | nil => simp [hx, TmAuditTlog.header_record] at hshown
      | cons y cells =>
        obtain ⟨asn', state', tables', hy, hstate', -⟩ :=
          (h y (mem_cons_of_mem _ mem_cons_self)).exists_record
        obtain rfl : state' = .committed := by
          obtain rfl | rfl | rfl := hstate' <;>
            simp [hx, hy, TmAuditTlog.header_record] at hshown ⊢
        have hsearch : lookup (k + 5) column (record asn transid .forgotten tables) =
            some (.committed, filler :: tables'.map TableName.chars) := by
          rw [lookup_record_forgotten, Column.versions, hcells, take_succ_cons, take_succ_cons,
            map_cons, map_cons, hx, hy, secondarySearch_forgotten,
            secondarySearch_decision _ _ _ (.inl rfl)]
        rw [loadState_of_newest _ hnewest hsearch]
        rfl

end Trafodion.Tlog
