import Trafodion.RegionObserver
import Trafodion.SerialCommits

/-!
# Crash recovery of committed data

Committed transactions are in the log with the cells of their writes. The normal path applies
the buffered mutations themselves; replay and the commit of a reinstated transaction rebuild
a mutation from each logged cell. The two agree on puts. A rebuilt delete gets the time of the
replay, and a delete of all versions of a column becomes a delete of the row.
-/
namespace Trafodion.Region

open List Endpoint KeyValue Observer Transaction WriteAction TombstoneStore FiniteMaps

attribute [local simp] getCells

lemma WriteAction.regionCells_stamp (htd : TableDescriptor) (now : ℕ) (a : WriteAction) :
    (a.stamp now).regionCells htd now = a.regionCells htd now := by
  have hcell : ∀ kv : KeyValue, (kv.stamp now).cell now = kv.cell now := fun _ => rfl
  cases a with
  | put p => simp [regionCells, stamp, Put.stamp, hcell]
  | delete d =>
    by_cases hd : d.cells = []
    · simp [regionCells, stamp, Delete.stamp, hd, cell]
    · simp [regionCells, stamp, Delete.stamp, hd, hcell]

namespace Observer

lemma replayCommittedTransaction_store (now : ℕ) (val : List KeyValue) (o : Observer) :
    (o.replayCommittedTransaction now val).store =
      o.store ++ rebuiltCells o.tabledescriptor now val := by
  unfold replayCommittedTransaction
  induction val generalizing o with
  | nil => simp [rebuiltCells]
  | cons kv val ih =>
    rw [foldl_cons, ih]
    simp [rebuiltCells, replayCell, regionCells_stamp]

variable {o : Observer}

section
variable (hpend : o.pendingTransactionsById = ∅)
include hpend

lemma preWALRestore_vote (now : ℕ)
    (T : Transaction) (htd : TableDescriptor) : o.preWALRestore now (T.voteRecord htd) = { o with
      pendingTransactionsById := (∅ : AList fun _ => _).insert T.transactionId (T.edit htd) } := by
  have htag : (T.voteRecord htd).contextTag = some ⟨.commitRequest, T.transactionId⟩ :=
    if_neg (T.edit_ne_nil htd)
  simp only [preWALRestore, htag, hpend]
  rw [if_neg (AList.notMem_empty _)]
  rfl

structure Replayed (T : Transaction) (now : ℕ) (o o' : Observer) : Prop where
  pending : o'.pendingTransactionsById = ∅
  tabledescriptor : o'.tabledescriptor = o.tabledescriptor
  store : o'.store = o.store ++
    rebuiltCells o.tabledescriptor now (T.edit o.tabledescriptor)

lemma preWALRestore_commit (voteTime now : ℕ) (T : Transaction) (editGenerated : Bool) :
    Replayed T now o (preWALRestore now (T.commitRecord o.tabledescriptor editGenerated)
      (o.preWALRestore voteTime (T.voteRecord o.tabledescriptor))) := by
  rw [preWALRestore_vote hpend]
  set o₁ : Observer := { o with pendingTransactionsById :=
    (∅ : AList fun _ => _).insert T.transactionId (T.edit o.tabledescriptor) } with ho₁
  obtain ⟨-, htd⟩ := replayCommittedTransaction_frame now (T.edit o.tabledescriptor) o₁
  have hsto := replayCommittedTransaction_store now (T.edit o.tabledescriptor) o₁
  have hres : preWALRestore now (T.commitRecord o.tabledescriptor editGenerated) o₁ =
      { o₁.replayCommittedTransaction now (T.edit o.tabledescriptor) with
        pendingTransactionsById := o₁.pendingTransactionsById.erase T.transactionId } := by
    cases editGenerated with
    | false =>
      have htag : (T.commitRecord o.tabledescriptor false).contextTag =
          some ⟨.controlPointCommit, T.transactionId⟩ := if_neg (T.edit_ne_nil _)
      simp only [preWALRestore, htag]
      rfl
    | true =>
      have htag : (T.commitRecord o.tabledescriptor true).contextTag =
          some ⟨.commit, T.transactionId⟩ := by
        refine if_neg fun hnil => ?_
        have hne := T.edit_ne_nil o.tabledescriptor
        simp_all [Transaction.commitRecord]
      have hlook : o₁.pendingTransactionsById.lookup T.transactionId =
          some (T.edit o.tabledescriptor) := AList.lookup_insert _
      simp only [preWALRestore, htag, hlook]
  rw [hres]
  exact ⟨erase_insert_empty _ _, htd, hsto⟩

/-- The replay of transactions that ran one after another, where the time of the replay makes
no difference to what each of them adds. -/
theorem restore_serial {S : List Transaction} {editGenerated : Bool} {timed : List (ℕ × WALEdit)}
    (htimed : timed.map Prod.snd = serialLog o.tabledescriptor editGenerated S)
    {added : Transaction → List (Cell Bytes Bytes Bytes Bytes)}
    (hadded : ∀ T ∈ S, ∀ x ∈ timed, rebuiltCells o.tabledescriptor x.1
      (T.edit o.tabledescriptor) = added T) : (o.restore timed).pendingTransactionsById = ∅ ∧
      (o.restore timed).tabledescriptor = o.tabledescriptor ∧
      (o.restore timed).store = o.store ++ S.flatMap added := by
  induction S generalizing o editGenerated timed with
  | nil =>
    obtain rfl : timed = [] := map_eq_nil_iff.1 htimed
    exact ⟨hpend, rfl, by simp [restore]⟩
  | cons T S ih =>
    obtain ⟨x, rest, rfl, hx, hrest⟩ := map_eq_cons_iff.1 htimed
    obtain ⟨y, later, rfl, hy, hlat⟩ := map_eq_cons_iff.1 hrest
    obtain ⟨voteTime, record⟩ := x
    obtain ⟨now, record'⟩ := y
    subst hx hy
    have hreplayed := preWALRestore_commit hpend voteTime now T editGenerated
    have hrestore : o.restore ((voteTime, T.voteRecord o.tabledescriptor) ::
        (now, T.commitRecord o.tabledescriptor editGenerated) :: later) =
        (preWALRestore now (T.commitRecord o.tabledescriptor editGenerated)
          (o.preWALRestore voteTime (T.voteRecord o.tabledescriptor))).restore later := rfl
    rw [hrestore]
    generalize preWALRestore now (T.commitRecord o.tabledescriptor editGenerated)
      (o.preWALRestore voteTime (T.voteRecord o.tabledescriptor)) = o' at hreplayed
    rw [← hreplayed.tabledescriptor] at hlat hadded
    obtain ⟨hpend', htd', hsto'⟩ := ih hreplayed.pending hlat
      fun T' hT' z hz => hadded T' (mem_cons_of_mem T hT') z
        (mem_cons_of_mem _ (mem_cons_of_mem _ hz))
    refine ⟨hpend', htd'.trans hreplayed.tabledescriptor, ?_⟩
    have hT := hadded T mem_cons_self (now, _) (mem_cons_of_mem _ mem_cons_self)
    rw [hreplayed.tabledescriptor] at hT
    rw [hsto', hreplayed.store, hT, flatMap_cons, append_assoc]

end

end Observer

lemma rebuiltCells_put (htd : TableDescriptor) (now commitTime : ℕ) (x : ℕ) (p : Put) :
    Endpoint.rebuiltCells htd now ((put (p.stamp x)).getCells htd) =
      (put (p.stamp x)).regionCells htd commitTime := by
  have hcell : ∀ kv ∈ p.cells,
      ((rebuild (kv.stamp x)).stamp now).regionCells htd now = [(kv.stamp x).cell commitTime] := by
    intro kv hkv
    have htype : (kv.stamp x).type = .put := (p.sound kv hkv).2
    rw [regionCells_stamp]
    simp only [rebuild, htype, regionCells, getCells, map_cons, map_nil]
    simp [KeyValue.cell, KeyValue.stamp, (p.sound kv hkv).2]
  change (p.cells.map (KeyValue.stamp x)).flatMap _ = (p.cells.map (KeyValue.stamp x)).map _
  rw [flatMap_map, flatMap_congr hcell, map_map, map_eq_flatMap]
  rfl

lemma Transaction.rebuiltCells_edit {T : Transaction} (h : ¬ T.HasDelete)
    (htd : TableDescriptor) (now : ℕ) : rebuiltCells htd now (T.edit htd) = T.cells htd := by
  have hwrite : ∀ a ∈ T.writes, rebuiltCells htd now (a.getCells htd) =
      a.regionCells htd T.commitTime := by
    intro a ha
    obtain ⟨⟨x, b⟩, hmem, rfl⟩ := mem_map.1 ha
    cases b with
    | put p => exact rebuiltCells_put htd now T.commitTime x p
    | delete d => exact absurd ⟨_, hmem, d, rfl⟩ h
  have hassoc : rebuiltCells htd now (T.edit htd) =
      T.writes.flatMap fun a => rebuiltCells htd now (a.getCells htd) := by
    simp [rebuiltCells, edit, flatMap_assoc]
  rw [hassoc, cells, flatMap_congr hwrite]

namespace Endpoint

lemma logCommit_store (r : Ref) (how : Append) (e : Endpoint) :
    (e.logCommit r how).1.store = e.store := by
  have hfinish : ∀ e : Endpoint, (e.finishCommit r).1.store = e.store := by
    intro e
    simp only [finishCommit, settleIndoubt]
    split_ifs <;> rfl
  unfold logCommit
  split_ifs
  · cases e.commitRecord r with
    | none => rfl
    | some record =>
      cases how with
      | written => exact hfinish _
      | threw logged => cases logged <;> rfl
  · exact hfinish e

lemma commit_reinstated_store {t : TransId} {r : Ref} {kvs : List KeyValue} {e : Endpoint}
    (hr : e.transactionsById.lookup t = some r) (hid : (e.heap r).transactionId = t)
    (hstat : (e.heap r).status = .commitPending) (hre : (e.heap r).reInstated = true)
    (hprogress : (e.heap r).commitProgress = .none)
    (hkvs : e.indoubtTransactionsById.lookup t = some kvs) (ign : Bool) (now : ℕ) :
    (e.commit t ign now none .written).1.store =
      e.store ++ rebuiltCells e.tabledescriptor now kvs := by
  set e₁ := e.modify r fun state => { state with commitProgress := .committing } with he₁
  have hkvs₁ : e₁.indoubtTransactionsById.lookup (e₁.heap r).transactionId = some kvs := by
    rw [he₁, modify_heap_self, hid]
    exact hkvs
  have hre₁ : (e₁.heap r).reInstated = true := by
    rw [he₁, modify_heap_self]
    exact hre
  obtain ⟨hsto, hthrew⟩ := applyIndoubt_store now r kvs none e₁
  have hcmt : e.commit t ign now none .written =
      e₁.commitState r now none .written := by
    simp only [commit, hr, hstat, hprogress, ne_eq, not_true_eq_false, if_false, he₁]
  have hst : e₁.commitState r now none .written =
      (e₁.applyIndoubt now r kvs none).1.logCommit r .written := by
    simp only [commitState]
    rw [if_pos hre₁, hkvs₁]
    dsimp only
    rw [hthrew]
    rfl
  rw [hcmt, hst, logCommit_store, hsto]
  simp [reached, he₁, modify]

end Endpoint

def Observer.recommit (o : Observer) (editGenerated : Bool) (T : Transaction) (now : ℕ) :
    Endpoint :=
  (((o.endpoint editGenerated).recoveryRequest (tmid T.transactionId)).1.commit T.transactionId true now none
    .written).1

lemma Observer.recommit_store {o : Observer} {T : Transaction} {kvs : List KeyValue}
    (hpend : o.pendingTransactionsById = (∅ : AList fun _ => _).insert T.transactionId kvs)
    (editGenerated : Bool) (now : ℕ) : (o.recommit editGenerated T now).store =
      o.store ++ rebuiltCells o.tabledescriptor now kvs := by
  have hreq : ((o.endpoint editGenerated).recoveryRequest (tmid T.transactionId)).1 =
      { (o.endpoint editGenerated).reinstate T.transactionId with reconstructIndoubts := true } := by
    have hkeys : (o.endpoint editGenerated).indoubtTransactionsById.keys = [T.transactionId] := by
      change o.pendingTransactionsById.keys = _
      rw [hpend]
      simp
    have hids : (o.endpoint editGenerated).indoubtIds = [T.transactionId] := by
      rw [indoubtIds, hkeys]
      rfl
    simp only [recoveryRequest, constructIndoubtTransactions, hkeys, hids]
    rfl
  set e := { (o.endpoint editGenerated).reinstate T.transactionId with reconstructIndoubts := true } with he
  have hr : e.transactionsById.lookup T.transactionId = some 0 := AList.lookup_insert _
  have hkvs : e.indoubtTransactionsById.lookup T.transactionId = some kvs := by
    change o.pendingTransactionsById.lookup _ = _
    rw [hpend]
    exact AList.lookup_insert _
  unfold recommit
  rw [hreq]
  exact commit_reinstated_store (e := e) hr rfl rfl rfl rfl hkvs true now

variable {kv : KeyValue}

lemma rebuild_covers (h : kv.type ≠ .put) (htd : TableDescriptor) (now : ℕ) :
    ∃ c ∈ ((rebuild kv).stamp now).regionCells htd now,
      covers c ⟨c.row, c.family, c.qualifier, now, .put, []⟩ = true := by
  obtain ⟨family, families, hfamilies⟩ := exists_cons_of_ne_nil htd.nonempty
  rw [regionCells_stamp]
  unfold rebuild regionCells
  cases htype : kv.type with
  | put => exact absurd htype h
  | deleteFamily =>
    simp [cell, covers]
  | delete =>
    simp [cell, covers]
  | deleteColumn =>
    simp [hfamilies, cell, covers]
  | deleteFamilyVersion =>
    simp [hfamilies, cell, covers]

lemma rebuild_of_ne_put (h : kv.type ≠ .put) : ∃ d, rebuild kv = .delete d := by
  unfold rebuild
  cases htype : kv.type with
  | put => exact absurd htype h
  | delete | deleteColumn | deleteFamilyVersion | deleteFamily => exact ⟨_, rfl⟩

lemma type_of_mem_getCells_delete {htd : TableDescriptor} {d : Delete}
    (h : kv ∈ (delete d).getCells htd) : kv.type ≠ .put := by
  simp only [getCells] at h
  split_ifs at h
  · obtain ⟨family, -, rfl⟩ := mem_map.1 h
    simp
  · exact (d.sound kv h).2

lemma timestamp_of_mem_getCells {htd : TableDescriptor} {now : ℕ} {a : WriteAction}
    (h : kv ∈ (a.stamp now).getCells htd) : ∃ ts, kv.timestamp = some ts := by
  cases a with
  | put p =>
    obtain ⟨kv', -, rfl⟩ := mem_map.1 h
    exact ⟨_, rfl⟩
  | delete d =>
    simp only [WriteAction.stamp, WriteAction.getCells] at h
    split_ifs at h
    all_goals
      obtain ⟨_, -, rfl⟩ := mem_map.1 h
      exact ⟨_, rfl⟩

namespace Transaction

variable {T : Transaction} {htd : TableDescriptor} {now : ℕ}

lemma mem_cells_of_rebuilt {c : Cell Bytes Bytes Bytes Bytes}
    (hc : c ∈ rebuiltCells htd now (T.edit htd)) (hkind : c.kind = .put) : c ∈ T.cells htd := by
  obtain ⟨kv, hkv, hc⟩ := mem_flatMap.1 hc
  obtain ⟨a, ha, hkv⟩ := mem_flatMap.1 hkv
  obtain ⟨x, hx, rfl⟩ := mem_map.1 ha
  obtain ⟨ts, hts⟩ := timestamp_of_mem_getCells hkv
  rw [regionCells_stamp] at hc
  have hcell : c = kv.cell T.commitTime := by
    by_cases htype : kv.type = .put
    · simp only [rebuild, htype, regionCells, getCells, map_cons, map_nil, mem_singleton] at hc
      rw [hc]
      simp [cell, hts, htype]
    · obtain ⟨d, hd⟩ := rebuild_of_ne_put htype
      rw [hd] at hc
      obtain ⟨kv', hkv', rfl⟩ := mem_map.1 hc
      exact absurd hkind (type_of_mem_getCells_delete hkv')
  rw [hcell]
  exact mem_flatMap.2 ⟨_, ha, mem_map.2 ⟨kv, hkv, rfl⟩⟩

lemma HasDelete.rebuilt_covers (h : T.HasDelete) (htd : TableDescriptor) (now : ℕ) :
    ∃ c ∈ rebuiltCells htd now (T.edit htd),
      covers c ⟨c.row, c.family, c.qualifier, now, .put, []⟩ = true := by
  obtain ⟨x, hx, d, hd⟩ := h
  obtain ⟨kv, hkv⟩ := exists_mem_of_ne_nil _ (getCells_ne_nil htd (x.2.stamp x.1))
  have htype : kv.type ≠ .put := by
    rw [hd] at hkv
    exact type_of_mem_getCells_delete hkv
  obtain ⟨c, hc, hcov⟩ := rebuild_covers htype htd now
  refine ⟨c, mem_flatMap.2 ⟨kv, ?_, hc⟩, hcov⟩
  exact mem_flatMap.2 ⟨x.2.stamp x.1, mem_map.2 ⟨x, hx, rfl⟩, hkv⟩

end Transaction

def SameRows (store store' : List (Cell Bytes Bytes Bytes Bytes)) : Prop :=
  ∀ row family qualifier, get store row family qualifier = get store' row family qualifier

/-- The region after the transactions have been committed on it one after another. Commits on
other regions of the server may have set `editGenerated` before. -/
def committed (htd : TableDescriptor) (base : List (Cell Bytes Bytes Bytes Bytes))
    (editGenerated : Bool) (S : List Transaction) : Endpoint :=
  Runs.run step (opened htd base ∅ ∅ editGenerated) (S.flatMap ops)

/-- Whatever the region held before, a crash after the transactions `S` loses nothing and
adds nothing: neither if the whole log survives, replayed at any times, nor if the last commit
record is lost and the transaction is reinstated and committed again. -/
structure Reproduced (htd : TableDescriptor) (S : List Transaction) : Prop where
  replay : ∀ base editGenerated timed,
    timed.map Prod.snd = (committed htd base editGenerated S).tHLog →
      SameRows ((start htd base).restore timed).store
        (committed htd base editGenerated S).store
  reinstated : ∀ base editGenerated editGenerated' timed T now, S.getLast? = some T →
    timed.map Prod.snd = (committed htd base editGenerated S).tHLog.dropLast →
      SameRows (((start htd base).restore timed).recommit editGenerated' T now).store
        (committed htd base editGenerated S).store

section Recovery

variable (htd : TableDescriptor) (base : List (Cell Bytes Bytes Bytes Bytes))
  (editGenerated : Bool) (S : List Transaction)

lemma committed_eq :
    (committed htd base editGenerated S).store = base ++ S.flatMap (cells · htd) ∧
      (committed htd base editGenerated S).tHLog = serialLog htd editGenerated S := by
  have hquiescent : Endpoint.Quiescent
      (opened htd base ∅ ∅ editGenerated) :=
    ⟨fun _ => rfl, fun _ => rfl, rfl⟩
  exact hquiescent.run_serial S

lemma serialLog_snoc (T : Transaction) : ∃ generated,
    serialLog htd editGenerated (S ++ [T]) = serialLog htd editGenerated S ++
      [T.voteRecord htd, T.commitRecord htd generated] := by
  induction S generalizing editGenerated with
  | nil => exact ⟨editGenerated, rfl⟩
  | cons T' S ih =>
    obtain ⟨generated, heq⟩ := ih true
    refine ⟨generated, ?_⟩
    simp only [cons_append, serialLog, heq]

variable {S}

lemma reproduced_of_puts (h : ∀ T ∈ S, ¬ T.HasDelete) : Reproduced htd S := by
  constructor
  · intro base editGenerated timed htimed row family qualifier
    obtain ⟨hsto, hlog⟩ := committed_eq htd base editGenerated S
    rw [hlog] at htimed
    obtain ⟨-, -, hrestored⟩ := restore_serial (o := start htd base) rfl htimed
      fun T hT x _ => (rebuiltCells_edit (h T hT) htd x.1)
    rw [hsto, hrestored]
    rfl
  · intro base editGenerated editGenerated' timed T now hlast htimed row family qualifier
    obtain ⟨hsto, hlog⟩ := committed_eq htd base editGenerated S
    obtain ⟨S, rfl⟩ := getLast?_eq_some_iff.1 hlast
    obtain ⟨generated, hsnoc⟩ := serialLog_snoc htd editGenerated S T
    have hcut : timed.map Prod.snd = serialLog htd editGenerated S ++ [T.voteRecord htd] := by
      rw [htimed, hlog, hsnoc]
      simp [dropLast_append_of_ne_nil]
    obtain ⟨earlier, vote, rfl, hearlier, hvote⟩ := map_eq_append_iff.1 hcut
    obtain ⟨⟨voteTime, record⟩, rfl, hrec⟩ := map_eq_singleton_iff.1 hvote
    subst hrec
    have hputs : ∀ T' ∈ S, ¬ T'.HasDelete := fun T' hT' => h T' (mem_append_left _ hT')
    obtain ⟨hpend, htd', hrestored⟩ :=
      restore_serial (o := start htd base) rfl hearlier
        fun T' hT' x _ => rebuiltCells_edit (hputs T' hT') htd x.1
    have hspl : (start htd base).restore (earlier ++ [(voteTime, T.voteRecord htd)]) =
        ((start htd base).restore earlier).preWALRestore voteTime (T.voteRecord htd) := by
      simp [restore]
    rw [hspl, preWALRestore_vote hpend, recommit_store rfl, hsto]
    change get (((start htd base).restore earlier).store ++
      rebuiltCells ((start htd base).restore earlier).tabledescriptor now
        (T.edit htd)) row family qualifier = _
    rw [hrestored, htd', flatMap_append, flatMap_singleton]
    have hT : ¬ T.HasDelete := h T (mem_append_right _ (mem_singleton_self T))
    rw [← rebuiltCells_edit hT htd now, ← append_assoc]
    rfl

lemma puts_of_reproduced (h : Reproduced htd S) : ∀ T ∈ S, ¬ T.HasDelete := by
  intro T hT hdelete
  obtain ⟨now, hrange⟩ := Finset.exists_nat_subset_range
    ((S.flatMap (cells · htd)).map Cell.timestamp).toFinset
  have hlate : ∀ c ∈ S.flatMap (cells · htd), c.timestamp < now := by
    intro c hc
    have hmem := hrange (mem_toFinset.2 (mem_map_of_mem hc))
    exact Finset.mem_range.1 hmem
  obtain ⟨c, hc, hcov⟩ := hdelete.rebuilt_covers htd now
  -- the newest value of the row is one that the replayed delete hides
  let p : Cell Bytes Bytes Bytes Bytes := ⟨c.row, c.family, c.qualifier, now, .put, []⟩
  obtain ⟨hsto, hlog⟩ := committed_eq htd [p] false S
  let timed := (serialLog htd false S).map fun record => (now, record)
  have htimed : timed.map Prod.snd = serialLog htd false S := by
    simp [timed, Function.comp_def]
  have hnow : ∀ T' ∈ S, ∀ x ∈ timed, rebuiltCells htd x.1 (T'.edit htd) =
      rebuiltCells htd now (T'.edit htd) :=
    fun T' _ => forall_mem_map.2 fun _ _ => rfl
  obtain ⟨-, -, hrestored⟩ :=
    restore_serial (o := start htd [p]) rfl htimed hnow
  have hsame := h.replay [p] false timed (htimed.trans hlog.symm) c.row c.family c.qualifier
  rw [hsto, hrestored] at hsame
  refine get_ne_of_covers (p := p) rfl hlate ?_ ?_ hcov hsame.symm
  · intro d hd hkind
    obtain ⟨T', hT', hd⟩ := mem_flatMap.1 hd
    exact hlate d (mem_flatMap.2 ⟨T', hT', mem_cells_of_rebuilt hd hkind⟩)
  · exact mem_flatMap.2 ⟨T, hT, hc⟩

/-- Crash recovery reproduces the committed data exactly for transactions without deletes. -/
theorem reproduced_iff_no_delete (S : List Transaction) :
    Reproduced htd S ↔ ∀ T ∈ S, ¬ T.HasDelete :=
  ⟨puts_of_reproduced htd, reproduced_of_puts htd⟩

end Recovery

def oneFamily : TableDescriptor := ⟨[[1]], one_family_nonempty⟩

def deletedThenPut : List Transaction :=
  [⟨1, [(5, .delete (.wholeRow [7]))], by simp, 6⟩,
    ⟨2, [(10, .put (.column [7] [1] [2] [9]))], by simp, 11⟩]

def columnDeleted : List Transaction :=
  [⟨1, [(5, .delete ⟨[7], none, [⟨[7], [1], [2], none, .deleteColumn, []⟩], by simp⟩)],
    by simp, 6⟩]

/-- Replay at time 20 hides the put that came after the delete, and it deletes the other
column of the row. -/
theorem replay_deletes_later_put_and_other_column :
    let log := (committed oneFamily [] false deletedThenPut).tHLog
    let other : Cell Bytes Bytes Bytes Bytes := ⟨[7], [1], [3], 1, .put, [8]⟩
    let log' := (committed oneFamily [other] false columnDeleted).tHLog
    get (committed oneFamily [] false deletedThenPut).store [7] [1] [2] = some (10, [9]) ∧
      get ((start oneFamily []).restore (log.map fun x => (20, x))).store
        [7] [1] [2] = none ∧
      get (committed oneFamily [other] false columnDeleted).store [7] [1] [3] =
        some (1, [8]) ∧
      get ((start oneFamily [other]).restore (log'.map fun x => (20, x))).store
        [7] [1] [3] = none := by
  decide

end Trafodion.Region
