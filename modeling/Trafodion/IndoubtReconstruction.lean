import Trafodion.RegionBuffering
import Trafodion.RegionObserver

/-!
# Reconstruction of the in-doubt transactions

After a replay the observer holds the transactions that the log leaves prepared, and the
count of each transaction manager is the number of its in-doubt transactions. The endpoint
keeps the counts exact while it resolves them.
-/
namespace Trafodion.Region
open TombstoneStore FiniteMaps AList Endpoint Observer TransactionState

/-- The log leaves the transaction prepared with the edit `kvs`: there is a commit request
with that edit, none of its earlier commit requests is unresolved, and it is not resolved
afterwards. -/
def InDoubt (log : List WALEdit) (t : TransId) (kvs : List KeyValue) : Prop :=
  OpenEntries.LeftOpen (log.map WALEdit.entry) t kvs

def indoubtCount (indoubt : AList fun _ : TransId => List KeyValue) (tm : BitVec 32) : ℕ :=
  indoubt.keys.countP (tmid · = tm)

def Counts (indoubt : AList fun _ : TransId => List KeyValue)
    (counts : AList fun _ : BitVec 32 => ℕ) : Prop :=
  ∀ tm, counts.lookup tm =
    if indoubtCount indoubt tm = 0 then none else some (indoubtCount indoubt tm)

namespace Observer

lemma restore_pending (o : Observer) (log : List (ℕ × WALEdit)) :
    (o.restore log).pendingTransactionsById =
      (log.map fun x => x.2.entry).foldl OpenEntries.apply o.pendingTransactionsById := by
  unfold restore
  induction log generalizing o with
  | nil => rfl
  | cons x log ih =>
    rw [List.foldl_cons, ih, preWALRestore_pending]
    rfl

lemma lookup_restore (htd : TableDescriptor) (store : List (Cell Bytes Bytes Bytes Bytes))
    (log : List (ℕ × WALEdit)) (t : TransId) (kvs : List KeyValue) :
    ((start htd store).restore log).pendingTransactionsById.lookup t = some kvs ↔
      InDoubt (log.map Prod.snd) t kvs := by
  rw [restore_pending, InDoubt, ← OpenEntries.lookup_replay, List.map_map]
  rfl

lemma lookup_foldl_countIndoubt (l : List TransId) (counts : AList fun _ : BitVec 32 => ℕ)
    (tm : BitVec 32) : (l.foldl countIndoubt counts).lookup tm =
      if l.countP (tmid · = tm) = 0 then counts.lookup tm
      else some ((counts.lookup tm).getD 0 + l.countP (tmid · = tm)) := by
  induction l generalizing counts with
  | nil => simp
  | cons t l ih =>
    rw [List.foldl_cons, ih, countIndoubt]
    by_cases ht : tmid t = tm
    · subst ht
      simp only [lookup_insert, Option.getD_some, List.countP_cons, decide_true, if_true]
      by_cases hl : l.countP (tmid · = tmid t) = 0
      · simp [hl]
      · simp only [hl, if_false, Nat.add_eq_zero_iff, Nat.one_ne_zero, and_false]
        congr 1
        omega
    · rw [lookup_insert_ne (Ne.symm ht)]
      simp [ht]

lemma postOpen_counts (o : Observer) : Counts o.pendingTransactionsById o.postOpen := by
  intro tm
  unfold postOpen
  rw [lookup_foldl_countIndoubt]
  simp [indoubtCount]

end Observer

namespace Endpoint

lemma indoubtCount_erase {ind : AList fun _ : TransId => List KeyValue} {t : TransId}
    (ht : t ∈ ind.keys) (tm : BitVec 32) : indoubtCount (ind.erase t) tm =
      indoubtCount ind tm - if tmid t = tm then 1 else 0 := by
  unfold indoubtCount
  rw [keys_erase, List.countP_erase]
  simp [ht]

lemma resolveIndoubt_counts {e : Endpoint} {t : TransId} (ht : t ∈ e.indoubtTransactionsById.keys)
    (h : Counts e.indoubtTransactionsById e.indoubtTransactionsCountByTmid) :
    Counts (e.resolveIndoubt t).indoubtTransactionsById
      (e.resolveIndoubt t).indoubtTransactionsCountByTmid := by
  have hpos : 0 < indoubtCount e.indoubtTransactionsById (tmid t) :=
    List.countP_pos_iff.2 ⟨t, ht, by simp⟩
  have hcnt : e.indoubtTransactionsCountByTmid.lookup (tmid t) =
      some (indoubtCount e.indoubtTransactionsById (tmid t)) := by
    rw [h, if_neg (by omega)]
  have herase : (e.resolveIndoubt t).indoubtTransactionsById =
      e.indoubtTransactionsById.erase t := rfl
  intro tm
  rw [herase, indoubtCount_erase ht]
  simp only [resolveIndoubt, hcnt]
  obtain ⟨n, hn⟩ : ∃ n, indoubtCount e.indoubtTransactionsById (tmid t) = n + 1 :=
    ⟨_, (Nat.sub_add_cancel hpos).symm⟩
  rw [hn]
  by_cases htm : tm = tmid t
  · subst htm
    rw [hn]
    cases n with
    | zero => simp
    | succ n => simp
  · have hsame := h tm
    rw [if_neg (Ne.symm htm), Nat.sub_zero, ← hsame]
    cases n with
    | zero => exact lookup_erase_ne htm
    | succ n => exact lookup_insert_ne htm

structure Counted (e : Endpoint) : Prop extends Located e where
  reinstated : ∀ t r, e.transactionsById.lookup t = some r → (e.heap r).reInstated = true →
    t ∈ e.indoubtTransactionsById.keys
  counts : Counts e.indoubtTransactionsById e.indoubtTransactionsCountByTmid

namespace Counted

variable {e e' : Endpoint} {r : Ref} {t : TransId}

section
variable (h : Counted e)
include h

lemma touch (htouch : Touches r e e') (hind : SameIndoubt e e')
    (hre : (e'.heap r).reInstated = (e.heap r).reInstated) : Counted e' := by
  have hst : ∀ u, (e'.heap u).reInstated = (e.heap u).reInstated := by
    intro u
    by_cases hu : u = r
    · rw [hu]
      exact hre
    · rw [htouch.others u hu]
  constructor
  · exact h.toLocated.touches htouch
  · intro t u hu hre
    rw [htouch.known] at hu
    rw [hind.byId]
    exact h.reinstated t u hu ((hst u).symm.trans hre)
  · rw [hind.byId, hind.byTmid]
    exact h.counts

lemma modify (r : Ref) {f : StateMap}
    (hid : (f (e.heap r)).transactionId = (e.heap r).transactionId)
    (hst0 : (f (e.heap r)).startSequenceNumber = (e.heap r).startSequenceNumber)
    (hre : (f (e.heap r)).reInstated = (e.heap r).reInstated) : Counted (e.modify r f) := by
  apply h.touch (.of_modify hid hst0) ⟨rfl, rfl⟩
  rw [modify_heap_self, hre]

lemma of_known {k : AList fun _ : TransId => Ref}
    (hknown : ∀ t r, k.lookup t = some r → e.transactionsById.lookup t = some r) :
    Counted { e with transactionsById := k } :=
  ⟨h.toLocated.of_ids (fun _ => rfl) hknown rfl,
    fun t r hr hre => h.reinstated t r (hknown t r hr) hre, h.counts⟩

lemma applied (happ : Applied r e e') : Counted e' := by
  apply h.touch (.of_applied happ) _ happ.state.reInstated
  constructor <;> rw [happ.frame]

/-- The transaction at `r` is retired, and at most it leaves the in-doubt maps. -/
theorem retire (htouch : Touches r e e')
    (hcnts : Counts e'.indoubtTransactionsById e'.indoubtTransactionsCountByTmid)
    (hkeep : ∀ t ≠ (e.heap r).transactionId, t ∈ e.indoubtTransactionsById.keys →
      t ∈ e'.indoubtTransactionsById.keys) : Counted (e'.retireTransaction r) := by
  have hknown : ∀ t u, (e'.retireTransaction r).transactionsById.lookup t = some u →
      t ≠ (e.heap r).transactionId ∧ e.transactionsById.lookup t = some u := by
    intro t u hu
    change (e'.transactionsById.erase (e'.heap r).transactionId).lookup t = some u at hu
    rw [htouch.identity, htouch.known] at hu
    exact lookup_of_erase hu
  constructor
  · exact (h.toLocated.touches htouch).retireTransaction r
  · intro t u hu hre
    obtain ⟨hne, hold⟩ := hknown t u hu
    have hur : u ≠ r := by
      rintro rfl
      exact hne (h.identity t u hold).symm
    have hsame : (e'.retireTransaction r).heap u = e.heap u :=
      (modify_heap_of_ne hur _ e').trans (htouch.others u hur)
    rw [hsame] at hre
    exact hkeep t hne (h.reinstated t u hold hre)
  · exact hcnts

lemma settle (htouch : Touches r e e') (hind : SameIndoubt (e.settleIndoubt r) e')
    (hmem : (e.heap r).reInstated = true →
      (e.heap r).transactionId ∈ e.indoubtTransactionsById.keys) :
    Counted (e'.retireTransaction r) := by
  apply h.retire htouch
  · rw [hind.byId, hind.byTmid]
    unfold settleIndoubt
    split_ifs with hre
    · exact resolveIndoubt_counts (hmem hre) h.counts
    · exact h.counts
  · intro t hne hin
    rw [hind.byId]
    unfold settleIndoubt
    split_ifs
    · change t ∈ (e.indoubtTransactionsById.erase (e.heap r).transactionId).keys
      rw [keys_erase]
      exact (List.mem_erase_of_ne hne).2 hin
    · exact hin

lemma retire_same (htouch : Touches r e e')
    (hind : SameIndoubt e e') : Counted (e'.retireTransaction r) := by
  apply h.retire htouch
  · rw [hind.byId, hind.byTmid]
    exact h.counts
  · intro t _ hin
    rw [hind.byId]
    exact hin

lemma commitEnd {how : Append} {res : Endpoint × Reply} (hmem : (e.heap r).reInstated = true →
      (e.heap r).transactionId ∈ e.indoubtTransactionsById.keys)
    (hend : CommitEnd r how e res) : Counted res.1 := by
  cases hend with
  | aborted e₁ htouch hind _ => exact h.retire_same htouch hind
  | halted e₁ happ _ _ => exact h.applied happ
  | failed e₁ happ _ => exact (h.applied happ).modify r rfl rfl rfl
  | commited e₁ htouch hind _ => exact h.settle htouch hind hmem

lemma indoubt_of_known (hr : e.transactionsById.lookup t = some r)
    (hre : (e.heap r).reInstated = true) :
    (e.heap r).transactionId ∈ e.indoubtTransactionsById.keys := by
  rw [h.identity t r hr]
  exact h.reinstated t r hr hre

lemma commit (t : TransId) (ign : Bool) (now : ℕ)
    (throwsAt : Option ℕ) (how : Append) : Counted (e.commit t ign now throwsAt how).1 := by
  obtain ⟨reply, heq⟩ | ⟨r, hr, -, hend⟩ := commit_cases t ign now throwsAt how e
  · rw [heq]
    exact h
  · exact h.commitEnd (h.indoubt_of_known hr) hend

lemma abortTransaction (t : TransId) (how : Append) : Counted (e.abortTransaction t how).1 := by
  obtain ⟨reply, heq⟩ | ⟨r, hr, hend⟩ := abortTransaction_cases t how e
  · rw [heq]
    exact h
  · generalize e.abortTransaction t how = result at hend
    cases hend with
    | halted log f _ _ =>
      exact { h.modify r (f := setStatus .aborted) rfl rfl rfl with }
    | aborted e₁ htouch hind _ =>
      exact h.settle htouch hind (h.indoubt_of_known hr)

lemma commitRequest (t : TransId) (how : Append) : Counted (e.commitRequest t how).1 := by
  cases hr : e.transactionsById.lookup t with
  | none =>
    simp only [Endpoint.commitRequest, hr]
    exact h
  | some r =>
    have hretire : ∀ status, Counted (((e.addTransactionsToCheck r).modify r
        (setStatus status)).retireTransaction r) := by
      intro status
      refine h.retire_same ?_ ⟨rfl, rfl⟩
      exact (Touches.of_modify rfl rfl).trans (.setStatus r status _)
    have hend := commitRequest_cases hr how
    generalize e.commitRequest t how = result at hend
    cases hend with
    | conflict _ => exact hretire .aborted
    | readOnly _ _ => exact hretire .commited
    | ok _ _ log reply _ =>
      have hchk : Counted (e.addTransactionsToCheck r) := h.modify r rfl rfl rfl
      exact { hchk.modify r (f := fun state => { state with
        status := .commitPending, sequenceNumber := some e.nextSequenceId }) rfl rfl rfl with }

lemma allocate (t : TransId) : Counted (e.allocate t) := by
  constructor
  · exact h.toLocated.allocate t
  · intro t' u hu hre
    obtain ⟨-, rfl⟩ | ⟨-, hne, hold⟩ := h.lookup_insert_cases hu
    · simp [allocate_heap_self, new] at hre
    · rw [allocate_heap_of_ne hne] at hre
      exact h.reinstated t' u hold hre
  · exact h.counts

lemma reinstate (ht : t ∈ e.indoubtTransactionsById.keys) : Counted (e.reinstate t) := by
  constructor
  · exact h.toLocated.reinstate t
  · intro t' u hu hre
    obtain ⟨rfl, -⟩ | ⟨-, hne, hold⟩ := h.lookup_insert_cases hu
    · exact ht
    · rw [reinstate_heap_of_ne hne] at hre
      exact h.reinstated t' u hold hre
  · exact h.counts

end

structure Reinstating (e₀ e : Endpoint) : Prop where
  counted : Counted e
  same : SameIndoubt e₀ e

lemma Reinstating.flags {e₀ : Endpoint} (h : Reinstating e₀ e) (started : Bool) :
    Reinstating e₀ { e with started := started, reconstructIndoubts := true } :=
  ⟨{ h.counted with }, h.same.byId, h.same.byTmid⟩

lemma Reinstating.reinstate {e₀ : Endpoint} (h : Reinstating e₀ e)
    (ht : t ∈ e₀.indoubtTransactionsById.keys) : Reinstating e₀ (e.reinstate t) := by
  refine ⟨h.counted.reinstate ?_, h.same.byId, h.same.byTmid⟩
  rw [h.same.byId]
  exact ht

section
variable (h : Counted e)
include h

lemma constructIndoubtTransactions : Counted e.constructIndoubtTransactions := by
  have hbef : Reinstating e e := ⟨h, rfl, rfl⟩
  have haft : Reinstating e e.constructIndoubtTransactions := by
    apply constructIndoubtTransactions_keeps hbef
    · exact fun e' started h' => h'.flags started
    · exact fun e' t ht h' => h'.reinstate ht
  exact haft.counted

lemma beginTransaction (t : TransId) : Counted (e.beginTransaction t) :=
  beginTransaction_of h (fun _ => h.constructIndoubtTransactions)
    fun _ h' _ _ => h'.allocate t

lemma onState (t : TransId) {g : StateMap}
    (hg : ∀ s, TransactionState.Buffered s (g s)) : Counted (e.onState t g) := by
  obtain ⟨r, -, heq⟩ := onState_eq t g e
  have hbegun : Counted (e.beginTransIfNotExist t) :=
    beginTransIfNotExist_rule h (h.beginTransaction t)
  have hfrm := (hg ((e.beginTransIfNotExist t).heap r)).frame
  rw [heq]
  apply hbegun.modify r <;> rw [hfrm]

lemma leaseExpired (t : TransId) (now : ℕ) (throwsAt : Option ℕ)
    (how : Append) : Counted (e.leaseExpired t now throwsAt how) := by
  unfold Endpoint.leaseExpired
  cases hr : e.transactionsById.lookup t with
  | none => exact h
  | some r =>
    have hrem := h.of_known (k := e.transactionsById.erase t) fun _ _ hu => (lookup_of_erase hu).2
    dsimp only
    cases (e.heap r).status with
    | pending =>
      refine hrem.retire_same ?_ ⟨rfl, rfl⟩
      exact .setStatus r .aborted _
    | commitPending =>
      split_ifs
      · apply hrem.commitEnd (h.indoubt_of_known hr)
        exact commitState_end r now throwsAt how (.of_heap_eq rfl rfl) rfl
      · -- the transaction is entered again under its own id
        have hwaits := h.modify r (f := fun state =>
          { state with commitPendingWaits := state.commitPendingWaits + 1 }) rfl rfl rfl
        exact hwaits.of_known fun t' u hu => h.lookup_reenter hr hu
    | commited => exact hrem
    | aborted => exact hrem

lemma step (op : Op) : Counted (e.step op) := by
  cases hbuf : op.buffers e.tabledescriptor with
  | some x =>
    rw [step_of_buffers (t := x.1) (g := x.2) hbuf]
    exact h.onState _ (Op.buffered_of_buffers hbuf)
  | none =>
    cases op with
    | beginTransaction t => exact h.beginTransaction t
    | commitRequest t how => exact h.commitRequest t how
    | commit t ign now throwsAt how => exact h.commit t ign now throwsAt how
    | abortTransaction t how => exact h.abortTransaction t how
    | removeUnNeededCommitedTransactions => exact { h with }
    | _ => cases hbuf

lemma react (event : Event) : Counted (e.react event) := by
  cases event with
  | call op => exact h.step op
  | leaseExpired t now throwsAt how => exact h.leaseExpired t now throwsAt how
  | recoveryRequest tm =>
    simp only [Endpoint.react, recoveryRequest]
    split_ifs
    · exact h
    · exact h.constructIndoubtTransactions

end

lemma endpoint (o : Observer) (editGenerated : Bool) : Counted (o.endpoint editGenerated) := by
  constructor
  · exact (Located.opened o.tabledescriptor o.store o.pendingTransactionsById o.postOpen
      editGenerated).of_ids
      (fun _ => rfl) (fun _ _ hr => hr) rfl
  · exact fun t r hr => absurd hr (by simp [Observer.endpoint, opened])
  · exact o.postOpen_counts

end Counted

end Endpoint

/-- The replay of any log leaves exactly the transactions in doubt that the log leaves
prepared, each with its first unresolved commit request. In every run of the opened
endpoint the counts by transaction manager are the numbers of remaining in-doubt
transactions, without an entry for zero. -/
theorem indoubt_reconstruction (htd : TableDescriptor)
    (store : List (Cell Bytes Bytes Bytes Bytes)) (log : List (ℕ × WALEdit)) :
    (∀ t kvs, ((start htd store).restore log).pendingTransactionsById.lookup t =
        some kvs ↔ InDoubt (log.map Prod.snd) t kvs) ∧
      ∀ (editGenerated : Bool) (events : List Event),
        let e := Runs.run react (((start htd store).restore log).endpoint editGenerated) events
        Counts e.indoubtTransactionsById e.indoubtTransactionsCountByTmid := by
  constructor
  · exact lookup_restore htd store log
  · intro editGenerated events
    have hrun : Endpoint.Counted (Runs.run react
        (((start htd store).restore log).endpoint editGenerated) events) :=
      Runs.run_invariant (fun _ event h => h.react event) (Endpoint.Counted.endpoint _ _) events
    exact hrun.counts

/-- In every run of an endpoint opened after a replay, a known transaction has the id it is known
by, and one that was reinstated is still in doubt. -/
theorem known_transactions (o : Observer) (editGenerated : Bool) (events : List Event) :
    let e := Runs.run react (o.endpoint editGenerated) events
    ∀ t r, e.transactionsById.lookup t = some r → (e.heap r).transactionId = t ∧
      ((e.heap r).reInstated = true → t ∈ e.indoubtTransactionsById.keys) := by
  intro e t r hr
  have hcounted : Endpoint.Counted e :=
    Runs.run_invariant (fun _ event h => h.react event) (Counted.endpoint o editGenerated) events
  exact ⟨hcounted.identity t r hr, hcounted.reinstated t r hr⟩

/-- The log of a transaction that aborts after its vote, begins again under the same id and
votes once more. -/
def votedTwice : List WALEdit :=
  (Runs.run step (opened ⟨[[1]], one_family_nonempty⟩ [] ∅ ∅ false)
    [.put 5 1 (.column [1] [1] [1] [7]), .commitRequest 5 .written, .abortTransaction 5 .written,
      .put 5 2 (.column [1] [1] [1] [8]), .commitRequest 5 .written]).tHLog

/-- Its replay keeps the edit of the second commit request. -/
theorem votedTwice_keeps_second_edit : ((start ⟨[[1]], by simp⟩ []).restore
        (votedTwice.map (Prod.mk 3))).pendingTransactionsById.lookup 5 =
      some [⟨[1], [1], [1], some 2, .put, [8]⟩] ∧
    (votedTwice.find? fun x => x.contextTag = some ⟨.commitRequest, 5⟩).map WALEdit.kvs =
      some [⟨[1], [1], [1], some 1, .put, [7]⟩] := by
  decide

end Trafodion.Region
