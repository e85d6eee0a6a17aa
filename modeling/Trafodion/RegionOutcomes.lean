import Trafodion.IndoubtReconstruction

/-!
# Outcomes of prepared transactions at a region

Only a commit, an abort, an expired lease or a repeated commit request can end the prepared
state of a transaction, and only that of the transaction it is for. Commit records are
written for the transaction that is committed and for no other.
-/
namespace Trafodion.Region

open List TransactionState

def WALEdit.commitTid (record : WALEdit) : Option TransId :=
  match record.tag with
  | some ⟨.commit, tid⟩ | some ⟨.controlPointCommit, tid⟩ => some tid
  | _ => none

def commitTids (log : List WALEdit) : List TransId := log.filterMap WALEdit.commitTid

lemma commitTids_append (log log' : List WALEdit) :
    commitTids (log ++ log') = commitTids log ++ commitTids log' :=
  filterMap_append

namespace Endpoint

variable {e : Endpoint} {how : Append}

lemma mem_commitTids_logAppend {record : WALEdit} {t : TransId}
    (h : t ∈ commitTids (e.logAppend how record).tHLog) :
    t ∈ commitTids e.tHLog ∨ record.commitTid = some t := by
  have happend : t ∈ commitTids (e.tHLog ++ [record]) →
      t ∈ commitTids e.tHLog ∨ record.commitTid = some t := by
    intro ht
    rw [commitTids_append, mem_append] at ht
    obtain hold | hnew := ht
    · exact .inl hold
    · obtain ⟨record', hrec', htid⟩ := mem_filterMap.1 hnew
      rw [mem_singleton.1 hrec'] at htid
      exact .inr htid
  match how with
  | .written => exact happend h
  | .threw true => exact happend h
  | .threw false => exact .inl h

/-- The transactions that are prepared in `e` and have the given status in `e'`. -/
def resolved (status : Status) (e e' : Endpoint) : List TransId :=
  ((range e.nextRef).filter fun r =>
    (e.heap r).status = .commitPending ∧ (e'.heap r).status = status).map
      fun r => (e.heap r).transactionId

/-- From `e` to `e'` only transactions in `C` are committed and logged as such, and only
transactions in `A` are aborted. -/
structure Outcome (C A : Set TransId) (e e' : Endpoint) : Prop where
  prepared : ∀ r < e.nextRef, (e.heap r).status = .commitPending →
    (e'.heap r).status = .commitPending ∨
      (e'.heap r).status = .commited ∧ (e.heap r).transactionId ∈ C ∨
      (e'.heap r).status = .aborted ∧ (e.heap r).transactionId ∈ A
  logged : ∀ t ∈ commitTids e'.tHLog, t ∈ commitTids e.tHLog ∨ t ∈ C

def Overdue (t : TransId) (e : Endpoint) : Prop :=
  ∃ r ∈ e.transactionsById.lookup t, (e.heap r).status = .commitPending ∧
    maxCommitPendingWaits < (e.heap r).commitPendingWaits

instance (t : TransId) (e : Endpoint) : Decidable (e.Overdue t) :=
  inferInstanceAs (Decidable (∃ r ∈ e.transactionsById.lookup t, _ ∧ _))

namespace Outcome

variable {C A : Set TransId} {e e' : Endpoint}

lemma mem_of_resolved (h : Outcome C A e e') {t : TransId} :
    (t ∈ resolved .commited e e' → t ∈ C) ∧ (t ∈ resolved .aborted e e' → t ∈ A) := by
  constructor
  all_goals
    intro ht
    obtain ⟨r, hr, rfl⟩ := mem_map.1 ht
    obtain ⟨hrange, hstat⟩ := mem_filter.1 hr
    obtain ⟨hpend, haft⟩ := of_decide_eq_true hstat
    have hcases := h.prepared r (mem_range.1 hrange) hpend
    rw [haft] at hcases
    simpa using hcases

lemma refl (e : Endpoint) : Outcome ∅ ∅ e e :=
  ⟨fun _ _ h => .inl h, fun _ h => .inl h⟩

lemma mono {C' A' : Set TransId} (h : Outcome C A e e') (hC : C ⊆ C') (hA : A ⊆ A') :
    Outcome C' A' e e' := by
  constructor
  · intro r hr hpend
    obtain hkeep | ⟨hstat, hmem⟩ | ⟨hstat, hmem⟩ := h.prepared r hr hpend
    · exact .inl hkeep
    · exact .inr (.inl ⟨hstat, hC hmem⟩)
    · exact .inr (.inr ⟨hstat, hA hmem⟩)
  · intro t ht
    exact (h.logged t ht).imp id fun hmem => hC hmem

lemma of_status (hstat : ∀ r < e.nextRef, (e'.heap r).status = (e.heap r).status)
    (hlog : e'.tHLog = e.tHLog) : Outcome ∅ ∅ e e' := by
  constructor
  · intro r hr hpend
    exact .inl ((hstat r hr).trans hpend)
  · intro t ht
    rw [hlog] at ht
    exact .inl ht

end Outcome

structure Begun (e e' : Endpoint) : Prop where
  heap : ∀ r < e.nextRef, e'.heap r = e.heap r
  nextRef : e.nextRef ≤ e'.nextRef
  tHLog : e'.tHLog = e.tHLog

namespace Begun

variable {e e' : Endpoint}

lemma refl (e : Endpoint) : Begun e e := ⟨fun _ _ => rfl, le_refl _, rfl⟩

lemma flags (h : Begun e e') (started : Bool) :
    Begun e { e' with started := started, reconstructIndoubts := true } :=
  ⟨h.heap, h.nextRef, h.tHLog⟩

lemma allocate (h : Begun e e') (t : TransId) : Begun e (e'.allocate t) := by
  refine ⟨fun r hr => ?_, h.nextRef.trans (Nat.le_succ _), h.tHLog⟩
  rw [allocate_heap_of_ne (Nat.ne_of_lt (hr.trans_le h.nextRef))]
  exact h.heap r hr

lemma reinstate (h : Begun e e') (t : TransId) : Begun e (e'.reinstate t) := by
  refine ⟨fun r hr => ?_, h.nextRef.trans (Nat.le_succ _), h.tHLog⟩
  rw [reinstate_heap_of_ne (Nat.ne_of_lt (hr.trans_le h.nextRef))]
  exact h.heap r hr

lemma constructIndoubtTransactions (e : Endpoint) : Begun e e.constructIndoubtTransactions :=
  constructIndoubtTransactions_keeps (refl e) (fun _ started h => h.flags started)
    fun _ t _ h => h.reinstate t

lemma beginTransaction (e : Endpoint) (t : TransId) : Begun e (e.beginTransaction t) :=
  beginTransaction_keeps (refl e) (fun _ started h => h.flags started)
    (fun _ s _ h => h.reinstate s) fun _ h => h.allocate t

lemma outcome (h : Begun e e') : Outcome ∅ ∅ e e' :=
  .of_status (fun r hr => by rw [h.heap r hr]) h.tHLog

end Begun

namespace Outcome

variable {e : Endpoint} {t : TransId} {r : Ref}

lemma onState (e : Endpoint) (t : TransId) {g : StateMap}
    (hg : ∀ s, TransactionState.Buffered s (g s)) : Outcome ∅ ∅ e (e.onState t g) := by
  obtain ⟨r, -, heq⟩ := onState_eq t g e
  have hbegun : Begun e (e.beginTransIfNotExist t) :=
    beginTransIfNotExist_rule (.refl e) (.beginTransaction e t)
  rw [heq]
  apply of_status
  · intro u hu
    by_cases hur : u = r
    · rw [hur, modify_heap_self, (hg _).frame, ← hur, hbegun.heap u hu]
    · rw [modify_heap_of_ne hur, hbegun.heap u hu]
  · exact hbegun.tHLog

lemma of_others {e' : Endpoint} {C A : Set TransId} (hoths : ∀ u, u ≠ r → e'.heap u = e.heap u)
    (hself : (e.heap r).status = .commitPending → (e'.heap r).status = .commitPending ∨
      (e'.heap r).status = .commited ∧ (e.heap r).transactionId ∈ C ∨
      (e'.heap r).status = .aborted ∧ (e.heap r).transactionId ∈ A)
    (hlog : ∀ t ∈ commitTids e'.tHLog, t ∈ commitTids e.tHLog ∨ t ∈ C) : Outcome C A e e' := by
  refine ⟨fun u _ hpend => ?_, hlog⟩
  by_cases hu : u = r
  · rw [hu] at hpend ⊢
    exact hself hpend
  · rw [hoths u hu]
    exact .inl hpend

lemma commitRequest (hnot : ∀ r, e.transactionsById.lookup t = some r →
      (e.heap r).status ≠ .commitPending) (how : Append) :
    Outcome ∅ ∅ e (e.commitRequest t how).1 := by
  cases hr : e.transactionsById.lookup t with
  | none =>
    simp only [Endpoint.commitRequest, hr]
    exact refl e
  | some r =>
    have hoths : ∀ u, u ≠ r → (e.addTransactionsToCheck r).heap u = e.heap u :=
      fun u hu => modify_heap_of_ne hu _ e
    have hself : (e.heap r).status = .commitPending → False := hnot r hr
    have hretired : ∀ status, Outcome ∅ ∅ e (((e.addTransactionsToCheck r).modify r
        (setStatus status)).retireTransaction r) := by
      intro status
      refine of_others (r := r) (fun u hu => ?_) (fun h => (hself h).elim) fun u hu => .inl hu
      exact (modify_heap_of_ne hu _ _).trans ((modify_heap_of_ne hu _ _).trans (hoths u hu))
    have hvoted : Outcome ∅ ∅ e (((e.addTransactionsToCheck r).prepare r).logAppend how
        (commitRequestRecord r ((e.addTransactionsToCheck r).prepare r))) := by
      refine of_others (r := r) (fun u hu => ?_) (fun h => (hself h).elim) fun u hu => ?_
      · rw [logAppend_frame]
        exact (prepare_heap_of_ne hu _).trans (hoths u hu)
      · obtain hold | hnew := mem_commitTids_logAppend hu
        · exact .inl hold
        · cases hnew
    simp only [Endpoint.commitRequest, hr]
    by_cases hconf : (e.addTransactionsToCheck r).hasConflict r = true
    · rw [if_pos hconf]
      exact hretired .aborted
    · rw [if_neg hconf]
      by_cases hwrite : ((e.addTransactionsToCheck r).heap r).hasWrite = true
      · rw [if_pos hwrite]
        exact hvoted
      · rw [if_neg hwrite]
        exact hretired .commited

end Outcome

lemma settleIndoubt_tHLog (r : Ref) (e : Endpoint) : (e.settleIndoubt r).tHLog = e.tHLog := by
  unfold settleIndoubt
  split_ifs <;> rfl

lemma mem_commitTids_abortTransaction {t u : TransId}
    (h : u ∈ commitTids (e.abortTransaction t how).1.tHLog) : u ∈ commitTids e.tHLog := by
  have hfinish : ∀ r (e' : Endpoint), (e'.finishAbort r).1.tHLog = e'.tHLog :=
    fun r e' => settleIndoubt_tHLog r (e'.removePending r)
  unfold abortTransaction at h
  cases hr : e.transactionsById.lookup t with
  | none =>
    rw [hr] at h
    exact h
  | some r =>
    rw [hr] at h
    dsimp only at h
    split_ifs at h
    · exact h
    · cases hkv : ((e.modify r (setStatus .aborted)).heap r).edit.head? with
      | none =>
        rw [hkv] at h
        exact h
      | some kv =>
        rw [hkv] at h
        have happend : u ∈ commitTids ((e.modify r (setStatus .aborted)).logAppend
            how ⟨some ⟨.abort, t⟩, [kv]⟩).tHLog := by
          cases how with
          | written =>
            rw [hfinish] at h
            exact h
          | threw logged => exact h
        obtain hold | hnew := mem_commitTids_logAppend happend
        · exact hold
        · cases hnew
    · rw [hfinish] at h
      exact h

namespace Outcome

variable {e : Endpoint} {t : TransId} {r : Ref}

lemma abortTransaction (h : Located e) (t : TransId) (how : Append) :
    Outcome ∅ {t} e (e.abortTransaction t how).1 := by
  have hlog : ∀ u ∈ commitTids (e.abortTransaction t how).1.tHLog,
      u ∈ commitTids e.tHLog ∨ u ∈ (∅ : Set TransId) :=
    fun u hu => .inl (mem_commitTids_abortTransaction hu)
  obtain ⟨reply, heq⟩ | ⟨r, hr, hend⟩ := abortTransaction_cases t how e
  · rw [heq]
    exact (refl e).mono (Set.Subset.refl _) (Set.empty_subset _)
  · have hid := h.identity t r hr
    generalize e.abortTransaction t how = result at hend hlog
    cases hend with
    | halted log f _ _ =>
      refine of_others (r := r) (fun u hu => modify_heap_of_ne hu _ e) (fun _ => ?_) hlog
      exact .inr (.inr ⟨congrArg status (modify_heap_self r _ e), hid⟩)
    | aborted e₁ htouch _ hstat =>
      refine of_others (r := r) (fun u hu => ?_) (fun _ => ?_) hlog
      · exact (modify_heap_of_ne hu _ e₁).trans (htouch.others u hu)
      · have hretired := congrArg status
          (modify_heap_self r clearState e₁)
        exact .inr (.inr ⟨hretired.trans hstat, hid⟩)

end Outcome

variable {u : TransId} {r : Ref}

lemma mem_commitTids_logCommit (h : u ∈ commitTids (e.logCommit r how).1.tHLog) :
    u ∈ commitTids e.tHLog ∨ u = (e.heap r).transactionId := by
  have hfinish : ∀ e' : Endpoint, (e'.finishCommit r).1.tHLog = e'.tHLog := by
    intro e'
    simp only [finishCommit]
    split_ifs
    · rfl
    · exact settleIndoubt_tHLog r _
    · exact settleIndoubt_tHLog r _
  unfold logCommit at h
  split_ifs at h
  · cases hrec : e.commitRecord r with
    | none =>
      rw [hrec] at h
      exact .inl h
    | some record =>
      have htid : ∀ v, record.commitTid = some v → v = (e.heap r).transactionId := by
        intro v hv
        simp only [commitRecord] at hrec
        split_ifs at hrec
        · obtain ⟨kv, -, rfl⟩ := Option.map_eq_some_iff.1 hrec
          exact (Option.some.inj hv).symm
        · cases hrec
          exact (Option.some.inj hv).symm
      rw [hrec] at h
      have happend : u ∈ commitTids (e.logAppend how record).tHLog := by
        cases how with
        | written =>
          rw [hfinish] at h
          exact h
        | threw logged => exact h
      exact (mem_commitTids_logAppend happend).imp id (htid u)
  · rw [hfinish] at h
    exact .inl h

variable {now : ℕ} {l : List KeyValue} {throwsAt : Option ℕ}

lemma mem_commitTids_applyIndoubt
    (h : u ∈ commitTids (e.applyIndoubt now r l throwsAt).1.tHLog) : u ∈ commitTids e.tHLog := by
  induction l generalizing throwsAt e with
  | nil => exact h
  | cons kv l ih =>
    simp only [applyIndoubt] at h
    split_ifs at h
    · exact h
    · have hlog := ih h
      change u ∈ commitTids (e.tHLog ++ [_]) at hlog
      rw [commitTids_append, mem_append] at hlog
      exact hlog.resolve_right not_mem_nil

lemma mem_commitTids_commitState (h : u ∈ commitTids (e.commitState r now throwsAt how).1.tHLog) :
    u ∈ commitTids e.tHLog ∨ u = (e.heap r).transactionId := by
  -- both paths end with the log record, or without one when a write has thrown
  have hend : ∀ (e' : Endpoint) (threw : Bool), (e'.heap r).transactionId =
      (e.heap r).transactionId →
      u ∈ commitTids (if threw then e'.failCommit r else e'.logCommit r how).1.tHLog →
      u ∈ commitTids e'.tHLog ∨ u = (e.heap r).transactionId := by
    intro e' threw hid hu
    cases threw with
    | true => exact .inl hu
    | false =>
      rw [← hid]
      exact mem_commitTids_logCommit hu
  simp only [commitState] at h
  by_cases hr : (e.heap r).reInstated = true
  · rw [if_pos hr] at h
    cases hkvs : e.indoubtTransactionsById.lookup (e.heap r).transactionId with
    | none =>
      rw [hkvs] at h
      exact .inl h
    | some kvs =>
      rw [hkvs] at h
      have happ := applyIndoubt_applied now r kvs throwsAt hr
      exact (hend _ _ happ.state.transactionId h).imp mem_commitTids_applyIndoubt id
  · rw [if_neg hr, applyWrites_eq] at h
    let cells := (reached throwsAt (e.heap r).writeOrdering).flatMap
      (WriteAction.regionCells e.tabledescriptor now)
    exact hend { e with store := e.store ++ cells } _ rfl h

lemma commitState_reply_ne (r : Ref) (now : ℕ) (how : Append) (e : Endpoint) :
    (e.commitState r now none how).2 ≠ .threw .regionThrew := by
  have hlog : ∀ e' : Endpoint, (e'.logCommit r how).2 ≠ .threw .regionThrew := by
    intro e'
    have hfinish : ∀ e'' : Endpoint, (e''.finishCommit r).2 ≠ .threw .regionThrew := by
      intro e''
      simp only [finishCommit]
      split_ifs <;> simp
    unfold logCommit
    split_ifs
    · cases e'.commitRecord r with
      | none => simp
      | some record =>
        cases how with
        | written => exact hfinish _
        | threw logged => simp
    · exact hfinish e'
  simp only [commitState]
  by_cases hr : (e.heap r).reInstated = true
  · rw [if_pos hr]
    cases hkvs : e.indoubtTransactionsById.lookup (e.heap r).transactionId with
    | none => simp
    | some kvs =>
      dsimp only
      rw [(applyIndoubt_store now r kvs none e).2]
      exact hlog _
  · rw [if_neg hr, applyWrites_eq]
    exact hlog _

namespace Outcome

variable {e : Endpoint} {t : TransId} {r : Ref}

lemma of_commitEnd {res : Endpoint × Reply} (hend : CommitEnd r how e res)
    (hrep : res.2 ≠ .threw .regionThrew)
    (hlog : ∀ u ∈ commitTids res.1.tHLog, u ∈ commitTids e.tHLog ∨
      u ∈ ({(e.heap r).transactionId} : Set TransId)) :
    Outcome {(e.heap r).transactionId} ∅ e res.1 := by
  cases hend with
  | aborted _ _ _ _ => exact absurd rfl hrep
  | halted e₁ happ _ _ =>
    refine of_others (r := r) (fun u hu => happ.heap_of_ne hu) (fun hpend => ?_) hlog
    exact .inl (happ.state.status.trans hpend)
  | failed e₁ happ _ =>
    refine of_others (r := r) (fun u hu => ?_) (fun _ => ?_) hlog
    · exact (modify_heap_of_ne hu _ e₁).trans (happ.heap_of_ne hu)
    · exact .inr (.inl ⟨congrArg status (modify_heap_self r _ e₁), rfl⟩)
  | commited e₁ htouch _ hstat =>
    refine of_others (r := r) (fun u hu => ?_) (fun _ => ?_) hlog
    · exact (modify_heap_of_ne hu _ e₁).trans (htouch.others u hu)
    · have hretired := congrArg status
        (modify_heap_self r clearState e₁)
      exact .inr (.inl ⟨hretired.trans hstat, rfl⟩)

lemma commit (h : Located e) (t : TransId) (ign : Bool) (now : ℕ) (how : Append) :
    Outcome {t} ∅ e (e.commit t ign now none how).1 := by
  obtain ⟨reply, heq⟩ | ⟨r, hr, -, heq⟩ := commit_eq t ign now none how e
  · rw [heq]
    exact (refl e).mono (Set.empty_subset _) (Set.Subset.refl _)
  · rw [heq, ← h.identity t r hr]
    apply of_commitEnd (commitBegun_end r now none how e) (commitState_reply_ne r now how _)
    intro u hu
    have hlog := mem_commitTids_commitState hu
    rw [modify_heap_self] at hlog
    exact hlog

lemma leaseExpired (h : Located e) (t : TransId) (now : ℕ) (throwsAt : Option ℕ)
    (how : Append) (hthrows : e.Overdue t → throwsAt = none) :
    Outcome {u | u = t ∧ e.Overdue t} ∅ e (e.leaseExpired t now throwsAt how) := by
  have hnone : ∀ e' : Endpoint, Outcome ∅ ∅ e e' →
      Outcome {u | u = t ∧ e.Overdue t} ∅ e e' :=
    fun e' h' => h'.mono (Set.empty_subset _) (Set.Subset.refl _)
  unfold Endpoint.leaseExpired
  cases hr : e.transactionsById.lookup t with
  | none => exact hnone e (refl e)
  | some r =>
    have hid := h.identity t r hr
    let removed : Endpoint := { e with transactionsById := e.transactionsById.erase t }
    dsimp only
    cases hstat : (e.heap r).status with
    | pending =>
      apply hnone
      refine of_others (r := r) (fun u hu => ?_) (fun hpend => ?_) fun u hu => .inl hu
      · exact (modify_heap_of_ne hu _ _).trans (modify_heap_of_ne hu _ removed)
      · rw [hstat] at hpend
        cases hpend
    | commitPending =>
      split_ifs with hwaits
      · have hoverdue : e.Overdue t := ⟨r, hr, hstat, hwaits⟩
        have hend : CommitEnd r how removed (removed.commitState r now throwsAt how) :=
          commitState_end r now throwsAt how (.of_heap_eq rfl rfl) rfl
        rw [hthrows hoverdue] at hend ⊢
        have hout : Outcome {(e.heap r).transactionId} ∅ removed
            (removed.commitState r now none how).1 := by
          apply of_commitEnd hend (commitState_reply_ne r now how removed)
          exact fun u hu => mem_commitTids_commitState hu
        have hsame : Outcome {(e.heap r).transactionId} ∅ e
            (removed.commitState r now none how).1 := ⟨hout.prepared, hout.logged⟩
        refine hsame.mono ?_ (Set.Subset.refl _)
        rintro u rfl
        exact ⟨hid, hoverdue⟩
      · let waited := removed.modify r fun state =>
          { state with commitPendingWaits := state.commitPendingWaits + 1 }
        have hself : (waited.heap r).status = (e.heap r).status := by
          rw [modify_heap_self]
        have hout : Outcome ∅ ∅ e waited :=
          of_others (fun u hu => modify_heap_of_ne hu _ removed)
            (fun hpend => .inl (hself.trans hpend)) fun u hu => .inl hu
        exact hnone _ ⟨hout.prepared, hout.logged⟩
    | commited => exact hnone _ (of_status (fun _ _ => rfl) rfl)
    | aborted => exact hnone _ (of_status (fun _ _ => rfl) rfl)

lemma recoveryRequest (tm : BitVec 32) (e : Endpoint) :
    Outcome ∅ ∅ e (e.recoveryRequest tm).1 := by
  simp only [Endpoint.recoveryRequest]
  split_ifs
  · exact refl e
  · exact (Begun.constructIndoubtTransactions e).outcome

end Outcome

end Endpoint

namespace Observer

lemma commitTids_replayCommittedTransaction (now : ℕ) (val : List KeyValue) (o : Observer) :
    commitTids (o.replayCommittedTransaction now val).tHLog = commitTids o.tHLog := by
  unfold replayCommittedTransaction
  induction val generalizing o with
  | nil => rfl
  | cons kv val ih =>
    rw [foldl_cons, ih, replayCell, commitTids_append]
    exact append_nil _

lemma commitTids_preWALRestore (now : ℕ) (logEdit : WALEdit) (o : Observer) :
    commitTids (o.preWALRestore now logEdit).tHLog = commitTids o.tHLog := by
  unfold preWALRestore
  split
  · rfl
  · split_ifs <;> rfl
  · rfl
  · split
    · rfl
    · exact commitTids_replayCommittedTransaction _ _ o
  · exact commitTids_replayCommittedTransaction _ _ o

lemma commitTids_restore (log : List (ℕ × WALEdit)) (o : Observer) :
    commitTids (o.restore log).tHLog = commitTids o.tHLog := by
  unfold restore
  induction log generalizing o with
  | nil => rfl
  | cons x log ih => rw [foldl_cons, ih, commitTids_preWALRestore]

lemma mem_keys_restore {htd : TableDescriptor}
    {store : Cells} {log : List (ℕ × WALEdit)}
    {t : TransId} (h : OpenEntries.Unclosed ((log.map Prod.snd).map WALEdit.entry) t) :
    t ∈ ((start htd store).restore log).pendingTransactionsById.keys := by
  obtain ⟨kvs, hopen⟩ := (OpenEntries.unclosed_iff_leftOpen _ _).1 h
  exact (FiniteMaps.mem_keys_iff _ _).2 ⟨kvs, (lookup_restore htd store log t kvs).2 hopen⟩

end Observer

end Trafodion.Region
