import Trafodion.RegionEndpoint

/-!
# The second phase at a region

What `commit` and `abortTransaction` can do, said once. The writes of a commit change the
store and the log, and for a reinstated transaction the buffered writes as well; the
collections of the endpoint only change when the transaction is retired.
-/
namespace Trafodion.Region
open TombstoneStore TransactionState

lemma TransactionState.addMutation_edit_ne_nil (htd : TableDescriptor) (now : ℕ)
    (a : WriteAction) (s : TransactionState) : (s.addMutation htd now a).edit ≠ [] := by
  intro hedit
  cases a with
  | put p => exact (WriteAction.getCells_ne_nil htd _) (List.append_eq_nil_iff.1 hedit).2
  | delete d => exact (WriteAction.getCells_ne_nil htd _) (List.append_eq_nil_iff.1 hedit).2

/-- `s` is the state `old` while its second phase runs. -/
structure TransactionState.Executing (old s : TransactionState) : Prop where
  frame : s = { old with
    scans := s.scans
    writeOrdering := s.writeOrdering
    edit := s.edit
    commitProgress := s.commitProgress }
  ordinary : old.reInstated = false →
    s.scans = old.scans ∧ s.writeOrdering = old.writeOrdering ∧ s.edit = old.edit
  logged : (old.edit = [] → old.writeOrdering = []) → s.edit = [] → s.writeOrdering = []

namespace TransactionState.Executing

variable {old s s' : TransactionState}

lemma refl (old : TransactionState) : Executing old old :=
  ⟨rfl, fun _ => ⟨rfl, rfl, rfl⟩, fun h => h⟩

section
variable (h : Executing old s)
include h

lemma transactionId : s.transactionId = old.transactionId := by
  rw [h.frame]

lemma status : s.status = old.status := by
  rw [h.frame]

lemma reInstated : s.reInstated = old.reInstated := by
  rw [h.frame]

lemma startSequenceNumber : s.startSequenceNumber = old.startSequenceNumber := by
  rw [h.frame]

lemma transactionsToCheck : s.transactionsToCheck = old.transactionsToCheck := by
  rw [h.frame]

lemma trans (h' : Executing s s') : Executing old s' := by
  constructor
  · rw [h'.frame, h.frame]
  · intro ho
    obtain ⟨hscans, hwr, hedit⟩ := h.ordinary ho
    obtain ⟨hscans', hwr', hedit'⟩ := h'.ordinary (h.reInstated.trans ho)
    exact ⟨hscans'.trans hscans, hwr'.trans hwr, hedit'.trans hedit⟩
  · exact fun hold => h'.logged (h.logged hold)

end

lemma addMutation (htd : TableDescriptor) (now : ℕ) (a : WriteAction)
    (hs : s.reInstated = true) : Executing s (s.addMutation htd now a) := by
  constructor
  · cases a <;> rfl
  · intro ho
    simp [hs] at ho
  · intro _ hedit
    exact absurd hedit (addMutation_edit_ne_nil htd now a s)

end TransactionState.Executing

namespace Endpoint

/-- `e'` is `e` after all or some of the second phase of the transaction at `r`. -/
structure Applied (r : Ref) (e e' : Endpoint) : Prop where
  frame : e' = { e with
    heap := Function.update e.heap r (e'.heap r)
    store := e'.store
    tHLog := e'.tHLog
    editGenerated := e'.editGenerated }
  state : (e.heap r).Executing (e'.heap r)

/-- The writes that reach the region when the one at index `throwsAt` throws. -/
def reached {α : Type*} (throwsAt : Option ℕ) (l : List α) : List α :=
  l.take (throwsAt.getD l.length)

lemma reached_cons {α : Type*} {throwsAt : Option ℕ} (h : throwsAt ≠ some 0) (a : α)
    (l : List α) : reached throwsAt (a :: l) = a :: reached (throwsAt.map (· - 1)) l ∧
      throwsAt.any (· < (a :: l).length) = (throwsAt.map (· - 1)).any (· < l.length) := by
  match throwsAt with
  | none => simp [reached]
  | some 0 => exact absurd rfl h
  | some (i + 1) => simp [reached]

lemma applyWrites_eq (now : ℕ) (l : List WriteAction) (throwsAt : Option ℕ) (e : Endpoint) :
    e.applyWrites now l throwsAt =
      ({ e with store := e.store ++
          (reached throwsAt l).flatMap (WriteAction.regionCells e.tabledescriptor now) },
        throwsAt.any (· < l.length)) := by
  induction l generalizing throwsAt e with
  | nil => cases throwsAt <;> simp [applyWrites, reached]
  | cons a l ih =>
    by_cases h : throwsAt = some 0
    · subst h
      simp [applyWrites, reached]
    · obtain ⟨hreached, hany⟩ := reached_cons h a l
      rw [applyWrites, ih, hreached, hany]
      · simp [applyAction]
      · exact h

def rebuiltCells (htd : TableDescriptor) (now : ℕ) (kvs : List KeyValue) :
    List (Cell Bytes Bytes Bytes Bytes) :=
  kvs.flatMap fun kv => ((rebuild kv).stamp now).regionCells htd now

lemma applyIndoubt_store (now : ℕ) (r : Ref) (l : List KeyValue) (throwsAt : Option ℕ)
    (e : Endpoint) : (e.applyIndoubt now r l throwsAt).1.store =
        e.store ++ rebuiltCells e.tabledescriptor now (reached throwsAt l) ∧
      (e.applyIndoubt now r l throwsAt).2 = throwsAt.any (· < l.length) := by
  induction l generalizing throwsAt e with
  | nil => cases throwsAt <;> simp [applyIndoubt, reached, rebuiltCells]
  | cons kv l ih =>
    by_cases h : throwsAt = some 0
    · subst h
      simp [applyIndoubt, reached, rebuiltCells, modify]
    · obtain ⟨hreached, hany⟩ := reached_cons h kv l
      simp only [applyIndoubt, if_neg h, hreached, hany]
      rw [(ih _ _).1, (ih _ _).2]
      simp [applyAction, append, modify, rebuiltCells]

namespace Applied

variable {r : Ref} {e e' e'' : Endpoint}

lemma of_modify {f : StateMap}
    (h : (e.heap r).Executing (f (e.heap r))) : Applied r e (e.modify r f) := by
  constructor
  · simp [modify]
  · simpa [modify] using h

lemma trans (h : Applied r e e') (h' : Applied r e' e'') : Applied r e e'' := by
  constructor
  · rw [h'.frame, h.frame]
    simp
  · exact h.state.trans h'.state

lemma of_heap_eq (hst : e'.heap = e.heap) (hfrm : e' = { e with
      store := e'.store, tHLog := e'.tHLog, editGenerated := e'.editGenerated }) :
    Applied r e e' := by
  constructor
  · rw [hfrm]
    simp
  · rw [hst]
    exact .refl _

lemma heap_of_ne (h : Applied r e e') {u : Ref} (hu : u ≠ r) : e'.heap u = e.heap u := by
  rw [h.frame]
  exact Function.update_of_ne hu _ _

lemma pending (h : Applied r e e') :
    e'.commitPendingTransactions = e.commitPendingTransactions := by
  rw [h.frame]

end Applied

lemma applyIndoubt_applied (now : ℕ) (r : Ref) (l : List KeyValue) (throwsAt : Option ℕ)
    {e : Endpoint} (hr : (e.heap r).reInstated = true) :
    Applied r e (e.applyIndoubt now r l throwsAt).1 := by
  induction l generalizing throwsAt e with
  | nil => exact .of_heap_eq rfl rfl
  | cons kv l ih =>
    have hmodify : Applied r e (e.modify r
        (addMutation e.tabledescriptor now (rebuild kv))) :=
      .of_modify (.addMutation _ _ _ hr)
    simp only [applyIndoubt]
    split_ifs with h
    · exact hmodify
    · apply hmodify.trans
      refine Applied.trans ?_ (ih _ ?_)
      · exact .of_heap_eq rfl rfl
      · exact hmodify.state.reInstated.trans hr

/-- `e'` differs from `e` in the state at `r`, which keeps its identity and its start, in
whether `r` is commit-pending, and in what the collections of transactions do not show. -/
structure Touches (r : Ref) (e e' : Endpoint) : Prop where
  others : ∀ u, u ≠ r → e'.heap u = e.heap u
  identity : (e'.heap r).transactionId = (e.heap r).transactionId
  start : (e'.heap r).startSequenceNumber = (e.heap r).startSequenceNumber
  known : e'.transactionsById = e.transactionsById
  numbers : e'.commitedTransactionsBySequenceNumber = e.commitedTransactionsBySequenceNumber
  pending_subset : e'.commitPendingTransactions ⊆ e.commitPendingTransactions
  pending_of_ne : ∀ u ∈ e.commitPendingTransactions, u ≠ r →
    u ∈ e'.commitPendingTransactions
  nextRef : e'.nextRef = e.nextRef
  nextSequenceId : e'.nextSequenceId = e.nextSequenceId
  reconstructed : e'.reconstructIndoubts = e.reconstructIndoubts

namespace Touches

variable {r : Ref} {e e' e'' : Endpoint}

lemma trans (h : Touches r e e') (h' : Touches r e' e'') : Touches r e e'' where
  others u hu := (h'.others u hu).trans (h.others u hu)
  identity := h'.identity.trans h.identity
  start := h'.start.trans h.start
  known := h'.known.trans h.known
  numbers := h'.numbers.trans h.numbers
  pending_subset := h'.pending_subset.trans h.pending_subset
  pending_of_ne u hu hne := h'.pending_of_ne u (h.pending_of_ne u hu hne) hne
  nextRef := h'.nextRef.trans h.nextRef
  nextSequenceId := h'.nextSequenceId.trans h.nextSequenceId
  reconstructed := h'.reconstructed.trans h.reconstructed

lemma of_applied (h : Applied r e e') : Touches r e e' where
  others _ hu := h.heap_of_ne hu
  identity := h.state.transactionId
  start := h.state.startSequenceNumber
  known := by rw [h.frame]
  numbers := by rw [h.frame]
  pending_subset := by rw [h.frame]
  pending_of_ne u hu _ := by rw [h.frame]; exact hu
  nextRef := by rw [h.frame]
  nextSequenceId := by rw [h.frame]
  reconstructed := by rw [h.frame]

lemma of_modify {f : StateMap}
    (hid : (f (e.heap r)).transactionId = (e.heap r).transactionId)
    (hst0 : (f (e.heap r)).startSequenceNumber = (e.heap r).startSequenceNumber) :
    Touches r e (e.modify r f) where
  others _ hu := modify_heap_of_ne hu f e
  identity := by rw [modify_heap_self, hid]
  start := by rw [modify_heap_self, hst0]
  known := rfl
  numbers := rfl
  pending_subset := Finset.Subset.refl _
  pending_of_ne _ hu _ := hu
  nextRef := rfl
  nextSequenceId := rfl
  reconstructed := rfl

lemma setStatus (r : Ref) (status : Status) (e : Endpoint) :
    Touches r e (e.modify r (setStatus status)) :=
  .of_modify rfl rfl

lemma refl (r : Ref) (e : Endpoint) : Touches r e e :=
  ⟨fun _ _ => rfl, rfl, rfl, rfl, rfl, Finset.Subset.rfl, fun _ hu _ => hu, rfl, rfl, rfl⟩

lemma removePending (r : Ref) (e : Endpoint) : Touches r e (e.removePending r) :=
  { refl r e with
    pending_subset := Finset.erase_subset _ _
    pending_of_ne := fun _ hu hne => Finset.mem_erase.2 ⟨hne, hu⟩ }

lemma settleIndoubt (r : Ref) (e : Endpoint) : Touches r e (e.settleIndoubt r) := by
  unfold Endpoint.settleIndoubt
  split_ifs <;> exact { refl r e with }

end Touches

/-- The in-doubt maps of `e'` are those of `e`. -/
structure SameIndoubt (e e' : Endpoint) : Prop where
  byId : e'.indoubtTransactionsById = e.indoubtTransactionsById
  byTmid : e'.indoubtTransactionsCountByTmid = e.indoubtTransactionsCountByTmid

/-- How `commit(state)` of the transaction at `r` ends when it is called in `e`. -/
inductive CommitEnd (r : Ref) (how : Append) (e : Endpoint) : Endpoint × Reply → Prop
  | aborted (e₁ : Endpoint) (htouches : Touches r e e₁) (hindoubt : SameIndoubt e e₁)
      (hstatus : (e₁.heap r).status = .aborted) :
      CommitEnd r how e (e₁.retireTransaction r, .threw .regionThrew)
  | halted (e₁ : Endpoint) (happlied : Applied r e e₁) (f : Failure)
      (hwrites : how = .written → (e₁.heap r).edit = [] ∨
        (e₁.heap r).writeOrdering = (e.heap r).writeOrdering) :
      CommitEnd r how e (e₁, .threw f)
  | failed (e₁ : Endpoint) (happlied : Applied r e e₁)
      (hpending : r ∉ e.commitPendingTransactions) :
      CommitEnd r how e
        (e₁.modify r (setStatus .commited), .threw .commitFailure)
  | commited (e₁ : Endpoint) (htouches : Touches r e e₁)
      (hindoubt : SameIndoubt (e.settleIndoubt r) e₁)
      (hstatus : (e₁.heap r).status = .commited) :
      CommitEnd r how e (e₁.retireTransaction r, .returned)

variable {r : Ref}

lemma commitRecord_eq_none {e : Endpoint} (h : e.commitRecord r = none) :
    (e.heap r).edit = [] := by
  simp only [commitRecord] at h
  split_ifs at h
  simpa using h

lemma logAppend_frame (how : Append) (record : WALEdit) (e : Endpoint) :
    e.logAppend how record = { e with tHLog := (e.logAppend how record).tHLog } := by
  cases how with
  | written => rfl
  | threw logged => cases logged <;> rfl

lemma settleIndoubt_heap (r : Ref) (e : Endpoint) : (e.settleIndoubt r).heap = e.heap := by
  unfold settleIndoubt
  split_ifs <;> rfl

lemma settleIndoubt_congr {e e' : Endpoint} (h : SameIndoubt e e')
    (hre : (e'.heap r).reInstated = (e.heap r).reInstated)
    (hid : (e'.heap r).transactionId = (e.heap r).transactionId) :
    SameIndoubt (e.settleIndoubt r) (e'.settleIndoubt r) := by
  unfold settleIndoubt
  rw [hre, hid]
  split_ifs
  · simp only [resolveIndoubt, h.byId, h.byTmid]
    exact ⟨rfl, rfl⟩
  · exact h

variable {e e₁ : Endpoint}

lemma failCommit_end (h : Applied r e e₁) (how : Append) :
    CommitEnd r how e (e₁.failCommit r) := by
  apply CommitEnd.aborted (e₁.modify r (setStatus .aborted))
  · exact (Touches.of_applied h).trans (.setStatus r .aborted e₁)
  · constructor <;> rw [h.frame] <;> rfl
  · rw [modify_heap_self]
    rfl

lemma finishCommit_end (h : Applied r e e₁) (how : Append) :
    CommitEnd r how e (e₁.finishCommit r) := by
  have hcommited := (Touches.of_applied h).trans (.setStatus r .commited e₁)
  -- the end of the commit with and without the removal from the commit-pending ones
  have hend : ∀ e', Touches r e e' → SameIndoubt e e' →
      e'.heap r = (e₁.modify r (setStatus .commited)).heap r →
      CommitEnd r how e (((e'.settleIndoubt r).modify r fun state =>
        { state with commitProgress := .commited }).retireTransaction r, .returned) := by
    intro e' htouch hind hst
    rw [modify_heap_self] at hst
    have hsame : SameIndoubt (e.settleIndoubt r) (e'.settleIndoubt r) := by
      apply settleIndoubt_congr hind
      · rw [hst]
        exact h.state.reInstated
      · exact htouch.identity
    apply CommitEnd.commited
    · exact (htouch.trans (.settleIndoubt r e')).trans (.of_modify rfl rfl)
    · exact ⟨hsame.byId, hsame.byTmid⟩
    · rw [modify_heap_self, settleIndoubt_heap, hst]
      rfl
  unfold finishCommit
  dsimp only
  split_ifs with hfail hwrite
  · apply CommitEnd.failed e₁ h
    simp only [Bool.and_eq_true, decide_eq_true_eq] at hfail
    rw [← h.pending]
    exact hfail.2
  · refine hend _ (hcommited.trans (.removePending r _)) ?_ rfl
    constructor <;> rw [h.frame] <;> rfl
  · refine hend _ hcommited ?_ rfl
    constructor <;> rw [h.frame] <;> rfl

lemma logCommit_end (h : Applied r e e₁) (how : Append) :
    CommitEnd r how e (e₁.logCommit r how) := by
  unfold logCommit
  split_ifs with hw
  · cases hrec : e₁.commitRecord r with
    | none => exact .halted e₁ h _ fun _ => .inl (commitRecord_eq_none hrec)
    | some record =>
      cases how with
      | written =>
        have happended : Applied r e₁ { e₁.append record with editGenerated := true } :=
          .of_heap_eq rfl rfl
        exact finishCommit_end (h.trans happended) _
      | threw logged =>
        have hfrm := logAppend_frame (.threw logged) record e₁
        refine .halted _ (h.trans (.of_heap_eq ?_ ?_)) .logThrew nofun
        · rw [hfrm]
        · rw [hfrm]
  · exact finishCommit_end h how

lemma commitState_end (r : Ref) (now : ℕ) (throwsAt : Option ℕ) (how : Append)
    {e₀ e : Endpoint} (h : Applied r e₀ e)
    (hwr : (e.heap r).writeOrdering = (e₀.heap r).writeOrdering) :
    CommitEnd r how e₀ (e.commitState r now throwsAt how) := by
  -- both paths put writes into the region and then fail or log the outcome
  have hend : ∀ (e' : Endpoint) (threw : Bool), Applied r e e' →
      CommitEnd r how e₀ (if threw then e'.failCommit r else e'.logCommit r how) := by
    intro e' threw happ
    cases threw with
    | true => exact failCommit_end (h.trans happ) how
    | false => exact logCommit_end (h.trans happ) how
  simp only [commitState]
  by_cases hr : (e.heap r).reInstated = true
  · rw [if_pos hr]
    cases hkvs : e.indoubtTransactionsById.lookup (e.heap r).transactionId with
    | none => exact .halted e h _ fun _ => .inr hwr
    | some kvs => exact hend _ _ (applyIndoubt_applied now r kvs throwsAt hr)
  · rw [if_neg hr, applyWrites_eq]
    apply hend
    exact .of_heap_eq rfl rfl

/-- `commit(state)` once it has begun. -/
def commitBegun (r : Ref) (now : ℕ) (throwsAt : Option ℕ) (how : Append) (e : Endpoint) :
    Endpoint × Reply :=
  (e.modify r fun state => { state with commitProgress := .committing }).commitState
    r now throwsAt how

lemma commitBegun_end (r : Ref) (now : ℕ) (throwsAt : Option ℕ) (how : Append)
    (e : Endpoint) : CommitEnd r how e (e.commitBegun r now throwsAt how) := by
  apply commitState_end
  · exact .of_modify ⟨rfl, fun _ => ⟨rfl, rfl, rfl⟩, fun h => h⟩
  · rw [modify_heap_self]

section
variable (transactionId : TransId) (ign : Bool) (now : ℕ) (throwsAt : Option ℕ) (how : Append)
  (e : Endpoint)
include how

lemma commit_eq : (∃ reply, e.commit transactionId ign now throwsAt how = (e, reply)) ∨
      ∃ r, e.transactionsById.lookup transactionId = some r ∧ (e.heap r).status = .commitPending ∧
        e.commit transactionId ign now throwsAt how = e.commitBegun r now throwsAt how := by
  unfold commit
  cases hr : e.transactionsById.lookup transactionId with
  | none => exact .inl ⟨_, rfl⟩
  | some r =>
    dsimp only
    split_ifs with hstat
    · exact .inl ⟨_, rfl⟩
    · cases hprogress : (e.heap r).commitProgress with
      | none => exact .inr ⟨r, rfl, not_not.1 hstat, rfl⟩
      | committing => exact .inl ⟨_, rfl⟩
      | commited => exact .inl ⟨_, rfl⟩

lemma commit_cases : (∃ reply, e.commit transactionId ign now throwsAt how = (e, reply)) ∨
      ∃ r, e.transactionsById.lookup transactionId = some r ∧ (e.heap r).status = .commitPending ∧
        CommitEnd r how e (e.commit transactionId ign now throwsAt how) := by
  obtain hrep | ⟨r, hr, hstat, heq⟩ := commit_eq transactionId ign now throwsAt how e
  · exact .inl hrep
  · rw [heq]
    exact .inr ⟨r, hr, hstat, commitBegun_end r now throwsAt how e⟩

end

/-- How `abortTransaction` of the transaction at `r` ends when it is called in `e`. -/
inductive AbortEnd (r : Ref) (how : Append) (e : Endpoint) : Endpoint × Reply → Prop
  | halted (log : List WALEdit) (f : Failure) (hwrite : (e.heap r).hasWrite = true)
      (hedit : how = .written → (e.heap r).edit = []) :
      AbortEnd r how e
        ({ e.modify r (setStatus .aborted) with tHLog := log }, .threw f)
  | aborted (e₁ : Endpoint) (htouches : Touches r e e₁)
      (hindoubt : SameIndoubt (e.settleIndoubt r) e₁)
      (hstatus : (e₁.heap r).status = .aborted) :
      AbortEnd r how e (e₁.retireTransaction r, .returned)

lemma finishAbort_end (r : Ref) (how : Append) (e : Endpoint) (log : List WALEdit) :
    AbortEnd r how e (finishAbort r { e.modify r (setStatus .aborted) with tHLog := log }) := by
  have hlog : Touches r e
      { e.modify r (setStatus .aborted) with tHLog := log } :=
    (Touches.setStatus r .aborted e).trans { Touches.refl r _ with }
  apply AbortEnd.aborted
  · exact (hlog.trans (.removePending r _)).trans (.settleIndoubt r _)
  · have hsame : SameIndoubt e (removePending r
        { e.modify r (setStatus .aborted) with tHLog := log }) := ⟨rfl, rfl⟩
    apply settleIndoubt_congr hsame
    · change ((e.modify r (setStatus .aborted)).heap r).reInstated = _
      rw [modify_heap_self]
      rfl
    · exact hlog.identity
  · rw [settleIndoubt_heap]
    change ((e.modify r (setStatus .aborted)).heap r).status = _
    rw [modify_heap_self]
    rfl

lemma abortTransaction_cases (transactionId : TransId) (how : Append) (e : Endpoint) :
    (∃ reply, e.abortTransaction transactionId how = (e, reply)) ∨
      ∃ r, e.transactionsById.lookup transactionId = some r ∧
        AbortEnd r how e (e.abortTransaction transactionId how) := by
  unfold abortTransaction
  cases hr : e.transactionsById.lookup transactionId with
  | none => exact .inl ⟨_, rfl⟩
  | some r =>
    dsimp only
    split_ifs with hstat hw
    · exact .inl ⟨_, rfl⟩
    · refine .inr ⟨r, rfl, ?_⟩
      have hst : (e.modify r (setStatus .aborted)).heap r =
          { e.heap r with status := .aborted } := modify_heap_self r _ e
      have hw' : (e.heap r).hasWrite = true := by
        rw [hst] at hw
        exact hw
      rw [hst]
      cases hkv : (e.heap r).edit with
      | nil => exact .halted _ _ hw' fun _ => hkv
      | cons kv kvs =>
        cases how with
        | written => exact finishAbort_end r _ e _
        | threw logged =>
          dsimp only [List.head?_cons]
          rw [logAppend_frame]
          exact .halted _ _ hw' nofun
    · exact .inr ⟨r, rfl, finishAbort_end r how e _⟩

end Endpoint

end Trafodion.Region
