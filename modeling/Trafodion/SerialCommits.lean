import Trafodion.IndoubtIsolation

/-!
# Transactions that run one after another

A transaction that meets no other one buffers its mutations, votes to commit and is committed.
Its writes reach the store in the order they were made, and the log gets the record of the vote
with all cells and the record of the commit.
-/
namespace Trafodion.Region

open List Runs TransactionState WriteAction TombstoneStore FiniteMaps

structure Transaction where
  transactionId : TransId
  mutations : List (ℕ × WriteAction)
  nonempty : mutations ≠ []
  commitTime : ℕ

open Transaction

namespace Transaction

def mutate (t : TransId) : ℕ × WriteAction → Op
  | (now, .put p) => .put t now p
  | (now, .delete d) => .delete t now d

variable (T : Transaction)

def ops : List Op :=
  T.mutations.map (mutate T.transactionId) ++
    [.commitRequest T.transactionId .written,
      .commit T.transactionId false T.commitTime none .written]

def writes : List WriteAction := T.mutations.map fun x => x.2.stamp x.1

def edit (htd : TableDescriptor) : List KeyValue :=
  T.writes.flatMap (getCells htd)

def cells (htd : TableDescriptor) : List (Cell Bytes Bytes Bytes Bytes) :=
  T.writes.flatMap (regionCells htd T.commitTime)

def voteRecord (htd : TableDescriptor) : WALEdit :=
  ⟨some ⟨.commitRequest, T.transactionId⟩, T.edit htd⟩

def commitRecord (htd : TableDescriptor) (editGenerated : Bool) : WALEdit :=
  if editGenerated then ⟨some ⟨.commit, T.transactionId⟩, (T.edit htd).take 1⟩
  else ⟨some ⟨.controlPointCommit, T.transactionId⟩, T.edit htd⟩

def HasDelete : Prop := ∃ x ∈ T.mutations, ∃ d, x.2 = .delete d

lemma edit_ne_nil (htd : TableDescriptor) : T.edit htd ≠ [] := by
  obtain ⟨x, hx⟩ := exists_mem_of_ne_nil T.mutations T.nonempty
  obtain ⟨kv, hkv⟩ := exists_mem_of_ne_nil _ (getCells_ne_nil htd (x.2.stamp x.1))
  intro hnil
  have hmem : kv ∈ T.edit htd :=
    mem_flatMap.2 ⟨x.2.stamp x.1, mem_map.2 ⟨x, hx, rfl⟩, hkv⟩
  rw [hnil] at hmem
  exact not_mem_nil hmem

end Transaction

def TransactionState.addMutations (htd : TableDescriptor) (l : List (ℕ × WriteAction))
    (s : TransactionState) : TransactionState :=
  l.foldl (fun s x => s.addMutation htd x.1 x.2) s

lemma TransactionState.addMutations_frame (htd : TableDescriptor)
    (l : List (ℕ × WriteAction)) (s : TransactionState) :
    s.addMutations htd l = { s with
      scans := (s.addMutations htd l).scans
      writeOrdering := s.writeOrdering ++ l.map fun x => x.2.stamp x.1
      edit := s.edit ++ (l.map fun x => x.2.stamp x.1).flatMap (getCells htd) } := by
  induction l generalizing s with
  | nil => simp [addMutations]
  | cons x l ih =>
    have hcons : s.addMutations htd (x :: l) = (s.addMutation htd x.1 x.2).addMutations htd l := rfl
    rw [hcons, ih]
    obtain ⟨now, a⟩ := x
    cases a with
    | put p => simp [addMutation, addWrite, addAction, addRead, stamp]
    | delete d => simp [addMutation, addDelete, addAction, stamp]

namespace Endpoint

structure Quiescent (e : Endpoint) : Prop where
  known : ∀ t, e.transactionsById.lookup t = none
  noWrites : NoWrites e
  noIndoubt : e.indoubtTransactionsById = ∅

variable (t : TransId)

variable (f : TransactionState → TransactionState) (x : ℕ × WriteAction)
  (l : List (ℕ × WriteAction)) (e : Endpoint)

lemma step_mutate : e.step (mutate t x) =
      e.onState t (addMutation e.tabledescriptor x.1 x.2) := by
  obtain ⟨now, a⟩ := x
  cases a <;> rfl

lemma onState_tabledescriptor : (e.onState t f).tabledescriptor = e.tabledescriptor := by
  obtain ⟨r, -, heq⟩ := onState_eq t f e
  rw [heq]
  exact beginTransIfNotExist_tabledescriptor t e

lemma run_mutate : run step e ((x :: l).map (mutate t)) =
      e.onState t (addMutations e.tabledescriptor (x :: l)) := by
  induction l using reverseRecOn with
  | nil =>
    exact step_mutate t x e
  | append_singleton l y ih =>
    have hsnoc : (x :: (l ++ [y])).map (mutate t) =
        (x :: l).map (mutate t) ++ [mutate t y] := by simp
    rw [hsnoc, run_snoc, ih, step_mutate, onState_tabledescriptor, onState_onState]
    congr 1
    funext s
    simp [addMutations]

/-- `r` holds the writes of `T` and no other transaction is known or has writes. -/
structure Holds (T : Transaction) (r : Ref) (e : Endpoint) : Prop where
  known : ∀ t, e.transactionsById.lookup t = if t = T.transactionId then some r else none
  transactionId : (e.heap r).transactionId = T.transactionId
  writeOrdering : (e.heap r).writeOrdering = T.writes
  edit : (e.heap r).edit = T.edit e.tabledescriptor
  reInstated : (e.heap r).reInstated = false
  commitProgress : (e.heap r).commitProgress = .none
  others : ∀ u, u ≠ r → (e.heap u).writeOrdering = []
  noIndoubt : e.indoubtTransactionsById = ∅

structure SameData (e e' : Endpoint) : Prop where
  tabledescriptor : e'.tabledescriptor = e.tabledescriptor
  store : e'.store = e.store
  tHLog : e'.tHLog = e.tHLog
  editGenerated : e'.editGenerated = e.editGenerated

variable {e : Endpoint}

lemma Quiescent.beginTransIfNotExist (h : Quiescent e) (t : TransId) :
    ∃ started, e.beginTransIfNotExist t =
      { e with started := started, reconstructIndoubts := true }.allocate t := by
  have hknown := h.known t
  simp only [Endpoint.beginTransIfNotExist, hknown, Endpoint.beginTransaction]
  by_cases hdone : e.reconstructIndoubts = true
  · refine ⟨e.started, ?_⟩
    rw [if_pos hdone, hknown, ← hdone]
  · have hconstruct : e.constructIndoubtTransactions =
        { e with started := true, reconstructIndoubts := true } := by
      unfold constructIndoubtTransactions
      rw [if_pos (by rw [h.noIndoubt]; rfl)]
    refine ⟨true, ?_⟩
    rw [if_neg hdone, hconstruct]
    simp only [hknown]

lemma Quiescent.mutations (h : Quiescent e) (T : Transaction) :
    ∃ r, Holds T r (run step e (T.mutations.map (mutate T.transactionId))) ∧
      SameData e (run step e (T.mutations.map (mutate T.transactionId))) := by
  obtain ⟨x, l, hmutations⟩ := exists_cons_of_ne_nil T.nonempty
  obtain ⟨started, hbegin⟩ := h.beginTransIfNotExist T.transactionId
  have hlook : (e.beginTransIfNotExist T.transactionId).transactionsById.lookup
      T.transactionId = some e.nextRef := by
    rw [hbegin]
    exact AList.lookup_insert _
  obtain ⟨r, hr, heq⟩ := onState_eq T.transactionId
    (addMutations e.tabledescriptor (x :: l)) e
  obtain rfl : e.nextRef = r := Option.some.inj (hlook.symm.trans hr)
  have hst := addMutations_frame e.tabledescriptor (x :: l)
    ((e.beginTransIfNotExist T.transactionId).heap e.nextRef)
  have hnew : (e.beginTransIfNotExist T.transactionId).heap e.nextRef =
      { new T.transactionId with
        startSequenceNumber := e.nextSequenceId
        transactionsToCheck := e.commitPendingTransactions } := by
    rw [hbegin]
    exact allocate_heap_self _ _
  rw [hmutations, run_mutate, heq]
  refine ⟨e.nextRef, ⟨?_, ?_, ?_, ?_, ?_, ?_, ?_, ?_⟩, ?_⟩
  · intro t
    rw [hbegin]
    refine (lookup_insert_eq _ _ _ _).trans ?_
    rw [h.known t]
  · rw [modify_heap_self, hst, hnew]
    rfl
  · rw [modify_heap_self, hst, hnew, writes, hmutations]
    rfl
  · rw [modify_heap_self, hst, hnew, Transaction.edit, Transaction.writes, hmutations]
    change _ = flatMap (WriteAction.getCells
      (e.beginTransIfNotExist T.transactionId).tabledescriptor) _
    rw [beginTransIfNotExist_tabledescriptor]
    rfl
  · rw [modify_heap_self, hst, hnew]
    rfl
  · rw [modify_heap_self, hst, hnew]
    rfl
  · intro u hu
    rw [modify_heap_of_ne hu, hbegin]
    exact NoWrites.allocate h.noWrites T.transactionId u
  · rw [hbegin]
    exact h.noIndoubt
  · rw [hbegin]
    exact ⟨rfl, rfl, rfl, rfl⟩

structure Voted (T : Transaction) (r : Ref) (e : Endpoint) : Prop extends Holds T r e where
  status : (e.heap r).status = .commitPending
  pending : r ∈ e.commitPendingTransactions

variable {r : Ref} {T : Transaction}

lemma Holds.commitRequest (h : Holds T r e) :
    Voted T r (e.step (.commitRequest T.transactionId .written)) ∧
      SameData (e.append (T.voteRecord e.tabledescriptor))
        (e.step (.commitRequest T.transactionId .written)) := by
  have hr : e.transactionsById.lookup T.transactionId = some r := by
    rw [h.known, if_pos rfl]
  have hself := addTransactionsToCheck_heap_self r e
  have hconf : ¬ (e.addTransactionsToCheck r).hasConflict r = true := by
    rw [hasConflict_of_only_writer]
    · simp
    · intro u hu
      rw [addTransactionsToCheck, modify_heap_of_ne hu]
      exact h.others u hu
  have hwrite : ((e.addTransactionsToCheck r).heap r).hasWrite = true := by
    rw [hself]
    simp [hasWrite, h.writeOrdering, writes, length_pos_iff, T.nonempty]
  have hstep : e.step (.commitRequest T.transactionId .written) =
      ((e.addTransactionsToCheck r).prepare r).append
        (((e.addTransactionsToCheck r).prepare r).commitRequestRecord r) := by
    simp only [step, call, Endpoint.commitRequest, hr, if_neg hconf, if_pos hwrite, logAppend]
  have hst : (e.step (.commitRequest T.transactionId .written)).heap r =
      { (e.addTransactionsToCheck r).heap r with
        status := .commitPending
        sequenceNumber := some e.nextSequenceId } := by
    rw [hstep]
    exact prepare_heap_self r _
  rw [hself] at hst
  have hrec : ((e.addTransactionsToCheck r).prepare r).commitRequestRecord r =
      T.voteRecord e.tabledescriptor := by
    rw [commitRequestRecord, prepare_heap_self, hself]
    simp only [h.transactionId, h.edit, voteRecord]
  refine ⟨⟨⟨?_, ?_, ?_, ?_, ?_, ?_, ?_, ?_⟩, ?_, ?_⟩, ?_⟩
  · rw [hstep]
    exact h.known
  · rw [hst]
    exact h.transactionId
  · rw [hst]
    exact h.writeOrdering
  · rw [hst, hstep]
    exact h.edit
  · rw [hst]
    exact h.reInstated
  · rw [hst]
    exact h.commitProgress
  · intro u hu
    rw [hstep]
    change (((e.addTransactionsToCheck r).prepare r).heap u).writeOrdering = []
    rw [prepare_heap_of_ne hu, addTransactionsToCheck, modify_heap_of_ne hu]
    exact h.others u hu
  · rw [hstep]
    exact h.noIndoubt
  · rw [hst]
  · rw [hstep]
    exact Finset.mem_insert_self _ _
  · rw [hstep, hrec]
    exact ⟨rfl, rfl, rfl, rfl⟩

lemma commitRecord_eq (hid : (e.heap r).transactionId = T.transactionId)
    (hedit : (e.heap r).edit = T.edit e.tabledescriptor) :
    e.commitRecord r = some (T.commitRecord e.tabledescriptor e.editGenerated) := by
  obtain ⟨kv, kvs, hcons⟩ := exists_cons_of_ne_nil (T.edit_ne_nil e.tabledescriptor)
  simp only [commitRecord, Transaction.commitRecord, hid, hedit]
  cases e.editGenerated with
  | false => rfl
  | true => simp [hcons]

lemma settleIndoubt_of_ordinary (h : (e.heap r).reInstated = false) : e.settleIndoubt r = e := by
  rw [settleIndoubt, h]
  rfl

lemma finishCommit_eq (hwrite : (e.heap r).hasWrite = true)
    (hre : (e.heap r).reInstated = false) (hpend : r ∈ e.commitPendingTransactions) :
    e.finishCommit r =
      ((((e.modify r (setStatus .commited)).removePending r).modify r
        fun state => { state with commitProgress := .commited }).retireTransaction r,
        .returned) := by
  have hself : (e.modify r (setStatus .commited)).heap r =
      { e.heap r with status := .commited } := modify_heap_self r _ e
  have hwrite' :
      ((e.modify r (setStatus .commited)).heap r).hasWrite = true := by
    rw [hself]
    exact hwrite
  have hre' : (((e.modify r (setStatus .commited)).removePending r).heap
      r).reInstated = false := by
    change ((e.modify r (setStatus .commited)).heap r).reInstated = false
    rw [hself]
    exact hre
  have hmem : r ∈ (e.modify r
      (setStatus .commited)).commitPendingTransactions := hpend
  simp only [finishCommit, hwrite', Bool.true_or, Bool.true_and, hmem, not_true_eq_false,
    decide_false, if_true, Bool.false_eq_true, if_false, settleIndoubt_of_ordinary hre']

lemma Voted.commit (h : Voted T r e) :
    let e' := e.step (.commit T.transactionId false T.commitTime none .written)
    Quiescent e' ∧ e'.tabledescriptor = e.tabledescriptor ∧
      e'.store = e.store ++ T.cells e.tabledescriptor ∧
      e'.tHLog = e.tHLog ++ [T.commitRecord e.tabledescriptor e.editGenerated] ∧
      e'.editGenerated = true := by
  have hr : e.transactionsById.lookup T.transactionId = some r := by
    rw [h.known, if_pos rfl]
  have hwr : (e.heap r).writeOrdering ≠ [] := by
    rw [h.writeOrdering, writes]
    exact fun hnil => T.nonempty (map_eq_nil_iff.1 hnil)
  -- the region after the writes and the record
  let e₁ : Endpoint := { e with
    heap := Function.update e.heap r { e.heap r with commitProgress := .committing }
    store := e.store ++ T.cells e.tabledescriptor }
  let e₂ : Endpoint := { e₁ with
    tHLog := e.tHLog ++ [T.commitRecord e.tabledescriptor e.editGenerated]
    editGenerated := true }
  have hself : e₁.heap r = { e.heap r with commitProgress := .committing } :=
    Function.update_self _ _ _
  have hwrite : (e₁.heap r).hasWrite = true := by
    rw [hself]
    simpa [hasWrite, length_pos_iff] using hwr
  have hre : (e₁.heap r).reInstated = false := by
    rw [hself]
    exact h.reInstated
  have hrec : e₁.commitRecord r =
      some (T.commitRecord e.tabledescriptor e.editGenerated) := by
    apply commitRecord_eq
    · rw [hself]
      exact h.transactionId
    · rw [hself]
      exact h.edit
  have happ : commitState r T.commitTime none .written
      (e.modify r fun state => { state with commitProgress := .committing }) =
      e₁.logCommit r .written := by
    simp only [commitState, modify_heap_self, h.reInstated, applyWrites_eq, h.writeOrdering]
    simp only [reached, Option.getD_none, take_length, Option.any_none,
      Bool.false_eq_true, if_false]
    rfl
  have hstep : e.step (.commit T.transactionId false T.commitTime none .written) =
      (e₂.finishCommit r).1 := by
    simp only [step, call, Endpoint.commit, hr, h.status, ne_eq, not_true_eq_false, if_false,
      h.commitProgress, happ, logCommit, hwrite, Bool.true_or, if_true, hrec]
    rfl
  let e₃ : Endpoint :=
    ((e₂.modify r (setStatus .commited)).removePending r).modify r
      fun state => { state with commitProgress := .commited }
  have htouch : Touches r e e₃ := by
    have hexecuting : Touches r e
        (e.modify r fun state => { state with commitProgress := .committing }) :=
      .of_modify rfl rfl
    have hlog : Touches r e e₂ := hexecuting.trans { Touches.refl r _ with }
    exact ((hlog.trans (.setStatus r .commited e₂)).trans (.removePending r _)).trans
      (.of_modify rfl rfl)
  intro e'
  have he' : e' = e₃.retireTransaction r := by
    have hfinish : e₂.finishCommit r = (e₃.retireTransaction r, .returned) :=
      finishCommit_eq (e := e₂) hwrite hre h.pending
    exact hstep.trans (congrArg Prod.fst hfinish)
  rw [he']
  refine ⟨⟨?_, ?_, h.noIndoubt⟩, rfl, rfl, rfl, rfl⟩
  · intro t
    change (e.transactionsById.erase (e₃.heap r).transactionId).lookup t = none
    rw [lookup_erase_eq, htouch.identity, h.transactionId, h.known t]
    split_ifs <;> rfl
  · intro u
    by_cases hu : u = r
    · rw [hu]
      exact congrArg writeOrdering (modify_heap_self r _ e₃)
    · refine (congrArg writeOrdering (modify_heap_of_ne hu _ e₃)).trans ?_
      rw [htouch.others u hu]
      exact h.others u hu

structure Ran (T : Transaction) (e e' : Endpoint) : Prop where
  quiescent : Quiescent e'
  tabledescriptor : e'.tabledescriptor = e.tabledescriptor
  store : e'.store = e.store ++ T.cells e.tabledescriptor
  tHLog : e'.tHLog = e.tHLog ++
    [T.voteRecord e.tabledescriptor, T.commitRecord e.tabledescriptor e.editGenerated]
  editGenerated : e'.editGenerated = true

lemma Quiescent.run_ops (h : Quiescent e) (T : Transaction) : Ran T e (run step e T.ops) := by
  obtain ⟨r, hholds, hsame⟩ := h.mutations T
  unfold ops
  rw [run_append]
  generalize run step e (T.mutations.map (mutate T.transactionId)) = e₁
    at hholds hsame
  obtain ⟨hvoted, hsame'⟩ := hholds.commitRequest
  rw [run_cons, run_cons, run_nil]
  generalize e₁.step (.commitRequest T.transactionId .written) = e₂ at hvoted hsame'
  obtain ⟨hquiescent, htd, hsto, hlog, hgenerated⟩ := hvoted.commit
  have htd₂ : e₂.tabledescriptor = e.tabledescriptor :=
    hsame'.tabledescriptor.trans hsame.tabledescriptor
  have hsto₂ : e₂.store = e.store := hsame'.store.trans hsame.store
  have hgenerated₂ : e₂.editGenerated = e.editGenerated :=
    hsame'.editGenerated.trans hsame.editGenerated
  have hlog₂ : e₂.tHLog = e.tHLog ++ [T.voteRecord e.tabledescriptor] := by
    rw [hsame'.tHLog, append, hsame.tHLog, hsame.tabledescriptor]
  refine ⟨hquiescent, htd.trans htd₂, ?_, ?_, hgenerated⟩
  · rw [hsto, hsto₂, htd₂]
  · rw [hlog, hlog₂, htd₂, hgenerated₂, append_assoc]
    rfl

end Endpoint

def serialLog (htd : TableDescriptor) : Bool → List Transaction → List WALEdit
  | _, [] => []
  | editGenerated, T :: S =>
    T.voteRecord htd :: T.commitRecord htd editGenerated :: serialLog htd true S

lemma Endpoint.Quiescent.run_serial {e : Endpoint} (h : Quiescent e) (S : List Transaction) :
    (run step e (S.flatMap ops)).store = e.store ++ S.flatMap (cells · e.tabledescriptor) ∧
      (run step e (S.flatMap ops)).tHLog =
        e.tHLog ++ serialLog e.tabledescriptor e.editGenerated S := by
  induction S generalizing e with
  | nil => simp [serialLog]
  | cons T S ih =>
    have hran := h.run_ops T
    rw [flatMap_cons, run_append]
    obtain ⟨hsto, hlog⟩ := ih hran.quiescent
    rw [hsto, hlog, hran.store, hran.tHLog, hran.tabledescriptor, hran.editGenerated]
    simp [serialLog]

end Trafodion.Region
