import Trafodion.RegionBuffering

/-!
# Isolation of in-doubt transactions

An in-doubt transaction is reinstated as a commit-pending one, but its state is built without
its writes. Validation looks at buffered writes, so it never finds a conflict with an
in-doubt transaction.
-/
namespace Trafodion.Region.Endpoint
open FiniteMaps TransactionState

/-- In no run from `e₀` does a commit request succeed for a transaction that reads or writes
a row of another transaction that is still in doubt. -/
def Isolated (e₀ : Endpoint) : Prop :=
  ∀ (ops : List Op) (e : Endpoint) (t : TransId) (r : Ref) (how : Append),
    e = Runs.run step e₀ ops → e.transactionsById.lookup t = some r →
    (e.commitRequest t how).2 = .vote .commitOk ∨
      (e.commitRequest t how).2 = .vote .commitOkReadOnly →
    ∀ s kvs, s ≠ t → e.indoubtTransactionsById.lookup s = some kvs →
      ∀ kv ∈ kvs, ¬ (e.heap r).Reads kv.row ∧ kv.row ∉ (e.heap r).writeRows

/-- In `e'` no transaction is in doubt that is not in doubt in `e`. -/
def IndoubtWithin (e e' : Endpoint) : Prop :=
  ∀ s kvs, e'.indoubtTransactionsById.lookup s = some kvs →
    e.indoubtTransactionsById.lookup s = some kvs

namespace IndoubtWithin

variable {e e' : Endpoint}

lemma of_eq (h : e'.indoubtTransactionsById = e.indoubtTransactionsById) :
    IndoubtWithin e e' := by
  intro s kvs hs
  rw [← h]
  exact hs

lemma of_settled {r : Ref} (h : SameIndoubt (e.settleIndoubt r) e') : IndoubtWithin e e' := by
  intro s kvs hs
  rw [h.byId] at hs
  unfold settleIndoubt at hs
  split_ifs at hs
  · exact (lookup_of_erase hs).2
  · exact hs

section
variable (e : Endpoint) (t : TransId)

lemma beginTransaction :
    (e.beginTransaction t).indoubtTransactionsById = e.indoubtTransactionsById :=
  beginTransaction_keeps (P := fun e' : Endpoint =>
      e'.indoubtTransactionsById = e.indoubtTransactionsById)
    rfl (fun _ _ h => h) (fun _ _ _ h => h) fun _ h => h

lemma onState (g : StateMap) :
    (e.onState t g).indoubtTransactionsById = e.indoubtTransactionsById := by
  obtain ⟨r, -, heq⟩ := onState_eq t g e
  rw [heq]
  exact beginTransIfNotExist_rule (P := fun e' : Endpoint =>
    e'.indoubtTransactionsById = e.indoubtTransactionsById) rfl (beginTransaction e t)

lemma commitRequest (how : Append) :
    (e.commitRequest t how).1.indoubtTransactionsById = e.indoubtTransactionsById := by
  cases hr : e.transactionsById.lookup t with
  | none => simp only [Endpoint.commitRequest, hr]
  | some r =>
    have hend := commitRequest_cases hr how
    generalize e.commitRequest t how = result at hend
    cases hend <;> rfl

lemma commit (ign : Bool) (now : ℕ)
    (throwsAt : Option ℕ) (how : Append) : IndoubtWithin e (e.commit t ign now throwsAt how).1 := by
  obtain ⟨reply, heq⟩ | ⟨r, -, -, hend⟩ := commit_cases t ign now throwsAt how e
  · rw [heq]
    exact of_eq rfl
  · generalize e.commit t ign now throwsAt how = result at hend
    cases hend with
    | aborted e₁ _ hind _ => exact of_eq hind.byId
    | halted e₁ happ _ _ => exact of_eq (by rw [happ.frame])
    | failed e₁ happ _ =>
      apply of_eq
      change e₁.indoubtTransactionsById = _
      rw [happ.frame]
    | commited e₁ _ hind _ => exact of_settled ⟨hind.byId, hind.byTmid⟩

lemma abortTransaction (how : Append) : IndoubtWithin e (e.abortTransaction t how).1 := by
  obtain ⟨reply, heq⟩ | ⟨r, -, hend⟩ := abortTransaction_cases t how e
  · rw [heq]
    exact of_eq rfl
  · generalize e.abortTransaction t how = result at hend
    cases hend with
    | halted log f _ _ => exact of_eq rfl
    | aborted e₁ _ hind _ => exact of_settled ⟨hind.byId, hind.byTmid⟩

end

lemma step (e : Endpoint) (op : Op) : IndoubtWithin e (e.step op) := by
  cases hbuf : op.buffers e.tabledescriptor with
  | some x =>
    rw [step_of_buffers (t := x.1) (g := x.2) hbuf]
    exact of_eq (onState e _ _)
  | none =>
    cases op with
    | beginTransaction t => exact of_eq (beginTransaction e t)
    | commitRequest t how => exact of_eq (commitRequest e t how)
    | commit t ign now throwsAt how => exact commit e t ign now throwsAt how
    | abortTransaction t how => exact abortTransaction e t how
    | removeUnNeededCommitedTransactions => exact of_eq rfl
    | _ => cases hbuf

lemma run (e : Endpoint) (ops : List Op) : IndoubtWithin e (Runs.run Endpoint.step e ops) :=
  Runs.run_invariant (I := IndoubtWithin e)
    (fun e' op h s kvs hs => h s kvs (step e' op s kvs hs)) (of_eq rfl) ops

end IndoubtWithin

def NoWrites (e : Endpoint) : Prop := ∀ r, (e.heap r).writeOrdering = []

lemma NoWrites.reinstate {e : Endpoint} (h : NoWrites e) (t : TransId) :
    NoWrites (e.reinstate t) := by
  intro r
  by_cases hr : r = e.nextRef
  · rw [hr, reinstate_heap_self]
    rfl
  · rw [reinstate_heap_of_ne hr]
    exact h r

lemma NoWrites.allocate {e : Endpoint} (h : NoWrites e) (t : TransId) :
    NoWrites (e.allocate t) := by
  intro r
  by_cases hr : r = e.nextRef
  · rw [hr, allocate_heap_self]
    rfl
  · rw [allocate_heap_of_ne hr]
    exact h r

lemma hasConflict_of_only_writer {e : Endpoint} {r : Ref}
    (h : ∀ u, u ≠ r → (e.heap u).writeOrdering = []) : e.hasConflict r = false := by
  apply decide_eq_false
  rintro ⟨u, -, hconf⟩
  have hnone : (e.heap r).hasConflictWith (e.heap u) = false := by
    rw [hasConflictWith_eq_false_iff]
    by_cases hu : u = r
    · rw [hu]
      exact .inr (.inl rfl)
    · right; right
      intro row hrow
      simp [writeRows, h u hu] at hrow
  rw [hnone] at hconf
  exact absurd hconf (by simp)

section Reopened

variable (htd : TableDescriptor) (store : List (TombstoneStore.Cell Bytes Bytes Bytes Bytes))
  (indoubt : AList fun _ : TransId => List KeyValue) (counts : AList fun _ : BitVec 32 => ℕ)
  (editGenerated : Bool)

def reopened : Endpoint :=
  (opened htd store indoubt counts editGenerated).constructIndoubtTransactions

lemma reopened_noWrites : NoWrites (reopened htd store indoubt counts editGenerated) :=
  constructIndoubtTransactions_keeps (P := NoWrites) (fun _ => rfl) (fun _ _ h => h)
    fun _ t _ h => h.reinstate t

lemma reopened_indoubt :
    (reopened htd store indoubt counts editGenerated).indoubtTransactionsById = indoubt :=
  constructIndoubtTransactions_keeps
    (P := fun e : Endpoint => e.indoubtTransactionsById = indoubt) rfl (fun _ _ h => h)
    fun _ _ _ h => h

lemma reopened_put_accepted (t : TransId) (now : ℕ) (p : Put) :
    ∃ e r, e = Runs.run step (reopened htd store indoubt counts editGenerated) [.put t now p] ∧
      e.transactionsById.lookup t = some r ∧ p.row ∈ (e.heap r).writeRows ∧
      e.indoubtTransactionsById = indoubt ∧ ((e.commitRequest t .written).2 = .vote .commitOk ∨
        (e.commitRequest t .written).2 = .vote .commitOkReadOnly) := by
  obtain ⟨r, hr, heq⟩ := onState_eq t (addWrite
    (reopened htd store indoubt counts editGenerated).tabledescriptor now p)
    (reopened htd store indoubt counts editGenerated)
  have hbegun :
      NoWrites ((reopened htd store indoubt counts editGenerated).beginTransIfNotExist t) := by
    apply beginTransIfNotExist_rule (reopened_noWrites htd store indoubt counts editGenerated)
    exact beginTransaction_keeps (reopened_noWrites htd store indoubt counts editGenerated)
      (fun _ _ h => h) (fun _ s _ h => h.reinstate s) fun _ h => h.allocate t
  let e := (reopened htd store indoubt counts editGenerated).step (.put t now p)
  have he : e = ((reopened htd store indoubt counts editGenerated).beginTransIfNotExist t).modify r
      (addWrite (reopened htd store indoubt counts editGenerated).tabledescriptor now p) := heq
  have hlook : e.transactionsById.lookup t = some r := by
    rw [he]
    exact hr
  have hrow : p.row ∈ (e.heap r).writeRows := by
    rw [he, modify_heap_self]
    simp [writeRows, addWrite, addAction, addRead, WriteAction.getRow, Put.stamp]
  have hind : e.indoubtTransactionsById = indoubt :=
    (IndoubtWithin.onState _ t _).trans (reopened_indoubt htd store indoubt counts editGenerated)
  have honly : ∀ u, u ≠ r → ((e.addTransactionsToCheck r).heap u).writeOrdering = [] := by
    intro u hu
    rw [addTransactionsToCheck, modify_heap_of_ne hu, he, modify_heap_of_ne hu]
    exact hbegun u
  refine ⟨e, r, rfl, hlook, hrow, hind, ?_⟩
  have hend := commitRequest_cases hlook .written
  generalize e.commitRequest t .written = result at hend
  cases hend with
  | conflict hconf =>
    rw [hasConflict_of_only_writer honly] at hconf
    exact absurd hconf (by simp)
  | ok _ _ log reply hrep =>
    left
    rw [hrep, if_pos rfl]
  | readOnly _ _ => exact .inr rfl

/-- A reopened region isolates its in-doubt transactions exactly when none of them has
written anything. -/
theorem isolated_iff_nothing_in_doubt : Isolated (reopened htd store indoubt counts editGenerated) ↔
      ∀ s kvs, indoubt.lookup s = some kvs → kvs = [] := by
  constructor
  · intro hisolated s kvs hs
    by_contra hne
    obtain ⟨kv, hkv⟩ := List.exists_mem_of_ne_nil kvs hne
    obtain ⟨t, ht⟩ : ∃ t : TransId, t ≠ s := by
      by_cases h0 : s = 0
      · exact ⟨1, by rw [h0]; decide⟩
      · exact ⟨0, fun h => h0 h.symm⟩
    obtain ⟨e, r, he, hlookup, hrow, hindoubt, haccepted⟩ :=
      reopened_put_accepted htd store indoubt counts editGenerated t 0 (.column kv.row [] [] [])
    have hfree := hisolated _ e t r .written he hlookup haccepted s kvs ht.symm
      (hindoubt.symm ▸ hs) kv hkv
    exact hfree.2 hrow
  · intro hempty ops e t r how he _ _ s kvs _ hs kv hkv
    subst he
    have hbefore := IndoubtWithin.run (reopened htd store indoubt counts editGenerated) ops s kvs hs
    rw [reopened_indoubt] at hbefore
    rw [hempty s kvs hbefore] at hkv
    exact absurd hkv List.not_mem_nil

end Reopened

/-- A region reopened with transaction 9 in doubt, which has put the row `[1]`. -/
def oneInDoubt : Endpoint :=
  reopened ⟨[[1]], one_family_nonempty⟩ []
    ((∅ : AList fun _ : TransId => List KeyValue).insert 9
      [⟨[1], [1], [1], some 1, .put, [7]⟩])
    ((∅ : AList fun _ : BitVec 32 => ℕ).insert 0 1) false

/-- Transaction 5 puts the same row and may commit. -/
theorem put_over_in_doubt_row :
    (Runs.run step oneInDoubt [.put 5 2 (.column [1] [1] [1] [8])]).indoubtTransactionsById.lookup
        9 = some [⟨[1], [1], [1], some 1, .put, [7]⟩] ∧
      ((Runs.run step oneInDoubt [.put 5 2 (.column [1] [1] [1] [8])]).commitRequest 5
        .written).2 = .vote .commitOk ∧ ¬ Isolated oneInDoubt := by
  refine ⟨by decide, by decide, ?_⟩
  intro hisolated
  have hfree := hisolated [.put 5 2 (.column [1] [1] [1] [8])] _ 5 1 .written rfl (by decide)
    (by decide) 9 [⟨[1], [1], [1], some 1, .put, [7]⟩] (by decide) (by decide) _
    (List.mem_singleton_self _)
  exact hfree.2 (by decide)

end Trafodion.Region.Endpoint
