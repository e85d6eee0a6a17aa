import Trafodion.RegionSecondPhase
import Trafodion.Runs

/-!
# A second phase that throws

When a write of the second phase throws, the transaction is marked aborted and retired.
The coordinator retries the commit, so a prepared transaction has to stay known until all
its writes are in the region.
-/
namespace Trafodion.Region.Endpoint
open TombstoneStore

structure Prepared (e : Endpoint) (transactionId : TransId) (r : Ref) : Prop where
  known : e.transactionsById.lookup transactionId = some r
  identity : (e.heap r).transactionId = transactionId
  status : (e.heap r).status = .commitPending
  progress : (e.heap r).commitProgress = .none
  pending : r ∈ e.commitPendingTransactions

variable (r : Ref) (e : Endpoint)

/-- The writes that the second phase hands to the region at the time `now`, in order. -/
def secondPhaseWrites (r : Ref) (now : ℕ) : List WriteAction :=
  if (e.heap r).reInstated then
    ((e.indoubtTransactionsById.lookup (e.heap r).transactionId).getD []).map fun kv =>
      (rebuild kv).stamp now
  else (e.heap r).writeOrdering

/-- The cells of a list of writes made at the time `now`. -/
def cellsOf (now : ℕ) (l : List WriteAction) :
    List (Cell Bytes Bytes Bytes Bytes) :=
  l.flatMap (WriteAction.regionCells e.tabledescriptor now)

/-- What a commit called in `e` that has thrown may leave behind as `e'`. -/
structure Retryable (transactionId : TransId) (r : Ref) (now : ℕ) (e e' : Endpoint) :
    Prop where
  unchanged_or_pending :
    (∀ row family qualifier, TombstoneStore.get e'.store row family qualifier =
        TombstoneStore.get e.store row family qualifier) ∨
    e'.transactionsById.lookup transactionId = some r ∧ (e'.heap r).status = .commitPending ∧
      ∀ later ignoreUnknown,
        (e'.commit transactionId ignoreUnknown later none .written).2 = .returned →
        e.cellsOf now (e.secondPhaseWrites r now) ⊆
          (e'.commit transactionId ignoreUnknown later none .written).1.store
  not_forgotten_in_part :
    ¬ (e'.transactionsById.lookup transactionId = none ∧
      ∃ i, 0 < i ∧ i < (e.secondPhaseWrites r now).length ∧
        e'.store = e.store ++ e.cellsOf now ((e.secondPhaseWrites r now).take i))
  not_stranded :
    r ∈ e'.commitPendingTransactions → e'.transactionsById.lookup transactionId = some r

lemma retireTransaction_lookup :
    (e.retireTransaction r).transactionsById.lookup (e.heap r).transactionId = none := by
  simp [retireTransaction]

lemma failCommit_stranded {e e₁ : Endpoint} {r : Ref} (happ : Applied r e e₁)
    (hpend : r ∈ e.commitPendingTransactions) :
    (e₁.failCommit r).1.transactionsById.lookup (e.heap r).transactionId = none ∧
      r ∈ (e₁.failCommit r).1.commitPendingTransactions ∧ (e₁.failCommit r).1.store = e₁.store := by
  have hid : ((e₁.modify r (TransactionState.setStatus .aborted)).heap r).transactionId =
      (e.heap r).transactionId := by
    simpa [TransactionState.setStatus] using happ.state.transactionId
  have hsame : e₁.commitPendingTransactions = e.commitPendingTransactions := by
    rw [happ.frame]
  refine ⟨?_, ?_, rfl⟩
  · rw [← hid]
    exact retireTransaction_lookup r _
  · change r ∈ e₁.commitPendingTransactions
    rw [hsame]
    exact hpend

lemma commitState_throws (r : Ref) (now : ℕ) (how : Append) {i : ℕ}
    (hi : i < (e.secondPhaseWrites r now).length) :
    ∃ e₁, Applied r e e₁ ∧ e.commitState r now (some i) how = e₁.failCommit r ∧
      e₁.store = e.store ++ e.cellsOf now ((e.secondPhaseWrites r now).take i) := by
  simp only [commitState]
  by_cases hr : (e.heap r).reInstated = true
  · simp only [secondPhaseWrites, if_pos hr] at hi ⊢
    cases hkvs : e.indoubtTransactionsById.lookup (e.heap r).transactionId with
    | none => simp [hkvs] at hi
    | some kvs =>
      simp only [hkvs, Option.getD_some, List.length_map] at hi
      obtain ⟨hsto, hthrew⟩ := applyIndoubt_store now r kvs (some i) e
      have happ := applyIndoubt_applied now r kvs (some i) hr
      refine ⟨_, happ, ?_, ?_⟩
      · simp [hthrew, hi]
      · rw [hsto]
        simp [reached, rebuiltCells, cellsOf, List.flatMap_map, ← List.map_take]
  · simp only [secondPhaseWrites, if_neg hr] at hi ⊢
    rw [applyWrites_eq]
    refine ⟨{ e with store := e.store ++ e.cellsOf now ((e.heap r).writeOrdering.take i) },
      .of_heap_eq rfl rfl, ?_, rfl⟩
    simp [hi, reached, cellsOf]

/-- Whatever the prepared transaction and wherever its second phase throws, the writes
before that point stay in the region, the transaction is forgotten, its state stays among
the commit-pending ones, and a later commit finds no transaction. -/
theorem commit_never_retryable {e : Endpoint} {transactionId : TransId} {r : Ref}
    (hprepared : Prepared e transactionId r) (ignoreUnknown : Bool) (now : ℕ) (how : Append)
    {i : ℕ} (hi : i < (e.secondPhaseWrites r now).length) :
    (e.commit transactionId ignoreUnknown now (some i) how).2 = .threw .regionThrew ∧
      (e.commit transactionId ignoreUnknown now (some i) how).1.store =
        e.store ++ e.cellsOf now ((e.secondPhaseWrites r now).take i) ∧
      (∀ again later throwsAt how',
        ((e.commit transactionId ignoreUnknown now (some i) how).1.commit transactionId again
          later throwsAt how').1 = (e.commit transactionId ignoreUnknown now (some i) how).1) ∧
      ¬ Retryable transactionId r now e
        (e.commit transactionId ignoreUnknown now (some i) how).1 := by
  let e₀ := e.modify r fun state => { state with commitProgress := .committing }
  have hwrites : e₀.secondPhaseWrites r now = e.secondPhaseWrites r now := by
    unfold secondPhaseWrites
    rw [modify_heap_self]
    rfl
  have hid : (e₀.heap r).transactionId = transactionId := by
    simpa [e₀] using hprepared.identity
  have hcommit : e.commit transactionId ignoreUnknown now (some i) how =
      e₀.commitState r now (some i) how := by
    simp [commit, hprepared.known, hprepared.status, hprepared.progress, e₀]
  obtain ⟨e₁, happlied, hfail, hstore⟩ :=
    commitState_throws e₀ r now how (hwrites.symm ▸ hi)
  obtain ⟨hunknown, hpending, hsame⟩ := failCommit_stranded happlied hprepared.pending
  rw [hid] at hunknown
  rw [hcommit, hfail]
  refine ⟨rfl, ?_, ?_, ?_⟩
  · rw [hsame, hstore, hwrites]
    rfl
  · intro again later throwsAt how'
    simp [commit, hunknown]
  · intro hretry
    have hknown := hretry.not_stranded hpending
    rw [hunknown] at hknown
    exact absurd hknown (by simp)

def twoPuts : Endpoint :=
  Runs.run step (opened ⟨[[1]], one_family_nonempty⟩ [] ∅ ∅ false)
    [.put 5 1 (.column [1] [1] [1] [7]), .put 5 1 (.column [2] [1] [1] [8]),
      .commitRequest 5 .written]

lemma twoPuts_prepared : Prepared twoPuts 5 0 :=
  ⟨by decide, by decide, by decide, by decide, by decide⟩

theorem twoPuts_never_retryable :
    ¬ Retryable 5 0 2 twoPuts (twoPuts.commit 5 false 2 (some 1) .written).1 :=
  (commit_never_retryable twoPuts_prepared false 2 .written (by decide)).2.2.2

/-- The second put throws: the first one stays visible, and nobody knows the transaction. -/
theorem first_put_visible_second_lost : Prepared twoPuts 5 0 ∧
      (twoPuts.commit 5 false 2 (some 1) .written).2 = .threw .regionThrew ∧
      TombstoneStore.get (twoPuts.commit 5 false 2 (some 1) .written).1.store [1] [1] [1] =
        some (1, [7]) ∧
      TombstoneStore.get (twoPuts.commit 5 false 2 (some 1) .written).1.store [2] [1] [1] = none ∧
      (twoPuts.commit 5 false 2 (some 1) .written).1.transactionsById.lookup 5 = none ∧
      0 ∈ (twoPuts.commit 5 false 2 (some 1) .written).1.commitPendingTransactions ∧
      ¬ Retryable 5 0 2 twoPuts (twoPuts.commit 5 false 2 (some 1) .written).1 := by
  have hpending :
      0 ∈ (twoPuts.commit 5 false 2 (some 1) .written).1.commitPendingTransactions := by
    decide
  have hunknown :
      (twoPuts.commit 5 false 2 (some 1) .written).1.transactionsById.lookup 5 = none := by
    decide
  refine ⟨twoPuts_prepared, by decide, by decide, by decide, hunknown, hpending, ?_⟩
  intro hretry
  have hknown := hretry.not_stranded hpending
  rw [hunknown] at hknown
  exact absurd hknown (by simp)

end Trafodion.Region.Endpoint
