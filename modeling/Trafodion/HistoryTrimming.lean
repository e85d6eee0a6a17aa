import Trafodion.RegionBuffering

/-!
# The history of commits at a region

`removeUnNeededCommitedTransactions` removes the sequence numbers below the smallest start of a known
transaction. A transaction that is known still finds every number that was handed out since it began,
as long as the 32-bit counter has not wrapped around.
-/
namespace Trafodion.Region

open List Endpoint Runs TransactionState

/-- An endpoint with a record of the transactions that received a sequence number: `put` into
`commitedTransactionsBySequenceNumber` goes with `setSequenceNumber`. -/
structure Historian where
  endpoint : Endpoint
  received : List (ℤ × Ref)

namespace Historian

def numbered (e : Endpoint) : List (ℤ × Ref) :=
  e.commitedTransactionsBySequenceNumber.entries.map fun x => (x.1, x.2)

def step (s : Historian) (event : Event) : Historian :=
  ⟨s.endpoint.react event, s.received ++ numbered (s.endpoint.react event)⟩

def start (htd : TableDescriptor) (store : List (TombstoneStore.Cell Bytes Bytes Bytes Bytes))
    (indoubt : AList fun _ : TransId => List KeyValue)
    (counts : AList fun _ : BitVec 32 => ℕ) (editGenerated : Bool) : Historian :=
  ⟨opened htd store indoubt counts editGenerated, []⟩

/-- Every number that was handed out since a known transaction began is in the history, and is that
of the transaction that received it. -/
def Safe (s : Historian) : Prop :=
  ∀ t r, s.endpoint.transactionsById.lookup t = some r →
    (∀ q, (s.endpoint.heap r).startSequenceNumber ≤ q → q < s.endpoint.nextSequenceId →
      ∃ u, s.endpoint.commitedTransactionsBySequenceNumber.lookup q = some u) ∧
    ∀ x ∈ s.received, (s.endpoint.heap r).startSequenceNumber ≤ x.1 →
      s.endpoint.commitedTransactionsBySequenceNumber.lookup x.1 = some x.2

end Historian

namespace Endpoint
open FiniteMaps

/-- What holds of the history when the transactions in `L` have received numbers. -/
structure Kept (L : List (ℤ × Ref)) (e : Endpoint) : Prop extends WellFormed e where
  complete : ∀ t r, e.transactionsById.lookup t = some r →
    ∀ q, (e.heap r).startSequenceNumber ≤ q → q < e.nextSequenceId →
      ∃ u, e.commitedTransactionsBySequenceNumber.lookup q = some u
  received : ∀ x ∈ L, x.1 < e.nextSequenceId ∧
    ∀ t r, e.transactionsById.lookup t = some r → (e.heap r).startSequenceNumber ≤ x.1 →
      e.commitedTransactionsBySequenceNumber.lookup x.1 = some x.2

namespace Kept

variable {L : List (ℤ × Ref)} {e e' : Endpoint} {t : TransId} {r : Ref}

lemma of_known (h : Kept L e) (hwellFormed : WellFormed e')
    (hnext : e'.nextSequenceId = e.nextSequenceId)
    (hknown : ∀ t r, e'.transactionsById.lookup t = some r → e.transactionsById.lookup t = some r ∧
        (e'.heap r).startSequenceNumber = (e.heap r).startSequenceNumber)
    (hnums : ∀ t r, e'.transactionsById.lookup t = some r →
      ∀ q, (e'.heap r).startSequenceNumber ≤ q → e'.commitedTransactionsBySequenceNumber.lookup q =
          e.commitedTransactionsBySequenceNumber.lookup q) : Kept L e' := by
  constructor
  · exact hwellFormed
  · intro t r hr q hq hlt
    obtain ⟨hold, hst0⟩ := hknown t r hr
    rw [hnums t r hr q hq]
    rw [hst0] at hq
    rw [hnext] at hlt
    exact h.complete t r hold q hq hlt
  · intro x hx
    obtain ⟨hlt, hfd⟩ := h.received x hx
    rw [hnext]
    refine ⟨hlt, fun t r hr hst0 => ?_⟩
    obtain ⟨hold, hsame⟩ := hknown t r hr
    rw [hnums t r hr _ hst0]
    rw [hsame] at hst0
    exact hfd t r hold hst0

lemma touches (h : Kept L e) (htouch : Touches r e e') : Kept L e' := by
  apply h.of_known (h.toWellFormed.touches htouch) htouch.nextSequenceId
  · intro t u hu
    rw [htouch.known] at hu
    refine ⟨hu, ?_⟩
    by_cases hur : u = r
    · rw [hur]
      exact htouch.start
    · rw [htouch.others u hur]
  · intro t u _ q _
    rw [htouch.numbers]

lemma modify (h : Kept L e) (r : Ref) {f : StateMap}
    (hid : (f (e.heap r)).transactionId = (e.heap r).transactionId)
    (hst0 : (f (e.heap r)).startSequenceNumber = (e.heap r).startSequenceNumber) :
    Kept L (e.modify r f) :=
  h.touches (.of_modify hid hst0)

lemma setStatus (h : Kept L e) (r : Ref) (status : Status) :
    Kept L (e.modify r (setStatus status)) :=
  h.modify r rfl rfl

section
variable (h : Kept L e)
include h

lemma erase (t : TransId) : Kept L { e with transactionsById := e.transactionsById.erase t } := by
  apply h.of_known (h.toWellFormed.of_lookup (fun _ _ hu => (lookup_of_erase hu).2) fun _ _ hu => hu) rfl
  · exact fun t' u hu => ⟨(lookup_of_erase hu).2, rfl⟩
  · exact fun t' u _ q _ => rfl

lemma retireTransaction (r : Ref) : Kept L (e.retireTransaction r) :=
  (h.modify r (f := clearState) rfl rfl).erase _

lemma allocate (t : TransId) : Kept L (e.allocate t) := by
  constructor
  · exact h.toWellFormed.allocate t
  · intro t' u hu q hq hlt
    obtain ⟨-, rfl⟩ | ⟨-, hne, hold⟩ := h.lookup_insert_cases hu
    · -- the new transaction starts after every number
      rw [allocate_heap_self] at hq
      exact absurd hlt (not_lt.2 hq)
    · rw [allocate_heap_of_ne hne] at hq
      exact h.complete t' u hold q hq hlt
  · intro x hx
    obtain ⟨hlt, hfd⟩ := h.received x hx
    refine ⟨hlt, fun t' u hu hst0 => ?_⟩
    obtain ⟨-, rfl⟩ | ⟨-, hne, hold⟩ := h.lookup_insert_cases hu
    · rw [allocate_heap_self] at hst0
      exact absurd hlt (not_lt.2 hst0)
    · rw [allocate_heap_of_ne hne] at hst0
      exact hfd t' u hold hst0

lemma prepare (hr : r < e.nextRef) (hroom : e.nextSequenceId + 1 < 2 ^ 31) :
    Kept L (e.prepare r) := by
  have hnext : (e.prepare r).nextSequenceId = e.nextSequenceId + 1 :=
    increment_eq h.counter hroom
  have hlook : ∀ q, (e.prepare r).commitedTransactionsBySequenceNumber.lookup q =
      if q = e.nextSequenceId then some r
      else e.commitedTransactionsBySequenceNumber.lookup q :=
    fun q => lookup_insert_eq _ _ _ _
  have hst0 : ∀ u, ((e.prepare r).heap u).startSequenceNumber =
      (e.heap u).startSequenceNumber := by
    intro u
    obtain ⟨_, _, heq⟩ := prepare_heap r u e
    rw [heq]
  constructor
  · exact h.toWellFormed.prepare hr hroom
  · intro t u hu q hq hlt
    rw [hst0] at hq
    rw [hnext] at hlt
    rw [hlook]
    split_ifs with hnew
    · exact ⟨r, rfl⟩
    · exact h.complete t u hu q hq (by omega)
  · intro x hx
    obtain ⟨hlt, hfd⟩ := h.received x hx
    rw [hnext]
    refine ⟨by omega, fun t u hu hle => ?_⟩
    rw [hst0] at hle
    rw [hlook, if_neg (by omega)]
    exact hfd t u hu hle

lemma reinstate (t : TransId) (hroom : e.nextSequenceId + 1 < 2 ^ 31) :
    Kept L (e.reinstate t) := by
  rw [reinstate_eq]
  apply Kept.prepare
  · exact (h.allocate t).modify _ rfl rfl
  · exact Nat.lt_succ_self _
  · exact hroom

lemma flags (started : Bool) :
    Kept L { e with started := started, reconstructIndoubts := true } :=
  { h with }

lemma constructIndoubtTransactions (hroom : e.Room) : Kept L e.constructIndoubtTransactions := by
  apply constructIndoubtTransactions_rule h.counter hroom h
  · exact fun e' started h' => h'.flags started
  · exact fun e' s _ h' _ hroom' => h'.reinstate s hroom'

lemma beginTransaction (hroom : e.Room) (t : TransId) : Kept L (e.beginTransaction t) := by
  apply beginTransaction_rule h.counter hroom h
  · exact fun e' started h' => h'.flags started
  · exact fun _ e' s _ h' _ hroom' => h'.reinstate s hroom'
  · exact fun e' h' _ _ => h'.allocate t

lemma onState (hroom : e.Room) (t : TransId) {f : StateMap}
    (hf : ∀ s, TransactionState.Buffered s (f s)) : Kept L (e.onState t f) := by
  obtain ⟨r, -, heq⟩ := onState_eq t f e
  have hbegun : Kept L (e.beginTransIfNotExist t) :=
    beginTransIfNotExist_rule h (h.beginTransaction hroom t)
  have hfrm := (hf ((e.beginTransIfNotExist t).heap r)).frame
  rw [heq]
  apply hbegun.modify r <;> rw [hfrm]

lemma commitRequest (hroom : e.Room) (t : TransId) (how : Append) :
    Kept L (e.commitRequest t how).1 := by
  cases hr : e.transactionsById.lookup t with
  | none =>
    simp only [Endpoint.commitRequest, hr]
    exact h
  | some r =>
    have hchk : Kept L (e.addTransactionsToCheck r) := h.modify r rfl rfl
    have hend := commitRequest_cases hr how
    generalize e.commitRequest t how = result at hend
    cases hend with
    | conflict _ => exact (hchk.setStatus r _).retireTransaction r
    | ok _ _ log reply _ =>
      have hprep : Kept L ((e.addTransactionsToCheck r).prepare r) := by
        apply hchk.prepare (h.allocated t r hr)
        unfold Room at hroom
        change e.nextSequenceId + 1 < 2 ^ 31
        omega
      exact { hprep with }
    | readOnly _ _ => exact (hchk.setStatus r _).retireTransaction r

lemma commitEnd {how : Append} {res : Endpoint × Reply}
    (hend : CommitEnd r how e res) : Kept L res.1 := by
  cases hend with
  | aborted e₁ htouch _ _ => exact (h.touches htouch).retireTransaction r
  | halted e₁ happ _ _ => exact h.touches (.of_applied happ)
  | failed e₁ happ _ => exact (h.touches (.of_applied happ)).setStatus r _
  | commited e₁ htouch _ _ => exact (h.touches htouch).retireTransaction r

lemma commit (t : TransId) (ign : Bool) (now : ℕ)
    (throwsAt : Option ℕ) (how : Append) : Kept L (e.commit t ign now throwsAt how).1 := by
  obtain ⟨reply, heq⟩ | ⟨r, -, -, hend⟩ := commit_cases t ign now throwsAt how e
  · rw [heq]
    exact h
  · exact h.commitEnd hend

lemma abortTransaction (t : TransId) (how : Append) : Kept L (e.abortTransaction t how).1 := by
  obtain ⟨reply, heq⟩ | ⟨r, -, hend⟩ := abortTransaction_cases t how e
  · rw [heq]
    exact h
  · generalize e.abortTransaction t how = result at hend
    cases hend with
    | halted log f _ _ => exact { h.setStatus r .aborted with }
    | aborted e₁ htouch _ _ => exact (h.touches htouch).retireTransaction r

/-- The chore removes only numbers below the start of every known transaction. -/
theorem removeUnNeededCommitedTransactions : Kept L e.removeUnNeededCommitedTransactions := by
  apply h.of_known h.toWellFormed.removeUnNeededCommitedTransactions rfl
  · exact fun t u hu => ⟨hu, rfl⟩
  · exact fun t u hu q hq => lookup_removeUnNeeded (e := e) (r := u) hu hq

lemma leaseExpired (t : TransId) (now : ℕ) (throwsAt : Option ℕ)
    (how : Append) : Kept L (e.leaseExpired t now throwsAt how) := by
  unfold Endpoint.leaseExpired
  cases hr : e.transactionsById.lookup t with
  | none => exact h
  | some r =>
    have hrem := h.erase t
    dsimp only
    cases (e.heap r).status with
    | pending => exact (hrem.setStatus r .aborted).retireTransaction r
    | commitPending =>
      split_ifs
      · apply hrem.commitEnd
        exact commitState_end r now throwsAt how (.of_heap_eq rfl rfl) rfl
      · -- the transaction is entered again under its own id
        have hwaits := h.modify r (f := fun state =>
          { state with commitPendingWaits := state.commitPendingWaits + 1 }) rfl rfl
        apply hwaits.of_known (hwaits.toWellFormed.of_lookup
          (fun t' u hu => h.lookup_reenter hr hu) fun _ _ hu => hu) rfl
        · exact fun t' u hu => ⟨h.lookup_reenter hr hu, rfl⟩
        · exact fun _ _ _ _ _ => rfl
    | commited => exact hrem
    | aborted => exact hrem

lemma react (hroom : e.Room) (event : Event) : Kept L (e.react event) := by
  cases event with
  | call op =>
    change Kept L (e.step op)
    cases hbuf : op.buffers e.tabledescriptor with
    | some x =>
      rw [step_of_buffers (t := x.1) (g := x.2) hbuf]
      exact h.onState hroom _ (Op.buffered_of_buffers hbuf)
    | none =>
      cases op with
      | beginTransaction t => exact h.beginTransaction hroom t
      | commitRequest t how => exact h.commitRequest hroom t how
      | commit t ign now throwsAt how => exact h.commit t ign now throwsAt how
      | abortTransaction t how => exact h.abortTransaction t how
      | removeUnNeededCommitedTransactions => exact h.removeUnNeededCommitedTransactions
      | _ => cases hbuf
  | leaseExpired t now throwsAt how => exact h.leaseExpired t now throwsAt how
  | recoveryRequest tm =>
    simp only [Endpoint.react, recoveryRequest]
    split_ifs
    · exact h
    · exact h.constructIndoubtTransactions hroom

lemma record : Kept (L ++ Historian.numbered e) e := by
  constructor
  · exact h.toWellFormed
  · exact h.complete
  · intro x hx
    obtain hx | hx := mem_append.1 hx
    · exact h.received x hx
    · obtain ⟨y, hy, rfl⟩ := mem_map.1 hx
      have hlook : e.commitedTransactionsBySequenceNumber.lookup y.1 = some y.2 :=
        (mem_dlookup_iff e.commitedTransactionsBySequenceNumber.nodupKeys).2 hy
      exact ⟨h.numbered y.1 y.2 hlook, fun _ _ _ _ => hlook⟩

end

end Kept

end Endpoint

namespace Historian

lemma kept_start (htd : TableDescriptor)
    (store : Cells)
    (ind : AList fun _ : TransId => List KeyValue) (counts : AList fun _ : BitVec 32 => ℕ)
    (editGenerated : Bool) : Endpoint.Kept (start htd store ind counts editGenerated).received
      (start htd store ind counts editGenerated).endpoint := by
  constructor
  · exact .opened htd store ind counts editGenerated
  · exact fun t r hr => absurd hr (by simp [start, opened])
  · exact fun x hx => absurd hx not_mem_nil

/-- In every run in which the counter has room before each step, trimming is safe. -/
theorem trimming_safe (htd : TableDescriptor)
    (store : List (TombstoneStore.Cell Bytes Bytes Bytes Bytes))
    (indoubt : AList fun _ : TransId => List KeyValue) (counts : AList fun _ : BitVec 32 => ℕ)
    (editGenerated : Bool) (events : List Event) (hroom : Runs.Guarded step
      (fun s _ => s.endpoint.Room) (start htd store indoubt counts editGenerated) events) :
    Safe (run step (start htd store indoubt counts editGenerated) events) := by
  have hstep : ∀ s event, Endpoint.Kept s.received s.endpoint → s.endpoint.Room →
      Endpoint.Kept (step s event).received (step s event).endpoint :=
    fun s event h hr => (h.react hr event).record
  have hkept := Runs.Guarded.invariant hstep (kept_start htd store indoubt counts editGenerated) hroom
  intro t r hr
  exact ⟨hkept.complete t r hr, fun x hx hstart => (hkept.received x hx).2 t r hr hstart⟩

def trimmed : List Event :=
  [.call (.getScanner 6 ⟨some [2], some [2]⟩), .call (.delete 5 1 (.wholeRow [1])),
    .call (.commitRequest 5 .written), .call (.commit 5 false 2 none .written),
    .call .removeUnNeededCommitedTransactions, .call (.abortTransaction 6 .written),
    .call .removeUnNeededCommitedTransactions, .call (.beginTransaction 7)]

theorem trimmed_safe :
    Runs.Guarded step (fun s _ => s.endpoint.Room) (start ⟨[[1]], by simp⟩ [] ∅ ∅ false) trimmed ∧
      Safe (run step (start ⟨[[1]], by simp⟩ [] ∅ ∅ false) trimmed) :=
  have hroom : Runs.Guarded step (fun s _ => s.endpoint.Room) (start ⟨[[1]], by simp⟩ [] ∅ ∅ false)
      trimmed := by decide
  ⟨hroom, trimming_safe _ _ _ _ _ _ hroom⟩

/-! ### The counter wraps around -/

lemma received_subset (s : Historian) (evs : List Event) :
    s.received ⊆ (run step s evs).received := by
  induction evs generalizing s with
  | nil => exact List.Subset.refl _
  | cons event evs ih => exact List.Subset.trans (subset_append_left _ _) (ih (step s event))

structure Voter (t : TransId) (r : Ref) (e : Endpoint) : Prop where
  ready : e.reconstructIndoubts = true
  known : e.transactionsById.lookup t = some r
  alone : ∀ t', t' ≠ t → e.transactionsById.lookup t' = none
  scans : (e.heap r).scans = []
  hasWrite : (e.heap r).hasWrite = true

/-- Such a transaction may vote any number of times, and gets a number each time. -/
theorem Voter.commitRequest {t : TransId} {r : Ref} {e : Endpoint} (h : Voter t r e) :
    Voter t r (e.commitRequest t .written).1 ∧
      (e.commitRequest t .written).1.nextSequenceId = increment e.nextSequenceId ∧
      (e.commitRequest t .written).1.commitedTransactionsBySequenceNumber =
        e.commitedTransactionsBySequenceNumber.insert e.nextSequenceId r := by
  have hself := addTransactionsToCheck_heap_self r e
  have hchk : (e.addTransactionsToCheck r).hasConflict r = false := by
    apply decide_eq_false
    rintro ⟨u, -, hconf⟩
    simp [hasConflictWith, hself, h.scans] at hconf
  have hend := commitRequest_cases h.known .written
  generalize e.commitRequest t .written = result at hend
  cases hend with
  | conflict hconf => cases hchk.symm.trans hconf
  | readOnly _ hwrite => cases hwrite.symm.trans h.hasWrite
  | ok _ _ log reply _ =>
    have hst := prepare_heap_self r (e.addTransactionsToCheck r)
    rw [hself] at hst
    refine ⟨⟨h.ready, h.known, h.alone, ?_, ?_⟩, rfl, rfl⟩
    · rw [hst]
      exact h.scans
    · rw [hst]
      exact h.hasWrite

variable {t : TransId} {r : Ref} {s : Historian}

lemma Voter.votes (h : Voter t r s.endpoint) (hnext : s.endpoint.nextSequenceId = 1)
    (hzero : s.endpoint.commitedTransactionsBySequenceNumber.lookup 0 = none) (n : ℕ)
    (hn : n + 1 < 2 ^ 31) {s' : Historian}
    (hs' : s' = run step s (replicate n (.call (.commitRequest t .written)))) :
    Voter t r s'.endpoint ∧ s'.endpoint.nextSequenceId = n + 1 ∧
      s'.endpoint.commitedTransactionsBySequenceNumber.lookup 0 = none := by
  subst hs'
  induction n with
  | zero => exact ⟨h, hnext, hzero⟩
  | succ n ih =>
    obtain ⟨hvoter, hcnt, hnone⟩ := ih (by omega)
    obtain ⟨hvoter', hcnt', hmap⟩ := hvoter.commitRequest
    rw [replicate_succ', run_snoc]
    refine ⟨hvoter', ?_, ?_⟩
    · refine hcnt'.trans ?_
      rw [hcnt, increment_eq (by omega) (by omega)]
      rfl
    · refine (congrArg (AList.lookup 0) hmap).trans ?_
      rw [FiniteMaps.lookup_insert_eq, if_neg (by omega)]
      exact hnone

def wrapping : List Event :=
  [.call (.delete 5 1 (.wholeRow [1])), .call (.commitRequest 5 .written),
    .call (.commit 5 false 2 none .written), .call .removeUnNeededCommitedTransactions,
    .call (.delete 6 3 (.wholeRow [2]))]

lemma Voter.begin {t t' : TransId} {e : Endpoint} (h : Voter t r e) (ht : t' ≠ t) :
    e.beginTransaction t' = e.allocate t' := by
  simp only [beginTransaction, h.ready, if_true, h.alone t' ht]

/-- The vote with the last positive number, and a transaction that begins after it. -/
theorem Voter.not_safe_after_last {t t' : TransId} {r u : Ref} (h : Voter t r s.endpoint)
    (ht : t' ≠ t) (hnext : s.endpoint.nextSequenceId = 2 ^ 31 - 1)
    (hnone : s.endpoint.commitedTransactionsBySequenceNumber.lookup 0 = none)
    (hrcv : (0, u) ∈ s.received) :
    ¬ Safe (step (step s (.call (.commitRequest t .written))) (.call (.beginTransaction t'))) := by
  intro hsafe
  obtain ⟨hvoter, hcnt, hmap⟩ := h.commitRequest
  have hstep : (step (step s (.call (.commitRequest t .written)))
      (.call (.beginTransaction t'))).endpoint = (s.endpoint.commitRequest t .written).1.allocate t' :=
    hvoter.begin ht
  have hfd := hsafe t' (s.endpoint.commitRequest t .written).1.nextRef
    (by rw [hstep]; exact AList.lookup_insert _)
  have hgrows : (0, u) ∈ (step (step s (.call (.commitRequest t .written)))
      (.call (.beginTransaction t'))).received :=
    mem_append_left _ (mem_append_left _ hrcv)
  have hent := hfd.2 (0, u) hgrows
  rw [hstep, allocate_heap_self] at hent
  change (s.endpoint.commitRequest t .written).1.nextSequenceId ≤ 0 →
    (s.endpoint.commitRequest t .written).1.commitedTransactionsBySequenceNumber.lookup 0 = some u
      at hent
  rw [hcnt, hnext, hmap, FiniteMaps.lookup_insert_eq, if_neg (by omega), hnone] at hent
  exact absurd (hent (by decide)) (by simp)

lemma wrapping_voter :
    Voter 6 1 (run step (start ⟨[[1]], by simp⟩ [] ∅ ∅ false) wrapping).endpoint := by
  refine ⟨by decide, by decide, fun t' ht => ?_, by decide, by decide⟩
  have hknown : (run step (start ⟨[[1]], by simp⟩ [] ∅ ∅ false)
      wrapping).endpoint.transactionsById.keys = [6] := by decide
  rw [AList.lookup_eq_none]
  intro hmem
  have hkey := AList.mem_keys.1 hmem
  rw [hknown, mem_singleton] at hkey
  exact ht hkey

/-- A transaction that begins then has a start below the number of 5, which is not in the history. -/
theorem not_safe_after_wrap : ¬ Safe (run step (start ⟨[[1]], by simp⟩ [] ∅ ∅ false)
      (wrapping ++ replicate (2 ^ 31 - 1) (.call (.commitRequest 6 .written)) ++
        [.call (.beginTransaction 7)])) := by
  have hsplit : 2 ^ 31 - 1 = 2 ^ 31 - 2 + 1 := by omega
  have hreceived : ((0 : ℤ), (0 : Ref)) ∈
      (run step (start ⟨[[1]], by simp⟩ [] ∅ ∅ false) wrapping).received := by decide
  have hgrows := received_subset (run step (start ⟨[[1]], by simp⟩ [] ∅ ∅ false) wrapping)
    (replicate (2 ^ 31 - 2) (.call (.commitRequest 6 .written))) hreceived
  obtain ⟨hvoter, hnext, hnone⟩ := wrapping_voter.votes (by decide) (by decide) (2 ^ 31 - 2)
    (by omega) rfl
  rw [run_snoc, run_append, hsplit, replicate_succ', run_snoc]
  exact hvoter.not_safe_after_last (by decide) (hnext.trans (by omega)) hnone hgrows

end Historian

end Trafodion.Region
