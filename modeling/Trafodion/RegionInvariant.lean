import Trafodion.RegionSecondPhase
import Trafodion.Runs

/-!
# Well-formed endpoints

The references in the collections of an endpoint are allocated, a known transaction has the
id it is known by, and sequence numbers stay below the next one. Each update that the calls
are made of keeps this, as long as the 32-bit counter does not wrap around.
-/
namespace Trafodion.Region.Endpoint

open List Function TransactionState FiniteMaps

def Room (e : Endpoint) : Prop :=
  e.nextSequenceId + e.indoubtTransactionsById.keys.length + 1 < 2 ^ 31

instance (e : Endpoint) : Decidable e.Room :=
  inferInstanceAs (Decidable (_ < _))

lemma increment_eq {n : ℤ} (h0 : 0 ≤ n) (h : n + 1 < 2 ^ 31) : increment n = n + 1 := by
  apply Int.bmod_eq_of_le <;> omega

variable {e : Endpoint} {u : Ref}

structure Located (e : Endpoint) : Prop where
  identity : ∀ t r, e.transactionsById.lookup t = some r → (e.heap r).transactionId = t
  allocated : ∀ t r, e.transactionsById.lookup t = some r → r < e.nextRef

structure WellFormed (e : Endpoint) : Prop extends Located e where
  pending : ∀ r ∈ e.commitPendingTransactions, r < e.nextRef
  begun : ∀ t r, e.transactionsById.lookup t = some r →
    (e.heap r).startSequenceNumber ≤ e.nextSequenceId
  numbered : ∀ q r, e.commitedTransactionsBySequenceNumber.lookup q = some r →
    q < e.nextSequenceId
  counter : 0 ≤ e.nextSequenceId

variable {r : Ref} (t : TransId)

lemma allocate_heap_self (e : Endpoint) :
    (e.allocate t).heap e.nextRef = { new t with
      startSequenceNumber := e.nextSequenceId
      transactionsToCheck := e.commitPendingTransactions } := update_self _ _ _

lemma allocate_heap_of_ne (h : u ≠ e.nextRef) (t : TransId) :
    (e.allocate t).heap u = e.heap u := update_of_ne h _ _

lemma reinstate_heap_self (e : Endpoint) :
    (e.reinstate t).heap e.nextRef = { new t with
      startSequenceNumber := e.nextSequenceId
      reInstated := true
      status := .commitPending
      sequenceNumber := some e.nextSequenceId } := update_self _ _ _

lemma reinstate_heap_of_ne (h : u ≠ e.nextRef) (t : TransId) :
    (e.reinstate t).heap u = e.heap u := update_of_ne h _ _

/-- A reinstated transaction is begun and prepared without writes and without a check. -/
theorem reinstate_eq (e : Endpoint) (t : TransId) :
    e.reinstate t = ((e.allocate t).modify e.nextRef fun state =>
      { state with transactionsToCheck := ∅, reInstated := true }).prepare e.nextRef := by
  simp [reinstate, allocate, modify, prepare, new]

variable {P : Endpoint → Prop}

lemma foldl_reinstate_rule {l : List TransId}
    (hctr : 0 ≤ e.nextSequenceId) (hroom : e.nextSequenceId + l.length < 2 ^ 31)
    (hrei : ∀ e', ∀ t ∈ l, P e' → 0 ≤ e'.nextSequenceId →
      e'.nextSequenceId + 1 < 2 ^ 31 → P (e'.reinstate t))
    (he : P e) : P (l.foldl reinstate e) := by
  induction l generalizing e with
  | nil => exact he
  | cons t l ih =>
    rw [length_cons] at hroom
    have hnext : (e.reinstate t).nextSequenceId = e.nextSequenceId + 1 :=
      increment_eq hctr (by omega)
    apply ih
    · omega
    · omega
    · exact fun e' t' ht' => hrei e' t' (mem_cons_of_mem t ht')
    · exact hrei e t mem_cons_self he hctr (by omega)

lemma constructIndoubtTransactions_keeps (he : P e)
    (hflag : ∀ e' started, P e' →
      P { e' with started := started, reconstructIndoubts := true })
    (hrei : ∀ e', ∀ t ∈ e.indoubtTransactionsById.keys, P e' → P (e'.reinstate t)) :
    P e.constructIndoubtTransactions := by
  unfold constructIndoubtTransactions
  split_ifs
  · exact hflag e true he
  · exact he
  · apply hflag
    refine foldlRecOn e.indoubtIds reinstate he fun e' he' t ht => ?_
    exact hrei e' t ((mem_insertionSort _).1 ht) he'

lemma constructIndoubtTransactions_reconstructed (e : Endpoint) :
    e.constructIndoubtTransactions.reconstructIndoubts = true := by
  unfold constructIndoubtTransactions
  split_ifs with hkeys hdone
  · rfl
  · exact hdone
  · rfl

variable {t : TransId}

lemma beginTransaction_of (he : P e)
    (hconstruct : e.reconstructIndoubts = false → P e.constructIndoubtTransactions)
    (hallocate : ∀ e', P e' → e'.reconstructIndoubts = true →
      e'.transactionsById.lookup t = none → P (e'.allocate t)) : P (e.beginTransaction t) := by
  have hready : ∀ e', e' = (if e.reconstructIndoubts then e
      else e.constructIndoubtTransactions) → P e' ∧ e'.reconstructIndoubts = true := by
    rintro e' rfl
    split_ifs with hdone
    · exact ⟨he, hdone⟩
    · exact ⟨hconstruct (Bool.eq_false_iff.2 hdone), constructIndoubtTransactions_reconstructed e⟩
  obtain ⟨hP, hdone⟩ := hready _ rfl
  unfold beginTransaction
  dsimp only
  split
  · exact hP
  · next hnone => exact hallocate _ hP hdone hnone

lemma constructIndoubtTransactions_rule
    (hctr : 0 ≤ e.nextSequenceId) (hroom : e.Room) (he : P e) (hflag : ∀ e' started, P e' →
      P { e' with started := started, reconstructIndoubts := true })
    (hrei : ∀ e', ∀ s ∈ e.indoubtTransactionsById.keys,
      P e' → 0 ≤ e'.nextSequenceId → e'.nextSequenceId + 1 < 2 ^ 31 → P (e'.reinstate s)) :
    P e.constructIndoubtTransactions := by
  unfold constructIndoubtTransactions
  split_ifs with hkeys hdone
  · exact hflag e true he
  · exact he
  · apply hflag
    have hlen : e.indoubtIds.length = e.indoubtTransactionsById.keys.length :=
      length_insertionSort _ _
    unfold Room at hroom
    apply foldl_reinstate_rule hctr
    · omega
    · intro e' s hs
      exact hrei e' s ((mem_insertionSort _).1 hs)
    · exact he

/-- What the updates of a begin keep while the counter has room, a begin keeps. -/
theorem beginTransaction_rule
    (hctr : 0 ≤ e.nextSequenceId) (hroom : e.Room) (he : P e) (hflag : ∀ e' started, P e' →
      P { e' with started := started, reconstructIndoubts := true })
    (hrei : e.reconstructIndoubts = false → ∀ e', ∀ s ∈ e.indoubtTransactionsById.keys,
      P e' → 0 ≤ e'.nextSequenceId → e'.nextSequenceId + 1 < 2 ^ 31 → P (e'.reinstate s))
    (hallocate : ∀ e', P e' → e'.reconstructIndoubts = true →
      e'.transactionsById.lookup t = none → P (e'.allocate t)) :
    P (e.beginTransaction t) := by
  apply beginTransaction_of he _ hallocate
  intro hnot
  exact constructIndoubtTransactions_rule hctr hroom he hflag (hrei hnot)

lemma beginTransaction_keeps (he : P e)
    (hflag : ∀ e' started, P e' →
      P { e' with started := started, reconstructIndoubts := true })
    (hrei : ∀ e', ∀ s ∈ e.indoubtTransactionsById.keys, P e' → P (e'.reinstate s))
    (hallocate : ∀ e', P e' → P (e'.allocate t)) :
    P (e.beginTransaction t) :=
  beginTransaction_of he
    (fun _ => constructIndoubtTransactions_keeps he hflag hrei)
    fun e' he' _ _ => hallocate e' he'

lemma beginTransIfNotExist_rule
    (hknown : P e) (hbegin : P (e.beginTransaction t)) : P (e.beginTransIfNotExist t) := by
  unfold beginTransIfNotExist
  split
  · exact hknown
  · exact hbegin

lemma beginTransaction_reconstructed (t : TransId) (e : Endpoint) :
    (e.beginTransaction t).reconstructIndoubts = true := by
  have hready : (if e.reconstructIndoubts then e
      else e.constructIndoubtTransactions).reconstructIndoubts = true := by
    split_ifs with hdone
    · exact hdone
    · exact constructIndoubtTransactions_reconstructed e
  unfold beginTransaction
  dsimp only
  split
  · exact hready
  · exact hready

lemma beginTransaction_known (t : TransId) (e : Endpoint) :
    ∃ r, (e.beginTransaction t).transactionsById.lookup t = some r := by
  unfold beginTransaction
  dsimp only
  split
  · next r hr => exact ⟨r, hr⟩
  · exact ⟨_, AList.lookup_insert _⟩

lemma onState_eq (t : TransId) (f : StateMap) (e : Endpoint) :
    ∃ r, (e.beginTransIfNotExist t).transactionsById.lookup t = some r ∧
      e.onState t f = (e.beginTransIfNotExist t).modify r f := by
  have hknown : ∃ r, (e.beginTransIfNotExist t).transactionsById.lookup t = some r := by
    unfold beginTransIfNotExist
    split
    · next r hr => exact ⟨r, hr⟩
    · exact beginTransaction_known t e
  obtain ⟨r, hr⟩ := hknown
  refine ⟨r, hr, ?_⟩
  simp only [onState, hr]

/-- The outcomes of a commit request for the transaction at `r`. -/
inductive CommitRequestEnd (r : Ref) (how : Append) (e : Endpoint) : Endpoint × Reply → Prop
  | conflict (hconflict : (e.addTransactionsToCheck r).hasConflict r = true) :
      CommitRequestEnd r how e
        ((((e.addTransactionsToCheck r).modify r
          (setStatus .aborted)).retireTransaction r), .vote .commitConflict)
  | ok (hchecked : (e.addTransactionsToCheck r).hasConflict r = false)
      (hwrite : (e.heap r).hasWrite = true) (log : List WALEdit) (reply : Reply)
      (hreply : reply = if how = .written then .vote .commitOk else .threw .logThrew) :
      CommitRequestEnd r how e
        ({ (e.addTransactionsToCheck r).prepare r with tHLog := log }, reply)
  | readOnly (hchecked : (e.addTransactionsToCheck r).hasConflict r = false)
      (hwrite : (e.heap r).hasWrite = false) :
      CommitRequestEnd r how e
        ((((e.addTransactionsToCheck r).modify r
          (setStatus .commited)).retireTransaction r),
          .vote .commitOkReadOnly)

lemma commitRequest_cases (hr : e.transactionsById.lookup t = some r) (how : Append) :
    CommitRequestEnd r how e (e.commitRequest t how) := by
  have hwrite : ((e.addTransactionsToCheck r).heap r).hasWrite = (e.heap r).hasWrite := by
    simp [addTransactionsToCheck, hasWrite]
  simp only [commitRequest, hr]
  by_cases hconf : (e.addTransactionsToCheck r).hasConflict r = true
  · rw [if_pos hconf]
    exact .conflict hconf
  · have hchk := Bool.eq_false_iff.2 hconf
    rw [if_neg hconf]
    by_cases hw : (e.heap r).hasWrite = true
    · rw [if_pos (hwrite.trans hw), logAppend_frame]
      exact .ok hchk hw _ _ rfl
    · rw [if_neg (by rw [hwrite]; exact hw)]
      exact .readOnly hchk (Bool.eq_false_iff.2 hw)

lemma mem_commitedSince {start : ℤ} :
    u ∈ e.commitedSince start ↔ ∃ q, start ≤ q ∧ q < e.nextSequenceId ∧
      e.commitedTransactionsBySequenceNumber.lookup q = some u := by
  constructor
  · intro hu
    obtain ⟨k, hk, hlook⟩ := mem_filterMap.1 hu
    have hlt := mem_range.1 hk
    exact ⟨start + k, by omega, by omega, hlook⟩
  · rintro ⟨q, hle, hlt, hlook⟩
    apply mem_filterMap.2
    refine ⟨(q - start).toNat, mem_range.2 (by omega), ?_⟩
    have hq : start + ((q - start).toNat : ℤ) = q := by omega
    rw [hq]
    exact hlook

lemma getMinStartSequenceNumber_le (hr : e.transactionsById.lookup t = some r) (max : ℤ) :
    e.getMinStartSequenceNumber.getD max ≤ (e.heap r).startSequenceNumber := by
  have hmem : (e.heap r).startSequenceNumber ∈ e.transactionsById.entries.map
      fun x => (e.heap x.2).startSequenceNumber :=
    mem_map.2 ⟨⟨t, r⟩, of_mem_dlookup hr, rfl⟩
  unfold getMinStartSequenceNumber
  cases hmin : (e.transactionsById.entries.map
      fun x => (e.heap x.2).startSequenceNumber).min? with
  | none =>
    rw [min?_eq_none_iff] at hmin
    rw [hmin] at hmem
    exact absurd hmem not_mem_nil
  | some m => exact (min?_eq_some_iff.1 hmin).2 _ hmem

lemma lookup_removeUnNeeded (hr : e.transactionsById.lookup t = some r) {q : ℤ}
    (hq : (e.heap r).startSequenceNumber ≤ q) :
    e.removeUnNeededCommitedTransactions.commitedTransactionsBySequenceNumber.lookup q =
      e.commitedTransactionsBySequenceNumber.lookup q := by
  have hmin := getMinStartSequenceNumber_le hr (2 ^ 31 - 1)
  refine (lookup_eraseAll _ _ q).trans (if_neg ?_)
  intro hmem
  have hlt := of_decide_eq_true (mem_filter.1 hmem).2
  omega

lemma addTransactionsToCheck_heap_self (r : Ref) (e : Endpoint) :
    (e.addTransactionsToCheck r).heap r = { e.heap r with
      transactionsToCheck := (e.heap r).transactionsToCheck ∪
        (e.commitedSince (e.heap r).startSequenceNumber).toFinset } :=
  modify_heap_self r _ e

lemma prepare_heap_self (r : Ref) (e : Endpoint) : (e.prepare r).heap r = { e.heap r with
      status := .commitPending, sequenceNumber := some e.nextSequenceId } :=
  update_self _ _ _

lemma prepare_heap_of_ne {u r : Ref} (h : u ≠ r) (e : Endpoint) :
    (e.prepare r).heap u = e.heap u :=
  update_of_ne h _ _

lemma prepare_heap (r u : Ref) (e : Endpoint) : ∃ status number, (e.prepare r).heap u =
    { e.heap u with status := status, sequenceNumber := number } := by
  by_cases hu : u = r
  · subst hu
    exact ⟨_, _, prepare_heap_self u e⟩
  · exact ⟨_, _, prepare_heap_of_ne hu e⟩

namespace Located

variable {e e' : Endpoint}

section
variable (h : Located e)
include h

lemma of_ids (hids : ∀ u, (e'.heap u).transactionId = (e.heap u).transactionId)
    (hknown : ∀ t r, e'.transactionsById.lookup t = some r →
      e.transactionsById.lookup t = some r) (hnext : e'.nextRef = e.nextRef) : Located e' := by
  constructor
  · intro t r hr
    rw [hids]
    exact h.identity t r (hknown t r hr)
  · intro t r hr
    rw [hnext]
    exact h.allocated t r (hknown t r hr)

lemma modify (r : Ref) {f : StateMap}
    (hid : (f (e.heap r)).transactionId = (e.heap r).transactionId) : Located (e.modify r f) := by
  refine h.of_ids (fun u => ?_) (fun _ _ hr => hr) rfl
  by_cases hu : u = r
  · rw [hu, modify_heap_self, hid]
  · rw [modify_heap_of_ne hu]

lemma touches (htouch : Touches r e e') : Located e' := by
  refine h.of_ids (fun u => ?_) (fun t u hu => htouch.known ▸ hu) htouch.nextRef
  by_cases hu : u = r
  · rw [hu]
    exact htouch.identity
  · rw [htouch.others u hu]

lemma lookup_insert_cases {t t' : TransId} {u : Ref}
    (hu : (e.transactionsById.insert t e.nextRef).lookup t' = some u) : t' = t ∧ u = e.nextRef ∨
      t' ≠ t ∧ u ≠ e.nextRef ∧ e.transactionsById.lookup t' = some u := by
  rw [lookup_insert_eq] at hu
  split_ifs at hu with ht
  · exact .inl ⟨ht, (Option.some.inj hu).symm⟩
  · exact .inr ⟨ht, Nat.ne_of_lt (h.allocated t' u hu), hu⟩

/-- Who is known once the transaction at `r` is retired, and that the others keep their states. -/
theorem retired {t : TransId} (hr : e.transactionsById.lookup t = some r)
    (htouch : Touches r e e') :
    (e'.retireTransaction r).transactionsById = e.transactionsById.erase t ∧
      (∀ u, u ≠ r → (e'.retireTransaction r).heap u = e.heap u) ∧
      ∀ t' u, (e'.retireTransaction r).transactionsById.lookup t' = some u →
        e.transactionsById.lookup t' = some u ∧ u ≠ r := by
  have hknown : (e'.retireTransaction r).transactionsById = e.transactionsById.erase t := by
    change e'.transactionsById.erase (e'.heap r).transactionId = _
    rw [htouch.identity, h.identity t r hr, htouch.known]
  refine ⟨hknown, fun u hu => (modify_heap_of_ne hu _ e').trans (htouch.others u hu),
    fun t' u hu => ?_⟩
  rw [hknown] at hu
  obtain ⟨ht, hu⟩ := lookup_of_erase hu
  refine ⟨hu, ?_⟩
  rintro rfl
  exact ht ((h.identity t' u hu).symm.trans (h.identity t u hr))

lemma lookup_reenter {t : TransId} (hr : e.transactionsById.lookup t = some r) {t' : TransId}
    {u : Ref} (hu : ((e.transactionsById.erase t).insert (e.heap r).transactionId r).lookup t' =
      some u) : e.transactionsById.lookup t' = some u := by
  rw [h.identity t r hr, lookup_insert_eq] at hu
  split_ifs at hu with ht
  · rw [ht, hr]
    exact hu
  · exact (lookup_of_erase hu).2

lemma retireTransaction (r : Ref) : Located (e.retireTransaction r) :=
  (h.modify r (f := clearState) rfl).of_ids (fun _ => rfl)
    (fun _ _ hu => (lookup_of_erase hu).2) rfl

lemma allocate (t : TransId) : Located (e.allocate t) := by
  constructor
  · intro t' u hu
    obtain ⟨rfl, rfl⟩ | ⟨-, hne, hold⟩ := h.lookup_insert_cases hu
    · rw [allocate_heap_self]
      rfl
    · rw [allocate_heap_of_ne hne]
      exact h.identity t' u hold
  · intro t' u hu
    obtain ⟨-, rfl⟩ | ⟨-, -, hold⟩ := h.lookup_insert_cases hu
    · exact Nat.lt_succ_self _
    · exact Nat.lt_succ_of_lt (h.allocated t' u hold)

lemma prepare (r : Ref) : Located (e.prepare r) :=
  { h.modify r (f := fun state =>
      { state with status := .commitPending, sequenceNumber := some e.nextSequenceId }) rfl with }

lemma reinstate (t : TransId) : Located (e.reinstate t) := by
  rw [reinstate_eq]
  exact ((h.allocate t).modify _ rfl).prepare _

end

lemma opened (htd : TableDescriptor) (store : Cells)
    (ind : AList fun _ : TransId => List KeyValue)
    (counts : AList fun _ : BitVec 32 => ℕ) (editGenerated : Bool) :
    Located (opened htd store ind counts editGenerated) := by
  constructor <;> exact fun t r hr => absurd hr (by simp [Endpoint.opened])

end Located

namespace WellFormed

variable {e e' : Endpoint}

section
variable (h : WellFormed e)
include h

lemma touches {r : Ref} (htouch : Touches r e e') : WellFormed e' := by
  have hst : ∀ u, (e'.heap u).startSequenceNumber = (e.heap u).startSequenceNumber := by
    intro u
    by_cases hu : u = r
    · rw [hu]
      exact htouch.start
    · rw [htouch.others u hu]
  constructor
  · exact h.toLocated.touches htouch
  · intro u hu
    rw [htouch.nextRef]
    exact h.pending u (htouch.pending_subset hu)
  · intro t u hu
    rw [htouch.known] at hu
    rw [hst u, htouch.nextSequenceId]
    exact h.begun t u hu
  · rw [htouch.numbers, htouch.nextSequenceId]
    exact h.numbered
  · rw [htouch.nextSequenceId]
    exact h.counter

lemma modify (r : Ref) {f : StateMap}
    (hid : (f (e.heap r)).transactionId = (e.heap r).transactionId)
    (hst0 : (f (e.heap r)).startSequenceNumber = (e.heap r).startSequenceNumber) :
    WellFormed (e.modify r f) :=
  h.touches (.of_modify hid hst0)

lemma of_lookup {known : AList fun _ : TransId => Ref} {numbers : AList fun _ : ℤ => Ref}
    (hknown : ∀ t r, known.lookup t = some r → e.transactionsById.lookup t = some r)
    (hnums : ∀ q r, numbers.lookup q = some r →
      e.commitedTransactionsBySequenceNumber.lookup q = some r) : WellFormed { e with
      transactionsById := known, commitedTransactionsBySequenceNumber := numbers } := by
  constructor
  · exact h.toLocated.of_ids (fun _ => rfl) hknown rfl
  · exact h.pending
  · exact fun t r hr => h.begun t r (hknown t r hr)
  · exact fun q r hr => h.numbered q r (hnums q r hr)
  · exact h.counter

lemma retireTransaction (r : Ref) : WellFormed (e.retireTransaction r) := by
  have hcleared := h.modify r (f := clearState) rfl rfl
  exact hcleared.of_lookup (fun t u hu => (lookup_of_erase hu).2) fun q u hu => hu

lemma allocate (t : TransId) : WellFormed (e.allocate t) := by
  constructor
  · exact h.toLocated.allocate t
  · intro u hu
    exact Nat.lt_succ_of_lt (h.pending u hu)
  · intro t' u hu
    obtain ⟨-, rfl⟩ | ⟨-, hne, hold⟩ := h.lookup_insert_cases hu
    · rw [allocate_heap_self]
      exact le_refl _
    · rw [allocate_heap_of_ne hne]
      exact h.begun t' u hold
  · exact h.numbered
  · exact h.counter

lemma prepare {r : Ref} (hr : r < e.nextRef)
    (hroom : e.nextSequenceId + 1 < 2 ^ 31) : WellFormed (e.prepare r) := by
  have hnext : (e.prepare r).nextSequenceId = e.nextSequenceId + 1 :=
    increment_eq h.counter hroom
  have hst := h.modify r
    (f := fun state =>
      { state with status := .commitPending, sequenceNumber := some e.nextSequenceId })
    rfl rfl
  constructor
  · exact h.toLocated.prepare r
  · intro u hu
    obtain rfl | hu := Finset.mem_insert.1 hu
    · exact hr
    · exact h.pending u hu
  · intro t u hu
    have hle := hst.begun t u hu
    change _ ≤ e.nextSequenceId at hle
    rw [hnext]
    exact le_trans hle (by omega)
  · intro q u hu
    change (e.commitedTransactionsBySequenceNumber.insert e.nextSequenceId r).lookup q =
      some u at hu
    rw [hnext]
    rw [lookup_insert_eq] at hu
    split_ifs at hu with hq
    · omega
    · have hlt := h.numbered q u hu
      omega
  · rw [hnext]
    have hctr := h.counter
    omega

lemma reinstate (t : TransId) (hroom : e.nextSequenceId + 1 < 2 ^ 31) :
    WellFormed (e.reinstate t) := by
  rw [reinstate_eq]
  apply WellFormed.prepare
  · exact (h.allocate t).modify _ rfl rfl
  · exact Nat.lt_succ_self _
  · exact hroom

lemma removeUnNeededCommitedTransactions : WellFormed e.removeUnNeededCommitedTransactions :=
  h.of_lookup (fun _ _ hr => hr) fun _ _ hr => (lookup_of_eraseAll hr).2

end

lemma opened (htd : TableDescriptor) (store : Cells)
    (ind : AList fun _ : TransId => List KeyValue)
    (counts : AList fun _ : BitVec 32 => ℕ) (editGenerated : Bool) :
    WellFormed (opened htd store ind counts editGenerated) := by
  constructor
  · exact .opened htd store ind counts editGenerated
  · exact fun r hr => absurd hr (Finset.notMem_empty r)
  · exact fun t r hr => absurd hr (by simp [Endpoint.opened])
  · exact fun q r hr => absurd hr (by simp [Endpoint.opened])
  · exact le_refl 0

end WellFormed

end Trafodion.Region.Endpoint
