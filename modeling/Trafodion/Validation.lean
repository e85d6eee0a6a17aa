import Trafodion.RegionBuffering

/-!
# Completeness of the validation at a region

A transaction that votes is checked against the buffered writes of the transactions that
voted since it began, or were commit-pending then. A second phase clears the buffered
writes, so a transaction that has already been committed is checked against nothing.
-/
namespace Trafodion.Region

open Function Endpoint TransactionState AList Nat

/-- An endpoint with a record of what has happened: the rows each transaction has written,
the votes with their sequence numbers, and who was commit-pending when each one began. -/
structure Monitored where
  endpoint : Endpoint
  written : Ref → List Bytes
  voted : List (Ref × ℤ)
  pendingAtBegin : Ref → Finset Ref

open Monitored

namespace Monitored

variable (s : Monitored) (r u : Ref) (op : Op) (e : Endpoint)

def recordWrites (written : Ref → List Bytes) : Ref → List Bytes :=
  match op.transactionId.bind fun t => e.transactionsById.lookup t with
  | some r => update written r (written r ++ op.writtenRows)
  | none => written

def recordVote (reply : Reply) (voted : List (Ref × ℤ)) :
    List (Ref × ℤ) :=
  match op, reply with
  | .commitRequest t _, .vote .commitOk =>
    match e.transactionsById.lookup t with
    | some r => (r, e.nextSequenceId) :: voted
    | none => voted
  | _, _ => voted

def step (s : Monitored) (op : Op) : Monitored where
  endpoint := s.endpoint.step op
  written := recordWrites op (s.endpoint.step op) s.written
  voted := recordVote op s.endpoint (s.endpoint.call op).2 s.voted
  pendingAtBegin :=
    if (s.endpoint.step op).nextRef = s.endpoint.nextRef then s.pendingAtBegin
    else update s.pendingAtBegin s.endpoint.nextRef
      s.endpoint.commitPendingTransactions

def start (htd : TableDescriptor) (store : List (TombstoneStore.Cell Bytes Bytes Bytes Bytes))
    (editGenerated : Bool) : Monitored :=
  ⟨opened htd store ∅ ∅ editGenerated, fun _ => [], [], fun _ => ∅⟩

/-- The other transaction voted at or after the start of the one at `r`, or was
commit-pending when that one began. -/
def Concurrent : Prop :=
  (∃ q, (u, q) ∈ s.voted ∧ (s.endpoint.heap r).startSequenceNumber ≤ q) ∨
    u ∈ s.pendingAtBegin r

/-- The transaction at `r` has read no row that a concurrent transaction with a status in
`P` has written. -/
def ReadsUntouched (P : Status → Prop) (r : Ref) : Prop :=
  ∀ u, s.Concurrent r u →
    (s.endpoint.heap u).transactionId ≠ (s.endpoint.heap r).transactionId →
    P (s.endpoint.heap u).status →
    ∀ row ∈ s.written u, ¬ (s.endpoint.heap r).Reads row

structure Recorded (s : Monitored) : Prop where
  wellFormed : s.endpoint.WellFormed
  noIndoubt : s.endpoint.indoubtTransactionsById = ∅
  ordinary : ∀ t r, s.endpoint.transactionsById.lookup t = some r →
    (s.endpoint.heap r).reInstated = false
  live : ∀ t r, s.endpoint.transactionsById.lookup t = some r →
    (s.endpoint.heap r).writeRows = s.written r
  fresh : ∀ r, s.endpoint.nextRef ≤ r → s.written r = []
  retired : ∀ u, u < s.endpoint.nextRef →
    (∀ t, s.endpoint.transactionsById.lookup t ≠ some u) →
    (s.endpoint.heap u).status = .aborted ∨ (s.endpoint.heap u).status = .commited
  voted : ∀ u q, (u, q) ∈ s.voted → u < s.endpoint.nextRef ∧ q < s.endpoint.nextSequenceId ∧
    ∀ t r, s.endpoint.transactionsById.lookup t = some r →
      (s.endpoint.heap r).startSequenceNumber ≤ q →
      s.endpoint.commitedTransactionsBySequenceNumber.lookup q = some u
  begun : ∀ t r, s.endpoint.transactionsById.lookup t = some r →
    s.pendingAtBegin r ⊆ (s.endpoint.heap r).transactionsToCheck ∧
      ∀ u ∈ s.pendingAtBegin r, u < s.endpoint.nextRef

namespace Recorded

variable {s : Monitored} {t : TransId} {r : Ref} {e' : Endpoint}

section
variable (h : Recorded s)
include h

section
variable (hr : s.endpoint.transactionsById.lookup t = some r) (htouch : Touches r s.endpoint e')
  (hind : e'.indoubtTransactionsById = ∅)
include hr htouch hind

lemma touch (hre : (e'.heap r).reInstated = false)
    (hcheck : (s.endpoint.heap r).transactionsToCheck ⊆ (e'.heap r).transactionsToCheck)
    {written : Ref → List Bytes} (hrows : (e'.heap r).writeRows = written r)
    (hoths : ∀ u, u ≠ r → written u = s.written u) :
    Recorded { s with endpoint := e', written := written } := by
  constructor
  · exact h.wellFormed.touches htouch
  · exact hind
  · intro t' u hu
    rw [htouch.known] at hu
    by_cases hur : u = r
    · rw [hur]
      exact hre
    · rw [htouch.others u hur]
      exact h.ordinary t' u hu
  · intro t' u hu
    rw [htouch.known] at hu
    by_cases hur : u = r
    · rw [hur]
      exact hrows
    · rw [htouch.others u hur]
      exact (h.live t' u hu).trans (hoths u hur).symm
  · intro u hu
    have hlt := h.wellFormed.allocated t r hr
    rw [htouch.nextRef] at hu
    have hur : u ≠ r := by
      rintro rfl
      exact absurd hlt (not_lt.2 hu)
    exact (hoths u hur).trans (h.fresh u hu)
  · intro u hu hnot
    rw [htouch.nextRef] at hu
    rw [htouch.known] at hnot
    have hur : u ≠ r := by
      rintro rfl
      exact hnot t hr
    rw [htouch.others u hur]
    exact h.retired u hu hnot
  · intro u q hvote
    obtain ⟨hu, hq, hnum⟩ := h.voted u q hvote
    rw [htouch.nextRef, htouch.nextSequenceId, htouch.known, htouch.numbers]
    refine ⟨hu, hq, fun t' v hv hst0 => hnum t' v hv ?_⟩
    by_cases hvr : v = r
    · rw [hvr] at hst0 ⊢
      rw [← htouch.start]
      exact hst0
    · rw [htouch.others v hvr] at hst0
      exact hst0
  · intro t' v hv
    rw [htouch.known] at hv
    rw [htouch.nextRef]
    obtain ⟨hsub, hall⟩ := h.begun t' v hv
    refine ⟨?_, hall⟩
    by_cases hvr : v = r
    · rw [hvr] at hsub ⊢
      exact hsub.trans hcheck
    · rw [htouch.others v hvr]
      exact hsub

lemma retire (hstat : (e'.heap r).status = .aborted ∨ (e'.heap r).status = .commited) :
    Recorded { s with endpoint := e'.retireTransaction r } := by
  obtain ⟨hknown, hoth, hstill⟩ := h.wellFormed.retired hr htouch
  have hself : (e'.retireTransaction r).heap r = (e'.heap r).clearState :=
    modify_heap_self r _ e'
  constructor
  · exact (h.wellFormed.touches htouch).retireTransaction r
  · exact hind
  · intro t' u hu
    obtain ⟨hold, hur⟩ := hstill t' u hu
    rw [hoth u hur]
    exact h.ordinary t' u hold
  · intro t' u hu
    obtain ⟨hold, hur⟩ := hstill t' u hu
    rw [hoth u hur]
    exact h.live t' u hold
  · intro u hu
    exact h.fresh u (htouch.nextRef ▸ hu)
  · intro u hu hnot
    by_cases hur : u = r
    · rw [hur, hself]
      exact hstat
    · rw [hoth u hur]
      apply h.retired u (htouch.nextRef ▸ hu)
      intro t' ht'
      -- a transaction other than the retired one stays known
      have htt : t' ≠ t := by
        rintro rfl
        exact hur (Option.some.inj (ht'.symm.trans hr))
      apply hnot t'
      rw [hknown]
      exact (lookup_erase_ne htt).trans ht'
  · intro u q hvote
    obtain ⟨hu, hq, hnum⟩ := h.voted u q hvote
    refine ⟨htouch.nextRef.symm ▸ hu, htouch.nextSequenceId.symm ▸ hq, ?_⟩
    intro t' v hv hst0
    obtain ⟨hold, hvr⟩ := hstill t' v hv
    rw [hoth v hvr] at hst0
    change e'.commitedTransactionsBySequenceNumber.lookup q = some u
    rw [htouch.numbers]
    exact hnum t' v hold hst0
  · intro t' v hv
    obtain ⟨hold, hvr⟩ := hstill t' v hv
    rw [hoth v hvr]
    obtain ⟨hsub, hall⟩ := h.begun t' v hold
    exact ⟨hsub, fun u hu => htouch.nextRef.symm ▸ hall u hu⟩

end

lemma allocate (ht : s.endpoint.transactionsById.lookup t = none) :
    Recorded { s with
      endpoint := s.endpoint.allocate t
      pendingAtBegin := update s.pendingAtBegin s.endpoint.nextRef
        s.endpoint.commitPendingTransactions } := by
  constructor
  · exact h.wellFormed.allocate t
  · exact h.noIndoubt
  · intro t' u hu
    obtain ⟨-, rfl⟩ | ⟨-, hne, hold⟩ := h.wellFormed.lookup_insert_cases hu
    · rw [allocate_heap_self]
      rfl
    · rw [allocate_heap_of_ne hne]
      exact h.ordinary t' u hold
  · intro t' u hu
    obtain ⟨-, rfl⟩ | ⟨-, hne, hold⟩ := h.wellFormed.lookup_insert_cases hu
    · rw [allocate_heap_self, h.fresh _ (le_refl _)]
      rfl
    · rw [allocate_heap_of_ne hne]
      exact h.live t' u hold
  · intro u hu
    exact h.fresh u (le_of_succ_le hu)
  · intro u hu hnot
    have hne : u ≠ s.endpoint.nextRef := by
      rintro rfl
      exact hnot t (lookup_insert _)
    rw [allocate_heap_of_ne hne]
    apply h.retired u (lt_of_le_of_ne (le_of_lt_succ hu) hne)
    intro t' ht'
    have htt : t' ≠ t := by
      rintro rfl
      rw [ht] at ht'
      exact absurd ht' (by simp)
    exact hnot t' ((lookup_insert_ne htt).trans ht')
  · intro u q hvote
    obtain ⟨hu, hq, hnum⟩ := h.voted u q hvote
    refine ⟨lt_succ_of_lt hu, hq, fun t' v hv hst0 => ?_⟩
    obtain ⟨-, rfl⟩ | ⟨-, hne, hold⟩ := h.wellFormed.lookup_insert_cases hv
    · -- the new transaction starts after every vote
      rw [allocate_heap_self] at hst0
      exact absurd hq (Int.not_lt.2 hst0)
    · rw [allocate_heap_of_ne hne] at hst0
      exact hnum t' v hold hst0
  · intro t' v hv
    obtain ⟨-, rfl⟩ | ⟨-, hne, hold⟩ := h.wellFormed.lookup_insert_cases hv
    · rw [allocate_heap_self]
      simp only [update_self]
      exact ⟨Finset.Subset.refl _, fun u hu => lt_succ_of_lt (h.wellFormed.pending u hu)⟩
    · rw [allocate_heap_of_ne hne]
      simp only [update_of_ne hne]
      obtain ⟨hsub, hall⟩ := h.begun t' v hold
      exact ⟨hsub, fun u hu => lt_succ_of_lt (hall u hu)⟩

/-- A known transaction gets the next sequence number; its vote may be recorded. -/
theorem prepare (hr : s.endpoint.transactionsById.lookup t = some r)
    (hroom : s.endpoint.nextSequenceId + 1 < 2 ^ 31) {voted : List (Ref × ℤ)}
    (hvoted : voted ⊆ (r, s.endpoint.nextSequenceId) :: s.voted) :
    Recorded { s with endpoint := s.endpoint.prepare r, voted := voted } := by
  have hnext : (s.endpoint.prepare r).nextSequenceId = s.endpoint.nextSequenceId + 1 :=
    increment_eq h.wellFormed.counter hroom
  have hst (u : Ref) := prepare_heap r u s.endpoint
  constructor
  · exact h.wellFormed.prepare (h.wellFormed.allocated t r hr) hroom
  · exact h.noIndoubt
  · intro t' u hu
    obtain ⟨_, _, heq⟩ := hst u
    rw [heq]
    exact h.ordinary t' u hu
  · intro t' u hu
    obtain ⟨_, _, heq⟩ := hst u
    rw [heq]
    exact h.live t' u hu
  · exact h.fresh
  · intro u hu hnot
    have hur : u ≠ r := by
      rintro rfl
      exact hnot t hr
    rw [prepare_heap_of_ne hur]
    exact h.retired u hu hnot
  · intro u q hvote
    rw [hnext]
    change u < s.endpoint.nextRef ∧ _ ∧ ∀ t' v, s.endpoint.transactionsById.lookup t' = some v →
      _ → (s.endpoint.commitedTransactionsBySequenceNumber.insert s.endpoint.nextSequenceId
        r).lookup q = some u
    obtain heq | hold := List.mem_cons.1 (hvoted hvote)
    · obtain ⟨rfl, rfl⟩ := Prod.mk.injEq .. ▸ heq
      exact ⟨h.wellFormed.allocated t u hr, by omega, fun _ _ _ _ => lookup_insert _⟩
    · obtain ⟨hu, hq, hnum⟩ := h.voted u q hold
      refine ⟨hu, by omega, fun t' v hv hst0 => ?_⟩
      obtain ⟨_, _, heq⟩ := hst v
      rw [heq] at hst0
      exact (lookup_insert_ne (by omega)).trans (hnum t' v hv hst0)
  · intro t' v hv
    obtain ⟨_, _, heq⟩ := hst v
    rw [heq]
    exact h.begun t' v hv

lemma removeUnNeededCommitedTransactions :
    Recorded { s with endpoint := s.endpoint.removeUnNeededCommitedTransactions } := by
  refine { h with
    wellFormed := h.wellFormed.removeUnNeededCommitedTransactions, voted := fun u q hvote => ?_ }
  obtain ⟨hu, hq, hnum⟩ := h.voted u q hvote
  refine ⟨hu, hq, fun t v hv hst0 => ?_⟩
  exact (lookup_removeUnNeeded (e := s.endpoint) hv hst0).trans (hnum t v hv hst0)

end

variable {op : Op}

lemma buffer (h : Recorded s) (hr : s.endpoint.transactionsById.lookup t = some r)
    {htd : TableDescriptor} {g : StateMap}
    (hop : op.buffers htd = some (t, g)) :
    Recorded { s with
      endpoint := s.endpoint.modify r g
      written := update s.written r (s.written r ++ op.writtenRows) } := by
  have hfrm := (Op.buffered_of_buffers hop (s.endpoint.heap r)).frame
  apply h.touch hr
  · exact .of_modify (by rw [hfrm]) (by rw [hfrm])
  · exact h.noIndoubt
  · rw [modify_heap_self, hfrm]
    exact h.ordinary t r hr
  · rw [modify_heap_self, hfrm]
  · rw [modify_heap_self, Op.writeRows_of_buffers hop, update_self, h.live t r hr]
  · exact fun u hu => update_of_ne hu _ _

lemma beginTransaction_known (h : Recorded s)
    (hr : s.endpoint.transactionsById.lookup t = some r) :
    Recorded { s with endpoint := s.endpoint.beginTransaction t } ∧
      (s.endpoint.beginTransaction t).nextRef = s.endpoint.nextRef := by
  by_cases hdone : s.endpoint.reconstructIndoubts = true
  · have heq : s.endpoint.beginTransaction t = s.endpoint := by
      simp only [beginTransaction, hdone, if_true, hr]
    rw [heq]
    exact ⟨h, rfl⟩
  · have heq : s.endpoint.beginTransaction t =
        { s.endpoint with started := true, reconstructIndoubts := true } := by
      simp [beginTransaction, hdone, constructIndoubtTransactions, h.noIndoubt, hr]
    rw [heq]
    exact ⟨{ h with wellFormed := { h.wellFormed with } }, rfl⟩

lemma beginTransaction_unknown (h : Recorded s)
    (hr : s.endpoint.transactionsById.lookup t = none) :
    Recorded { s with
        endpoint := s.endpoint.beginTransaction t
        pendingAtBegin := update s.pendingAtBegin s.endpoint.nextRef
          s.endpoint.commitPendingTransactions } ∧
      (s.endpoint.beginTransaction t).nextRef = s.endpoint.nextRef + 1 ∧
      (s.endpoint.beginTransaction t).transactionsById.lookup t = some s.endpoint.nextRef := by
  by_cases hdone : s.endpoint.reconstructIndoubts = true
  · have heq : s.endpoint.beginTransaction t = s.endpoint.allocate t := by
      simp only [Endpoint.beginTransaction, hdone, if_true, hr]
    rw [heq]
    exact ⟨h.allocate hr, rfl, AList.lookup_insert _⟩
  · have heq : s.endpoint.beginTransaction t = Endpoint.allocate t
        { s.endpoint with started := true, reconstructIndoubts := true } := by
      simp [Endpoint.beginTransaction, hdone, constructIndoubtTransactions, h.noIndoubt, hr]
    have hflag : Recorded { s with
        endpoint := { s.endpoint with started := true, reconstructIndoubts := true } } :=
      { h with wellFormed := { h.wellFormed with } }
    rw [heq]
    exact ⟨hflag.allocate hr, rfl, AList.lookup_insert _⟩

lemma recordWrites_of_nil (h : op.writtenRows = []) (e : Endpoint)
    (written : Ref → List Bytes) : recordWrites op e written = written := by
  unfold recordWrites
  split
  · rw [h, List.append_nil, update_eq_self]
  · rfl

lemma recordWrites_of_known {e : Endpoint} (ht : op.transactionId = some t)
    (hr : e.transactionsById.lookup t = some r) (written : Ref → List Bytes) :
    recordWrites op e written = update written r (written r ++ op.writtenRows) := by
  simp [recordWrites, ht, hr]

lemma begin_step (h : Recorded s) (t : TransId) : Recorded (s.step (.beginTransaction t)) := by
  have hstep : s.endpoint.step (.beginTransaction t) = s.endpoint.beginTransaction t := rfl
  unfold step
  rw [recordWrites_of_nil rfl, hstep]
  cases hr : s.endpoint.transactionsById.lookup t with
  | some r =>
    obtain ⟨hrecorded, hnext⟩ := h.beginTransaction_known hr
    rw [if_pos hnext]
    exact hrecorded
  | none =>
    obtain ⟨hrecorded, hnext, -⟩ := h.beginTransaction_unknown hr
    rw [if_neg (by rw [hnext]; exact succ_ne_self _)]
    exact hrecorded

lemma buffer_step (h : Recorded s) {g : StateMap}
    (hop : op.buffers s.endpoint.tabledescriptor = some (t, g)) : Recorded (s.step op) := by
  have ht := Op.transactionId_of_buffers hop
  have hvote : recordVote op s.endpoint (s.endpoint.call op).2 s.voted = s.voted := by
    cases op <;> cases hop <;> rfl
  unfold step
  rw [hvote, step_of_buffers hop]
  cases hr : s.endpoint.transactionsById.lookup t with
  | some r =>
    have hsame : (s.endpoint.modify r g).nextRef = s.endpoint.nextRef := rfl
    have hstill : (s.endpoint.modify r g).transactionsById.lookup t = some r := hr
    rw [onState_of_known hr, if_pos hsame, recordWrites_of_known ht hstill]
    exact h.buffer hr hop
  | none =>
    obtain ⟨hrecorded, hnext, hknown⟩ := h.beginTransaction_unknown hr
    have honState : s.endpoint.onState t g =
        (s.endpoint.beginTransaction t).modify s.endpoint.nextRef g := by
      simp only [onState, beginTransIfNotExist, hr, hknown]
    have hnew : (s.endpoint.onState t g).nextRef ≠ s.endpoint.nextRef := by
      rw [honState]
      change (s.endpoint.beginTransaction t).nextRef ≠ _
      rw [hnext]
      exact succ_ne_self _
    have hstill : (s.endpoint.onState t g).transactionsById.lookup t =
        some s.endpoint.nextRef := by
      rw [honState]
      exact hknown
    rw [if_neg hnew, recordWrites_of_known ht hstill, honState]
    exact hrecorded.buffer hknown hop

lemma step_eq (s : Monitored) (op : Op) (hrows : op.writtenRows = [])
    (hnext : (s.endpoint.step op).nextRef = s.endpoint.nextRef) :
    s.step op = { s with
      endpoint := s.endpoint.step op
      voted := recordVote op s.endpoint (s.endpoint.call op).2 s.voted } := by
  unfold step
  rw [recordWrites_of_nil hrows, if_pos hnext]

section
variable (h : Recorded s)
include h

lemma commitRequest_step (hroom : s.endpoint.Room) (t : TransId)
    (how : Append) : Recorded (s.step (.commitRequest t how)) := by
  cases hr : s.endpoint.transactionsById.lookup t with
  | none =>
    have heq : s.endpoint.commitRequest t how = (s.endpoint, .vote .commitUnsuccessful) := by
      simp only [Endpoint.commitRequest, hr]
    have hstep : s.endpoint.step (.commitRequest t how) = s.endpoint := congrArg Prod.fst heq
    rw [step_eq s _ rfl (by rw [hstep]), hstep]
    simpa [Endpoint.call, heq, recordVote] using h
  | some r =>
    have hchk : Recorded { s with endpoint := s.endpoint.addTransactionsToCheck r } := by
      have htouch : Touches r s.endpoint (s.endpoint.addTransactionsToCheck r) :=
        .of_modify rfl rfl
      have hst := addTransactionsToCheck_heap_self r s.endpoint
      apply h.touch hr htouch h.noIndoubt
      · rw [hst]
        exact h.ordinary t r hr
      · rw [hst]
        exact Finset.subset_union_left
      · rw [hst]
        exact h.live t r hr
      · exact fun _ _ => rfl
    have hretire : ∀ status, status = .aborted ∨ status = .commited →
        Recorded { s with endpoint := ((s.endpoint.addTransactionsToCheck r).modify r
          (TransactionState.setStatus status)).retireTransaction r } := by
      intro status hstat
      apply hchk.retire hr (.setStatus r status _) hchk.noIndoubt
      rw [modify_heap_self]
      exact hstat
    have hnext : (s.endpoint.commitRequest t how).1.nextRef = s.endpoint.nextRef := by
      have hend := commitRequest_cases hr how
      generalize s.endpoint.commitRequest t how = result at hend
      cases hend <;> rfl
    rw [step_eq s (.commitRequest t how) rfl hnext]
    have hend := commitRequest_cases hr how
    simp only [Endpoint.step, Endpoint.call]
    generalize s.endpoint.commitRequest t how = result at hend
    cases hend with
    | conflict _ => exact hretire .aborted (.inl rfl)
    | readOnly _ _ => exact hretire .commited (.inr rfl)
    | ok _ _ log reply hrep =>
      have hvote : recordVote (.commitRequest t how) s.endpoint reply s.voted ⊆
          (r, s.endpoint.nextSequenceId) :: s.voted := by
        rw [hrep]
        by_cases hhow : how = .written
        · simp [hhow, recordVote, hr]
        · simp [hhow, recordVote]
      have hroom' : s.endpoint.nextSequenceId + 1 < 2 ^ 31 := by
        unfold Room at hroom
        omega
      have hprep := hchk.prepare hr hroom' hvote
      exact { hprep with wellFormed := { hprep.wellFormed with } }

/-- The second phase of an ordinary transaction keeps its buffered writes until it ends. -/
theorem applied (hr : s.endpoint.transactionsById.lookup t = some r)
    (happ : Applied r s.endpoint e') : Recorded { s with endpoint := e' } := by
  apply h.touch hr (.of_applied happ)
  · rw [happ.frame]
    exact h.noIndoubt
  · exact happ.state.reInstated.trans (h.ordinary t r hr)
  · exact happ.state.transactionsToCheck.symm.subset
  · unfold writeRows
    rw [(happ.state.ordinary (h.ordinary t r hr)).2.1]
    exact h.live t r hr
  · exact fun _ _ => rfl

lemma setStatus (hr : s.endpoint.transactionsById.lookup t = some r) (status : Status) :
    Recorded { s with endpoint := s.endpoint.modify r (.setStatus status) } := by
  apply h.touch hr (.setStatus r status _) h.noIndoubt
  all_goals try rw [modify_heap_self]
  · exact h.ordinary t r hr
  · exact Finset.Subset.refl _
  · exact h.live t r hr
  · exact fun _ _ => rfl

lemma settled (hr : s.endpoint.transactionsById.lookup t = some r)
    (hind : SameIndoubt (s.endpoint.settleIndoubt r) e') : e'.indoubtTransactionsById = ∅ := by
  rw [hind.byId]
  simp [settleIndoubt, h.ordinary t r hr, h.noIndoubt]

lemma commitEnd (hr : s.endpoint.transactionsById.lookup t = some r)
    {how : Append} {res : Endpoint × Reply} (hend : CommitEnd r how s.endpoint res) :
    Recorded { s with endpoint := res.1 } ∧ res.1.nextRef = s.endpoint.nextRef := by
  cases hend with
  | aborted e₁ htouch hind hstat =>
    exact ⟨h.retire hr htouch (hind.byId.trans h.noIndoubt) (.inl hstat), htouch.nextRef⟩
  | halted e₁ happ _ _ =>
    exact ⟨h.applied hr happ, (Touches.of_applied happ).nextRef⟩
  | failed e₁ happ _ =>
    have hknown : e₁.transactionsById.lookup t = some r := by
      rw [(Touches.of_applied happ).known]
      exact hr
    exact ⟨(h.applied hr happ).setStatus hknown .commited, (Touches.of_applied happ).nextRef⟩
  | commited e₁ htouch hind hstat =>
    exact ⟨h.retire hr htouch (h.settled hr hind) (.inr hstat), htouch.nextRef⟩

lemma commit_step (t : TransId) (ign : Bool) (now : ℕ)
    (throwsAt : Option ℕ) (how : Append) : Recorded (s.step (.commit t ign now throwsAt how)) := by
  have hcmt : Recorded { s with
        endpoint := (s.endpoint.commit t ign now throwsAt how).1 } ∧
      (s.endpoint.commit t ign now throwsAt how).1.nextRef = s.endpoint.nextRef := by
    obtain ⟨reply, heq⟩ | ⟨r, hr, -, hend⟩ :=
      commit_cases t ign now throwsAt how s.endpoint
    · rw [heq]
      exact ⟨h, rfl⟩
    · exact h.commitEnd hr hend
  rw [step_eq s (.commit t ign now throwsAt how) rfl hcmt.2]
  exact hcmt.1

lemma abort_step (t : TransId) (how : Append) : Recorded (s.step (.abortTransaction t how)) := by
  have habort : Recorded { s with endpoint := (s.endpoint.abortTransaction t how).1 } ∧
      (s.endpoint.abortTransaction t how).1.nextRef = s.endpoint.nextRef := by
    obtain ⟨reply, heq⟩ | ⟨r, hr, hend⟩ := abortTransaction_cases t how s.endpoint
    · rw [heq]
      exact ⟨h, rfl⟩
    · generalize s.endpoint.abortTransaction t how = result at hend
      cases hend with
      | halted log f _ _ =>
        have habt := h.setStatus hr .aborted
        exact ⟨{ habt with wellFormed := { habt.wellFormed with } }, rfl⟩
      | aborted e₁ htouch hind hstat =>
        exact ⟨h.retire hr htouch (h.settled hr hind) (.inl hstat), htouch.nextRef⟩
  rw [step_eq s (.abortTransaction t how) rfl habort.2]
  exact habort.1

lemma step (hroom : s.endpoint.Room) (op : Op) : Recorded (s.step op) := by
  cases hbuf : op.buffers s.endpoint.tabledescriptor with
  | some x => exact h.buffer_step (t := x.1) (g := x.2) hbuf
  | none =>
    cases op with
    | beginTransaction t => exact h.begin_step t
    | commitRequest t how => exact h.commitRequest_step hroom t how
    | commit t ign now throwsAt how =>
      exact h.commit_step t ign now throwsAt how
    | abortTransaction t how => exact h.abort_step t how
    | removeUnNeededCommitedTransactions =>
      rw [step_eq s .removeUnNeededCommitedTransactions rfl rfl]
      exact h.removeUnNeededCommitedTransactions
    | _ => cases hbuf

end

lemma start (htd : TableDescriptor) (store : Cells) (editGenerated : Bool) :
    Recorded (Monitored.start htd store editGenerated) := by
  have hnone : ∀ t r, (Monitored.start htd store editGenerated).endpoint.transactionsById.lookup t ≠
      some r := fun t r => by simp [Monitored.start, opened]
  constructor
  · exact WellFormed.opened htd store ∅ ∅ editGenerated
  · rfl
  · exact fun t r hr => absurd hr (hnone t r)
  · exact fun t r hr => absurd hr (hnone t r)
  · exact fun _ _ => rfl
  · exact fun u hu => absurd hu (not_lt_zero u)
  · exact fun u q hvote => absurd hvote List.not_mem_nil
  · exact fun t r hr => absurd hr (hnone t r)

section
variable (h : Recorded s) (hr : s.endpoint.transactionsById.lookup t = some r)
include h hr

lemma mem_transactionsToCheck {u : Ref} (hu : s.Concurrent r u) :
    u ∈ ((s.endpoint.addTransactionsToCheck r).heap r).transactionsToCheck := by
  rw [addTransactionsToCheck_heap_self]
  apply Finset.mem_union.2
  obtain ⟨q, hvote, hst0⟩ | hpend := hu
  · obtain ⟨-, hq, hnum⟩ := h.voted u q hvote
    right
    rw [List.mem_toFinset, mem_commitedSince]
    exact ⟨q, hst0, hq, hnum t r hr hst0⟩
  · exact .inl ((h.begun t r hr).1 hpend)

lemma concurrent_allocated {u : Ref} (hu : s.Concurrent r u) : u < s.endpoint.nextRef := by
  obtain ⟨q, hvote, -⟩ | hpend := hu
  · exact (h.voted u q hvote).1
  · exact (h.begun t r hr).2 u hpend

/-- A check that finds nothing vouches for the transactions that are neither aborted nor
committed. -/
theorem readsUntouched_of_checked
    (hchk : (s.endpoint.addTransactionsToCheck r).hasConflict r = false)
    (hcommited : s.ReadsUntouched (· = .commited) r) : s.ReadsUntouched (· ≠ .aborted) r := by
  intro u hu hid hstat row hrow
  by_cases hdone : (s.endpoint.heap u).status = .commited
  · exact hcommited u hu hid hdone row hrow
  · -- the other transaction is known, so its writes are still buffered
    have hlive : ∃ t', s.endpoint.transactionsById.lookup t' = some u := by
      by_contra hnot
      obtain habort | hcmt := h.retired u (h.concurrent_allocated hr hu)
        fun t' ht' => hnot ⟨t', ht'⟩
      · exact hstat habort
      · exact hdone hcmt
    obtain ⟨t', ht'⟩ := hlive
    have hur : u ≠ r := by
      rintro rfl
      exact hid rfl
    have hoth : (s.endpoint.addTransactionsToCheck r).heap u = s.endpoint.heap u :=
      modify_heap_of_ne hur _ _
    have hnone : ((s.endpoint.addTransactionsToCheck r).heap r).hasConflictWith
        (s.endpoint.heap u) = false := by
      have hall := of_decide_eq_false hchk
      rw [← hoth]
      exact Bool.eq_false_iff.2 fun hconf =>
        hall ⟨u, h.mem_transactionsToCheck hr hu, hconf⟩
    rw [hasConflictWith_eq_false_iff, addTransactionsToCheck_heap_self] at hnone
    obtain habort | hsame | hfree := hnone
    · exact absurd habort hstat
    · exact absurd hsame.symm hid
    · apply hfree row
      rw [h.live t' u ht']
      exact hrow

end

end Recorded

/-- In every run, when a commit request succeeds, the validation has been complete exactly
when no concurrent transaction that has already been committed wrote what was read. -/
theorem validation_complete_iff (htd : TableDescriptor)
    (store : List (TombstoneStore.Cell Bytes Bytes Bytes Bytes)) (editGenerated : Bool)
    {ops : List Op}
    (hroom : Runs.Guarded step (fun s _ => s.endpoint.Room) (start htd store editGenerated) ops)
    {s : Monitored} (hs : s = Runs.run step (start htd store editGenerated) ops)
    {t : TransId} {r : Ref}
    (hr : s.endpoint.transactionsById.lookup t = some r) {how : Append}
    (hvote : (s.endpoint.commitRequest t how).2 = .vote .commitOk ∨
      (s.endpoint.commitRequest t how).2 = .vote .commitOkReadOnly) :
    s.ReadsUntouched (· ≠ .aborted) r ↔ s.ReadsUntouched (· = .commited) r := by
  have hrecorded : Recorded s := by
    rw [hs]
    exact Runs.Guarded.invariant (fun s op h hroom => h.step hroom op)
      (Recorded.start htd store editGenerated) hroom
  constructor
  · intro h u hu hid hstatus
    apply h u hu hid
    rw [hstatus]
    exact nofun
  · have hend := commitRequest_cases hr how
    generalize s.endpoint.commitRequest t how = result at hend hvote
    cases hend with
    | conflict _ => simp at hvote
    | ok hchecked _ _ _ _ => exact hrecorded.readsUntouched_of_checked hr hchecked
    | readOnly hchecked _ => exact hrecorded.readsUntouched_of_checked hr hchecked

def readBeforeCommit : List Op :=
  [.getScanner 6 ⟨some [1], some [1]⟩, .put 6 1 (.column [2] [1] [1] [8]),
    .put 5 1 (.column [3] [1] [1] [7]), .commitRequest 5 .written]

theorem readBeforeCommit_validated :
    (Runs.run step (start ⟨[[1]], by simp⟩ [] false) readBeforeCommit).ReadsUntouched (· ≠ .aborted) 0 ↔
      (Runs.run step (start ⟨[[1]], by simp⟩ [] false) readBeforeCommit).ReadsUntouched
        (· = .commited) 0 :=
  have hroom : Runs.Guarded step (fun s _ => s.endpoint.Room) (start ⟨[[1]], by simp⟩ [] false)
      readBeforeCommit := by decide
  have hvote : ((Runs.run step (start ⟨[[1]], by simp⟩ [] false) readBeforeCommit).endpoint.commitRequest
      6 .written).2 = .vote .commitOk := by decide
  validation_complete_iff _ _ _ hroom rfl (by decide) (.inl hvote)

/-- Transaction 6 has read row 1, transaction 5 puts it and is committed, and 6 may still
commit. -/
theorem commited_write_missed : ((Runs.run step (start ⟨[[1]], by simp⟩ [] false)
      [.getScanner 6 ⟨some [1], some [1]⟩, .put 5 1 (.column [1] [1] [1] [7]),
        .commitRequest 5 .written, .commit 5 false 2 none .written,
        .put 6 3 (.column [2] [1] [1] [8])]).endpoint.commitRequest 6 .written).2 =
        .vote .commitOk ∧ ¬ (Runs.run step (start ⟨[[1]], by simp⟩ [] false)
        [.getScanner 6 ⟨some [1], some [1]⟩, .put 5 1 (.column [1] [1] [1] [7]),
          .commitRequest 5 .written, .commit 5 false 2 none .written,
          .put 6 3 (.column [2] [1] [1] [8])]).ReadsUntouched (· ≠ .aborted) 0 := by
  refine ⟨by decide, fun h => ?_⟩
  exact h 1 (.inl ⟨0, by decide, by decide⟩) (by decide) (by decide) [1] (by decide) (by decide)

end Monitored

end Trafodion.Region
