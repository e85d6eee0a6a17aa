import Trafodion.RegionBuffering

/-!
# Write-write exclusion among prepared transactions

Validation compares the ranges a transaction has read with the rows others have written.
Two prepared transactions can therefore only be kept apart on a row that the later one has
recorded as read, which `addWrite` sees to and `addDelete` does not.
-/
namespace Trafodion.Region.Endpoint
open TransactionState Finset

attribute [local simp] writeRows

def WriteExclusion (e : Endpoint) : Prop :=
  ∀ r ∈ e.commitPendingTransactions, ∀ u ∈ e.commitPendingTransactions, r ≠ u →
    ∀ row ∈ (e.heap r).writeRows, row ∉ (e.heap u).writeRows

/-- What carries write exclusion from one call to the next. `holders` says that a
commit-pending state with writes belongs to a known prepared transaction, `visible` that
validation of a known transaction looks at every commit-pending one. -/
structure Excluding (e : Endpoint) : Prop where
  wellFormed : WellFormed e
  holders : ∀ r ∈ e.commitPendingTransactions,
    (e.transactionsById.lookup (e.heap r).transactionId = some r →
      (e.heap r).status = .commitPending) ∧
    ((e.heap r).writeOrdering ≠ [] →
      e.transactionsById.lookup (e.heap r).transactionId = some r)
  reinstated : ∀ t r, e.transactionsById.lookup t = some r → (e.heap r).reInstated = true →
    r ∈ e.commitPendingTransactions ∧ (e.heap r).writeOrdering = []
  visible : ∀ t r, e.transactionsById.lookup t = some r → (e.heap r).reInstated = false →
    ∀ u ∈ e.commitPendingTransactions, u ∈ (e.heap r).transactionsToCheck ∨
      ∃ q, (e.heap r).startSequenceNumber ≤ q ∧
        e.commitedTransactionsBySequenceNumber.lookup q = some u
  logged : ∀ t r, e.transactionsById.lookup t = some r → (e.heap r).edit = [] →
    (e.heap r).writeOrdering = []
  exclusion : WriteExclusion e

namespace Excluding

variable {e e' : Endpoint}

/-- A change of one state. The status and the writes of a commit-pending transaction stay,
and the transactions to check only become more. -/
theorem touch (h : Excluding e) {r : Ref} (htouch : Touches r e e')
    (hsame : e'.commitPendingTransactions = e.commitPendingTransactions)
    (hreinstated : (e'.heap r).reInstated = (e.heap r).reInstated)
    (hcheck : (e.heap r).transactionsToCheck ⊆ (e'.heap r).transactionsToCheck)
    (hlog : (e'.heap r).edit = [] → (e'.heap r).writeOrdering = [])
    (hpend : r ∈ e.commitPendingTransactions → (e'.heap r).status = (e.heap r).status ∧
        (e'.heap r).writeOrdering = (e.heap r).writeOrdering) : Excluding e' := by
  have hwr : ∀ u ∈ e.commitPendingTransactions,
      (e'.heap u).writeOrdering = (e.heap u).writeOrdering ∧
        (e'.heap u).status = (e.heap u).status ∧
        (e'.heap u).transactionId = (e.heap u).transactionId := by
    intro u hu
    by_cases hur : u = r
    · subst hur
      exact ⟨(hpend hu).2, (hpend hu).1, htouch.identity⟩
    · rw [htouch.others u hur]
      exact ⟨rfl, rfl, rfl⟩
  constructor
  · exact h.wellFormed.touches htouch
  · intro u hu
    rw [hsame] at hu
    obtain ⟨hw, hs, hi⟩ := hwr u hu
    rw [hw, hs, hi, htouch.known]
    exact h.holders u hu
  · intro t u hu hre
    rw [htouch.known] at hu
    rw [hsame]
    by_cases hur : u = r
    · subst hur
      obtain ⟨hmem, hemp⟩ := h.reinstated t u hu (hreinstated.symm.trans hre)
      exact ⟨hmem, (hpend hmem).2.trans hemp⟩
    · rw [htouch.others u hur] at hre ⊢
      exact h.reinstated t u hu hre
  · intro t u hu hre v hv
    rw [htouch.known] at hu
    rw [hsame] at hv
    rw [htouch.numbers]
    by_cases hur : u = r
    · subst hur
      rw [htouch.start]
      obtain hmem | hnum := h.visible t u hu (hreinstated.symm.trans hre) v hv
      · exact .inl (hcheck hmem)
      · exact .inr hnum
    · rw [htouch.others u hur] at hre ⊢
      exact h.visible t u hu hre v hv
  · intro t u hu
    rw [htouch.known] at hu
    by_cases hur : u = r
    · rw [hur]
      exact hlog
    · rw [htouch.others u hur]
      exact h.logged t u hu
  · intro u hu v hv huv row
    rw [hsame] at hu hv
    unfold writeRows
    rw [(hwr u hu).1, (hwr v hv).1]
    exact h.exclusion u hu v hv huv row

variable {t : TransId}

section
variable (h : Excluding e)
include h

/-- A known transaction is retired. Its state may stay among the commit-pending ones,
without writes. -/
theorem discard {r : Ref} (hr : e.transactionsById.lookup t = some r) (htouch : Touches r e e') :
    Excluding (e'.retireTransaction r) := by
  obtain ⟨hknown, hoth, hstill⟩ := h.wellFormed.retired hr htouch
  have hself : (e'.retireTransaction r).heap r = (e'.heap r).clearState :=
    modify_heap_self r _ e'
  constructor
  · exact (h.wellFormed.touches htouch).retireTransaction r
  · intro u hu
    by_cases hur : u = r
    · subst hur
      rw [hself, hknown]
      change (_ → _) ∧ ([] ≠ [] → _)
      have hnone : (e.transactionsById.erase t).lookup (e'.heap u).clearState.transactionId =
          none := by
        change (e.transactionsById.erase t).lookup (e'.heap u).transactionId = none
        rw [htouch.identity, h.wellFormed.identity t u hr]
        exact AList.lookup_erase _ _
      rw [hnone]
      simp
    · rw [hoth u hur]
      obtain ⟨hstat, hlive⟩ := h.holders u (htouch.pending_subset hu)
      refine ⟨fun hu' => hstat (hstill _ u hu').1, fun hw => ?_⟩
      have hlook := hlive hw
      -- a state with the forgotten id and writes would be the forgotten state
      have ht : (e.heap u).transactionId ≠ t := by
        intro ht
        rw [ht, hr] at hlook
        exact hur (Option.some.inj hlook).symm
      rw [hknown, AList.lookup_erase_ne ht]
      exact hlook
  · intro t' u hu hre
    obtain ⟨hlook, hur⟩ := hstill t' u hu
    rw [hoth u hur] at hre ⊢
    obtain ⟨hmem, hw⟩ := h.reinstated t' u hlook hre
    exact ⟨htouch.pending_of_ne u hmem hur, hw⟩
  · intro t' u hu hre v hv
    obtain ⟨hlook, hur⟩ := hstill t' u hu
    rw [hoth u hur] at hre ⊢
    change _ ∨ ∃ q, _ ∧ e'.commitedTransactionsBySequenceNumber.lookup q = some v
    rw [htouch.numbers]
    exact h.visible t' u hlook hre v (htouch.pending_subset hv)
  · intro t' u hu
    obtain ⟨hlook, hur⟩ := hstill t' u hu
    rw [hoth u hur]
    exact h.logged t' u hlook
  · intro u hu v hv huv row hrow
    have hu' := htouch.pending_subset hu
    have hv' := htouch.pending_subset hv
    by_cases hur : u = r
    · simp [hur, hself, clearState] at hrow
    · by_cases hvr : v = r
      · simp [hvr, hself, clearState]
      · rw [hoth u hur] at hrow
        rw [hoth v hvr]
        exact h.exclusion u hu' v hv' huv row hrow

lemma pending_ne_nextRef {u : Ref} (hu : u ∈ e.commitPendingTransactions) : u ≠ e.nextRef :=
  Nat.ne_of_lt (h.wellFormed.pending u hu)

lemma allocate (ht : e.transactionsById.lookup t = none) : Excluding (e.allocate t) := by
  constructor
  · exact h.wellFormed.allocate t
  · intro u hu
    have hne := h.pending_ne_nextRef hu
    obtain ⟨hstat, hlive⟩ := h.holders u hu
    rw [allocate_heap_of_ne hne]
    constructor
    · intro hlook
      obtain ⟨-, heq⟩ | ⟨-, -, hold⟩ := h.wellFormed.lookup_insert_cases hlook
      · exact absurd heq hne
      · exact hstat hold
    · intro hw
      have hsome := hlive hw
      have hid : (e.heap u).transactionId ≠ t := by
        intro hid
        rw [hid, ht] at hsome
        simp at hsome
      exact (AList.lookup_insert_ne hid).trans hsome
  · intro t' u hu hre
    obtain ⟨-, rfl⟩ | ⟨-, hne, hold⟩ := h.wellFormed.lookup_insert_cases hu
    · simp [allocate_heap_self, new] at hre
    · rw [allocate_heap_of_ne hne] at hre ⊢
      exact h.reinstated t' u hold hre
  · intro t' u hu hre v hv
    obtain ⟨-, rfl⟩ | ⟨-, hne, hold⟩ := h.wellFormed.lookup_insert_cases hu
    · rw [allocate_heap_self]
      exact .inl hv
    · rw [allocate_heap_of_ne hne] at hre ⊢
      exact h.visible t' u hold hre v hv
  · intro t' u hu
    obtain ⟨-, rfl⟩ | ⟨-, hne, hold⟩ := h.wellFormed.lookup_insert_cases hu
    · rw [allocate_heap_self]
      exact fun _ => rfl
    · rw [allocate_heap_of_ne hne]
      exact h.logged t' u hold
  · intro u hu v hv huv row
    rw [allocate_heap_of_ne (h.pending_ne_nextRef hu), allocate_heap_of_ne
      (h.pending_ne_nextRef hv)]
    exact h.exclusion u hu v hv huv row

lemma visible_next {u v r : Ref}
    (hu : e.transactionsById.lookup t = some u) (hre : (e.heap u).reInstated = false)
    (hv : v ∈ insert r e.commitPendingTransactions) :
    v ∈ (e.heap u).transactionsToCheck ∨ ∃ q, (e.heap u).startSequenceNumber ≤ q ∧
      (e.commitedTransactionsBySequenceNumber.insert e.nextSequenceId r).lookup q = some v := by
  obtain rfl | hv := mem_insert.1 hv
  · right
    exact ⟨e.nextSequenceId, h.wellFormed.begun t u hu, AList.lookup_insert _⟩
  · obtain hmem | ⟨q, hle, hq⟩ := h.visible t u hu hre v hv
    · exact .inl hmem
    · have hlt := h.wellFormed.numbered q v hq
      right
      exact ⟨q, hle, (AList.lookup_insert_ne (by omega)).trans hq⟩

/-- While in-doubt transactions are reinstated, no commit-pending state has writes. -/
theorem reinstate (hemp : ∀ r ∈ e.commitPendingTransactions, (e.heap r).writeOrdering = [])
    (t : TransId) (hroom : e.nextSequenceId + 1 < 2 ^ 31) : Excluding (e.reinstate t) := by
  have hmem : ∀ u ∈ (e.reinstate t).commitPendingTransactions,
      u = e.nextRef ∨ u ≠ e.nextRef ∧ u ∈ e.commitPendingTransactions := by
    intro u hu
    obtain rfl | hu := mem_insert.1 hu
    · exact .inl rfl
    · exact .inr ⟨h.pending_ne_nextRef hu, hu⟩
  have hwr : ∀ u ∈ (e.reinstate t).commitPendingTransactions,
      ((e.reinstate t).heap u).writeOrdering = [] := by
    intro u hu
    obtain rfl | ⟨hne, hu⟩ := hmem u hu
    · rw [reinstate_heap_self]
      rfl
    · rw [reinstate_heap_of_ne hne]
      exact hemp u hu
  constructor
  · exact h.wellFormed.reinstate t hroom
  · intro u hu
    refine ⟨?_, fun hw => absurd (hwr u hu) hw⟩
    obtain rfl | ⟨hne, hu⟩ := hmem u hu
    · rw [reinstate_heap_self]
      exact fun _ => rfl
    · rw [reinstate_heap_of_ne hne]
      intro hlook
      obtain ⟨-, heq⟩ | ⟨-, -, hold⟩ := h.wellFormed.lookup_insert_cases hlook
      · exact absurd heq hne
      · exact (h.holders u hu).1 hold
  · intro t' u hu hre
    obtain ⟨-, rfl⟩ | ⟨-, hne, hold⟩ := h.wellFormed.lookup_insert_cases hu
    · have hself := mem_insert_self e.nextRef e.commitPendingTransactions
      exact ⟨hself, hwr _ hself⟩
    · rw [reinstate_heap_of_ne hne] at hre ⊢
      obtain ⟨hu, hw⟩ := h.reinstated t' u hold hre
      exact ⟨mem_insert_of_mem hu, hw⟩
  · intro t' u hu hre v hv
    obtain ⟨-, rfl⟩ | ⟨-, hne, hold⟩ := h.wellFormed.lookup_insert_cases hu
    · simp [reinstate_heap_self] at hre
    · rw [reinstate_heap_of_ne hne] at hre ⊢
      exact h.visible_next hold hre hv
  · intro t' u hu
    obtain ⟨-, rfl⟩ | ⟨-, hne, hold⟩ := h.wellFormed.lookup_insert_cases hu
    · rw [reinstate_heap_self]
      exact fun _ => rfl
    · rw [reinstate_heap_of_ne hne]
      exact h.logged t' u hold
  · intro u hu v hv huv row hrow
    simp [hwr u hu] at hrow

lemma prepare {r : Ref}
    (hr : e.transactionsById.lookup t = some r) (hordinary : (e.heap r).reInstated = false)
    (hroom : e.nextSequenceId + 1 < 2 ^ 31) (hdisjoint : ∀ u ∈ e.commitPendingTransactions, u ≠ r →
      ∀ row ∈ (e.heap r).writeRows, row ∉ (e.heap u).writeRows) : Excluding (e.prepare r) := by
  have hst (u : Ref) := prepare_heap r u e
  constructor
  · exact h.wellFormed.prepare (h.wellFormed.allocated t r hr) hroom
  · intro u hu
    by_cases hur : u = r
    · rw [hur, prepare_heap_self]
      rw [h.wellFormed.identity t r hr]
      exact ⟨fun _ => rfl, fun _ => hr⟩
    · rw [prepare_heap_of_ne hur]
      exact h.holders u ((mem_insert.1 hu).resolve_left hur)
  · intro t' u hu hre
    obtain ⟨_, _, heq⟩ := hst u
    rw [heq] at hre ⊢
    obtain ⟨hmem, hemp⟩ := h.reinstated t' u hu hre
    exact ⟨mem_insert_of_mem hmem, hemp⟩
  · intro t' u hu hre v hv
    obtain ⟨_, _, heq⟩ := hst u
    rw [heq] at hre ⊢
    exact h.visible_next hu hre hv
  · intro t' u hu
    obtain ⟨_, _, heq⟩ := hst u
    rw [heq]
    exact h.logged t' u hu
  · intro u hu v hv huv row hrow
    obtain ⟨_, _, heq⟩ := hst u
    obtain ⟨_, _, heq'⟩ := hst v
    rw [heq] at hrow
    rw [heq']
    by_cases hur : u = r
    · subst hur
      exact hdisjoint v ((mem_insert.1 hv).resolve_left huv.symm) huv.symm row hrow
    · have hu' := (mem_insert.1 hu).resolve_left hur
      by_cases hvr : v = r
      · subst hvr
        exact fun hrow' => hdisjoint u hu' hur row hrow' hrow
      · exact h.exclusion u hu' v ((mem_insert.1 hv).resolve_left hvr) huv row hrow

lemma removeUnNeededCommitedTransactions : Excluding e.removeUnNeededCommitedTransactions := by
  refine { h with
    wellFormed := h.wellFormed.removeUnNeededCommitedTransactions
    visible := fun t r hr hre u hu => ?_ }
  obtain hmem | ⟨q, hle, hq⟩ := h.visible t r hr hre u hu
  · exact .inl hmem
  · exact .inr ⟨q, hle, (lookup_removeUnNeeded (e := e) hr hle).trans hq⟩

end

end Excluding

structure Untouched (e : Endpoint) : Prop where
  known : ∀ t, e.transactionsById.lookup t = none
  pending : e.commitPendingTransactions = ∅

def VotedToCommit (t : TransId) (e : Endpoint) : Prop :=
  (∃ r ∈ e.transactionsById.lookup t, (e.heap r).status = .commitPending) ∨
    e.reconstructIndoubts = false ∧ t ∈ e.indoubtTransactionsById.keys

/-- The steps that keep write exclusion. A transaction has read the rows it has written when
it asks to commit, it writes nothing after its vote, and the log takes the record that ends
it. -/
def Orderly (e : Endpoint) (op : Op) : Prop :=
  e.Room ∧
  match op with
  | .put t _ _ | .delete t _ _ | .checkAndPut t _ _ _ _ | .checkAndDelete t _ _ _ _ =>
    ¬ e.VotedToCommit t
  | .commitRequest t _ => ∀ r ∈ e.transactionsById.lookup t,
      ∀ row ∈ (e.heap r).writeRows, (e.heap r).Reads row
  | .commit t _ _ _ how => how = .written ∨
      ∀ r ∈ e.transactionsById.lookup t, (e.heap r).reInstated = false
  | .abortTransaction t how => how = .written ∨
      ∀ r ∈ e.transactionsById.lookup t, (e.heap r).hasWrite = false
  | _ => True

instance (t : TransId) (e : Endpoint) : Decidable (e.VotedToCommit t) :=
  inferInstanceAs (Decidable (_ ∨ _))

instance (e : Endpoint) (op : Op) : Decidable (Orderly e op) :=
  match op with
  | .put _ _ _ | .delete _ _ _ | .checkAndPut _ _ _ _ _ | .checkAndDelete _ _ _ _ _ =>
    inferInstanceAs (Decidable (_ ∧ ¬ _))
  | .commitRequest _ _ => inferInstanceAs (Decidable (_ ∧ ∀ _ ∈ _, ∀ _ ∈ _, _))
  | .commit _ _ _ _ _ | .abortTransaction _ _ =>
    inferInstanceAs (Decidable (_ ∧ (_ ∨ ∀ _ ∈ _, _)))
  | .beginTransaction _ | .getScanner _ _ | .removeUnNeededCommitedTransactions =>
    inferInstanceAs (Decidable (_ ∧ True))

/-- If `t` is known, it is not prepared. -/
structure NotPrepared (t : TransId) (e : Endpoint) : Prop where
  wellFormed : WellFormed e
  status : ∀ r, e.transactionsById.lookup t = some r → (e.heap r).status ≠ .commitPending

lemma NotPrepared.begun {t : TransId} {e : Endpoint} (h : WellFormed e) (hroom : e.Room)
    (hvote : ¬ e.VotedToCommit t) : NotPrepared t (e.beginTransIfNotExist t) := by
  have hbef : NotPrepared t e :=
    ⟨h, fun r hr hstat => hvote (.inl ⟨r, hr, hstat⟩)⟩
  apply beginTransIfNotExist_rule hbef
  apply beginTransaction_rule h.counter hroom hbef
  · intro e' started h'
    exact ⟨{ h'.wellFormed with }, h'.status⟩
  · intro hnot e' s hs h' _ hroom'
    refine ⟨h'.wellFormed.reinstate s hroom', fun r hr => ?_⟩
    obtain ⟨rfl, -⟩ | ⟨-, hne, hr⟩ := h'.wellFormed.lookup_insert_cases hr
    · exact absurd (.inr ⟨hnot, hs⟩) hvote
    · rw [reinstate_heap_of_ne hne]
      exact h'.status r hr
  · intro e' h' _ _
    refine ⟨h'.wellFormed.allocate t, fun r hr => ?_⟩
    obtain ⟨-, rfl⟩ | ⟨-, hne, hr⟩ := h'.wellFormed.lookup_insert_cases hr
    · rw [allocate_heap_self]
      exact nofun
    · rw [allocate_heap_of_ne hne]
      exact h'.status r hr

structure Guarding (e : Endpoint) : Prop where
  excluding : Excluding e
  untouched : e.reconstructIndoubts = false → Untouched e

namespace Guarding

variable {e : Endpoint}

structure Opening (e₀ e : Endpoint) : Prop where
  excluding : Excluding e
  empty : e₀.reconstructIndoubts = false →
    ∀ r ∈ e.commitPendingTransactions, (e.heap r).writeOrdering = []

lemma beginTransaction (h : Guarding e) (hroom : e.Room) (t : TransId) :
    Guarding (e.beginTransaction t) := by
  have hbef : Opening e e := by
    refine ⟨h.excluding, fun hnot r hr => ?_⟩
    rw [(h.untouched hnot).pending] at hr
    exact absurd hr (notMem_empty r)
  have hopening : Opening e (e.beginTransaction t) := by
    apply beginTransaction_rule h.excluding.wellFormed.counter hroom hbef
    · exact fun e' _ h' => ⟨{ h'.excluding with wellFormed := { h'.excluding.wellFormed with } }, h'.empty⟩
    · intro hnot e' s _ h' _ hroom'
      refine ⟨h'.excluding.reinstate (h'.empty hnot) s hroom', fun _ r hr => ?_⟩
      obtain rfl | hr := mem_insert.1 hr
      · rw [reinstate_heap_self]
        rfl
      · rw [reinstate_heap_of_ne (h'.excluding.pending_ne_nextRef hr)]
        exact h'.empty hnot r hr
    · intro e' h' _ hnone
      refine ⟨h'.excluding.allocate hnone, fun hnot r hr => ?_⟩
      rw [allocate_heap_of_ne (h'.excluding.pending_ne_nextRef hr)]
      exact h'.empty hnot r hr
  refine ⟨hopening.excluding, fun hnot => ?_⟩
  rw [beginTransaction_reconstructed] at hnot
  exact absurd hnot (by simp)

lemma beginTransIfNotExist (h : Guarding e) (hroom : e.Room) (t : TransId) :
    Guarding (e.beginTransIfNotExist t) :=
  beginTransIfNotExist_rule h (h.beginTransaction hroom t)

variable {t : TransId}

variable {r : Ref}

lemma of_known (h : Guarding e) (hr : e.transactionsById.lookup t = some r) {e' : Endpoint}
    (h' : Excluding e') (hflag : e'.reconstructIndoubts = e.reconstructIndoubts) : Guarding e' := by
  refine ⟨h', fun hnot => ?_⟩
  rw [hflag] at hnot
  have hnone := (h.untouched hnot).known t
  rw [hr] at hnone
  exact absurd hnone (by simp)

lemma onState (h : Guarding e) (hroom : e.Room)
    {g : StateMap} (hg : ∀ s, TransactionState.Buffered s (g s))
    (hwr : (∀ s, (g s).writeOrdering = s.writeOrdering) ∨ ¬ e.VotedToCommit t) :
    Guarding (e.onState t g) := by
  obtain ⟨r, hr, heq⟩ := onState_eq t g e
  have hbegun := h.beginTransIfNotExist hroom t
  rw [heq]
  refine hbegun.of_known hr ?_ rfl
  have hbuffered := hg ((e.beginTransIfNotExist t).heap r)
  have hfrm := hbuffered.frame
  have htouch : Touches r (e.beginTransIfNotExist t)
      ((e.beginTransIfNotExist t).modify r g) :=
    .of_modify (by rw [hfrm]) (by rw [hfrm])
  apply hbegun.excluding.touch htouch rfl
  · rw [modify_heap_self, hfrm]
  · rw [modify_heap_self, hfrm]
  · rw [modify_heap_self]
    exact hbuffered.logged (hbegun.excluding.logged t r hr)
  · intro hpend
    rw [modify_heap_self]
    obtain hsame | hvote := hwr
    · exact ⟨by rw [hfrm], hsame _⟩
    · -- a known commit-pending transaction has voted
      have hnot := (NotPrepared.begun h.excluding.wellFormed hroom hvote).status r hr
      have hid := hbegun.excluding.wellFormed.identity t r hr
      exact absurd ((hbegun.excluding.holders r hpend).1 (hid.symm ▸ hr)) hnot

lemma retire (h : Guarding e) (hr : e.transactionsById.lookup t = some r) {e₁ : Endpoint}
    (htouch : Touches r e e₁) : Guarding (e₁.retireTransaction r) := by
  refine h.of_known hr ?_ htouch.reconstructed
  exact h.excluding.discard hr htouch

/-- A transaction that passes the check has read no row that a commit-pending one writes. -/
theorem disjoint_of_checked (h : Excluding e) (hr : e.transactionsById.lookup t = some r)
    (hordinary : (e.heap r).reInstated = false)
    (hchk : (e.addTransactionsToCheck r).hasConflict r = false)
    (hreads : ∀ row ∈ (e.heap r).writeRows, (e.heap r).Reads row) :
    ∀ u ∈ e.commitPendingTransactions, u ≠ r →
      ∀ row ∈ (e.heap r).writeRows, row ∉ (e.heap u).writeRows := by
  intro u hu hur row hrow hrow'
  have hst := addTransactionsToCheck_heap_self r e
  have hoth : (e.addTransactionsToCheck r).heap u = e.heap u := modify_heap_of_ne hur _ e
  have hmem : u ∈ ((e.addTransactionsToCheck r).heap r).transactionsToCheck := by
    rw [hst]
    apply mem_union.2
    obtain hmem | ⟨q, hle, hq⟩ := h.visible t r hr hordinary u hu
    · exact .inl hmem
    · right
      rw [List.mem_toFinset, mem_commitedSince]
      exact ⟨q, hle, h.wellFormed.numbered q u hq, hq⟩
  have hnone : ((e.addTransactionsToCheck r).heap r).hasConflictWith (e.heap u) = false := by
    have hall := of_decide_eq_false hchk
    rw [← hoth]
    exact Bool.eq_false_iff.2 fun hconf => hall ⟨u, hmem, hconf⟩
  have hwr : (e.heap u).writeOrdering ≠ [] := by
    intro hemp
    simp [hemp] at hrow'
  obtain ⟨hstat, hlive⟩ := h.holders u hu
  have hlook := hlive hwr
  rw [hasConflictWith_eq_false_iff, hst] at hnone
  obtain habort | hsame | hfree := hnone
  · rw [hstat hlook] at habort
    exact absurd habort (by simp)
  · rw [← hsame, h.wellFormed.identity t r hr, hr] at hlook
    exact hur (Option.some.inj hlook).symm
  · exact hfree row hrow' (hreads row hrow)

lemma commitRequest (h : Guarding e) (hroom : e.Room) (hreads : ∀ r ∈ e.transactionsById.lookup t,
      ∀ row ∈ (e.heap r).writeRows, (e.heap r).Reads row) (how : Append) :
    Guarding (e.commitRequest t how).1 := by
  cases hr : e.transactionsById.lookup t with
  | none =>
    simp only [Endpoint.commitRequest, hr]
    exact h
  | some r =>
    have hchk : Excluding (e.addTransactionsToCheck r) := by
      have htouch : Touches r e (e.addTransactionsToCheck r) := .of_modify rfl rfl
      apply h.excluding.touch htouch rfl
      all_goals rw [addTransactionsToCheck_heap_self]
      · exact subset_union_left
      · exact h.excluding.logged t r hr
      · exact fun _ => ⟨rfl, rfl⟩
    have hretire : ∀ status, Guarding (((e.addTransactionsToCheck r).modify r
        (setStatus status)).retireTransaction r) := by
      intro status
      apply h.retire hr
      exact (Touches.of_modify rfl rfl).trans (.setStatus r status _)
    have hend := commitRequest_cases hr how
    generalize e.commitRequest t how = result at hend
    cases hend with
    | conflict _ => exact hretire .aborted
    | readOnly _ _ => exact hretire .commited
    | ok hcheck hwrite log reply _ =>
      have hordinary : (e.heap r).reInstated = false := by
        rw [Bool.eq_false_iff]
        intro hre
        simp [hasWrite, (h.excluding.reinstated t r hr hre).2] at hwrite
      have hdisjoint := disjoint_of_checked h.excluding hr hordinary hcheck (hreads r hr)
      have hprep : Excluding ((e.addTransactionsToCheck r).prepare r) := by
        apply hchk.prepare hr
        · rw [addTransactionsToCheck, modify_heap_self]
          exact hordinary
        · unfold Room at hroom
          change e.nextSequenceId + 1 < 2 ^ 31
          omega
        · intro u hu hur row
          rw [addTransactionsToCheck, modify_heap_self, modify_heap_of_ne hur]
          exact hdisjoint u hu hur row
      exact h.of_known hr { hprep with wellFormed := { hprep.wellFormed with } } rfl

lemma commit (h : Guarding e) {how : Append}
    (hhow : how = .written ∨ ∀ r ∈ e.transactionsById.lookup t, (e.heap r).reInstated = false)
    (ign : Bool) (now : ℕ) (throwsAt : Option ℕ) :
    Guarding (e.commit t ign now throwsAt how).1 := by
  obtain ⟨reply, heq⟩ | ⟨r, hr, hstat, hend⟩ :=
    commit_cases t ign now throwsAt how e
  · rw [heq]
    exact h
  · generalize e.commit t ign now throwsAt how = result at hend
    cases hend with
    | aborted e₁ htouch _ _ => exact h.retire hr htouch
    | commited e₁ htouch _ _ => exact h.retire hr htouch
    | halted e₁ happ f hwr =>
      -- the buffered writes are as before: only a reinstated transaction buffers more, and
      -- with an intact log it stops only when it has nothing to write
      have hlog := happ.state.logged (h.excluding.logged t r hr)
      have hsame : (e₁.heap r).writeOrdering = (e.heap r).writeOrdering := by
        cases hre : (e.heap r).reInstated with
        | false => exact (happ.state.ordinary hre).2.1
        | true =>
          have hwrit : how = .written := hhow.resolve_right fun hall => by
            simp [hall r hr] at hre
          obtain hedit | hsame := hwr hwrit
          · rw [hlog hedit, (h.excluding.reinstated t r hr hre).2]
          · exact hsame
      refine h.of_known hr ?_ (Touches.of_applied happ).reconstructed
      apply h.excluding.touch (.of_applied happ)
      · exact happ.pending
      · exact happ.state.reInstated
      · exact happ.state.transactionsToCheck.symm.subset
      · exact hlog
      · exact fun _ => ⟨happ.state.status, hsame⟩
    | failed e₁ happ hpend =>
      have hlog := happ.state.logged (h.excluding.logged t r hr)
      refine h.of_known hr ?_ (Touches.of_applied happ).reconstructed
      apply h.excluding.touch ((Touches.of_applied happ).trans (.setStatus r .commited e₁))
      · exact happ.pending
      all_goals rw [modify_heap_self]
      · exact happ.state.reInstated
      · exact happ.state.transactionsToCheck.symm.subset
      · exact hlog
      · exact fun hmem => absurd hmem hpend

lemma abortTransaction (h : Guarding e) {how : Append}
    (hhow : how = .written ∨ ∀ r ∈ e.transactionsById.lookup t, (e.heap r).hasWrite = false) :
    Guarding (e.abortTransaction t how).1 := by
  obtain ⟨reply, heq⟩ | ⟨r, hr, hend⟩ := abortTransaction_cases t how e
  · rw [heq]
    exact h
  · generalize e.abortTransaction t how = result at hend
    cases hend with
    | aborted e₁ htouch _ _ => exact h.retire hr htouch
    | halted log f hwrite hedit =>
      -- with an intact log an abort with writes has a cell to log
      exfalso
      obtain hwrit | hall := hhow
      · have hemp := h.excluding.logged t r hr (hedit hwrit)
        simp [hasWrite, hemp] at hwrite
      · simp [hall r hr] at hwrite

/-- An orderly buffering call writes nothing or is made for a transaction that has not
voted. -/
theorem writes_of_orderly {op : Op} (hord : Orderly e op) {g : StateMap}
    (hbuf : op.buffers e.tabledescriptor = some (t, g)) :
    (∀ s, (g s).writeOrdering = s.writeOrdering) ∨ ¬ e.VotedToCommit t := by
  cases op with
  | getScanner t' range =>
    cases hbuf
    exact .inl fun _ => rfl
  | put _ _ _ | delete _ _ _ | checkAndPut _ _ _ _ _ | checkAndDelete _ _ _ _ _ =>
    cases hbuf
    exact .inr hord.2
  | _ => cases hbuf

lemma step (h : Guarding e) {op : Op} (hord : Orderly e op) : Guarding (e.step op) := by
  cases hbuf : op.buffers e.tabledescriptor with
  | some x =>
    rw [step_of_buffers (t := x.1) (g := x.2) hbuf]
    exact h.onState hord.1 (Op.buffered_of_buffers hbuf) (writes_of_orderly hord hbuf)
  | none =>
    obtain ⟨hroom, hop⟩ := hord
    cases op with
    | beginTransaction t => exact h.beginTransaction hroom t
    | commitRequest t how => exact h.commitRequest hroom hop how
    | commit t ign now throwsAt how => exact h.commit hop ign now throwsAt
    | abortTransaction t how => exact h.abortTransaction hop
    | removeUnNeededCommitedTransactions =>
      exact ⟨h.excluding.removeUnNeededCommitedTransactions,
        fun hnot => ⟨(h.untouched hnot).known, (h.untouched hnot).pending⟩⟩
    | _ => cases hbuf

lemma opened (htd : TableDescriptor) (store : Cells)
    (ind : AList fun _ : TransId => List KeyValue)
    (counts : AList fun _ : BitVec 32 => ℕ) (editGenerated : Bool) :
    Guarding (opened htd store ind counts editGenerated) := by
  have hnone : ∀ t r,
      (Endpoint.opened htd store ind counts editGenerated).transactionsById.lookup t ≠ some r :=
    fun t r => by simp [Endpoint.opened]
  refine ⟨?_, fun _ => ⟨fun t => rfl, rfl⟩⟩
  constructor
  · exact WellFormed.opened htd store ind counts editGenerated
  · exact fun r hr => absurd hr (notMem_empty r)
  · exact fun t r hr => absurd hr (hnone t r)
  · exact fun t r hr => absurd hr (hnone t r)
  · exact fun t r hr => absurd hr (hnone t r)
  · exact fun r hr => absurd hr (notMem_empty r)

end Guarding

/-- Prepared transactions exclude each other on rows in every state of an orderly run, from
a region opened with any in-doubt transactions. -/
theorem writeExclusion_of_orderly (htd : TableDescriptor)
    (store : List (TombstoneStore.Cell Bytes Bytes Bytes Bytes))
    (indoubt : AList fun _ : TransId => List KeyValue) (counts : AList fun _ : BitVec 32 => ℕ)
    (editGenerated : Bool) {ops p : List Op}
    (h : Runs.Guarded step Orderly (opened htd store indoubt counts editGenerated) ops)
    (hp : p <+: ops) :
    WriteExclusion (Runs.run step (opened htd store indoubt counts editGenerated) p) := by
  have hinvariant : Guarding (Runs.run step (opened htd store indoubt counts editGenerated) p) :=
    Runs.Guarded.invariant_prefix (fun _ _ hguarding horderly => hguarding.step horderly)
      (Guarding.opened htd store indoubt counts editGenerated) h hp
  exact hinvariant.excluding.exclusion

def threeWriters : List Op :=
  [.put 5 1 (.column [1] [1] [1] [7]), .put 6 1 (.column [2] [1] [1] [8]),
    .getScanner 7 ⟨some [3], some [3]⟩, .delete 7 2 (.wholeRow [3]), .commitRequest 5 .written,
    .commitRequest 6 .written, .commitRequest 7 .written]

theorem threeWriters_exclude :
    Runs.Guarded step Orderly (opened ⟨[[1]], by simp⟩ [] ∅ ∅ false) threeWriters ∧
      WriteExclusion (Runs.run step (opened ⟨[[1]], by simp⟩ [] ∅ ∅ false) threeWriters) :=
  have horderly : Runs.Guarded step Orderly (opened ⟨[[1]], by simp⟩ [] ∅ ∅ false) threeWriters := by
    decide
  ⟨horderly, writeExclusion_of_orderly _ _ _ _ _ horderly (List.prefix_refl _)⟩

/-- Two transactions delete the same row and both vote to commit. -/
theorem deletes_not_excluded : ¬ WriteExclusion (Runs.run step (opened ⟨[[1]], by simp⟩ [] ∅ ∅ false)
      [.delete 5 1 (.wholeRow [1]), .delete 6 1 (.wholeRow [1]), .commitRequest 5 .written,
        .commitRequest 6 .written]) := by
  intro h
  exact h 0 (by decide) 1 (by decide) (by decide) [1] (by decide) (by decide)

end Trafodion.Region.Endpoint
