import Trafodion.DtmTransaction

/-!
# Recovery of the transaction manager

`recover_system` is to read the audit trail backwards to the second control point and to drive the
in-doubt transactions that the resource managers report to the outcome found there. The trail is
given with its newest record first, as the backward scan reads it.

The scan and what follows it do follow the trail (`resolveIndoubt_follows`). But
`scantrail_cleanshutdown`, which is asked first, answers that no recovery is needed whatever the
trail is.
-/
namespace Trafodion.Dtm

open List Function

inductive AuditState
  | forgotten | active | hungCommitted | committed | aborting | hungAborted | aborted
  deriving DecidableEq, Repr

namespace AuditState

def isCommit : AuditState → Bool
  | .forgotten | .hungCommitted | .committed => true
  | _ => false

def isAbort : AuditState → Bool
  | .aborting | .hungAborted | .aborted => true
  | _ => false

end AuditState

inductive AuditRecord (ι : Type*)
  | controlPoint
  | transactionState (transid : ι) (state : AuditState)
  | shutdown
  | other
  deriving DecidableEq, Repr

variable {ι : Type*} [DecidableEq ι]

/-- `iv_txnStateList`: the in-doubt transactions with their states and the number of resource
managers that have reported them. -/
structure TxnStateList (ι : Type*) where
  transids : List ι
  state : ι → TxState
  preparedRms : ι → ℕ

namespace TxnStateList

/-- After `send_xa_recover_toall_TSEs`: every reported transaction counts as aborted. -/
def reported (transids : List ι) (preparedRms : ι → ℕ) : TxnStateList ι :=
  ⟨transids, fun _ => .aborted, preparedRms⟩

/-- What a record makes of the state of a transaction that is in the list; `none` is `abort ()`.
`override` is `overrideAuditInconsistencyDuringRecovery`. -/
def noteKnown (override : Bool) (record : AuditState) (state : TxState) : Option TxState :=
  match record with
  | .forgotten => some .forgotten
  | .active => some state
  | .hungCommitted | .committed =>
    some (if state ≠ .committed ∧ state ≠ .forgotten then .committed else state)
  | .aborting | .hungAborted | .aborted =>
    if state ≠ .aborting ∧ state ≠ .abortingPart2 ∧ state ≠ .aborted ∧ override = false then none
    else some state

def noteNew : AuditState → TxState
  | .forgotten => .forgotten
  | .active => .active
  | .hungCommitted | .committed => .committed
  | .aborting => .aborting
  | .hungAborted | .aborted => .aborted

variable (s : TxnStateList ι) (t : ι) (state : TxState)

def setState : TxnStateList ι :=
  { s with state := update s.state t state }

def add : TxnStateList ι :=
  { transids := s.transids ++ [t]
    state := update s.state t state
    preparedRms := update s.preparedRms t 0 }

/-- The loop of `scantrail_bldgtxlist`; `first` says that a control point was passed, and
`scanAll` that transactions no resource manager has reported are taken too. -/
def bldgtxlist (override scanAll : Bool) : Bool → List (AuditRecord ι) → TxnStateList ι →
    Option (TxnStateList ι)
  | _, [], s => some s
  | false, .controlPoint :: l, s => bldgtxlist override scanAll true l s
  | true, .controlPoint :: _, s => some s
  | first, .transactionState t state :: l, s =>
    if t ∈ s.transids then
      match noteKnown override state (s.state t) with
      | none => none
      | some state => bldgtxlist override scanAll first l (s.setState t state)
    else if scanAll then bldgtxlist override scanAll first l (s.add t (noteNew state))
    else bldgtxlist override scanAll first l s
  | first, .shutdown :: l, s => bldgtxlist override scanAll first l s
  | first, .other :: l, s => bldgtxlist override scanAll first l s

def removeForgottenTxs : TxnStateList ι :=
  { s with transids := s.transids.filter fun t =>
      ¬ (s.state t = .forgotten ∧ s.preparedRms t = 0) }

/-- `MAX_OPEN_RMS` -/
def maxOpenRms : ℕ := 1025

/-- `resolveTxn` -/
def resolveTxn : Option Redrive :=
  match s.state t with
  | .hungCommitted | .forgotten | .committed => some .redriveCommit
  | .hungAborted | .aborting | .abortingPart2 | .aborted => some .redriveRollback
  | .active =>
    if s.preparedRms t = 0 then some .redriveRollback
    else if s.preparedRms t = maxOpenRms then some .redriveCommit
    else some .redriveRollback
  | _ => none

/-- `queueTxnObjects` below the pool limits, and `resolve_in_doubt_txs`. -/
def resolveInDoubtTxs : List (ι × Redrive) :=
  s.transids.filterMap fun t => (s.resolveTxn t).map (t, ·)

end TxnStateList

/-- `FETMRECOVERY_NOT_NEEDED` -/
inductive RecoveryError
  | feOk | recoveryNotNeeded
  deriving DecidableEq, Repr

def newestIsShutdown : List (AuditRecord ι) → Bool
  | .shutdown :: _ => true
  | _ => false

/-- The error is initialised with `FETMRECOVERY_NOT_NEEDED` and set to nothing else. -/
def scantrailCleanshutdown (optimize : Bool) (trail : List (AuditRecord ι)) : RecoveryError :=
  let error := .recoveryNotNeeded
  if newestIsShutdown trail && optimize then .recoveryNotNeeded else error

variable (optimize override scanAll : Bool) (trail : List (AuditRecord ι)) (s : TxnStateList ι)

/-- What `recover_system` does when it was not told that no recovery is needed. The scan of a trail
that ends with a clean shutdown returns an error, and the process exits. -/
def resolveIndoubt : Option (List (ι × Redrive)) :=
  if newestIsShutdown trail && optimize then none
  else (s.bldgtxlist override scanAll false trail).map fun s =>
    s.removeForgottenTxs.resolveInDoubtTxs

/-- The redrives of `recover_system`; `none` is `abort ()` or an exit. -/
def recoverSystem : Option (List (ι × Redrive)) :=
  if scantrailCleanshutdown optimize trail = .recoveryNotNeeded then some []
  else resolveIndoubt optimize override scanAll trail s

/-! ### What recovery is for -/

def recent : Bool → List (AuditRecord ι) → List (AuditRecord ι)
  | _, [] => []
  | false, .controlPoint :: l => recent true l
  | true, .controlPoint :: _ => []
  | first, .transactionState t state :: l => .transactionState t state :: recent first l
  | first, .shutdown :: l => .shutdown :: recent first l
  | first, .other :: l => .other :: recent first l

def CommittedIn (l : List (AuditRecord ι)) (t : ι) : Prop :=
  ∃ state, .transactionState t state ∈ l ∧ state.isCommit = true

variable (trail : List (AuditRecord ι))

def Consistent : Prop :=
  ∀ t a b, .transactionState t a ∈ trail → .transactionState t b ∈ trail →
    ¬ (a.isCommit = true ∧ b.isAbort = true)

def Follows (transids : List ι) (redrives : List (ι × Redrive)) :
    Prop :=
  ∀ t, ((t, .redriveCommit) ∈ redrives ↔ t ∈ transids ∧ CommittedIn (recent false trail) t) ∧
    ((t, .redriveRollback) ∈ redrives ↔ t ∈ transids ∧ ¬ CommittedIn (recent false trail) t)

namespace TxnStateList

structure Scanned (s : TxnStateList ι) (C : ι → Prop) : Prop where
  committed : ∀ t ∈ s.transids, C t → s.state t = .committed ∨ s.state t = .forgotten
  aborted : ∀ t ∈ s.transids, ¬ C t → s.state t = .aborted

omit [DecidableEq ι] in
lemma committedIn_cons {t : ι} {x : AuditRecord ι} {l : List (AuditRecord ι)} :
    CommittedIn (x :: l) t ↔
      (∃ state, x = .transactionState t state ∧ state.isCommit = true) ∨ CommittedIn l t := by
  constructor
  · rintro ⟨state, hmem, hcmt⟩
    rcases mem_cons.1 hmem with h | h
    · exact .inl ⟨state, h.symm, hcmt⟩
    · exact .inr ⟨state, h, hcmt⟩
  · rintro (⟨state, rfl, hcmt⟩ | ⟨state, hmem, hcmt⟩)
    · exact ⟨state, mem_cons_self, hcmt⟩
    · exact ⟨state, mem_cons_of_mem _ hmem, hcmt⟩

variable {s : TxnStateList ι}

omit [DecidableEq ι] in
lemma Scanned.congr {C D : ι → Prop} (h : s.Scanned C) (hCD : ∀ t, C t ↔ D t) : s.Scanned D :=
  ⟨fun t ht hD => h.committed t ht ((hCD t).2 hD), fun t ht hD => h.aborted t ht (mt (hCD t).1 hD)⟩

variable (ovr : Bool) {C : ι → Prop}

lemma Scanned.note (h : s.Scanned C)
    {t : ι} (ht : t ∈ s.transids) {record : AuditState} (hcons : record.isAbort = true → ¬ C t) :
    ∃ state, noteKnown ovr record (s.state t) = some state ∧
      (s.setState t state).Scanned fun u => C u ∨ u = t ∧ record.isCommit = true := by
  have hupdate (state : TxState) (hcomm : C t ∨ record.isCommit = true →
      state = .committed ∨ state = .forgotten)
      (habt : ¬ C t → record.isCommit = false → state = .aborted) :
      (s.setState t state).Scanned fun u => C u ∨ u = t ∧ record.isCommit = true := by
    refine ⟨fun u hu hC => ?_, fun u hu hC => ?_⟩
    · by_cases hut : u = t
      · subst hut
        simpa [setState] using hcomm (hC.imp_right And.right)
      · simpa [setState, hut] using h.committed u hu (hC.resolve_right fun h' => hut h'.1)
    · by_cases hut : u = t
      · subst hut
        simp only [not_or, not_and, Bool.not_eq_true] at hC
        simpa [setState] using habt hC.1 (hC.2 trivial)
      · simpa [setState, hut] using h.aborted u hu fun h' => hC (.inl h')
  by_cases hC : C t
  · -- the outcome was found in a newer record
    have hst := h.committed t ht hC
    cases record with
    | forgotten => exact ⟨_, rfl, hupdate _ (fun _ => .inr rfl) fun h' => absurd hC h'⟩
    | active => exact ⟨_, rfl, hupdate _ (fun _ => hst) fun h' => absurd hC h'⟩
    | hungCommitted | committed =>
      refine ⟨_, rfl, hupdate _ (fun _ => ?_) fun h' => absurd hC h'⟩
      rcases hst with hs | hs <;> simp [hs]
    | aborting | hungAborted | aborted => exact absurd hC (hcons rfl)
  · have hst := h.aborted t ht hC
    cases record with
    | forgotten => exact ⟨_, rfl, hupdate _ (fun _ => .inr rfl) fun _ h' => by cases h'⟩
    | active =>
      refine ⟨_, rfl, hupdate _ (fun h' => ?_) fun _ _ => hst⟩
      exact absurd (h'.resolve_right (by simp [AuditState.isCommit])) hC
    | hungCommitted | committed =>
      refine ⟨_, rfl, hupdate _ (fun _ => ?_) fun _ h' => by cases h'⟩
      simp [hst]
    | aborting | hungAborted | aborted =>
      refine ⟨.aborted, by simp [noteKnown, hst], hupdate _ (fun h' => ?_) fun _ _ => rfl⟩
      exact absurd (h'.resolve_right (by simp [AuditState.isCommit])) hC

lemma bldgtxlist_scanned (l : List (AuditRecord ι)) (first : Bool) (h : s.Scanned C)
    (hcons : Consistent l)
    (hnewer : ∀ t state, .transactionState t state ∈ l → state.isAbort = true → ¬ C t) :
    ∃ s', bldgtxlist ovr false first l s = some s' ∧ s'.transids = s.transids ∧
      s'.preparedRms = s.preparedRms ∧
      s'.Scanned fun t => C t ∨ CommittedIn (recent first l) t := by
  induction l generalizing first s C with
  | nil =>
    refine ⟨s, by cases first <;> rfl, rfl, rfl, h.congr fun t => ?_⟩
    cases first <;> simp [CommittedIn, recent]
  | cons x l ih =>
    have hcons' : Consistent l := fun t a b ha hb =>
      hcons t a b (mem_cons_of_mem _ ha) (mem_cons_of_mem _ hb)
    have hnewer' : ∀ t state, .transactionState t state ∈ l → state.isAbort = true → ¬ C t :=
      fun t state hmem => hnewer t state (mem_cons_of_mem _ hmem)
    cases x with
    | controlPoint =>
      cases first with
      | false => exact ih true h hcons' hnewer'
      | true => exact ⟨s, rfl, rfl, rfl, h.congr fun t => by simp [CommittedIn, recent]⟩
    | shutdown | other =>
      obtain ⟨s', heq, hids, hrms, hs'⟩ := ih first h hcons' hnewer'
      refine ⟨s', by cases first <;> exact heq, hids, hrms, hs'.congr fun t => ?_⟩
      cases first <;> simp [recent, committedIn_cons]
    | transactionState t record =>
      have hrecent : recent first (.transactionState t record :: l) =
          .transactionState t record :: recent first l := by cases first <;> rfl
      have hcomm (u : ι) : CommittedIn (recent first (.transactionState t record :: l)) u ↔
          u = t ∧ record.isCommit = true ∨ CommittedIn (recent first l) u := by
        rw [hrecent, committedIn_cons]
        refine or_congr_left ⟨?_, ?_⟩
        · rintro ⟨state, heq, hst⟩
          cases heq
          exact ⟨rfl, hst⟩
        · rintro ⟨rfl, hst⟩
          exact ⟨_, rfl, hst⟩
      by_cases ht : t ∈ s.transids
      · obtain ⟨state, hnote, hscanned⟩ := h.note ovr ht (hnewer t record mem_cons_self)
        obtain ⟨s', heq, hids, hrms, hs'⟩ := ih first hscanned hcons' fun u st hmem hab hC => by
          rcases hC with hC | ⟨rfl, hcmt⟩
          · exact hnewer' u st hmem hab hC
          · exact hcons u record st mem_cons_self (mem_cons_of_mem _ hmem) ⟨hcmt, hab⟩
        refine ⟨s', ?_, hids, hrms, hs'.congr fun u => by rw [hcomm, or_assoc]⟩
        cases first <;> simp [bldgtxlist, ht, hnote, heq]
      · obtain ⟨s', heq, hids, hrms, hs'⟩ := ih first h hcons' hnewer'
        refine ⟨s', by cases first <;> simp [bldgtxlist, ht, heq], hids, hrms, ?_⟩
        rw [← hids] at ht
        refine ⟨fun u hu hC => hs'.committed u hu ?_, fun u hu hC => hs'.aborted u hu ?_⟩
        · rw [hcomm] at hC
          rcases hC with hC | ⟨rfl, -⟩ | hC
          · exact .inl hC
          · exact absurd hu ht
          · exact .inr hC
        · rw [hcomm] at hC
          tauto

end TxnStateList

open TxnStateList

/-- Once recovery is begun, it drives the reported transactions to the outcomes that the trail
records. -/
theorem resolveIndoubt_follows (optimize ovr : Bool) {trail : List (AuditRecord ι)}
    (hnew : newestIsShutdown trail = false) (hcons : Consistent trail)
    (transids : List ι) (preparedRms : ι → ℕ) (hrms : ∀ t ∈ transids, 0 < preparedRms t) :
    ∃ redrives, resolveIndoubt optimize ovr false trail (reported transids preparedRms) =
      some redrives ∧ Follows trail transids redrives := by
  have hst0 : (reported transids preparedRms).Scanned fun _ => False :=
    ⟨fun _ _ h => h.elim, fun _ _ _ => rfl⟩
  obtain ⟨s, heq, hids, hrms', hs⟩ := bldgtxlist_scanned ovr trail false hst0 hcons
    fun _ _ _ _ h => h
  change s.transids = transids at hids
  have hremove : s.removeForgottenTxs = s := by
    unfold removeForgottenTxs
    rw [filter_eq_self.2 fun t ht => ?_]
    have hpos : 0 < s.preparedRms t := hrms' ▸ hrms t (hids ▸ ht)
    simp [Nat.ne_of_gt hpos]
  refine ⟨s.resolveInDoubtTxs, by simp [resolveIndoubt, hnew, heq, hremove], fun t => ?_⟩
  have hmem (r : Redrive) : (t, r) ∈ s.resolveInDoubtTxs ↔
      t ∈ transids ∧ s.resolveTxn t = some r := by
    simp only [resolveInDoubtTxs, mem_filterMap, Option.map_eq_some_iff, Prod.mk.injEq, hids]
    constructor
    · rintro ⟨u, hu, r', hr', rfl, rfl⟩
      exact ⟨hu, hr'⟩
    · rintro ⟨ht, hr⟩
      exact ⟨t, ht, r, hr, rfl, rfl⟩
  rw [hmem, hmem]
  by_cases hC : CommittedIn (recent false trail) t
  · have hresolve (ht : t ∈ transids) : s.resolveTxn t = some .redriveCommit := by
      rcases hs.committed t (hids ▸ ht) (.inr hC) with h | h <;> simp [resolveTxn, h]
    constructor
    · exact ⟨fun h => ⟨h.1, hC⟩, fun h => ⟨h.1, hresolve h.1⟩⟩
    · exact ⟨fun h => by simp [hresolve h.1] at h, fun h => absurd hC h.2⟩
  · have hresolve (ht : t ∈ transids) : s.resolveTxn t = some .redriveRollback := by
      simp [resolveTxn, hs.aborted t (hids ▸ ht) (by simpa using hC)]
    constructor
    · exact ⟨fun h => by simp [hresolve h.1] at h, fun h => absurd h.2 hC⟩
    · exact ⟨fun h => ⟨h.1, hC⟩, fun h => ⟨h.1, hresolve h.1⟩⟩

/-- Of two transactions in doubt, the one with a commit record is committed. -/
theorem committed_redriven : ∃ redrives, resolveIndoubt true false false
        [.transactionState 1 .committed, .controlPoint, .controlPoint] (reported [1, 2] fun _ => 1) =
      some redrives ∧
      Follows [.transactionState 1 .committed, .controlPoint, .controlPoint] [1, 2] redrives :=
  resolveIndoubt_follows true false rfl (by simp +contextual [Consistent, AuditState.isAbort]) [1, 2] _
    (by simp)

/-- `recover_system` drives nothing, whatever the trail and the reported transactions are. -/
theorem recoverSystem_eq (optimize ovr scanAll : Bool) (trail : List (AuditRecord ι))
    (s : TxnStateList ι) : recoverSystem optimize ovr scanAll trail s = some [] := by
  have hneeded : scantrailCleanshutdown optimize trail = .recoveryNotNeeded := by
    unfold scantrailCleanshutdown
    split <;> rfl
  rw [recoverSystem, if_pos hneeded]

/-- Recovery does what the trail asks for exactly if no transaction is reported in doubt. -/
theorem recoverSystem_follows_iff (optimize ovr scanAll : Bool) (trail : List (AuditRecord ι))
    (transids : List ι) (preparedRms : ι → ℕ) :
    (∃ redrives, recoverSystem optimize ovr scanAll trail (reported transids preparedRms) =
      some redrives ∧ Follows trail transids redrives) ↔ transids = [] := by
  rw [recoverSystem_eq]
  constructor
  · rintro ⟨redrives, hnone, hfollows⟩
    obtain rfl := Option.some.inj hnone
    -- Whichever outcome the trail has for a reported transaction, it is not redriven.
    refine eq_nil_iff_forall_not_mem.2 fun t ht => ?_
    by_cases hcommitted : CommittedIn (recent false trail) t
    · exact not_mem_nil ((hfollows t).1.2 ⟨ht, hcommitted⟩)
    · exact not_mem_nil ((hfollows t).2.2 ⟨ht, hcommitted⟩)
  · rintro rfl
    exact ⟨[], rfl, fun t => by simp⟩

/-- A transaction that was committed and is in doubt in a resource manager is not redriven. -/
theorem committed_indoubt_not_redriven : recoverSystem true false false
        [.transactionState 1 .committed, .controlPoint, .controlPoint] (reported [1] fun _ => 1) =
      some [] ∧
    ¬ Follows [.transactionState 1 .committed, .controlPoint, .controlPoint] [1] [] := by
  refine ⟨by decide, fun h => ?_⟩
  have hcommit := (h 1).1.2 ⟨by simp, .committed, by simp [recent], rfl⟩
  simp at hcommit

end Trafodion.Dtm
