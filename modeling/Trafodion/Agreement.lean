import Trafodion.AtomicCommit
import Trafodion.LogContents
import Trafodion.TwoPhaseCommit

/-!
# Agreement of two-phase commit

A region commits a prepared transaction on a commit request, and also when its lease has run
out often enough. It aborts one on an abort request, but also when a write throws, when it is
asked to vote again, or when it crashes twice. Recovery threads abort what they find no commit
for, and a `FORGOTTEN` of the same millisecond or a control point can take the commit out of the
log. As long as these do not happen at the wrong time, all regions follow the transaction log.
-/
namespace Trafodion.TwoPhaseCommit

open List Function Region Runs
open Tlog (TxState)

variable {ρ : Type*} [DecidableEq ρ]

variable (s : System ρ)

def Agreement : Prop :=
  ∀ t p q, (p, t) ∈ s.voted → (q, t) ∈ s.voted → (p, t) ∈ s.committed → (q, t) ∉ s.aborted

def CommitsLogged : Prop :=
  ∀ t p, (p, t) ∈ s.committed → (t, .committed) ∈ s.written

/-- No region was told to abort the transaction. -/
def Unrefused (t : TransId) : Prop :=
  ∀ m ∈ s.sent, m.transactionId = t → m.request ≠ .abort

/-- When an event does no harm. The client commits no transaction that someone was told to
abort, at a control point neither, and aborts none that it has committed. A recovery thread
comes for a transaction that is not committed, or reads the client's own log and its row there
shows the commit. A transaction is not asked to vote again while it is prepared, no write of a
second phase throws, a lease does not run out too often before the commit record is written,
and a crash leaves the votes of the region in the log. -/
def Permitted : Event ρ → Prop
  | .doCommit t _ => Unrefused s t
  | .abortTransaction t _ => (t, .committed) ∉ s.written
  | .addControlPoint => ∀ t ∈ s.rewritten, Unrefused s t
  | .recover t audit _ => (t, .committed) ∉ s.written ∨ audit = .own ∧
      Tlog.commitShown (s.tLog.store (s.setup.settings.numLogs.row t)) = true
  | .deliver m d =>
    match m.request with
    | .commitRequest => ∀ r ∈ (s.region m.region).transactionsById.lookup m.transactionId,
        ((s.region m.region).heap r).status ≠ .commitPending
    | .commit _ => d.throwsAt = none
    | .abort => True
  | .leaseExpired p t d => (s.region p).Overdue t → d.throwsAt = none ∧ (t, .committed) ∈ s.written
  | .crash p _ survived => ∀ t ∈ System.unresolved (s.region p), (p, t) ∈ s.voted →
      OpenEntries.Unclosed ((survived.map Prod.snd).map WALEdit.entry) t ∨
        t ∈ commitTids (survived.map Prod.snd)
  | _ => True

instance (s : System ρ) (t : TransId) : Decidable (Unrefused s t) :=
  inferInstanceAs (Decidable (∀ m ∈ s.sent, _ → _))

instance (s : System ρ) : ∀ event, Decidable (Permitted s event)
  | .doCommit t _ => inferInstanceAs (Decidable (Unrefused s t))
  | .abortTransaction _ _ => inferInstanceAs (Decidable (¬ _))
  | .addControlPoint => inferInstanceAs (Decidable (∀ t ∈ s.rewritten, Unrefused s t))
  | .recover _ _ _ => inferInstanceAs (Decidable (¬ _ ∨ _ ∧ _))
  | .deliver ⟨p, t, .commitRequest⟩ _ =>
    inferInstanceAs (Decidable (∀ r ∈ (s.region p).transactionsById.lookup t, _))
  | .deliver ⟨_, _, .commit _⟩ _ => inferInstanceAs (Decidable (_ = _))
  | .deliver ⟨_, _, .abort⟩ _ => inferInstanceAs (Decidable True)
  | .leaseExpired _ _ _ => inferInstanceAs (Decidable (_ → _ ∧ _))
  | .crash p _ _ =>
    inferInstanceAs (Decidable (∀ t ∈ System.unresolved (s.region p), _ → _ ∨ _))
  | .beginTransaction _ | .callRegisterRegion _ _ | .prepareCommit _ | .prepareCommitReturns _
  | .completeRequest _ _ | .restart | .work _ _ | .recoveryRequest _ _ =>
    inferInstanceAs (Decidable True)

def System.abstract : AtomicCommit.State TransId ρ where
  decided := {t | (t, .committed) ∈ s.written}
  refused := {t | ∃ m ∈ s.sent, m.transactionId = t ∧ m.request = .abort}
  committed := {x | x ∈ s.committed}
  aborted := {x | x ∈ s.aborted}

structure Consistent (s : System ρ) : Prop where
  counted : ∀ p, (s.region p).Counted
  commits : ∀ m ∈ s.sent, ∀ b, m.request = .commit b → (m.transactionId, .committed) ∈ s.written
  logs : ∀ p, ∀ t ∈ commitTids (s.region p).tHLog, (t, .committed) ∈ s.written
  recorded : s.tLog.Holds (Tlog.Recorded s.setup.settings.numLogs s.written)
  sound : AtomicCommit.Sound s.abstract

namespace System

section Abstract

omit [DecidableEq ρ]

variable (s : System ρ) (t : TransId)

lemma abstract_send (tgts : List ρ) (request : Request) :
    (s.send tgts t request).abstract = { s.abstract with refused :=
      s.abstract.refused ∪ {u | u = t ∧ request = .abort ∧ tgts ≠ []} } := by
  have href : (s.send tgts t request).abstract.refused =
      s.abstract.refused ∪ {u | u = t ∧ request = .abort ∧ tgts ≠ []} := by
    ext u
    constructor
    · rintro ⟨m, hm, hid, hreq⟩
      obtain hm | hm := mem_append.1 hm
      · exact .inl ⟨m, hm, hid, hreq⟩
      · obtain ⟨p, hp, rfl⟩ := mem_map.1 hm
        exact .inr ⟨hid.symm, hreq, ne_nil_of_mem hp⟩
    · rintro (⟨m, hm, hid, hreq⟩ | ⟨rfl, hreq, hne⟩)
      · exact ⟨m, mem_append_left _ hm, hid, hreq⟩
      · obtain ⟨p, hp⟩ := exists_mem_of_ne_nil _ hne
        exact ⟨_, mem_append_right _ (mem_map_of_mem hp), rfl, hreq⟩
  exact AtomicCommit.State.ext rfl href rfl rfl

/-- Whatever happens to the log tables, only the records written count. -/
lemma abstract_write (tLog : Tlog.TmAuditTlog) (records : List (TransId × TxState)) :
    { s with tLog := tLog, written := s.written ++ records }.abstract = { s.abstract with decided :=
      s.abstract.decided ∪ {u | (u, .committed) ∈ records} } := by
  have hdecided : { s with tLog := tLog, written := s.written ++ records }.abstract.decided =
      s.abstract.decided ∪ {u | (u, .committed) ∈ records} := by
    ext u
    exact mem_append
  exact AtomicCommit.State.ext hdecided rfl rfl rfl

end Abstract

lemma abstract_record (s : System ρ) (p : ρ) (e : Endpoint) (committed aborted : List TransId) :
    (s.record p e committed aborted).abstract = { s.abstract with
      committed := s.abstract.committed ∪ {x | x ∈ committed.map (p, ·)}
      aborted := s.abstract.aborted ∪ {x | x ∈ aborted.map (p, ·)} } := by
  have hcomm : (s.record p e committed aborted).abstract.committed =
      s.abstract.committed ∪ {x | x ∈ committed.map (p, ·)} := by
    ext x
    exact mem_append
  have habt : (s.record p e committed aborted).abstract.aborted =
      s.abstract.aborted ∪ {x | x ∈ aborted.map (p, ·)} := by
    ext x
    exact mem_append
  exact AtomicCommit.State.ext rfl rfl hcomm habt

end System

namespace Consistent

variable {s : System ρ} {t : TransId}

section Client

omit [DecidableEq ρ]

lemma client (h : Consistent s) (states : AList fun _ : TransId => ClientState ρ)
    (voted : List (ρ × TransId)) :
    Consistent { s with mapTransactionStates := states, voted := voted } :=
  { h with }

/-- Records are added to the log, and no transaction is committed that was refused. -/
lemma write (h : Consistent s) {tLog : Tlog.TmAuditTlog} {records : List (TransId × TxState)}
    (hrecorded : tLog.Holds (Tlog.Recorded s.setup.settings.numLogs (s.written ++ records)))
    (hcomm : ∀ u, (u, .committed) ∈ records → u ∉ s.abstract.refused) :
    Consistent { s with tLog := tLog, written := s.written ++ records } := by
  constructor
  · exact h.counted
  · exact fun m hm b hb => mem_append_left _ (h.commits m hm b hb)
  · exact fun p u hu => mem_append_left _ (h.logs p u hu)
  · exact hrecorded
  · rw [System.abstract_write]
    exact h.sound.step (.decide _ hcomm)

lemma recorded_append (h : Consistent s) (records : List (TransId × TxState)) :
    s.tLog.Holds (Tlog.Recorded s.setup.settings.numLogs (s.written ++ records)) := by
  refine h.recorded.mono fun row value hrec => ?_
  obtain ⟨asn, u, state, tables, hrow, hvalue, hstate, hmem⟩ := hrec
  exact ⟨asn, u, state, tables, hrow, hvalue, hstate, mem_append_left _ hmem⟩

lemma putSingleRecord (h : Consistent s) {state : TxState} (regions : List ρ) (forced : Bool)
    (hst : state = .committed ∨ state = .aborted ∨ state = .forgotten)
    (hcomm : state = .committed → t ∉ s.abstract.refused) :
    Consistent (s.putSingleRecord t state regions forced) := by
  refine h.write ((h.recorded_append _).putSingleRecord ?_ _ _) ?_
  · exact fun asn tables => ⟨asn, t, state, tables, rfl, rfl, hst, by simp⟩
  · intro u hu
    obtain ⟨rfl, rfl⟩ := Prod.mk.inj (mem_singleton.1 hu)
    exact hcomm rfl

lemma putForgotten (h : Consistent s) (t : TransId) : Consistent (s.putForgotten t) := by
  unfold System.putForgotten
  split_ifs
  · exact h.putSingleRecord _ _ (.inr (.inr rfl)) nofun
  · exact h

lemma addControlPoint (h : Consistent s)
    (hcomm : ∀ u ∈ s.rewritten, u ∉ s.abstract.refused) : Consistent s.addControlPoint := by
  refine h.write ((h.recorded_append _).addControlPoint ?_) ?_
  · intro e he hstatus asn tables
    obtain ⟨x, hx, rfl⟩ := mem_map.1 he
    have hmem : x.1 ∈ s.rewritten :=
      mem_map_of_mem (mem_filter.2 ⟨hx, decide_eq_true hstatus⟩)
    exact ⟨asn, x.1, .committed, tables, rfl, rfl, .inl rfl,
      mem_append_right _ (mem_map_of_mem hmem)⟩
  · intro u hu
    obtain ⟨v, hv, heq⟩ := mem_map.1 hu
    obtain ⟨rfl, -⟩ := Prod.mk.inj heq
    exact hcomm v hv

lemma send (h : Consistent s) (tgts : List ρ) {request : Request}
    (hcmt : ∀ b, request = .commit b → (t, .committed) ∈ s.written)
    (habort : request = .abort → (t, .committed) ∉ s.written) :
    Consistent (s.send tgts t request) := by
  constructor
  · exact h.counted
  · exact forall_mem_append.2 ⟨h.commits, forall_mem_map.2 fun _ _ => hcmt⟩
  · exact h.logs
  · exact h.recorded
  · rw [System.abstract_send]
    apply h.sound.step
    apply AtomicCommit.Step.refuse
    rintro u ⟨rfl, hreq, -⟩ hdecided
    exact habort hreq hdecided

lemma restart (h : Consistent s) : Consistent s.restart :=
  { h with recorded := h.recorded.reopened }

lemma callRegisterRegion [DecidableEq ρ] (h : Consistent s) (t : TransId) (p : ρ) :
    Consistent (s.callRegisterRegion t p) := by
  unfold System.callRegisterRegion
  cases s.mapTransactionStates.lookup t with
  | none => exact h
  | some ts => exact h.client _ _

lemma receive [DecidableEq ρ] (h : Consistent s) (p : ρ) (t : TransId) (reply : Reply) :
    Consistent (s.receive p t reply) := by
  unfold System.receive
  cases s.mapTransactionStates.lookup t with
  | none => exact h
  | some ts => exact h.client _ _

lemma prepareCommit (h : Consistent s) (t : TransId) : Consistent (s.prepareCommit t) := by
  unfold System.prepareCommit
  cases s.mapTransactionStates.lookup t with
  | none => exact h
  | some ts => exact (h.client _ _).send _ nofun nofun

lemma prepareCommitReturns (h : Consistent s) (t : TransId) :
    Consistent (s.prepareCommitReturns t).1 := by
  unfold System.prepareCommitReturns
  cases s.mapTransactionStates.lookup t with
  | none => exact h
  | some ts =>
    dsimp only
    split
    · exact h
    · exact h.client _ _
    · exact h
    · exact h
    · exact h

lemma completeRequest (h : Consistent s) (t : TransId) (throws : Bool) :
    Consistent (s.completeRequest t throws) := by
  unfold System.completeRequest
  split_ifs
  · exact h
  · exact h.client _ _

lemma recover (h : Consistent s) {audit : Audit} (tgts : List ρ)
    (haudit : (t, .committed) ∉ s.written ∨ audit = .own ∧
      Tlog.commitShown (s.tLog.store (s.setup.settings.numLogs.row t)) = true) :
    Consistent (s.recover t audit tgts) := by
  have hrow := h.recorded.stored (s.setup.settings.numLogs.row t)
  unfold System.recover
  split_ifs with hfd
  · refine h.send tgts (fun _ _ => ?_) nofun
    cases audit with
    | own => exact Tlog.written_of_getTransactionState hrow hfd
    | unreadable => cases hfd
    | ofRescuer => cases hfd
  · refine h.send tgts nofun fun _ hmem => ?_
    obtain hnot | ⟨rfl, hshown⟩ := haudit
    · exact hnot hmem
    · exact hfd (Tlog.getTransactionState_of_commitShown s.setup.settings.le_versions hrow hshown)

end Client

section
variable (h : Consistent s)
include h

lemma record {p : ρ} {e : Endpoint} {committed aborted : List TransId}
    (he : e.Counted) (hlog : ∀ u ∈ commitTids e.tHLog, (u, .committed) ∈ s.written)
    (hcomm : ∀ u ∈ committed, (u, .committed) ∈ s.written)
    (habt : ∀ u ∈ aborted, u ∈ s.abstract.refused) :
    Consistent (s.record p e committed aborted) := by
  have hregion : ∀ P : Endpoint → Prop, P e → (∀ q, P (s.region q)) →
      ∀ q, P ((s.record p e committed aborted).region q) := by
    intro P hP hall q
    change P (update s.region p e q)
    by_cases hq : q = p
    · rw [hq, update_self]
      exact hP
    · rw [update_of_ne hq]
      exact hall q
  constructor
  · exact hregion _ he h.counted
  · exact h.commits
  · exact hregion (fun e' => ∀ u ∈ commitTids e'.tHLog, (u, .committed) ∈ s.written) hlog h.logs
  · exact h.recorded
  · rw [System.abstract_record]
    have hcmt := h.sound.step (.commit {x | x ∈ committed.map (p, ·)} (forall_mem_map.2 hcomm))
    exact hcmt.step (.abort {x | x ∈ aborted.map (p, ·)} (forall_mem_map.2 habt))

lemma settle {p : ρ} {e : Endpoint} {C A : Set TransId} (he : e.Counted)
    (hout : (s.region p).Outcome C A e) (hC : ∀ u ∈ C, (u, .committed) ∈ s.written)
    (hA : ∀ u ∈ A, u ∈ s.abstract.refused) : Consistent (s.settle p e) := by
  apply h.record he
  · intro u hu
    exact (hout.logged u hu).elim (h.logs p u) (hC u)
  · exact fun u hu => hC u (hout.mem_of_resolved.1 hu)
  · exact fun u hu => hA u (hout.mem_of_resolved.2 hu)

omit h [DecidableEq ρ] in
lemma not_refused (hunrefused : Unrefused s t) : t ∉ s.abstract.refused := by
  rintro ⟨m, hm, hid, hreq⟩
  exact hunrefused m hm hid hreq

lemma doCommit (io : ClientIO) (hunrefused : Unrefused s t) : Consistent (s.doCommit t io) := by
  unfold System.doCommit
  cases hts : s.mapTransactionStates.lookup t with
  | none => exact h
  | some ts =>
    have hstat : Consistent (s.putState t { ts with status := .committed }) := h.client _ _
    have hrec := hstat.putSingleRecord (t := t) ts.participatingRegions true (.inl rfl)
      fun _ => not_refused hunrefused
    have hsent : Consistent (((s.putState t { ts with status := .committed }).putSingleRecord t
        .committed ts.participatingRegions true).send ts.secondPhaseRegions t (.commit false)) :=
      hrec.send _ (fun _ _ => mem_append_right _ (mem_singleton_self _)) nofun
    dsimp only
    split_ifs
    · exact hstat
    · exact hsent
    · exact hsent.putForgotten t

lemma abortTransaction (io : ClientIO)
    (hcomm : (t, .committed) ∉ s.written) : Consistent (s.abortTransaction t io) := by
  unfold System.abortTransaction
  cases hts : s.mapTransactionStates.lookup t with
  | none => exact h
  | some ts =>
    have hstat : Consistent (s.putState t { ts with status := .aborted }) := h.client _ _
    have hrec := hstat.putSingleRecord (t := t) ts.participatingRegions false (.inr (.inl rfl)) nofun
    have hsent : Consistent (((s.putState t { ts with status := .aborted }).putSingleRecord t
        .aborted ts.participatingRegions false).send ts.secondPhaseRegions t .abort) := by
      refine hrec.send _ nofun fun _ hmem => ?_
      obtain hold | hnew := mem_append.1 hmem
      · exact hcomm hold
      · simp at hnew
    dsimp only
    split_ifs
    · exact hstat
    · exact hsent.client _ _
    · exact hsent.putForgotten t

lemma deliver {m : Message ρ} {d : Delivery}
    (hperm : Permitted s (.deliver m d)) : Consistent (s.deliver m d) := by
  have hcounted := h.counted m.region
  unfold System.deliver
  by_cases hsent : m ∈ s.sent
  · rw [if_pos hsent]
    cases hreq : m.request with
    | commitRequest =>
      simp only [Permitted, hreq] at hperm
      have hsett : Consistent (s.settle m.region
          ((s.region m.region).commitRequest m.transactionId d.how).1) :=
        h.settle (hcounted.commitRequest _ _) (.commitRequest hperm _) (by simp) (by simp)
      dsimp only
      split_ifs
      · exact (hsett.client _ _).receive _ _ _
      · exact hsett.receive _ _ _
      · exact hsett.client _ _
      · exact hsett
    | commit ign =>
      simp only [Permitted, hreq] at hperm
      rw [hperm]
      refine h.settle (hcounted.commit _ _ _ _ _) (.commit hcounted.toLocated _ _ _ _) ?_ (by simp)
      rintro u rfl
      exact h.commits m hsent ign hreq
    | abort =>
      refine h.settle (hcounted.abortTransaction _ _)
        (.abortTransaction hcounted.toLocated _ _) (by simp) ?_
      rintro u rfl
      exact ⟨m, hsent, rfl, hreq⟩
  · rw [if_neg hsent]
    exact h

lemma work (p : ρ) (op : Op) : Consistent (s.work p op) := by
  have hsett : Endpoint.Outcome ∅ ∅ (s.region p) ((s.region p).step op) →
      Consistent (s.settle p ((s.region p).step op)) :=
    fun hout => h.settle ((h.counted p).step op) hout (by simp) (by simp)
  cases hbuf : op.buffers (s.region p).tabledescriptor with
  | some x =>
    have hout : Endpoint.Outcome ∅ ∅ (s.region p) ((s.region p).step op) := by
      rw [Endpoint.step_of_buffers (t := x.1) (g := x.2) hbuf]
      exact .onState _ _ (Op.buffered_of_buffers hbuf)
    cases op <;> first | exact hsett hout | exact h
  | none =>
    cases op with
    | beginTransaction u => exact hsett (Endpoint.Begun.beginTransaction _ u).outcome
    | removeUnNeededCommitedTransactions => exact hsett (.of_status (fun _ _ => rfl) rfl)
    | commitRequest _ _ => exact h
    | commit _ _ _ _ _ => exact h
    | abortTransaction _ _ => exact h
    | _ => cases hbuf

lemma leaseExpired {p : ρ} {d : Delivery}
    (hperm : Permitted s (.leaseExpired p t d)) : Consistent (s.leaseExpired p t d) := by
  have hcounted := h.counted p
  refine h.settle (hcounted.leaseExpired _ _ _ _) (.leaseExpired hcounted.toLocated _ _ _ _
    fun hoverdue => (hperm hoverdue).1) ?_ (by simp)
  rintro u ⟨rfl, hoverdue⟩
  exact (hperm hoverdue).2

lemma recoveryRequest (p : ρ) (tm : BitVec 32) : Consistent (s.recoveryRequest p tm) :=
  h.settle ((h.counted p).react (.recoveryRequest tm)) (.recoveryRequest tm _) (by simp) (by simp)

lemma crash {p : ρ}
    {base : Cells} {survived : List (ℕ × WALEdit)}
    (hperm : Permitted s (.crash p base survived)) : Consistent (s.crash p base survived) := by
  unfold System.crash
  dsimp only
  split_ifs with hprefix
  · refine h.record (.endpoint _ _) ?_ ?_ ?_
    · intro u hu
      have hnone : commitTids ((Observer.start (s.region p).tabledescriptor base).restore
          survived).tHLog = [] := Observer.commitTids_restore survived _
      change u ∈ commitTids ((Observer.start (s.region p).tabledescriptor base).restore
        survived).tHLog at hu
      rw [hnone] at hu
      exact absurd hu not_mem_nil
    · intro u hu
      apply h.logs p
      obtain ⟨later, hlog⟩ := hprefix
      rw [← hlog, commitTids_append]
      exact mem_append_left _ hu
    · intro u hu
      obtain ⟨hunresolved, hlost⟩ := mem_filter.1 hu
      obtain ⟨hvoted, hkeys, hcmt⟩ := of_decide_eq_true hlost
      obtain hopen | hlogged := hperm u hunresolved hvoted
      · exact absurd (Observer.mem_keys_restore hopen) hkeys
      · exact absurd hlogged hcmt
  · exact h

lemma step {event : Event ρ} (hperm : Permitted s event) : Consistent (s.step event) := by
  cases event with
  | beginTransaction t => exact h.client _ _
  | callRegisterRegion t p => exact h.callRegisterRegion t p
  | prepareCommit t => exact h.prepareCommit t
  | prepareCommitReturns t => exact h.prepareCommitReturns t
  | doCommit t io => exact h.doCommit io hperm
  | abortTransaction t io => exact h.abortTransaction io hperm
  | completeRequest t throws => exact h.completeRequest t throws
  | addControlPoint => exact h.addControlPoint fun u hu => not_refused (hperm u hu)
  | restart => exact h.restart
  | deliver m d => exact h.deliver hperm
  | work p op => exact h.work p op
  | leaseExpired p t d => exact h.leaseExpired hperm
  | recoveryRequest p tm => exact h.recoveryRequest p tm
  | crash p base survived => exact h.crash hperm
  | recover t audit tgts => exact h.recover tgts hperm

end

omit [DecidableEq ρ] in
lemma start (setup : Setup ρ) (tables : ρ → TableDescriptor)
    (store : ρ → Cells) :
    Consistent (System.start setup tables store) := by
  have hinitial : (System.start setup tables store).abstract = .initial := by
    ext <;> simp [System.abstract, System.start, AtomicCommit.State.initial]
  constructor
  · exact fun p => .endpoint _ _
  · exact fun m hm => absurd hm not_mem_nil
  · exact fun p t ht => absurd ht not_mem_nil
  · exact Tlog.TmAuditTlog.holds_created
  · rw [hinitial]
    exact .initial

end Consistent

def twoRegions : System Bool :=
  System.start sampleSetup (fun _ => ⟨[[1]], one_family_nonempty⟩) fun _ => []

def delivered : Delivery := ⟨50, none, .written, true⟩

def bothVote : List (Event Bool) :=
  [.beginTransaction 1, .callRegisterRegion 1 false, .callRegisterRegion 1 true,
    .work false (.put 1 5 (.column [1] [1] [1] [8])), .work true (.put 1 5 (.column [2] [1] [1] [9])),
    .prepareCommit 1, .deliver ⟨false, 1, .commitRequest⟩ delivered,
    .deliver ⟨true, 1, .commitRequest⟩ delivered, .prepareCommitReturns 1]

def oneCommits : List (Event Bool) :=
  [.doCommit 1 ⟨false, false⟩, .deliver ⟨false, 1, .commit false⟩ delivered,
    .crash true [] [(60, ⟨some ⟨.commitRequest, 1⟩, [⟨[2], [1], [1], some 5, .put, [9]⟩]⟩)],
    .recoveryRequest true 0]

/-- The clock gives the log one millisecond for all its puts. -/
def oneMillisecond : System Bool :=
  { twoRegions with setup := { sampleSetup with
      environment := ⟨fun _ => 7, monotone_const, fun _ => false⟩ } }

end Trafodion.TwoPhaseCommit
