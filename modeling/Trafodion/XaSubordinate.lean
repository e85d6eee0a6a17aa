import Trafodion.DtmRequests

/-!
# A subordinate of a foreign transaction manager

`CTmXaTxn` answers `xa_end`, `xa_prepare`, `xa_commit` and `xa_rollback`. Its state machine is
smaller than the one of `TM_TX_Info` and uses the same branches. The requests answer `XA_OK`
without looking at what the state machine returned, and `xa_end` with `TMFAIL` calls the reading
`mark_for_rollback()`, which sets nothing. An object that was released gets no more requests.
-/
namespace Trafodion.Dtm

open Runs

inductive XaEndFlags
  | noFlags | success | fail
  deriving DecidableEq, Repr

inductive XaRequest
  | xaEnd (flags : XaEndFlags)
  | xaPrepare
  | xaCommit
  | xaRollback
  deriving DecidableEq, Repr

structure XaEvent where
  request : XaRequest
  results : Results := {}
  deriving DecidableEq, Repr

namespace Session

def mapErr (error : ℤ) : ℤ :=
  if error = feOk then xaOk
  else if error = feEndedTransid ∨ error = feTxNotSuspended then xaerRmerr
  else if error = feInvTransid then xaerDupid
  else if error = feAbortedTransid then xaerRmerr
  else xaerRmfail

variable (r : Results) (s : Session)

/-- `CTmXaTxn::state_change_abort_helper`, after the state was set to `ABORTING_PART2`. -/
def xaAbortHelper (r : Results) : Session :=
  let s := if s.tx.wroteTransState then s else s.writeTransState .aborted
  let (s, error) := s.rollbackBranches r (s.tx.tmAborted || s.tx.tseAborted)
  if error = xaOk then s.setState .aborted
  else if Heuristic error then s.setState .forgettingHeur
  else (s.setState .hungAborted).addHungTimerEvent .redriveRollback

/-- `CTmXaTxn::state_change_commit_helper`; nobody passes `pv_read_only`. -/
def xaCommitHelper (r : Results) : Session :=
  let s := if s.tx.wroteTransState then s else s.writeTransState .committed
  let (s, error) := s.commitBranches r
  if error = xaOk then s.setState .forgetting
  else if Heuristic error then s.setState .forgettingHeur
  else (s.setState .hungCommitted).resetTransactionBusy.addHungTimerEvent .redriveCommit

/-- `CTmXaTxn::state_change_prepare_helper` -/
def xaPrepareHelper (r : Results) : Session :=
  let (s, error) := s.prepareBranches r
  if s.tx.markForRollback then
    let s := s.responseError feAbortedTransid
    { s with tx := { s.tx with state := .aborting, tseAborted := true } }
  else if mapErr error = xaOk then s.setState .prepared
  else s.stateChangeAbortSet xaerRmfail

/-- `TX_END`, with the returned error. -/
def xaStateChangeEnd : Session × ℤ :=
  if s.tx.state = .active then (s.setState .idle, xaOk) else (s, xaerProto)

/-- `TX_PREPARE`: when the prepare fails the loop comes round once more and finds a state in which
it has nothing to do. -/
def xaStateChangePrepare : Session × ℤ :=
  if s.tx.state = .active ∨ s.tx.state = .idle then
    let s := (s.setState .preparing).xaPrepareHelper r
    if s.tx.state = .prepared then (s, xaOk) else (s, xaerProto)
  else (s, xaerProto)

def xaStateChangeCommit : Session × ℤ :=
  if s.tx.state = .prepared ∨ s.tx.state = .hungCommitted then
    ((s.setState .committing).xaCommitHelper r, xaOk)
  else (s, xaerProto)

def xaAcceptsRollback (state : TxState) : Bool :=
  state ∈ [.notx, .beginning, .active, .idle, .preparing, .prepared, .aborting, .hungAborted]

def xaStateChangeRollback : Session × ℤ :=
  if xaAcceptsRollback s.tx.state then
    ((s.setState .abortingPart2).xaAbortHelper r, xaOk)
  else (s, xaerProto)

/-- `TX_FORGET` -/
def xaStateChangeForget : Session :=
  match s.tx.state with
  | .forgetting | .aborted => s.setState .terminating
  | .committing | .committed | .aborting | .abortingPart2 =>
    (if s.tx.wroteTransState then s else s.writeTransState .forgotten).forgetHeurBranches
  | _ => s

/-- `CTmXaTxn::req_forget`; the flag says that the object is handed to the cleanup. -/
def xaReqForget : Session × Bool :=
  if s.tx.state = .hungCommitted ∨ s.tx.state = .hungAborted then (s.resetTransactionBusy, false)
  else if s.tx.state = .forgettingHeur ∨ s.tx.state = .forgottenHeur then
    (s.xaStateChangeForget.resetTransactionBusy, true)
  else (s.resetTransactionBusy, true)

/-- `redrivecommit_txn` and `redriverollback_txn`: the redrive events set a state and go on with `TX_COMMIT`
and `TX_ROLLBACK`. -/
def xaRedrive (nonsync : Bool) (kind : Redrive) (s : Session) (r : Results) : Session × Bool :=
  let s := s.cancelHungEvent
  let s := match kind with
    | .redriveCommit => (xaStateChangeCommit r (s.setState .committed)).1
    | .redriveRollback => (xaStateChangeRollback r (s.setState .abortingPart2)).1
  if nonsync then s.xaReqForget else (s, false)

/-- Redrives with what the branches would answer, until the object is handed to the cleanup. -/
def xaRedrives (nonsync : Bool) (kind : Redrive) : List Results → Session → Session
  | [], s => s
  | r :: rs, s =>
    let (s, terminate) := xaRedrive nonsync kind s r
    if terminate then s else xaRedrives nonsync kind rs s

def branchCalls (kind : Redrive) (log : List Entry) : ℕ :=
  log.countP fun
    | .commitBranches .. => kind = .redriveCommit
    | .rollbackBranches .. => kind = .redriveRollback
    | _ => false

def succeeds : Redrive → Results → Prop
  | .redriveCommit, r => r.commitHbase = retOk ∧ r.commitTse = xaOk
  | .redriveRollback, r => r.completeAfterRollback = retOk

end Session

/-- The object of a branch. `released` says that `releaseTxnObj` gave it back, and `doomed`
remembers a prepare that failed or an `xa_end` with `TMFAIL`. -/
structure XaTxn where
  tx : Tx
  log : List Entry := []
  released : Bool := false
  doomed : Bool := false
  deriving DecidableEq, Repr

namespace XaTxn
open Session

variable {s : Session} (m : XaTxn) (e : XaEvent) (r : Results)

def AllPrepared : Prop :=
  r.prepareMarks = false ∧ prepareResult r.prepareHbase r.prepareTse = xaOk

instance (r : Results) : Decidable (AllPrepared r) := inferInstanceAs (Decidable (_ ∧ _))

def fails : XaRequest → Bool
  | .xaEnd flags => flags = .fail
  | .xaPrepare => (m.tx.state = .active ∨ m.tx.state = .idle) ∧ ¬ AllPrepared r
  | _ => false

def process (s : Session) : XaRequest → Session × Bool
  | .xaEnd _ =>
    let (s, error) := s.xaStateChangeEnd
    (s.replyWith error, false)
  | .xaPrepare => ((xaStateChangePrepare r s).1.replyWith xaOk, false)
  | .xaCommit =>
    let s := (xaStateChangeCommit r s).1.replyWith xaOk
    (if s.tx.state = .forgetting ∨ s.tx.state = .committed then s.xaStateChangeForget else s, true)
  | .xaRollback =>
    let s := (xaStateChangeRollback r s).1.replyWith xaOk
    (if s.tx.state = .aborted then s.xaStateChangeForget else s, true)

def step : XaTxn :=
  if m.released then m
  else
    let (s, released) := process e.results ⟨m.tx, ⟨true, feOk⟩, m.log⟩ e.request
    { tx := s.tx
      log := s.log
      released := released
      doomed := m.doomed || m.fails e.results e.request }

/-- The branch after `xa_start`. -/
def started : XaTxn := { tx := .begun 0 1 }

def RolledBack (log : List Entry) : Prop := ∃ hbase tse, .rollbackBranches hbase tse ∈ log

structure Honest (m : XaTxn) (e : XaEvent) (entries : List Entry) : Prop where
  prepared : e.request = .xaPrepare → .reply xaOk ∈ entries →
    AllPrepared e.results ∧ (m.step e).tx.state = .prepared
  committed : e.request = .xaCommit → .reply xaOk ∈ entries →
    .transState .committed ∈ (m.step e).log
  rolledBack : e.request = .xaRollback → .reply xaOk ∈ entries → (m.step e).doomed = true →
    RolledBack (m.step e).log
  released : (m.step e).released = true → (m.step e).doomed = true → RolledBack (m.step e).log

/-- The foreign transaction manager does not use `TMFAIL`, prepares an active or ended branch,
commits a prepared one only, and no prepare fails but by an answer that nobody maps. -/
def Expected : Prop :=
  match e.request with
  | .xaEnd flags => flags ≠ .fail
  | .xaPrepare => (m.tx.state = .active ∨ m.tx.state = .idle) ∧ e.results.prepareMarks = false ∧
      (prepareResult e.results.prepareHbase e.results.prepareTse = xaOk ∨
        prepareResult e.results.prepareHbase e.results.prepareTse = xaRdonly)
  | .xaCommit => m.tx.state = .prepared
  | .xaRollback => True

instance (m : XaTxn) (e : XaEvent) : Decidable (m.Expected e) := by
  unfold Expected
  split <;> infer_instance

/-! ### Runs -/

variable {r : Results}

section
variable (hst : s.tx.state = .active ∨ s.tx.state = .idle) (hmark : s.tx.markForRollback = false)
include hst hmark

lemma xaPrepare_of_allPrepared (hr : AllPrepared r) :
    (xaStateChangePrepare r s).1 = (s.prepareBranches r).1.setState .prepared := by
  obtain ⟨hmarks, hok⟩ := hr
  simp [xaStateChangePrepare, xaPrepareHelper, prepareBranches, hst, hmark, hmarks, hok, mapErr,
    setState, record, feOk, xaOk, xaRdonly]

/-- A prepare that answers read-only is taken for a failure, and answered at once. -/
theorem xaPrepare_of_rdonly
    (hmarks : r.prepareMarks = false) (hro : prepareResult r.prepareHbase r.prepareTse = xaRdonly) :
    (xaStateChangePrepare r s).1 =
      ((s.setState .preparing).prepareBranches r).1.stateChangeAbortSet xaerRmfail := by
  have hmap : mapErr xaRdonly ≠ xaOk := by decide
  have hst' := stateChangeAbortSet_tx ((s.setState .preparing).prepareBranches r).1 xaerRmfail
  have hunmarked : ((s.setState .preparing).prepareBranches r).1.tx.markForRollback = false := by
    simp [prepareBranches, setState, hmark, hmarks, hro]
  have hhelper : (s.setState .preparing).xaPrepareHelper r =
      ((s.setState .preparing).prepareBranches r).1.stateChangeAbortSet xaerRmfail := by
    have herror : ((s.setState .preparing).prepareBranches r).2 = xaRdonly := hro
    simp [xaPrepareHelper, hunmarked, herror, hmap]
  simp [xaStateChangePrepare, hst, hhelper, hst']

end

lemma xaCommitHelper_log (r : Results) {s : Session} (h : s.tx.wroteTransState = false) :
    (s.xaCommitHelper r).log =
      s.log ++ [.transState .committed, .commitBranches r.commitHbase r.commitTse] := by
  unfold xaCommitHelper
  simp only [h, Bool.false_eq_true, if_false]
  split_ifs <;> simp [setState, commitBranches, record, writeTransState, resetTransactionBusy]

lemma xaAbortHelper_log (r : Results) (s : Session) : ∃ before after, (s.xaAbortHelper r).log =
      s.log ++ before ++ .rollbackBranches r.rollbackHbase r.rollbackTse :: after := by
  obtain ⟨t, ht⟩ : ∃ t, t = if s.tx.wroteTransState then s else s.writeTransState .aborted :=
    ⟨_, rfl⟩
  have htlog : ∃ before, t.log = s.log ++ before := by
    rw [ht]
    split
    · exact ⟨[], by simp⟩
    · exact ⟨_, rfl⟩
  have hbranches (b : Bool) : ∃ after, (t.rollbackBranches r b).1.log =
      t.log ++ .rollbackBranches r.rollbackHbase r.rollbackTse :: after := by
    simp only [rollbackBranches, record, reply_log]
    split <;> exact ⟨_, by simp [responseError]; rfl⟩
  obtain ⟨before, hbef⟩ := htlog
  obtain ⟨after, haft⟩ := hbranches (t.tx.tmAborted || t.tx.tseAborted)
  refine ⟨before, after, ?_⟩
  rw [← hbef, ← haft]
  unfold xaAbortHelper
  dsimp only
  rw [← ht]
  split_ifs <;> simp [setState]

lemma xaStateChangeForget_log (s : Session) : ∃ l, s.xaStateChangeForget.log = s.log ++ l := by
  have hheur : ∃ l, (if s.tx.wroteTransState then s
      else s.writeTransState .forgotten).forgetHeurBranches.log = s.log ++ l := by
    split <;> exact ⟨_, by simp [forgetHeurBranches, setState, writeTransState, record]; rfl⟩
  unfold xaStateChangeForget
  split
  any_goals exact hheur
  all_goals exact ⟨[], by simp [setState]⟩

lemma answered_log (s : Session) (p : Prop) [Decidable p] :
    ∃ l, (if p then (s.replyWith xaOk).xaStateChangeForget else s.replyWith xaOk).log = s.log ++ l := by
  split
  · obtain ⟨l, hl⟩ := xaStateChangeForget_log (s.replyWith xaOk)
    exact ⟨_, by rw [hl, replyWith_log, List.append_assoc]⟩
  · exact ⟨_, replyWith_log s xaOk⟩

structure Sound (m : XaTxn) : Prop where
  unwritten : m.released = false → m.tx.wroteTransState = false
  unmarked : m.released = false → m.tx.markForRollback = false
  state : m.released = false →
    m.tx.state = .aborting ∨
      (m.tx.state = .active ∨ m.tx.state = .idle ∨ m.tx.state = .prepared) ∧ m.doomed = false
  released : m.released = true → m.doomed = true → RolledBack m.log

def session : Session := ⟨m.tx, ⟨true, feOk⟩, m.log⟩

variable {m : XaTxn}

lemma step_eq (h : m.released = false) {e : XaEvent} {t : Session} {b : Bool}
    (hproc : process e.results m.session e.request = (t, b)) :
    m.step e = ⟨t.tx, t.log, b, m.doomed || m.fails e.results e.request⟩ := by
  unfold step
  rw [h]
  change (let (s, released) := process e.results m.session e.request
    (⟨s.tx, s.log, released, m.doomed || m.fails e.results e.request⟩ : XaTxn)) = _
  rw [hproc]

def Served (m : XaTxn) (e : XaEvent) : Prop :=
  (m.step e).Sound ∧ ∃ entries, (m.step e).log = m.log ++ entries ∧ m.Honest e entries

section
variable (h : m.Sound) (hrel : m.released = false)
include h hrel

lemma Sound.not_doomed (hst : m.tx.state ≠ .aborting) : m.doomed = false :=
  ((h.state hrel).resolve_left hst).2

lemma Sound.xaEnd
    {flags : XaEndFlags} (he : m.Expected ⟨.xaEnd flags, r⟩) : m.Served ⟨.xaEnd flags, r⟩ := by
  have hflag : flags ≠ .fail := he
  obtain ⟨t, error, hproc, htx⟩ : ∃ t error,
      process r m.session (.xaEnd flags) = (t.replyWith error, false) ∧
        (t = m.session ∨ t = m.session.setState .idle ∧ m.tx.state = .active) := by
    simp only [process, xaStateChangeEnd]
    split_ifs with hact
    · exact ⟨_, _, rfl, .inr ⟨rfl, hact⟩⟩
    · exact ⟨_, _, rfl, .inl rfl⟩
  have hlog : (t.replyWith error).log = m.log ++ [.reply error] := by
    rw [replyWith_log]
    rcases htx with rfl | ⟨rfl, _⟩ <;> rfl
  have hstep := step_eq hrel (e := ⟨.xaEnd flags, r⟩) hproc
  rw [replyWith_tx, hlog] at hstep
  refine ⟨?_, [.reply error], by rw [hstep], ⟨by simp, by simp, by simp, by simp [hstep]⟩⟩
  rw [hstep]
  refine ⟨fun _ => ?_, fun _ => ?_, fun _ => ?_, by simp⟩
  · rcases htx with rfl | ⟨rfl, _⟩ <;> exact h.unwritten hrel
  · rcases htx with rfl | ⟨rfl, _⟩ <;> exact h.unmarked hrel
  · have hfails : m.fails r (.xaEnd flags) = false := by simp [fails, hflag]
    simp only [hfails, Bool.or_false]
    rcases htx with rfl | ⟨rfl, hact⟩
    · exact h.state hrel
    · exact .inr ⟨.inr (.inl rfl), h.not_doomed hrel (by simp [hact])⟩

lemma Sound.xaPrepare (he : m.Expected ⟨.xaPrepare, r⟩) : m.Served ⟨.xaPrepare, r⟩ := by
  have hst : m.tx.state = .active ∨ m.tx.state = .idle := he.1
  have hmarks : r.prepareMarks = false := he.2.1
  have hmark : m.session.tx.markForRollback = false := h.unmarked hrel
  have hdoomed : m.doomed = false :=
    h.not_doomed hrel (by rcases hst with hs | hs <;> simp [hs])
  have hres : prepareResult r.prepareHbase r.prepareTse = xaOk ∨
      prepareResult r.prepareHbase r.prepareTse = xaRdonly := he.2.2
  rcases hres with hok | hro
  · have hprp := xaPrepare_of_allPrepared (s := m.session) hst hmark ⟨hmarks, hok⟩
    obtain ⟨t, ht⟩ : ∃ t, t = (m.session.prepareBranches r).1.setState .prepared := ⟨_, rfl⟩
    have htmark : t.tx.markForRollback = false := by
      simp [ht, setState, prepareBranches, hmark, hmarks, hok]
    have hlog : (t.replyWith xaOk).log = m.log ++ [.prepareBranches xaOk, .reply xaOk] := by
      rw [replyWith_log, ht]
      simp [setState, prepareBranches, record, session, hok]
    have hstep := step_eq hrel (e := ⟨.xaPrepare, r⟩)
      (show process r m.session .xaPrepare = (t.replyWith xaOk, false) by
        simp only [process, hprp, ht])
    have hfails : m.fails r .xaPrepare = false := by simp [fails, AllPrepared, hmarks, hok]
    rw [replyWith_tx, hlog] at hstep
    simp only [hfails, hdoomed, Bool.or_false] at hstep
    have htstate : t.tx.state = .prepared := by rw [ht]; rfl
    refine ⟨?_, _, by rw [hstep], ⟨fun _ _ => ⟨⟨hmarks, hok⟩, by rw [hstep]; exact htstate⟩,
      by simp, by simp, by simp [hstep]⟩⟩
    rw [hstep]
    exact ⟨fun _ => by rw [ht]; exact h.unwritten hrel, fun _ => htmark,
      fun _ => .inr ⟨.inr (.inr htstate), rfl⟩, by simp⟩
  · have hprp := xaPrepare_of_rdonly (s := m.session) hst hmark hmarks hro
    obtain ⟨t, ht⟩ : ∃ t, t = ((m.session.setState .preparing).prepareBranches r).1 := ⟨_, rfl⟩
    have htpending : t.msg.replyPending = true := by rw [ht]; rfl
    have htx := stateChangeAbortSet_tx t xaerRmfail
    have hset : t.stateChangeAbortSet xaerRmfail =
        ({ t with tx := { t.tx with state := .aborting, tmAborted := true } }).replyWith
          xaerRmfail := by
      rw [stateChangeAbortSet_eq, if_pos htpending]
    have hans : ((t.stateChangeAbortSet xaerRmfail).replyWith xaOk).log =
        m.log ++ [.prepareBranches xaRdonly, .reply xaerRmfail] := by
      have hdone : (t.stateChangeAbortSet xaerRmfail).msg.replyPending = false := by
        rw [hset]
        exact reply_not_pending _
      rw [replyWith_log, hdone, hset, replyWith_log, if_pos (by exact htpending), ht]
      simp [setState, prepareBranches, record, session, hro]
    have hstep := step_eq hrel (e := ⟨.xaPrepare, r⟩) (show process r m.session .xaPrepare =
          ((t.stateChangeAbortSet xaerRmfail).replyWith xaOk, false) by
        simp only [process, hprp, ht])
    rw [replyWith_tx, hans] at hstep
    refine ⟨?_, _, by rw [hstep], ⟨fun _ hmem => absurd hmem (by decide), by simp, by simp,
      by simp [hstep]⟩⟩
    rw [hstep]
    refine ⟨fun _ => ?_, fun _ => ?_, fun _ => .inl (by rw [htx]), by simp⟩
    · rw [htx, ht]
      exact h.unwritten hrel
    · rw [htx, ht]
      simp [prepareBranches, setState, hmark, hmarks, hro]

lemma Sound.xaCommit (he : m.Expected ⟨.xaCommit, r⟩) : m.Served ⟨.xaCommit, r⟩ := by
  have hst : m.tx.state = .prepared := he
  have hdoomed : m.doomed = false := h.not_doomed hrel (by simp [hst])
  obtain ⟨t, ht⟩ : ∃ t, t = (m.session.setState .committing).xaCommitHelper r := ⟨_, rfl⟩
  have htlog : t.log = m.log ++ [.transState .committed,
      .commitBranches r.commitHbase r.commitTse] :=
    ht ▸ xaCommitHelper_log r (h.unwritten hrel)
  obtain ⟨u, hproc, l, hlog⟩ : ∃ u, process r m.session .xaCommit = (u, true) ∧
      ∃ l, u.log = t.log ++ l := by
    have hcmt : (xaStateChangeCommit r m.session).1 = t := by
      rw [xaStateChangeCommit, if_pos (.inl hst), ht]
    refine ⟨_, rfl, ?_⟩
    simp only [hcmt]
    exact answered_log t _
  have hstep := step_eq hrel (e := ⟨.xaCommit, r⟩) hproc
  rw [htlog, List.append_assoc] at hlog
  refine ⟨?_, _, by rw [hstep]; exact hlog, ⟨by simp, fun _ _ => ?_, by simp, fun _ hd => ?_⟩⟩
  · rw [hstep]
    exact ⟨by simp, by simp, by simp, fun _ hd => absurd hd (by simp [hdoomed, fails])⟩
  · rw [hstep]
    simp [hlog]
  · rw [hstep] at hd
    exact absurd hd (by simp [hdoomed, fails])

lemma Sound.xaRollback (r : Results) : m.Served ⟨.xaRollback, r⟩ := by
  have haccepts : xaAcceptsRollback m.session.tx.state = true := by
    change xaAcceptsRollback m.tx.state = true
    rcases h.state hrel with hs | ⟨hs | hs | hs, _⟩ <;> rw [hs] <;> rfl
  obtain ⟨before, after, hhelper⟩ := xaAbortHelper_log r (m.session.setState .abortingPart2)
  obtain ⟨t, ht⟩ : ∃ t, t = (m.session.setState .abortingPart2).xaAbortHelper r := ⟨_, rfl⟩
  rw [← ht] at hhelper
  obtain ⟨u, hproc, l, hlog⟩ : ∃ u, process r m.session .xaRollback = (u, true) ∧
      ∃ l, u.log = t.log ++ l := by
    have hrollback : (xaStateChangeRollback r m.session).1 = t := by
      rw [xaStateChangeRollback, if_pos haccepts, ht]
    refine ⟨_, rfl, ?_⟩
    simp only [hrollback]
    exact answered_log t _
  have hstep := step_eq hrel (e := ⟨.xaRollback, r⟩) hproc
  have hulog : u.log = m.log ++ (before ++
      .rollbackBranches r.rollbackHbase r.rollbackTse :: (after ++ l)) := by
    rw [hlog, hhelper]
    simp [setState, session]
  have hrolled : RolledBack (m.step ⟨.xaRollback, r⟩).log :=
    ⟨r.rollbackHbase, r.rollbackTse, by rw [hstep]; simp [hulog]⟩
  refine ⟨?_, _, by rw [hstep]; exact hulog, ⟨by simp, by simp, fun _ _ _ => hrolled,
    fun _ _ => hrolled⟩⟩
  have hrel' : (m.step ⟨.xaRollback, r⟩).released = true := by rw [hstep]
  exact ⟨by simp [hrel'], by simp [hrel'], by simp [hrel'], fun _ _ => hrolled⟩

end

lemma Sound.step {e : XaEvent} (h : m.Sound) (he : m.Expected e) : m.Served e := by
  cases hrel : m.released with
  | true =>
    have hstep : m.step e = m := by simp [XaTxn.step, hrel]
    refine ⟨by rwa [hstep], [], by simp [hstep], ⟨by simp, by simp, by simp, ?_⟩⟩
    rw [hstep]
    exact h.released
  | false =>
    obtain ⟨request, r⟩ := e
    cases request with
    | xaEnd flags => exact h.xaEnd hrel he
    | xaPrepare => exact h.xaPrepare hrel he
    | xaCommit => exact h.xaCommit hrel he
    | xaRollback => exact h.xaRollback hrel r

lemma sound_started : started.Sound :=
  ⟨fun _ => rfl, fun _ => rfl, fun _ => .inr ⟨.inl rfl, rfl⟩, by simp [started]⟩

/-- In a run whose requests are expected, every request is answered honestly. -/
theorem requests_honest (l : List XaEvent) (e : XaEvent)
    (h : Runs.Guarded step Expected started (l ++ [e])) :
    ∃ entries, (run step started (l ++ [e])).log = (run step started l).log ++ entries ∧
      (run step started l).Honest e entries := by
  obtain ⟨hl, he⟩ := Runs.Guarded.append.1 h
  have hsound : (run step started l).Sound :=
    hl.invariant (fun _ _ hI hG => (hI.step hG).1) sound_started
  rw [run_snoc]
  exact (hsound.step he.1).2

/-- A branch that prepares and is rolled back. -/
theorem prepared_branch_honest :
    ∃ entries, (run step started ([⟨.xaEnd .success, {}⟩, ⟨.xaPrepare, {}⟩] ++
        [⟨.xaRollback, {}⟩])).log =
        (run step started [⟨.xaEnd .success, {}⟩, ⟨.xaPrepare, {}⟩]).log ++ entries ∧
      (run step started [⟨.xaEnd .success, {}⟩, ⟨.xaPrepare, {}⟩]).Honest
        ⟨.xaRollback, {}⟩ entries :=
  requests_honest _ ⟨.xaRollback, {}⟩ (by decide)

/-- A branch whose resource managers fail to prepare is answered `XA_OK`, and the commit that
follows is answered `XA_OK` too and gives the object back: neither a COMMITTED record nor a
rollback was made. -/
theorem failed_prepare_answered_ok :
    let m := run step started [⟨.xaEnd .fail, {}⟩, ⟨.xaPrepare, { prepareTse := -7 }⟩]
    let m' := m.step ⟨.xaCommit, {}⟩
    m.log = [.reply xaOk, .prepareBranches xaerRmerr, .reply xaOk] ∧ m.tx.state = .aborting ∧
      m.doomed = true ∧ m'.log = m.log ++ [.reply xaOk] ∧ m'.released = true := by
  decide

end XaTxn

namespace Session

/-- Neither event accepts the state that the redrive has just set. -/
theorem xaRedrive_log (nonsync : Bool) (kind : Redrive) (s : Session) (r : Results) :
    (s.xaRedrive nonsync kind r).1.log = s.log := by
  cases kind <;> cases nonsync <;> rfl

lemma xaRedrives_log (nonsync : Bool) (kind : Redrive) (rs : List Results) (s : Session) :
    (xaRedrives nonsync kind rs s).log = s.log := by
  induction rs generalizing s with
  | nil => rfl
  | cons r rs ih =>
    have hlog := xaRedrive_log nonsync kind s r
    unfold xaRedrives
    dsimp only
    split
    · exact hlog
    · rw [ih, hlog]

/-- **Redrives.** They call the branches again, and bring a hung transaction out of its state once the
branches succeed, only if there is none. -/
theorem xaRedrives_reach_iff (nonsync : Bool) (kind : Redrive) (s : Session) (rs : List Results) :
    (branchCalls kind (xaRedrives nonsync kind rs s).log = branchCalls kind s.log + rs.length ∧
      ((∃ r ∈ rs, succeeds kind r) → (xaRedrives nonsync kind rs s).tx.state ≠ s.tx.state)) ↔ rs = [] := by
  rw [xaRedrives_log]
  constructor
  · rintro ⟨hcalls, -⟩
    exact List.length_eq_zero_iff.1 (by omega)
  · rintro rfl
    simp

/-- A commit hangs and is redriven when the branches would succeed: no branch is called, and the object is
handed to the cleanup. In the run `xa_commit` has already released the object; the redrive is of the
object as it was left. -/
theorem redriven_commit_reaches_no_branch :
    let m := Runs.run XaTxn.step XaTxn.started
      [⟨.xaEnd .success, {}⟩, ⟨.xaPrepare, {}⟩, ⟨.xaCommit, { commitTse := -7 }⟩]
    let t := m.session.xaRedrive true .redriveCommit {}
    m.tx.state = .hungCommitted ∧ branchCalls .redriveCommit t.1.log = 1 ∧ t.1.log = m.log ∧
      t.1.tx.state = .committed ∧ t.2 = true := by
  decide

end Session
end Trafodion.Dtm
