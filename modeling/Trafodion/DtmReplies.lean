import Trafodion.DtmRequests

/-!
# The reply to ENDTRANSACTION

The reply is sent from several places, with the error carried in the message between them.
`endEntries` lists what ENDTRANSACTION of the ender leaves in the log of an active transaction,
and the reply is read off it.
-/
namespace Trafodion.Dtm

open Session

attribute [local simp] feLocked

variable (early : Bool) (r : Results)

def Results.Prepares : Prop :=
  r.prepareMarks = false ∧
    (prepareResult r.prepareHbase r.prepareTse = xaOk ∨
      prepareResult r.prepareHbase r.prepareTse = xaRdonly)

instance (r : Results) : Decidable r.Prepares := inferInstanceAs (Decidable (_ ∧ _))

def rollbackEntries (before between : List Entry) : List Entry :=
  before ++ .rollbackBranches r.rollbackHbase r.rollbackTse ::
    (between ++ [.completeRequest r.completeAfterRollback])

attribute [local simp] rollbackEntries

def commitEntries : List Entry :=
  if r.commitHbase = retOk ∧ r.commitTse = xaOk then
    (if early then [.reply feOk] else []) ++
      [.completeRequest r.completeAfterCommit, .transState .forgotten] ++
      (if early then [] else [.reply feOk])
  else if r.commitHbase = retOk ∧ Heuristic r.commitTse then
    [.forgetHeurBranches, .transState .forgottenHeur, .reply feOk]
  else [.reply feOk]

/-- What ENDTRANSACTION adds to the log; `marked` is `iv_mark_for_rollback` before it. -/
def endEntries (marked : Bool) : List Entry :=
  if marked then rollbackEntries r [.reply feAbortedTransid] []
  else if r.endTse ≠ xaOk then
    rollbackEntries r [.endBranches r.endTse, .reply feAbortedTransid] []
  else
    let error := prepareResult r.prepareHbase r.prepareTse
    if ¬ r.Prepares then
      rollbackEntries r [.endBranches r.endTse, .prepareBranches error]
        [.reply (if error = commitConflict then feLocked else feAbortedTransid)]
    else if r.numRmPartic = 0 then
      [.endBranches r.endTse, .prepareBranches error, .reply feOk]
    else
      [.endBranches r.endTse, .prepareBranches error, .transState .committed,
        .commitBranches r.commitHbase r.commitTse] ++ commitEntries early r

attribute [local simp] endEntries

namespace Session

variable {s : Session}

variable (early : Bool) (r : Results)

lemma prepareBranches_unmarked_iff (h : s.tx.markForRollback = false) :
    (s.prepareBranches r).1.tx.markForRollback = false ↔ r.Prepares := by
  simp only [prepareBranches, Results.Prepares, h, Bool.false_or, Bool.or_eq_false_iff,
    Bool.and_eq_false_iff, decide_eq_false_iff_not, ne_eq, not_not]

lemma prepareHelper_of_prepares {r : Results} (h : s.tx.markForRollback = false)
    (hr : r.Prepares) :
    s.stateChangePrepareHelper r = ((s.prepareBranches r).1.setState .committing, true) := by
  have hmark := (prepareBranches_unmarked_iff r h).2 hr
  have herror : (s.prepareBranches r).2 = xaRdonly ∨ (s.prepareBranches r).2 = xaOk := hr.2.symm
  simp [stateChangePrepareHelper, hmark, herror]

/-- The error that `state_change_prepare_helper` leaves in the message. -/
def prepareError : ℤ :=
  if prepareResult r.prepareHbase r.prepareTse = commitConflict then feLocked else feAbortedTransid

lemma prepareHelper_of_not_prepares {r : Results}
    (h : s.tx.markForRollback = false) (hr : ¬ r.Prepares) :
    s.stateChangePrepareHelper r =
      ({ (s.prepareBranches r).1.responseError (prepareError r) with
        tx := { (s.prepareBranches r).1.tx with state := .aborting, tseAborted := true } },
        false) := by
  have hmark : (s.prepareBranches r).1.tx.markForRollback = true := by
    simpa using mt (prepareBranches_unmarked_iff r h).1 hr
  unfold stateChangePrepareHelper
  dsimp only
  rw [if_pos hmark]
  rfl

lemma answerAborted_prepareError
    (h : s.msg.responseError = prepareError r) : s.answerAborted = s := by
  obtain ⟨tx, ⟨pending, error⟩, log⟩ := s
  subst h
  unfold answerAborted prepareError responseError
  by_cases hc : prepareResult r.prepareHbase r.prepareTse = commitConflict <;> simp [hc]

lemma earlyReply_pending (s : Session) :
    (s.earlyReply early).msg.replyPending = (s.msg.replyPending && !early) := by
  unfold earlyReply replyWith reply responseError
  cases early <;> cases h : s.msg.replyPending <;> simp [h, record]

lemma committed_answerEnded_log
    (h : s.tx.readOnly = false) (hwrote : s.tx.wroteTransState = false)
    (hpend : s.msg.replyPending = true) :
    (s.committed early r).answerEnded.log = s.log ++ [.transState .committed,
      .commitBranches r.commitHbase r.commitTse] ++ commitEntries early r := by
  have hph : (s.secondPhase r).log = s.log ++ [.transState .committed,
      .commitBranches r.commitHbase r.commitTse] := by
    rw [secondPhase_log, commitRecord, hwrote]
    simp
  have hmsg := secondPhase_msg r s
  rw [answerEnded_log]
  rcases Results.commit_cases r with ⟨hh, ht⟩ | ⟨hh, ht⟩ | hfailed
  · obtain ⟨u, hu⟩ : ∃ u, u = ((s.secondPhase r).setState .forgetting).earlyReply early := ⟨_, rfl⟩
    have hlog : u.log = (s.secondPhase r).log ++
        if early && (s.secondPhase r).msg.replyPending then [.reply feOk] else [] :=
      hu ▸ earlyReply_log early _
    have hp : u.msg.replyPending = ((s.secondPhase r).msg.replyPending && !early) :=
      hu ▸ earlyReply_pending early _
    have hents : commitEntries early r = (if early then [.reply feOk] else []) ++
        [.completeRequest r.completeAfterCommit, .transState .forgotten] ++
        (if early then [] else [.reply feOk]) := if_pos ⟨hh, ht⟩
    rw [committed_completed early h hh ht, ← hu, hents]
    simp only [setState, writeTransState, record, hlog, hp, hph, hmsg, hpend]
    cases early <;> simp
  · have hne : r.commitTse ≠ xaOk := by
      intro heq
      rw [heq] at ht
      revert ht
      decide
    have hents : commitEntries early r =
        [.forgetHeurBranches, .transState .forgottenHeur, .reply feOk] := by
      rw [commitEntries, if_neg (fun h' => hne h'.2), if_pos ⟨hh, ht⟩]
    rw [committed_heuristic early h hh ht, hents]
    simp [setState, forgetHeurBranches, writeTransState, record, hmsg, hpend, hph]
  · have hents : commitEntries early r = [.reply feOk] := by
      rw [commitEntries, if_neg (by tauto), if_neg (by tauto)]
    rw [committed_hung early h hfailed, hents]
    simp [setState, resetTransactionBusy, hmsg, hpend, hph]

lemma stateChangeAbortSet_answered (error : ℤ) (hpend : s.msg.replyPending = true) :
    (s.stateChangeAbortSet error).log = s.log ++ [.reply error] ∧
      (s.stateChangeAbortSet error).msg.replyPending = false := by
  rw [stateChangeAbortSet_eq, if_pos hpend, replyWith_log]
  exact ⟨by simp [hpend], reply_not_pending _⟩

lemma answerAborted_pending (s : Session) :
    s.answerAborted.msg.replyPending = s.msg.replyPending := by
  unfold answerAborted
  split <;> rfl

lemma rolledBack_answered_log (h : s.msg.replyPending = false) :
    (s.answerAborted.rolledBack r).log = rollbackEntries r s.log [] := by
  rw [rolledBack_log, rollbackReply, answerAborted_pending, h, answerAborted_log]
  rfl

/-- What ENDTRANSACTION of the ender leaves in the log of an active transaction. -/
theorem reqEnd_log (hstd : s.tx.Steady)
    (hact : s.tx.state = .active) (hpartic : s.tx.numActivePartic ≤ 1)
    (hpending : s.msg.replyPending = true) : ∃ s', s.reqEnd early s.tx.enderPid r = .ok s' ∧
      s'.log = s.log ++ endEntries early r s.tx.markForRollback := by
  have hreq : s.reqEnd early s.tx.enderPid r =
      reqEndComplete early r (s.ended early r) >>= reqForget := by
    unfold reqEnd
    rw [if_neg (by simp), if_neg (by simp [hact]), if_neg (by omega),
      stateChangeCommit_active early r hact]
    rfl
  -- what `req_forget` does leaves the log alone
  suffices h : ∃ u, reqEndComplete early r (s.ended early r) = .ok u ∧
      (u.tx.state ≠ .forgettingHeur ∧ u.tx.state ≠ .forgottenHeur) ∧
      u.log = s.log ++ endEntries early r s.tx.markForRollback by
    obtain ⟨u, hu, hended, hlog⟩ := h
    rw [hreq, hu]
    exact ⟨_, reqForget_ended hended, hlog⟩
  have hrolled (hst : (s.ended early r).tx.state = .aborting) {l : List Entry}
      (hlog : ((s.ended early r).answerAborted.rolledBack r).log = l) :
      ∃ u, reqEndComplete early r (s.ended early r) = .ok u ∧
        (u.tx.state ≠ .forgettingHeur ∧ u.tx.state ≠ .forgottenHeur) ∧ u.log = l := by
    refine ⟨_, reqEndComplete_aborting early r hst, ?_, hlog⟩
    rcases rolledBack_ended r (s.ended early r).answerAborted with h | h <;> simp [h]
  cases hmark : s.tx.markForRollback with
  | true =>
    have hend : s.ended early r = s.stateChangeAbortSet feAbortedTransid := by simp [ended, hmark]
    obtain ⟨hlog, hans⟩ := stateChangeAbortSet_answered feAbortedTransid hpending
    refine hrolled (by rw [hend, stateChangeAbortSet_tx]) ?_
    rw [hend, rolledBack_answered_log r hans, hlog]
    simp
  | false =>
    by_cases he : r.endTse = xaOk
    · obtain ⟨t, ht⟩ : ∃ t, t = (s.endBranches r).1.setState .preparing := ⟨_, rfl⟩
      have htmark : t.tx.markForRollback = false := ht ▸ hmark
      have hend : s.ended early r = if (t.stateChangePrepareHelper r).2 then
          ((t.stateChangePrepareHelper r).1.decided r).committed early r
          else (t.stateChangePrepareHelper r).1 := by
        simp [ended, hmark, he, ht]
      have htlog : (t.prepareBranches r).1.log = s.log ++ [.endBranches r.endTse,
          .prepareBranches (prepareResult r.prepareHbase r.prepareTse)] := by
        rw [ht]
        simp [prepareBranches, setState, endBranches, record]
      have htmsg : (t.prepareBranches r).1.msg = s.msg := by
        rw [ht]
        rfl
      by_cases hp : r.Prepares
      · rw [prepareHelper_of_prepares htmark hp, if_pos rfl] at hend
        obtain ⟨u, hu⟩ : ∃ u, u = ((t.prepareBranches r).1.setState .committing).decided r :=
          ⟨_, rfl⟩
        have hutx : u.tx = { s.tx with state := .committed, readOnly := r.numRmPartic = 0 } := by
          have h' := (prepareBranches_unmarked_iff r htmark).2 hp
          rw [hu]
          simp only [decided, setState, prepareBranches, ht, endBranches, record] at h' ⊢
          rw [h', hmark]
        have hulog : u.log = s.log ++ [.endBranches r.endTse,
            .prepareBranches (prepareResult r.prepareHbase r.prepareTse)] := hu ▸ htlog
        have humsg : u.msg = s.msg := hu ▸ htmsg
        have hflag := flags_of_unmarked hstd hact hmark
        have hcompl := reqEndComplete_committed early r (t := u)
          (by rw [hutx]; exact hflag) (by rw [hutx]; exact hmark)
        rw [← hu] at hend
        rw [hend]
        refine ⟨_, hcompl, ?_, ?_⟩
        · rw [answerEnded_tx]
          rcases committed_ended early r u with h | h <;> simp [h]
        · by_cases hn : r.numRmPartic = 0
          · have hro : u.tx.readOnly = true := by simp [hutx, hn]
            have hup : u.msg.replyPending = true := by rw [humsg, hpending]
            have hdone : (u.committed early r).msg.replyPending = false := by
              rw [committed_readOnly early r hro, answerEnded, if_pos hup]
              exact reply_not_pending _
            have hclog : (u.committed early r).log = u.log ++ [.reply feOk] := by
              rw [committed_readOnly early r hro]
              change u.answerEnded.log = _
              rw [answerEnded_log, if_pos hup]
            rw [answerEnded_log, hdone, hclog, hulog]
            simp [he, hp, hn]
          · rw [committed_answerEnded_log early r (by simp [hutx, hn])
              (by rw [hutx]; exact hstd.unwritten hact) (by rw [humsg, hpending]), hulog]
            simp [he, hp, hn]
      · rw [prepareHelper_of_not_prepares htmark hp, if_neg (by simp)] at hend
        refine hrolled (by rw [hend]) ?_
        have herr : (s.ended early r).msg.responseError = prepareError r := by rw [hend]; rfl
        have hpend : (s.ended early r).msg.replyPending = true := by
          rw [hend]
          change (t.prepareBranches r).1.msg.replyPending = true
          rw [htmsg, hpending]
        have htse : (s.ended early r).tx.tseAborted = true := by rw [hend]
        have hlog : (s.ended early r).log = (t.prepareBranches r).1.log := by rw [hend]; rfl
        rw [answerAborted_prepareError r herr, rolledBack_log, rollbackReply, hpend, htse, herr,
          hlog, htlog]
        simp [he, hp, prepareError]
    · have hend : s.ended early r =
          (s.endBranches r).1.stateChangeAbortSet feAbortedTransid := by
        simp [ended, hmark, he]
      have hpend' : (s.endBranches r).1.msg.replyPending = true := hpending
      obtain ⟨hlog, hans⟩ := stateChangeAbortSet_answered feAbortedTransid hpend'
      refine hrolled (by rw [hend, stateChangeAbortSet_tx]) ?_
      rw [hend, rolledBack_answered_log r hans, hlog]
      simp [he, endBranches, record]

end Session

def replies (l : List Entry) : List ℤ :=
  l.filterMap fun | .reply error => some error | _ => none

structure RepliesTruly (r : Results) (error : ℤ) (l : List Entry) : Prop where
  once : replies l = [error]
  ok : error = feOk ↔ .transState .committed ∈ l ∨
    (.prepareBranches (prepareResult r.prepareHbase r.prepareTse) ∈ l ∧ r.Prepares ∧
      r.numRmPartic = 0)
  aborted : error ≠ feOk → ∀ hbase tse, .commitBranches hbase tse ∉ l
  locked : error = feLocked ↔ .prepareBranches commitConflict ∈ l

lemma replies_append (l m : List Entry) : replies (l ++ m) = replies l ++ replies m :=
  List.filterMap_append

variable (early : Bool) (r : Results)

lemma not_mem_commitEntries (error : ℤ) : .prepareBranches error ∉ commitEntries early r := by
  unfold commitEntries
  split_ifs <;> simp

lemma replies_commitEntries : replies (commitEntries early r) = [feOk] := by
  unfold commitEntries
  split_ifs <;> rfl

lemma commitConflict_not_prepares {r : Results}
    (h : prepareResult r.prepareHbase r.prepareTse = commitConflict) : ¬ r.Prepares := by
  intro hp
  have h' := hp.2
  rw [h] at h'
  revert h'
  decide

lemma repliesTruly_unprepared {before : List Entry}
    (hbef : before = [] ∨ ∃ error, before = [.endBranches error]) : RepliesTruly r feAbortedTransid
      (rollbackEntries r (before ++ [.reply feAbortedTransid]) []) := by
  rcases hbef with rfl | ⟨error, rfl⟩ <;> constructor <;> simp [replies, feAbortedTransid, feOk]

lemma endEntries_repliesTruly (marked : Bool) :
    ∃ error, RepliesTruly r error (endEntries early r marked) := by
  obtain ⟨p, hp⟩ : ∃ p, p = prepareResult r.prepareHbase r.prepareTse := ⟨_, rfl⟩
  unfold endEntries
  rw [← hp]
  cases marked with
  | true => exact ⟨_, repliesTruly_unprepared r (.inl rfl)⟩
  | false =>
    by_cases he : r.endTse = xaOk
    · by_cases hprepares : r.Prepares
      · have hconf : p ≠ commitConflict := fun h =>
          commitConflict_not_prepares (hp ▸ h) hprepares
        refine ⟨feOk, ?_⟩
        by_cases hn : r.numRmPartic = 0
        · simp only [he, hprepares, hn, ne_eq, not_true_eq_false, if_true, if_false,
            Bool.false_eq_true]
          constructor <;> simp [replies, hn, hprepares, hp.symm, feOk, hconf.symm]
        · simp only [he, hprepares, hn, ne_eq, not_true_eq_false, if_false, Bool.false_eq_true]
          constructor
          · rw [replies_append, replies_commitEntries]
            rfl
          · simp
          · simp
          · simp [not_mem_commitEntries, hconf.symm, feOk]
      · refine ⟨if p = commitConflict then feLocked else feAbortedTransid, ?_⟩
        simp only [he, hprepares, ne_eq, not_true_eq_false, not_false_eq_true, if_true, if_false,
          Bool.false_eq_true]
        by_cases hc : p = commitConflict
        · constructor <;>
            simp [replies, hc, hprepares, feOk]
        · constructor <;>
            simp [replies, hc, hprepares, Ne.symm hc, feOk, feAbortedTransid]
    · simp only [he, ne_eq, not_false_eq_true, if_true, if_false, Bool.false_eq_true]
      exact ⟨_, repliesTruly_unprepared r (.inr ⟨_, rfl⟩)⟩

namespace Manager

/-- ENDTRANSACTION of the ender of an active transaction, after any requests, is answered once and
truly. -/
theorem endTransaction_repliesTruly (early : Bool) (enderPid numActivePartic : ℕ)
    (l : List Event) (r : Results)
    (hactive : (run early (begun enderPid numActivePartic) l).tx.state = .active)
    (hpartic : (run early (begun enderPid numActivePartic) l).tx.numActivePartic ≤ 1) :
    let m := run early (begun enderPid numActivePartic) l
    ∃ error entries,
      (m.step early ⟨.endTransaction m.tx.enderPid, r⟩).log = m.log ++ entries ∧
      RepliesTruly r error entries := by
  intro m
  obtain ⟨hsteady, hrunning⟩ := run_steady early enderPid numActivePartic l
  obtain ⟨error, herror⟩ := endEntries_repliesTruly early r m.tx.markForRollback
  obtain ⟨s', heq, hlog⟩ := reqEnd_log early r
    (s := ⟨m.tx, ⟨true, feOk⟩, m.log⟩) hsteady hactive hpartic rfl
  refine ⟨error, _, ?_, herror⟩
  have hstep : m.step early ⟨.endTransaction m.tx.enderPid, r⟩ =
      { m with tx := s'.tx, log := s'.log } := by
    have hprocess : Request.process early r (.endTransaction m.tx.enderPid)
        ⟨m.tx, ⟨Request.awaited (.endTransaction m.tx.enderPid), feOk⟩, m.log⟩ = .ok s' := heq
    unfold step
    rw [if_pos hrunning, if_neg (by rw [hsteady.present hactive]; decide), hprocess]
  rw [hstep]
  exact hlog

/-- A transaction that was doomed, and one whose prepare meets a conflict. -/
theorem doomed_and_conflicting_replies :
    (∃ error entries,
      ((run true (begun 7 1) [⟨.doomTx, {}⟩]).step true ⟨.endTransaction 7, {}⟩).log =
        (run true (begun 7 1) [⟨.doomTx, {}⟩]).log ++ entries ∧ RepliesTruly {} error entries) ∧
    ∃ error entries,
      ((begun 7 1).step true ⟨.endTransaction 7, { prepareHbase := 5 }⟩).log =
        (begun 7 1).log ++ entries ∧ RepliesTruly { prepareHbase := 5 } error entries :=
  ⟨endTransaction_repliesTruly true 7 1 [⟨.doomTx, {}⟩] {} (by decide) (by decide),
    endTransaction_repliesTruly true 7 1 [] { prepareHbase := 5 } (by decide) (by decide)⟩

end Manager
end Trafodion.Dtm
