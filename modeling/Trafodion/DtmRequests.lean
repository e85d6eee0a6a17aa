import Trafodion.DtmTransaction

/-!
# What the requests of the transaction manager do

The loops of `state_change` are unrolled once: from the states in which a transaction rests
between two requests a rollback ends in `rolledBack` and a commit in `committed`. `Effect` then
says what a request can do to such a transaction, and the properties of runs follow from it.
-/
namespace Trafodion.Dtm

namespace Session

variable (early : Bool) (r : Results) (s : Session)

@[simp] lemma setState_state (state : TxState) :
    (s.setState state).tx.state = state := rfl

@[simp] lemma setState_setState (a b : TxState) :
    (s.setState a).setState b = s.setState b := rfl

@[simp] lemma addHungTimerEvent_state (r : Redrive) :
    (s.addHungTimerEvent r).tx.state = s.tx.state := by
  unfold addHungTimerEvent
  split <;> rfl

@[simp] lemma addHungTimerEvent_log (r : Redrive) : (s.addHungTimerEvent r).log = s.log := by
  unfold addHungTimerEvent
  split <;> rfl

lemma addHungTimerEvent_hungEvent (r : Redrive) :
    (s.addHungTimerEvent r).tx.hungEvent ≠ none := by
  unfold addHungTimerEvent
  split
  · simp
  · assumption

@[simp] lemma reply_tx : s.reply.tx = s.tx := by
  unfold reply
  split <;> rfl

variable (error : ℤ)

@[simp] lemma replyWith_tx : (s.replyWith error).tx = s.tx :=
  reply_tx _

lemma stateChangeAbortSet_eq :
    s.stateChangeAbortSet error =
      if s.msg.replyPending then
        ({ s with tx := { s.tx with state := .aborting, tmAborted := true } }).replyWith error
      else { s with tx := { s.tx with state := .aborting, tmAborted := true } } := rfl

lemma stateChangeAbortSet_tx :
    (s.stateChangeAbortSet error).tx = { s.tx with state := .aborting, tmAborted := true } := by
  rw [stateChangeAbortSet_eq]
  split <;> simp

/-! ### A rollback -/

def rolledBack : Session :=
  let s := { s with tx := { s.tx with wroteTransState := true } }
  let s' := (s.rollbackBranches r (s.tx.tmAborted || s.tx.tseAborted)).1
  if r.completeAfterRollback = retOk then s'.setState .forgotten
  else (s'.setState .hungAborted).addHungTimerEvent .redriveRollback

lemma not_heuristic_xaerRmerr : ¬ Heuristic xaerRmerr := by decide

lemma stateChangeAbortHelper_eq : s.stateChangeAbortHelper r =
      if r.completeAfterRollback = retOk then (s.rolledBack r).setState .aborted
      else s.rolledBack r := by
  by_cases h : r.completeAfterRollback = retOk
  · simp [stateChangeAbortHelper, rolledBack, rollbackBranches, h]
  · have hne : xaerRmerr ≠ xaOk := by decide
    simp [stateChangeAbortHelper, rolledBack, rollbackBranches, h, hne, not_heuristic_xaerRmerr]

lemma rolledBack_state : (s.rolledBack r).tx.state =
      if r.completeAfterRollback = retOk then .forgotten else .hungAborted := by
  unfold rolledBack
  split <;> simp

lemma loop_stop {step : Session → Except Session (Session × Bool)} {s s' : Session}
    (h : step s = .ok (s', false)) (n : ℕ) : loop step (n + 1) s = .ok s' := by
  simp [loop, h]

lemma loop_continue {step : Session → Except Session (Session × Bool)} {s s' : Session}
    (h : step s = .ok (s', true)) (n : ℕ) : loop step (n + 1) s = loop step n s' := by
  simp [loop, h]

variable {s : Session}

lemma rollbackLoop_ended (h : s.tx.state = .forgotten ∨ s.tx.state = .hungAborted) (n : ℕ) :
    loop (rollbackStep r) (n + 1) s = .ok s := by
  rcases h with h | h <;> exact loop_stop (by simp [rollbackStep, h]) n

lemma rollbackLoop_abortingPart2 (h : s.tx.state = .abortingPart2) (n : ℕ) :
    loop (rollbackStep r) (n + 4) s = .ok (s.rolledBack r) := by
  have hstep : rollbackStep r s = .ok (s.stateChangeAbortHelper r, true) := by
    simp [rollbackStep, h]
  rw [loop_continue hstep, stateChangeAbortHelper_eq]
  split_ifs with hc
  · rw [loop_continue (by rfl), loop_continue (by rfl), rollbackLoop_ended r (.inl rfl)]
    -- the last of the three states is the one that `rolledBack` sets
    simp [rolledBack, hc]
  · exact rollbackLoop_ended r (.inr (by rw [rolledBack_state, if_neg hc])) _

lemma rolledBack_setState (s : Session) (state : TxState) :
    (s.setState state).rolledBack r = s.rolledBack r := by
  unfold rolledBack rollbackBranches reply responseError record setState addHungTimerEvent
  dsimp only
  split_ifs <;> rfl

lemma rollbackLoop_aborting (h : s.tx.state = .aborting) (n : ℕ) :
    loop (rollbackStep r) (n + 5) s = .ok (s.rolledBack r) := by
  have hstep : rollbackStep r s = .ok (s.setState .abortingPart2, true) := by
    simp [rollbackStep, h]
  rw [loop_continue hstep, rollbackLoop_abortingPart2 r rfl, rolledBack_setState]

lemma rollbackLoop_active (h : s.tx.state = .active) (n : ℕ) :
    loop (rollbackStep r) (n + 6) s = .ok ((s.endBranches r).1.rolledBack r) := by
  have hstep : rollbackStep r s = .ok ((s.endBranches r).1.setState .aborting, true) := by
    simp [rollbackStep, h]
  rw [loop_continue hstep, rollbackLoop_aborting r rfl, rolledBack_setState]

/-- `TX_ROLLBACK` in the states in which a transaction rests, and in those that a request puts
it into. -/
theorem stateChangeRollback_aborting (h : s.tx.state = .aborting) :
    stateChangeRollback r s = .ok (s.rolledBack r) := by
  rw [stateChangeRollback, if_pos (by rw [h]; rfl)]
  exact rollbackLoop_aborting r h 2

lemma stateChangeRollback_abortingPart2
    (h : s.tx.state = .abortingPart2) : stateChangeRollback r s = .ok (s.rolledBack r) := by
  rw [stateChangeRollback, if_pos (by rw [h]; rfl)]
  exact rollbackLoop_abortingPart2 r h 3

lemma stateChangeRollback_active (h : s.tx.state = .active) :
    stateChangeRollback r s = .ok ((s.endBranches r).1.rolledBack r) := by
  rw [stateChangeRollback, if_pos (by rw [h]; rfl)]
  exact rollbackLoop_active r h 1

lemma stateChangeRollback_ended (h : s.tx.state = .forgotten ∨ s.tx.state = .hungAborted) :
    stateChangeRollback r s = .ok s := by
  rw [stateChangeRollback, if_pos (by rcases h with h | h <;> rw [h] <;> rfl)]
  exact rollbackLoop_ended r h 6

lemma rolledBack_ended (s : Session) :
    (s.rolledBack r).tx.state = .forgotten ∨ (s.rolledBack r).tx.state = .hungAborted := by
  rw [rolledBack_state]
  split <;> simp

/-! ### A commit -/

def committed (s : Session) : Session :=
  let s := s.stateChangeCommitHelper r early
  match s.tx.state with
  | .forgetting => (if s.tx.readOnly then s else s.writeTransState .forgotten).setState .forgotten
  | .forgettingHeur => s.forgetHeurBranches.setState .forgotten
  | _ => s

lemma stateChangeCommitHelper_state (s : Session) :
    (s.stateChangeCommitHelper r early).tx.state = .forgetting ∨
      (s.stateChangeCommitHelper r early).tx.state = .forgettingHeur ∨
      (s.stateChangeCommitHelper r early).tx.state = .hungCommitted := by
  unfold stateChangeCommitHelper
  simp only [replyWith, reply, responseError, record, resetTransactionBusy]
  split_ifs <;> simp [setState]

attribute [local simp] commitStep

lemma commitLoop_ended (h : s.tx.state = .forgotten ∨ s.tx.state = .hungCommitted) (n : ℕ) :
    loop (commitStep early r) (n + 1) s = .ok s := by
  rcases h with h | h <;> exact loop_stop (by simp [h]) n

lemma commitLoop_committed (h : s.tx.state = .committed) (n : ℕ) :
    loop (commitStep early r) (n + 3) s = .ok (s.committed early r) := by
  have hstep : commitStep early r s = .ok (s.stateChangeCommitHelper r early, true) := by
    simp [h]
  rw [loop_continue hstep]
  unfold committed
  obtain h' | h' | h' := stateChangeCommitHelper_state early r s
  case inl | inr.inl =>
    rw [loop_continue (by simp only [commitStep, h']; rfl), commitLoop_ended early r (.inl rfl)]
    simp [h']
  · rw [commitLoop_ended early r (.inr h')]
    simp [h']

/-- The transaction has prepared; `readOnly` tells whether participants are left. -/
def decided (s : Session) : Session :=
  { s with tx := { s.tx with state := .committed, readOnly := r.numRmPartic = 0 } }

variable {r : Results}

lemma prepareHelper_eq_of_continue (h : (s.stateChangePrepareHelper r).2 = true) :
    (s.stateChangePrepareHelper r).1 = (s.prepareBranches r).1.setState .committing ∧
      (s.prepareBranches r).1.tx.markForRollback = false ∧
      ((s.prepareBranches r).2 = xaRdonly ∨ (s.prepareBranches r).2 = xaOk) := by
  revert h
  unfold stateChangePrepareHelper
  dsimp only
  split_ifs <;> simp_all

lemma prepareHelper_committing (h : (s.stateChangePrepareHelper r).2 = true) :
    (s.stateChangePrepareHelper r).1.tx.state = .committing := by
  rw [(prepareHelper_eq_of_continue h).1]
  rfl

lemma prepareHelper_aborting (h : (s.stateChangePrepareHelper r).2 = false) :
    (s.stateChangePrepareHelper r).1.tx.state = .aborting := by
  revert h
  unfold stateChangePrepareHelper
  dsimp only
  split_ifs <;> simp [stateChangeAbortSet_tx]

lemma commitLoop_preparing (r : Results) (h : s.tx.state = .preparing) (n : ℕ) :
    loop (commitStep early r) (n + 5) s = .ok (if (s.stateChangePrepareHelper r).2 then
        ((s.stateChangePrepareHelper r).1.decided r).committed early r
      else (s.stateChangePrepareHelper r).1) := by
  cases hp : (s.stateChangePrepareHelper r).2 with
  | false => exact loop_stop (by simp [h, hp]) _
  | true =>
    by_cases hn : r.numRmPartic = 0
    · rw [loop_continue (by simp only [commitStep, h, hp, hn]; rfl), commitLoop_committed _ _ rfl]
      simp [decided, hn]
    · have hcommitting := prepareHelper_committing hp
      have hstep : commitStep early r s = .ok ({ (s.stateChangePrepareHelper r).1 with
          tx := { (s.stateChangePrepareHelper r).1.tx with readOnly := false } }, true) := by
        simp [h, hp, hn]
      rw [loop_continue hstep, loop_continue (by simp only [commitStep, hcommitting]; rfl),
        commitLoop_committed _ _ rfl]
      simp [decided, hn, setState]

def ended (r : Results) (s : Session) : Session :=
  if s.tx.markForRollback then s.stateChangeAbortSet feAbortedTransid
  else if r.endTse = xaOk then
    let p := ((s.endBranches r).1.setState .preparing).stateChangePrepareHelper r
    if p.2 then (p.1.decided r).committed early r else p.1
  else (s.endBranches r).1.stateChangeAbortSet feAbortedTransid

lemma commitLoop_active (r : Results) (h : s.tx.state = .active) (n : ℕ) :
    loop (commitStep early r) (n + 6) s = .ok (s.ended early r) := by
  unfold ended
  cases hm : s.tx.markForRollback with
  | true => exact loop_stop (by simp [h, hm]) _
  | false =>
    by_cases he : r.endTse = xaOk
    · have hstep : commitStep early r s = .ok ((s.endBranches r).1.setState .preparing, true) := by
        simp [h, hm, endBranches, record, he]
      rw [loop_continue hstep, commitLoop_preparing early r rfl]
      simp [he]
    · have hstep : commitStep early r s =
          .ok ((s.endBranches r).1.stateChangeAbortSet feAbortedTransid, false) := by
        simp [h, hm, endBranches, he]
      rw [loop_stop hstep]
      simp [he]

lemma stateChangeCommit_active (r : Results)
    (h : s.tx.state = .active) : stateChangeCommit early r s = .ok (s.ended early r) := by
  rw [stateChangeCommit, if_pos (by rw [h]; rfl)]
  exact commitLoop_active early r h 1

lemma stateChangeCommit_committed (r : Results)
    (h : s.tx.state = .committed) : stateChangeCommit early r s = .ok (s.committed early r) := by
  rw [stateChangeCommit, if_pos (by rw [h]; rfl)]
  exact commitLoop_committed early r h 4

lemma stateChangeCommit_ended (r : Results)
    (h : s.tx.state = .forgotten ∨ s.tx.state = .hungCommitted) :
    stateChangeCommit early r s = .ok s := by
  rw [stateChangeCommit, if_pos (by rcases h with h | h <;> rw [h] <;> rfl)]
  exact commitLoop_ended early r h 6

lemma committed_ended (r : Results) (s : Session) : (s.committed early r).tx.state = .forgotten ∨
      (s.committed early r).tx.state = .hungCommitted := by
  unfold committed
  rcases stateChangeCommitHelper_state early r s with h | h | h <;> simp [h]

end Session

/-! ### What a request leaves behind -/

def Entry.Quiet : Entry → Prop
  | .endBranches _ | .prepareBranches _ | .reply _ => True
  | _ => False

inductive CommitEnd (r : Results) (tx' : Tx) : List Entry → Prop
  | completed (between : List Entry) (hhbase : r.commitHbase = retOk) (htse : r.commitTse = xaOk)
      (hquiet : ∀ x ∈ between, x.Quiet) (hstate : tx'.state = .forgotten) :
      CommitEnd r tx'
        (between ++ [.completeRequest r.completeAfterCommit, .transState .forgotten])
  | heuristic (hhbase : r.commitHbase = retOk) (htse : Heuristic r.commitTse)
      (hstate : tx'.state = .forgotten) :
      CommitEnd r tx' [.forgetHeurBranches, .transState .forgottenHeur]
  | hung (hfailed : r.commitHbase ≠ retOk ∨ r.commitTse ≠ xaOk)
      (hstate : tx'.state = .hungCommitted) (hevent : tx'.hungEvent ≠ none) :
      CommitEnd r tx' []

namespace Session

variable (early : Bool) (r : Results) (s : Session)

lemma reply_log : s.reply.log =
      s.log ++ if s.msg.replyPending then [.reply s.msg.responseError] else [] := by
  unfold reply
  split <;> simp [record]

variable (error : ℤ)

lemma replyWith_log :
    (s.replyWith error).log = s.log ++ if s.msg.replyPending then [.reply error] else [] :=
  reply_log _

lemma reply_not_pending : s.reply.msg.replyPending = false := by
  unfold reply
  split
  · rfl
  · exact Bool.eq_false_iff.2 ‹_›

def Quietly (s s' : Session) : Prop := ∃ l, s'.log = s.log ++ l ∧ ∀ x ∈ l, x.Quiet

lemma Quietly.refl : s.Quietly s := ⟨[], by simp⟩

lemma Quietly.trans {s₁ s₂ s₃ : Session} (h₁ : s₁.Quietly s₂) (h₂ : s₂.Quietly s₃) :
    s₁.Quietly s₃ := by
  obtain ⟨l₁, hl₁, hq₁⟩ := h₁
  obtain ⟨l₂, hl₂, hq₂⟩ := h₂
  refine ⟨l₁ ++ l₂, by rw [hl₂, hl₁, List.append_assoc], ?_⟩
  exact List.forall_mem_append.2 ⟨hq₁, hq₂⟩

lemma Quietly.of_log_eq {s s' : Session} (h : s'.log = s.log) : s.Quietly s' :=
  ⟨[], by simp [h]⟩

lemma quietly_reply : s.Quietly s.reply := by
  refine ⟨_, reply_log s, ?_⟩
  split <;> simp [Entry.Quiet]

lemma quietly_replyWith : s.Quietly (s.replyWith error) :=
  (Quietly.of_log_eq rfl).trans (quietly_reply (s.responseError error))

lemma quietly_endBranches (r : Results) : s.Quietly (s.endBranches r).1 :=
  ⟨_, rfl, by simp [Entry.Quiet]⟩

lemma quietly_stateChangeAbortSet : s.Quietly (s.stateChangeAbortSet error) := by
  rw [stateChangeAbortSet_eq]
  split
  · exact (Quietly.of_log_eq rfl).trans (quietly_replyWith _ _)
  · exact .of_log_eq rfl

lemma quietly_stateChangePrepareHelper (r : Results) :
    s.Quietly (s.stateChangePrepareHelper r).1 := by
  have hprp : s.Quietly (s.prepareBranches r).1 := ⟨_, rfl, by simp [Entry.Quiet]⟩
  unfold stateChangePrepareHelper
  dsimp only
  split_ifs
  · exact hprp.trans (.of_log_eq rfl)
  · exact hprp.trans (.of_log_eq rfl)
  · exact hprp.trans (.of_log_eq rfl)
  · exact hprp.trans (quietly_stateChangeAbortSet _ _)
  · exact (hprp.trans (quietly_stateChangeAbortSet _ _)).trans (quietly_stateChangeAbortSet _ _)
  · exact hprp.trans (quietly_stateChangeAbortSet _ _)

def rollbackReply : List Entry :=
  if s.msg.replyPending then
    [.reply (if s.tx.tmAborted || s.tx.tseAborted then s.msg.responseError else feOk)]
  else []

lemma rolledBack_log :
    (s.rolledBack r).log = s.log ++ .rollbackBranches r.rollbackHbase r.rollbackTse ::
      (s.rollbackReply ++ [.completeRequest r.completeAfterRollback]) := by
  unfold rolledBack rollbackBranches rollbackReply
  dsimp only
  split_ifs <;> simp_all [setState, reply, record, responseError]

lemma rolledBack_not_pending : (s.rolledBack r).msg.replyPending = false := by
  have h := reply_not_pending
  unfold rolledBack rollbackBranches addHungTimerEvent
  dsimp only
  split_ifs <;> simp [setState, record, h]

lemma rolledBack_hungEvent
    (h : r.completeAfterRollback ≠ retOk) : (s.rolledBack r).tx.hungEvent ≠ none := by
  unfold rolledBack
  rw [if_neg h]
  exact addHungTimerEvent_hungEvent _ _

variable {s : Session}

def commitRecord (tx : Tx) : List Entry :=
  if tx.wroteTransState then [] else [.transState .committed]

def secondPhase (s : Session) : Session :=
  (if s.tx.wroteTransState then s else s.writeTransState .committed).record
    (.commitBranches r.commitHbase r.commitTse)

lemma secondPhase_log (s : Session) : (s.secondPhase r).log =
      s.log ++ commitRecord s.tx ++ [.commitBranches r.commitHbase r.commitTse] := by
  unfold secondPhase commitRecord
  split <;> simp [record, writeTransState]

lemma secondPhase_tx (s : Session) :
    (s.secondPhase r).tx = { s.tx with wroteTransState := true } := by
  obtain ⟨tx, msg, log⟩ := s
  cases tx
  unfold secondPhase
  split <;> simp_all [record, writeTransState]

lemma secondPhase_msg (s : Session) : (s.secondPhase r).msg = s.msg := by
  unfold secondPhase
  split <;> rfl

/-- The reply that `earlyCommitReply` sends before the commit is complete. -/
def earlyReply (s : Session) : Session :=
  if early && s.msg.replyPending then s.replyWith feOk else s

lemma earlyReply_log (s : Session) : (s.earlyReply early).log =
      s.log ++ if early && s.msg.replyPending then [.reply feOk] else [] := by
  unfold earlyReply
  split
  · rename_i h
    rw [replyWith_log, if_pos (Bool.and_eq_true_iff.1 h).2]
  · simp

@[simp] lemma earlyReply_tx (s : Session) : (s.earlyReply early).tx = s.tx := by
  unfold earlyReply
  split <;> simp

def answerEnded (s : Session) : Session := if s.msg.replyPending then s.replyWith feOk else s

lemma answerEnded_eq (s : Session) : s.answerEnded = s.earlyReply true := by
  simp [answerEnded, earlyReply]

@[simp] lemma answerEnded_tx (s : Session) : s.answerEnded.tx = s.tx := by
  rw [answerEnded_eq, earlyReply_tx]

lemma answerEnded_log (s : Session) :
    s.answerEnded.log = s.log ++ if s.msg.replyPending then [.reply feOk] else [] := by
  rw [answerEnded_eq, earlyReply_log, Bool.true_and]

lemma quietly_answerEnded (s : Session) : s.Quietly s.answerEnded := by
  refine ⟨_, answerEnded_log s, ?_⟩
  split <;> simp [Entry.Quiet]

lemma committed_readOnly (h : s.tx.readOnly = true) : s.committed early r =
      s.answerEnded.setState .forgotten := by
  have hhelper : s.stateChangeCommitHelper r early = s.answerEnded.setState .forgetting := by
    simp [stateChangeCommitHelper, answerEnded, h]
  unfold committed
  rw [hhelper]
  simp [setState, h]

variable {r : Results}

lemma committed_completed
    (h : s.tx.readOnly = false) (hh : r.commitHbase = retOk) (ht : r.commitTse = xaOk) :
    s.committed early r = (((((s.secondPhase r).setState .forgetting).earlyReply early).record
        (.completeRequest r.completeAfterCommit)).writeTransState .forgotten).setState
          .forgotten := by
  have hhelper : s.stateChangeCommitHelper r early =
      (((s.secondPhase r).setState .forgetting).earlyReply early).record
        (.completeRequest r.completeAfterCommit) := by
    simp [stateChangeCommitHelper, commitBranches, secondPhase, earlyReply, h, hh, ht]
  have htx : (s.stateChangeCommitHelper r early).tx = ((s.secondPhase r).setState .forgetting).tx := by
    rw [hhelper]
    exact earlyReply_tx early _
  unfold committed
  rw [← hhelper]
  simp [htx, setState, secondPhase_tx, h]

lemma committed_heuristic
    (h : s.tx.readOnly = false) (hh : r.commitHbase = retOk) (ht : Heuristic r.commitTse) :
    s.committed early r = (s.secondPhase r).forgetHeurBranches.setState .forgotten := by
  have hne : r.commitTse ≠ xaOk := by
    rintro heq
    rw [heq] at ht
    revert ht
    decide
  have hhelper : s.stateChangeCommitHelper r early = (s.secondPhase r).setState .forgettingHeur := by
    simp [stateChangeCommitHelper, commitBranches, secondPhase, h, hh, hne, ht]
  unfold committed
  rw [hhelper]
  rfl

lemma committed_hung (h : s.tx.readOnly = false)
    (hfailed : r.commitHbase ≠ retOk ∨ r.commitTse ≠ xaOk ∧ ¬ Heuristic r.commitTse) :
    s.committed early r =
      ((s.secondPhase r).setState .hungCommitted).resetTransactionBusy.addHungTimerEvent
        .redriveCommit := by
  have hne : xaerRmerr ≠ xaOk := by decide
  have hhelper : s.stateChangeCommitHelper r early =
      ((s.secondPhase r).setState .hungCommitted).resetTransactionBusy.addHungTimerEvent
        .redriveCommit := by
    by_cases hh : r.commitHbase = retOk
    · obtain ⟨ht, hheur⟩ := hfailed.resolve_left (not_not_intro hh)
      simp [stateChangeCommitHelper, commitBranches, secondPhase, h, hh, ht, hheur]
    · simp [stateChangeCommitHelper, commitBranches, secondPhase, h, hh, hne, not_heuristic_xaerRmerr]
  unfold committed
  rw [hhelper]
  simp [resetTransactionBusy]

lemma Results.commit_cases (r : Results) : r.commitHbase = retOk ∧ r.commitTse = xaOk ∨
      r.commitHbase = retOk ∧ Heuristic r.commitTse ∨
      (r.commitHbase ≠ retOk ∨ r.commitTse ≠ xaOk ∧ ¬ Heuristic r.commitTse) := by
  tauto

lemma committed_log (r : Results) (h : s.tx.readOnly = false) :
    ∃ after, CommitEnd r (s.committed early r).tx after ∧
      (s.committed early r).log = s.log ++ commitRecord s.tx ++
        .commitBranches r.commitHbase r.commitTse :: after := by
  rcases Results.commit_cases r with ⟨hh, ht⟩ | ⟨hh, ht⟩ | hfailed
  · rw [committed_completed early h hh ht]
    refine ⟨_, .completed (if early && s.msg.replyPending then [.reply feOk] else []) hh ht
      ?_ rfl, ?_⟩
    · split <;> simp [Entry.Quiet]
    · have hlog := earlyReply_log early ((s.secondPhase r).setState .forgetting)
      simp [setState, writeTransState, record] at hlog ⊢
      rw [hlog, secondPhase_log, secondPhase_msg]
      simp
  · rw [committed_heuristic early h hh ht]
    refine ⟨_, .heuristic hh ht rfl, ?_⟩
    simp [setState, forgetHeurBranches, writeTransState, record, secondPhase_log]
  · rw [committed_hung early h hfailed]
    refine ⟨_, .hung (hfailed.imp_right And.left) ?_ (addHungTimerEvent_hungEvent _ _), ?_⟩
    · simp [resetTransactionBusy]
    · simp [resetTransactionBusy, setState, secondPhase_log]

@[simp] lemma addHungTimerEvent_msg (s : Session) (r : Redrive) :
    (s.addHungTimerEvent r).msg = s.msg := by
  unfold addHungTimerEvent
  split <;> rfl

lemma committed_not_aborting (r : Results)
    (hflag : s.tx.abortFlags = false) (hmark : s.tx.markForRollback = false) :
    (s.committed early r).tx.isAborting = false := by
  have hmarks : (s.committed early r).tx.abortFlags = s.tx.abortFlags ∧
      (s.committed early r).tx.markForRollback = s.tx.markForRollback := by
    unfold committed stateChangeCommitHelper
    simp only [commitBranches, record, writeTransState, resetTransactionBusy, addHungTimerEvent]
    split_ifs <;> simp_all [setState, Tx.abortFlags, forgetHeurBranches, writeTransState, record]
  rcases committed_ended early r s with h | h <;> simp [Tx.isAborting, h, hmarks, hflag, hmark]

end Session

/-- What holds of a transaction between two requests, whatever requests were made since it
began. -/
structure Tx.Steady (tx : Tx) : Prop where
  resting : tx.state = .active ∨ tx.state = .forgotten ∨ tx.state = .hungCommitted ∨
    tx.state = .hungAborted
  present : tx.state = .active → tx.cleanup = false
  released : tx.state = .forgotten → tx.cleanup = true
  doomed : tx.state = .active → tx.abortFlags = true → tx.markForRollback = true
  unwritten : tx.state = .active → tx.wroteTransState = false

def Request.ForcesRollback (tx : Tx) : Request → Prop
  | .endTransaction pid => pid ≠ tx.enderPid
  | .redriveRollback => True
  | _ => False

inductive Effect (e : Event) (tx tx' : Tx) : List Entry → Prop
  | quiet (l : List Entry) (hquiet : ∀ x ∈ l, x.Quiet) (hstate : tx'.state = tx.state)
      (hevent : tx'.hungEvent = tx.hungEvent) : Effect e tx tx' l
  | rolledBack (before between : List Entry)
      (hfrom : tx.state = .active ∨ e.request.ForcesRollback tx)
      (hbefore : ∀ x ∈ before, x.Quiet) (hbetween : ∀ x ∈ between, x.Quiet)
      (hend : e.results.completeAfterRollback = retOk ∧ tx'.state = .forgotten ∨
        e.results.completeAfterRollback ≠ retOk ∧ tx'.state = .hungAborted ∧
          tx'.hungEvent ≠ none) :
      Effect e tx tx' (before ++
        .rollbackBranches e.results.rollbackHbase e.results.rollbackTse ::
          (between ++ [.completeRequest e.results.completeAfterRollback]))
  | readOnly (l : List Entry) (hfrom : tx.state = .active ∨ e.request = .redriveCommit)
      (hquiet : ∀ x ∈ l, x.Quiet) (hstate : tx'.state = .forgotten)
      (hreadOnly : tx'.readOnly = true) : Effect e tx tx' l
  | committed (before after rest : List Entry)
      (hfrom : tx.state = .active ∨ e.request = .redriveCommit)
      (hbefore : ∀ x ∈ before, x.Quiet) (hafter : CommitEnd e.results tx' after)
      (hrest : ∀ x ∈ rest, x.Quiet) :
      Effect e tx tx' (before ++ Session.commitRecord tx ++
        .commitBranches e.results.commitHbase e.results.commitTse :: (after ++ rest))

/-- The request asks for the rollback of a transaction that hangs in its commit. -/
def Request.Disturbs (tx : Tx) : Request → Prop
  | .abortTransaction | .tseDoomTx | .rollback => tx.state = .hungCommitted
  | _ => False

/-- A transaction that hangs after the request is not given up by it, unless it was disturbed. -/
def Spared (e : Event) (tx tx' : Tx) : Prop :=
  tx'.state = .hungCommitted ∨ tx'.state = .hungAborted → tx'.cleanup = true →
    tx.cleanup = true ∨ e.request.Disturbs tx

namespace Session

/-- The request ends in `s'`, with the effect that its log shows. -/
def Brings (e : Event) (s : Session) (x : Except Session Session) : Prop :=
  ∃ s' l, x = .ok s' ∧ s'.tx.Steady ∧ s'.log = s.log ++ l ∧ Effect e s.tx s'.tx l ∧
    Spared e s.tx s'.tx

variable (early : Bool) (r : Results) {tx : Tx}

variable {s : Session}

lemma steady_terminate
    (h : s.tx.state = .forgotten ∨ s.tx.state = .hungCommitted ∨ s.tx.state = .hungAborted) :
    s.terminate.tx.Steady := by
  have hne : s.terminate.tx.state ≠ .active := by
    change s.tx.state ≠ .active
    rcases h with h | h | h <;> simp [h]
  refine ⟨.inr h, fun h' => absurd h' hne, fun h' => ?_, fun h' => absurd h' hne,
    fun h' => absurd h' hne⟩
  have hforgotten : s.tx.state = .forgotten := h'
  simp [terminate, hforgotten]

lemma spared_terminate {e : Event} {tx : Tx}
    (h : s.tx.cleanup = true → tx.cleanup = true ∨ e.request.Disturbs tx) :
    Spared e tx s.terminate.tx := by
  intro hhung hcleanup
  have hstate : s.tx.state = .hungCommitted ∨ s.tx.state = .hungAborted := hhung
  refine h ?_
  rcases hstate with hstate | hstate <;> simpa [terminate, hstate] using hcleanup

lemma reqForget_ended (h : s.tx.state ≠ .forgettingHeur ∧ s.tx.state ≠ .forgottenHeur) :
    reqForget s = .ok s.terminate := by
  rw [reqForget, if_neg (by tauto)]

variable {e : Event} {s t : Session}

@[simp] lemma addHungTimerEvent_cleanup (s : Session) (r : Redrive) :
    (s.addHungTimerEvent r).tx.cleanup = s.tx.cleanup := by
  unfold addHungTimerEvent
  split <;> rfl

lemma rolledBack_cleanup (r : Results) (s : Session) :
    (s.rolledBack r).tx.cleanup = s.tx.cleanup := by
  unfold rolledBack rollbackBranches
  dsimp only
  split_ifs <;> simp [setState, record, responseError]

lemma committed_cleanup (early : Bool) (r : Results) (s : Session) :
    (s.committed early r).tx.cleanup = s.tx.cleanup := by
  cases h : s.tx.readOnly with
  | true =>
    rw [committed_readOnly early r h]
    change s.answerEnded.tx.cleanup = s.tx.cleanup
    rw [answerEnded_tx]
  | false =>
    have hphase : (s.secondPhase r).tx.cleanup = s.tx.cleanup := by rw [secondPhase_tx]
    rcases Results.commit_cases r with ⟨hh, ht⟩ | ⟨hh, ht⟩ | hfailed
    · rw [committed_completed early h hh ht]
      exact (congrArg Tx.cleanup (earlyReply_tx early _)).trans hphase
    · rw [committed_heuristic early h hh ht]
      exact hphase
    · rw [committed_hung early h hfailed, addHungTimerEvent_cleanup]
      exact hphase

lemma stateChangeAbortSet_cleanup (s : Session) (error : ℤ) :
    (s.stateChangeAbortSet error).tx.cleanup = s.tx.cleanup := by
  rw [stateChangeAbortSet_tx]

lemma stateChangePrepareHelper_cleanup (r : Results) (s : Session) :
    (s.stateChangePrepareHelper r).1.tx.cleanup = s.tx.cleanup := by
  unfold stateChangePrepareHelper
  dsimp only
  split_ifs
  case pos | neg => rfl
  all_goals
    simp only [stateChangeAbortSet_cleanup]
    rfl

lemma ended_cleanup (early : Bool) (r : Results) (s : Session) :
    (s.ended early r).tx.cleanup = s.tx.cleanup := by
  unfold ended
  dsimp only
  split_ifs
  · exact stateChangeAbortSet_cleanup _ _
  · rw [committed_cleanup]
    exact stateChangePrepareHelper_cleanup r _
  · exact stateChangePrepareHelper_cleanup r _
  · exact stateChangeAbortSet_cleanup _ _

lemma brings_rolledBack
    (hfrom : s.tx.state = .active ∨ e.request.ForcesRollback s.tx) (hq : s.Quietly t)
    (hcleanup : t.tx.cleanup = s.tx.cleanup) :
    s.Brings e (reqForget (t.rolledBack e.results)) := by
  obtain ⟨before, hlog, hbef⟩ := hq
  have hend := rolledBack_ended e.results t
  rw [reqForget_ended (by rcases hend with h | h <;> simp [h])]
  refine ⟨_, _, rfl, steady_terminate (hend.imp_right .inr), ?_,
    .rolledBack before t.rollbackReply hfrom hbef ?_ ?_, spared_terminate fun h => ?_⟩
  · exact (rolledBack_log e.results t).trans (by rw [hlog, List.append_assoc])
  · unfold rollbackReply
    split <;> simp [Entry.Quiet]
  · have hst := rolledBack_state e.results t
    split_ifs at hst with hc
    · exact .inl ⟨hc, hst⟩
    · exact .inr ⟨hc, hst, rolledBack_hungEvent e.results t hc⟩
  · rw [rolledBack_cleanup, hcleanup] at h
    exact .inl h

lemma CommitEnd.of_tx {r : Results} {tx tx' : Tx} {l : List Entry} (h : CommitEnd r tx l)
    (hst : tx'.state = tx.state) (hev : tx'.hungEvent = tx.hungEvent) : CommitEnd r tx' l := by
  cases h with
  | completed between hh ht hq h => exact .completed between hh ht hq (hst.trans h)
  | heuristic hh ht h => exact .heuristic hh ht (hst.trans h)
  | hung hf h he => exact .hung hf (hst.trans h) (by rwa [hev])

/-- A commit from the second phase on, the reply and the forgetting after it. -/
theorem brings_committed {early : Bool} {s t u : Session}
    (hfrom : s.tx.state = .active ∨ e.request = .redriveCommit) (hq : s.Quietly t)
    (hwrote : t.tx.wroteTransState = s.tx.wroteTransState)
    (hcleanup : t.tx.cleanup = s.tx.cleanup)
    (hu : (t.committed early e.results).Quietly u) (htx : u.tx = (t.committed early e.results).tx) :
    s.Brings e (reqForget u) := by
  obtain ⟨before, hlog, hbef⟩ := hq
  obtain ⟨rest, hrestlog, hrest⟩ := hu
  have hended := committed_ended early e.results t
  have hst : u.tx.state = (t.committed early e.results).tx.state := congrArg Tx.state htx
  have hev : u.tx.hungEvent = (t.committed early e.results).tx.hungEvent :=
    congrArg Tx.hungEvent htx
  have hstd : u.terminate.tx.Steady :=
    steady_terminate (hst ▸ hended.imp_right .inl)
  have hspared : Spared e s.tx u.terminate.tx := by
    refine spared_terminate fun h => .inl ?_
    rwa [htx, committed_cleanup, hcleanup] at h
  have hrec : commitRecord t.tx = commitRecord s.tx := by
    rw [commitRecord, hwrote, commitRecord]
  rw [reqForget_ended (by rw [hst]; rcases hended with h | h <;> simp [h])]
  cases h : t.tx.readOnly with
  | true =>
    rw [committed_readOnly early e.results h] at hrestlog htx
    obtain ⟨mid, hmidlog, hmid⟩ := quietly_answerEnded t
    refine ⟨_, before ++ mid ++ rest, rfl, hstd, ?_, .readOnly _ hfrom ?_ ?_ ?_, hspared⟩
    · change u.log = _
      rw [hrestlog]
      simp only [setState, hmidlog, hlog, List.append_assoc]
    · simp only [List.forall_mem_append]
      exact ⟨⟨hbef, hmid⟩, hrest⟩
    · exact congrArg Tx.state htx
    · refine (congrArg Tx.readOnly htx).trans ?_
      simp [setState, h]
  | false =>
    obtain ⟨after, hend, hafterlog⟩ := committed_log early e.results h
    refine ⟨_, _, rfl, hstd, ?_,
      .committed before after rest hfrom hbef (CommitEnd.of_tx hend hst hev) hrest, hspared⟩
    change u.log = _
    rw [hrestlog, hafterlog, hlog, hrec]
    simp

lemma ended_cases (s : Session) :
    (s.Quietly (s.ended early r) ∧ (s.ended early r).tx.state = .aborting) ∨
      ∃ t, s.ended early r = t.committed early r ∧ s.Quietly t ∧ s.tx.markForRollback = false ∧
        t.tx = { s.tx with state := .committed, readOnly := r.numRmPartic = 0 } ∧
        t.msg = s.msg := by
  unfold ended
  split
  · exact .inl ⟨quietly_stateChangeAbortSet _ _, by rw [stateChangeAbortSet_tx]⟩
  · rename_i hmark
    split
    · obtain ⟨t, ht⟩ : ∃ t, t = (s.endBranches r).1.setState .preparing := ⟨_, rfl⟩
      have hq : s.Quietly t := ht ▸ (quietly_endBranches s r).trans (.of_log_eq rfl)
      have hprep := quietly_stateChangePrepareHelper t r
      rw [← ht]
      dsimp only
      split
      · rename_i hp
        obtain ⟨heq, hunmarked, -⟩ := prepareHelper_eq_of_continue hp
        refine .inr ⟨_, rfl, (hq.trans hprep).trans (.of_log_eq rfl),
          Bool.eq_false_iff.2 hmark, ?_, ?_⟩
        · rw [heq, ht] at *
          simp only [decided, setState, prepareBranches, endBranches, record] at hunmarked ⊢
          rw [hunmarked, Bool.eq_false_iff.2 hmark]
        · rw [heq, ht]
          rfl
      · rename_i hp
        exact .inl ⟨hq.trans hprep, prepareHelper_aborting (Bool.eq_false_iff.2 hp)⟩
    · exact .inl ⟨(quietly_endBranches s r).trans (quietly_stateChangeAbortSet _ _),
        by rw [stateChangeAbortSet_tx]⟩

/-- What `req_end_complete` makes of the response error of a transaction that aborts. -/
def answerAborted (s : Session) : Session :=
  if s.msg.responseError ≠ feLocked then s.responseError feAbortedTransid else s

@[simp] lemma answerAborted_tx (s : Session) : s.answerAborted.tx = s.tx := by
  unfold answerAborted
  split <;> rfl

@[simp] lemma answerAborted_log (s : Session) : s.answerAborted.log = s.log := by
  unfold answerAborted
  split <;> rfl

/-- The rollback of a transaction that could not be committed is driven by
`req_end_complete`. -/
theorem reqEndComplete_aborting (h : s.tx.state = .aborting) :
    reqEndComplete early r s = .ok (s.answerAborted.rolledBack r) := by
  rw [reqEndComplete, if_pos (by simp [Tx.isAborting, h])]
  change (stateChangeRollback r s.answerAborted).map _ = _
  rw [stateChangeRollback_aborting _ (by rwa [answerAborted_tx])]
  simp [Except.map, rolledBack_not_pending]

lemma reqEndComplete_committed {t : Session}
    (hflag : t.tx.abortFlags = false) (hmark : t.tx.markForRollback = false) :
    reqEndComplete early r (t.committed early r) = .ok (t.committed early r).answerEnded := by
  rw [reqEndComplete, if_neg (by simp [committed_not_aborting early r hflag hmark]),
    stateChangeCommit_ended _ _ (committed_ended early r t)]
  rfl

lemma flags_of_unmarked (h : tx.Steady) (hact : tx.state = .active)
    (hmark : tx.markForRollback = false) : tx.abortFlags = false :=
  Bool.eq_false_iff.2 fun hflag => Bool.eq_false_iff.1 hmark (h.doomed hact hflag)

/-- The part of `req_end` after the first run of the state machine. -/
theorem brings_ended (hact : s.tx.state = .active) (hstd : s.tx.Steady) :
    s.Brings e (reqEndComplete early e.results (s.ended early e.results) >>= reqForget) := by
  rcases ended_cases early e.results s with ⟨hq, hst⟩ | ⟨t, heq, hq, hmark, htx, -⟩
  · rw [reqEndComplete_aborting early e.results hst]
    exact brings_rolledBack (.inl hact) (hq.trans (.of_log_eq (answerAborted_log _)))
      (by rw [answerAborted_tx, ended_cleanup])
  · have hflag := flags_of_unmarked hstd hact hmark
    have hcompl := reqEndComplete_committed early e.results (t := t)
      (by rw [htx]; exact hflag) (by rw [htx]; exact hmark)
    rw [heq, hcompl]
    exact brings_committed (.inl hact) hq (by rw [htx]) (by rw [htx]) (quietly_answerEnded _)
      (answerEnded_tx _)

lemma brings_quiet (hq : s.Quietly t) (htx : t.tx = s.tx)
    (hstd : s.tx.Steady) : s.Brings e (.ok t.resetTransactionBusy) := by
  obtain ⟨l, hlog, hquiet⟩ := hq
  have hst : t.tx.state = s.tx.state := by rw [htx]
  refine ⟨_, l, rfl, ?_, hlog, .quiet l hquiet hst (by change t.tx.hungEvent = _; rw [htx]), ?_⟩
  · change ({ t.tx with transactionBusy := false } : Tx).Steady
    rw [htx]
    exact { hstd with }
  · intro _ hcleanup
    exact .inl (htx ▸ hcleanup)

lemma steady_not_heur (h : tx.Steady) :
    tx.state ≠ .forgettingHeur ∧ tx.state ≠ .forgottenHeur := by
  rcases h.resting with h | h | h | h <;> simp [h]

lemma reply_of_not_pending (h : s.msg.replyPending = false) : s.reply = s := by
  simp [reply, h]

lemma reqAbortComplete_ended (h : s.tx.state = .forgotten ∨ s.tx.state = .hungAborted) :
    reqAbortComplete r s = .ok s.reply := by
  unfold reqAbortComplete
  split
  · rw [stateChangeRollback_ended r h]
    rfl
  · rfl

/-- A request that leaves a transaction that has ended as it is, up to the flags. -/
theorem brings_ended_quiet (hq : s.Quietly t)
    (hst : t.tx.state = s.tx.state) (hev : t.tx.hungEvent = s.tx.hungEvent)
    (hend : s.tx.state = .forgotten ∨ s.tx.state = .hungCommitted ∨ s.tx.state = .hungAborted)
    (hcleanup : t.tx.cleanup = true → s.tx.cleanup = true ∨ e.request.Disturbs s.tx) :
    s.Brings e (reqForget t) := by
  obtain ⟨l, hlog, hquiet⟩ := hq
  have hend' := hend
  rw [← hst] at hend'
  rw [reqForget_ended (by rcases hend' with h | h | h <;> simp [h])]
  exact ⟨_, l, rfl, steady_terminate hend', hlog, .quiet l hquiet hst hev,
    spared_terminate hcleanup⟩

lemma brings_reqEnd (pid : ℕ) (r : Results) (hstd : s.tx.Steady) :
    s.Brings ⟨.endTransaction pid, r⟩ (s.reqEnd early pid r) := by
  unfold reqEnd
  split
  · rename_i hpid
    have hq := quietly_stateChangeAbortSet s feAbortedTransid
    rw [stateChangeRollback_aborting _ (by rw [stateChangeAbortSet_tx])]
    change s.Brings _ (reqAbortComplete r _ >>= reqForget)
    rw [reqAbortComplete_ended r (rolledBack_ended r _), reply_of_not_pending (rolledBack_not_pending r _)]
    exact brings_rolledBack (.inr (Ne.symm hpid)) hq (by rw [stateChangeAbortSet_tx])
  · split
    · rename_i hst
      have hend := hstd.resting.resolve_left fun hact => hst.1 hact
      refine brings_ended_quiet (quietly_replyWith _ _) (by rw [replyWith_tx])
        (by rw [replyWith_tx]) hend fun h => .inl ?_
      rwa [replyWith_tx] at h
    · rename_i hst
      have hact : s.tx.state = .active := by
        rcases hstd.resting with h | h | h | h <;> simp_all
      split
      · exact brings_quiet (quietly_replyWith _ _) (replyWith_tx _ _) hstd
      · rw [stateChangeCommit_active early r hact]
        exact brings_ended early hact hstd

lemma finishRollback_of_ended {results : Results} {t u : Session}
    (hu : rollbackTxn results t = .ok u) (hend : u.tx.state = .forgotten ∨ u.tx.state = .hungAborted) :
    finishRollback results t = reqForget (if u.tx.transactionBusy then u.reply else u) := by
  unfold finishRollback
  rw [hu]
  change (if u.tx.transactionBusy then reqAbortComplete results u >>= reqForget
    else Except.ok u >>= reqForget) = _
  rw [reqAbortComplete_ended _ hend]
  split <;> rfl

/-- A rollback request, after it has set its flags in `t`: an active transaction is rolled back,
any other keeps its state. -/
theorem brings_finishRollback (hstd : s.tx.Steady)
    (hlog : t.log = s.log) (hst : t.tx.state = s.tx.state) (hev : t.tx.hungEvent = s.tx.hungEvent)
    (hcleanup : t.tx.cleanup = s.tx.cleanup)
    (hdisturbs : s.tx.state = .hungCommitted → e.request.Disturbs s.tx) :
    s.Brings e (finishRollback e.results t) := by
  have hq : s.Quietly t := .of_log_eq hlog
  have hkept (h : s.tx.state = .forgotten ∨ s.tx.state = .hungAborted) :
      s.Brings e (finishRollback e.results t) := by
    have hend : t.tx.state = .forgotten ∨ t.tx.state = .hungAborted := by rwa [hst]
    have hacc : mayRollback t.tx.state = true := by rcases hend with h | h <;> rw [h] <;> rfl
    have htxn : rollbackTxn e.results t = .ok t := by
      rw [rollbackTxn, if_pos hacc, stateChangeRollback_ended _ hend]
    rw [finishRollback_of_ended htxn hend]
    refine brings_ended_quiet ?_ ?_ ?_ (h.imp_right .inr) fun h' => .inl ?_
    · split
      · exact hq.trans (quietly_reply t)
      · exact hq
    · split <;> simpa using hst
    · split <;> simpa using hev
    · rw [← hcleanup]
      split at h' <;> simpa using h'
  rcases hstd.resting with h | h | h | h
  · have hact : t.tx.state = .active := hst.trans h
    have htxn : rollbackTxn e.results t =
        .ok ((t.endBranches e.results).1.rolledBack e.results) := by
      rw [rollbackTxn, if_pos (by rw [hact]; rfl), stateChangeRollback_active _ hact]
    rw [finishRollback_of_ended htxn (rolledBack_ended _ _),
      reply_of_not_pending (rolledBack_not_pending _ _), ite_self]
    exact brings_rolledBack (.inl h) (hq.trans (quietly_endBranches t e.results)) hcleanup
  · exact hkept (.inl h)
  · have hhung := hst.trans h
    obtain ⟨u, hu⟩ : ∃ u, u = if t.msg.replyPending then
        t.replyWith (if t.tx.isAborting then feAbortedTransid else feEndedTransid) else t := ⟨_, rfl⟩
    have heq : finishRollback e.results t = reqForget u.resetTransactionBusy.incCleanup := by
      unfold finishRollback
      rw [rollbackTxn, if_neg (by rw [hhung]; decide), ← hu]
      rfl
    have htx : u.tx = t.tx := by
      rw [hu]
      split <;> simp
    rw [heq]
    refine brings_ended_quiet ?_ ((congrArg Tx.state htx).trans hst) ((congrArg Tx.hungEvent htx).trans hev)
      (.inr (.inl h)) fun _ => .inr (hdisturbs h)
    refine Quietly.trans (hq.trans ?_) (.of_log_eq rfl)
    rw [hu]
    split
    · exact quietly_replyWith _ _
    · exact .refl _
  · exact hkept (.inr h)

lemma brings_redriverollbackTxn (s : Session) :
    s.Brings ⟨.redriveRollback, r⟩ (s.redriverollbackTxn r) := by
  unfold redriverollbackTxn
  rw [stateChangeRollback_abortingPart2 r rfl]
  exact brings_rolledBack (.inr trivial) (.of_log_eq rfl) rfl

lemma brings_redrivecommitTxn (s : Session) :
    s.Brings ⟨.redriveCommit, r⟩ (s.redrivecommitTxn early r) := by
  unfold redrivecommitTxn
  rw [stateChangeCommit_committed early r rfl]
  exact brings_committed (.inr rfl) (t := s.cancelHungEvent.setState .committed) (.of_log_eq rfl)
    rfl rfl (.refl _) rfl

lemma brings_doomTxn (hstd : s.tx.Steady) : s.Brings ⟨.doomTx, r⟩ (.ok s.doomTxn) := by
  unfold doomTxn
  split
  · refine ⟨_, [], rfl, ⟨hstd.resting, hstd.present, hstd.released, fun _ _ => rfl,
      hstd.unwritten⟩, by simp, .quiet [] (by simp) rfl rfl, fun _ => .inl⟩
  · exact ⟨_, [], rfl, hstd, by simp, .quiet [] (by simp) rfl rfl, fun _ => .inl⟩

lemma brings_process (e : Event) (hstd : s.tx.Steady) :
    s.Brings e (e.request.process early e.results s) := by
  obtain ⟨request, r⟩ := e
  cases request with
  | endTransaction pid => exact brings_reqEnd early pid r hstd
  | doomTx => exact brings_doomTxn r hstd
  | redriveRollback => exact brings_redriverollbackTxn r s
  | redriveCommit => exact brings_redrivecommitTxn early r s
  | _ => exact brings_finishRollback hstd rfl rfl rfl rfl id

end Session

namespace Manager

lemma step_effect (early : Bool) (e : Event) {m : Manager} (hstd : m.tx.Steady)
    (hrun : m.running = true) : (m.step early e).tx.Steady ∧ (m.step early e).running = true ∧
      ∃ l, (m.step early e).log = m.log ++ l ∧ Effect e m.tx (m.step early e).tx l ∧
        Spared e m.tx (m.step early e).tx := by
  obtain ⟨s', l, heq, hstd', hlog, heff, hspared⟩ :=
    Session.brings_process early e (s := ⟨m.tx, ⟨e.request.awaited, feOk⟩, m.log⟩) hstd
  simp only [step, hrun, heq, if_true]
  split_ifs
  · exact ⟨hstd, rfl, _, rfl, .quiet _ (by simp [Entry.Quiet]) rfl rfl, fun _ => .inl⟩
  · exact ⟨hstd, rfl, _, rfl, .quiet _ (by simp) rfl rfl, fun _ => .inl⟩
  · exact ⟨hstd', rfl, l, hlog, heff, hspared⟩

lemma steady_begun (enderPid numActivePartic : ℕ) : (begun enderPid numActivePartic).tx.Steady :=
  ⟨.inl rfl, fun _ => rfl, nofun,
    fun _ h => absurd h (by simp [begun, Tx.begun, Tx.abortFlags]), fun _ => rfl⟩

lemma run_steady (early : Bool) (enderPid numActivePartic : ℕ) (l : List Event) :
    (run early (begun enderPid numActivePartic) l).tx.Steady ∧
      (run early (begun enderPid numActivePartic) l).running = true :=
  Runs.run_invariant (I := fun m : Manager => m.tx.Steady ∧ m.running = true)
    (fun _ e h => let h' := step_effect early e h.1 h.2; ⟨h'.1, h'.2.1⟩)
    ⟨steady_begun _ _, rfl⟩ l

end Manager
end Trafodion.Dtm
