import Trafodion.Runs
import Mathlib.Data.List.Infix

/-!
# Completion of the second phase at the client

`doCommit` and `abort` of the transaction manager send one request per participating
region to a pool of threads and then call `completeSendInvoke` with the number sent.
Every pool thread answers with `requestPendingCountDec`, and the caller waits in
`completeRequest`. The two locks of `TransactionState` make each synchronized block one
atomic step, so a run is a list of such steps; a `notify` moves the waiting caller on.
-/
namespace Trafodion.PhaseTwoReplies

open List Runs

/-- Where the thread that calls `completeRequest` stands. -/
inductive Caller
  | outside
  | waitsForSend
  | sendDone
  | waitsForReplies
  | repliesIn
  | returned
  | threwCommitUnsuccessful
  deriving DecidableEq, Repr

/-- The part of the client's `TransactionState` that counts requests, with the one
thread that waits on it. -/
structure TransactionState where
  requestPendingCount : ℕ
  requestReceivedCount : ℕ
  commitSendDone : Bool
  hasError : Bool
  caller : Caller
  deriving DecidableEq, Repr

/-- The constructor of `TransactionState`. -/
def fresh : TransactionState := ⟨0, 0, false, false, .outside⟩

namespace TransactionState

variable (s : TransactionState)

def requestAllComplete : Bool :=
  if s.commitSendDone ≠ true then false
  else decide (s.requestPendingCount = s.requestReceivedCount)

/-- `commitSendLock.notify()`. -/
def notifySend : TransactionState :=
  if s.caller = .waitsForSend then { s with caller := .sendDone } else s

/-- `countLock.notify()`. -/
def notifyCount : TransactionState :=
  if s.caller = .waitsForReplies then { s with caller := .repliesIn } else s

/-- `requestPendingCount(count)`, the first block of `completeSendInvoke`. -/
def recordPendingCount (count : ℕ) (s : TransactionState) : TransactionState :=
  { s with hasError := false, requestPendingCount := count }

/-- The second block of `completeSendInvoke`. -/
def recordSendDone : TransactionState :=
  notifySend { s with commitSendDone := true }

def requestPendingCountDec (wakeUp : Bool) (s : TransactionState) : TransactionState :=
  let s := { s with requestReceivedCount := s.requestReceivedCount + 1 }
  if s.requestReceivedCount = s.requestPendingCount ∨ wakeUp = true then
    notifyCount (if wakeUp = true then { s with hasError := true } else s)
  else s

/-- One step of the thread in `completeRequest`: its two synchronized blocks and the test
of `hasError` that follows them. A waiting thread does not move by itself. -/
def completeRequest : TransactionState :=
  match s.caller with
  | .outside =>
    { s with caller := if s.commitSendDone = false then .waitsForSend else .sendDone }
  | .sendDone =>
    { s with caller :=
        if s.requestPendingCount > s.requestReceivedCount then .waitsForReplies
        else .repliesIn }
  | .repliesIn =>
    { s with caller := if s.hasError = true then .threwCommitUnsuccessful else .returned }
  | .waitsForSend | .waitsForReplies | .returned | .threwCommitUnsuccessful => s

end TransactionState
open TransactionState

inductive Event
  | requestPendingCount (count : ℕ)
  | commitSendDone
  | requestPendingCountDec (wakeUp : Bool)
  | completeRequest
  deriving DecidableEq, Repr

def step (s : TransactionState) : Event → TransactionState
  | .requestPendingCount count => s.recordPendingCount count
  | .commitSendDone => s.recordSendDone
  | .requestPendingCountDec wakeUp => s.requestPendingCountDec wakeUp
  | .completeRequest => s.completeRequest

/-- The two steps of `completeSendInvoke`. -/
def Event.isSend : Event → Bool
  | .requestPendingCount _ | .commitSendDone => true
  | .requestPendingCountDec _ | .completeRequest => false

def Event.isReply : Event → Bool
  | .requestPendingCountDec _ => true
  | .requestPendingCount _ | .commitSendDone | .completeRequest => false

attribute [local simp] Event.isReply

/-- The run has one call `completeSendInvoke(n)`, `n` replies, and steps of the caller at
any positions between them. -/
structure Interleaving (n : ℕ) (l : List Event) : Prop where
  sends : l.filter Event.isSend = [.requestPendingCount n, .commitSendDone]
  replies : l.countP Event.isReply = n

structure Partial (n : ℕ) (p : List Event) : Prop where
  sends : p.filter Event.isSend <+: [.requestPendingCount n, .commitSendDone]
  replies : p.countP Event.isReply ≤ n

variable {n : ℕ}

lemma Interleaving.partial_prefix {l p : List Event} (h : Interleaving n l)
    (hp : p <+: l) : Partial n p := by
  obtain ⟨m, rfl⟩ := hp
  refine ⟨⟨m.filter Event.isSend, ?_⟩, ?_⟩
  · rw [← filter_append, h.sends]
  · rw [← h.replies, countP_append]
    omega

variable (p : List Event)

lemma Partial.init (e : Event) (h : Partial n (p ++ [e])) : Partial n p := by
  obtain ⟨hs, hr⟩ := h
  rw [filter_append] at hs
  rw [countP_append] at hr
  exact ⟨(prefix_append _ _).trans hs, by omega⟩

/-- Whether a reply with `wakeUp` arrived after the count was last recorded. -/
def errorSinceCount : Bool :=
  p.foldl (fun b e => match e with
    | .requestPendingCount _ => false
    | .requestPendingCountDec wakeUp => b || wakeUp
    | _ => b) false

def CallerSound (n : ℕ) (s : TransactionState) : Prop :=
  match s.caller with
  | .outside => True
  | .waitsForSend => s.commitSendDone = false
  | .sendDone => s.commitSendDone = true
  | .waitsForReplies => s.commitSendDone = true ∧ s.requestReceivedCount < n
  | .repliesIn => s.commitSendDone = true ∧ (s.requestReceivedCount = n ∨ s.hasError = true)
  | .returned => s.commitSendDone = true ∧ s.requestReceivedCount = n ∧ s.hasError = false
  | .threwCommitUnsuccessful => s.commitSendDone = true ∧ s.hasError = true

attribute [local simp] CallerSound

/-- The counters after the steps `p`, whatever their order. -/
structure Sound (n : ℕ) (p : List Event) (s : TransactionState) : Prop where
  received : s.requestReceivedCount = p.countP Event.isReply
  pending : s.requestPendingCount = if p.filter Event.isSend = [] then 0 else n
  sendDone : s.commitSendDone = true ↔ Event.commitSendDone ∈ p
  hasError : s.hasError = errorSinceCount p
  caller : CallerSound n s

lemma sound_fresh (n : ℕ) : Sound n [] fresh :=
  ⟨rfl, rfl, by simp [fresh], rfl, trivial⟩

lemma errorSinceCount_snoc (e : Event) :
    errorSinceCount (p ++ [e]) = match e with
      | .requestPendingCount _ => false
      | .requestPendingCountDec wakeUp => errorSinceCount p || wakeUp
      | _ => errorSinceCount p := by
  simp only [errorSinceCount, foldl_append, foldl_cons, foldl_nil]

attribute [local simp] errorSinceCount_snoc

variable {p : List Event}

lemma Partial.of_requestPendingCount {n count : ℕ}
    (h : Partial n (p ++ [.requestPendingCount count])) :
    count = n ∧ p.filter Event.isSend = [] := by
  have hs := h.sends
  rw [filter_append] at hs
  change p.filter Event.isSend ++ [.requestPendingCount count] <+: _ at hs
  rcases hp : p.filter Event.isSend with _ | ⟨a, _ | ⟨b, q⟩⟩
  · simpa [hp] using hs
  · simp [hp] at hs
  · simp [hp] at hs

lemma Partial.of_commitSendDone (h : Partial n (p ++ [.commitSendDone])) :
    p.filter Event.isSend = [.requestPendingCount n] := by
  have hs := h.sends
  rw [filter_append] at hs
  change p.filter Event.isSend ++ [.commitSendDone] <+: _ at hs
  rcases hp : p.filter Event.isSend with _ | ⟨a, _ | ⟨b, q⟩⟩
  · simp [hp] at hs
  · simpa [hp] using hs
  · simp [hp] at hs

lemma commitSendDone_mem_filter (h : Event.commitSendDone ∈ p) :
    Event.commitSendDone ∈ p.filter Event.isSend :=
  mem_filter.2 ⟨h, rfl⟩

variable {s : TransactionState}

/-- While the send is not done, the caller has not gone past its first block. -/
theorem CallerSound.before_send (h : CallerSound n s)
    (hs : s.commitSendDone = false) : s.caller = .outside ∨ s.caller = .waitsForSend := by
  unfold CallerSound at h
  split at h <;> simp_all

attribute [local simp] recordPendingCount

lemma Sound.not_sendDone (h : Sound n p s) (hsends : .commitSendDone ∉ p.filter Event.isSend) :
    s.commitSendDone = false := by
  have hmem : .commitSendDone ∉ p := fun hm => hsends (commitSendDone_mem_filter hm)
  simpa [hmem] using h.sendDone

lemma sound_recordPendingCount {n count : ℕ}
    (hp : Partial n (p ++ [.requestPendingCount count])) (h : Sound n p s) :
    Sound n (p ++ [.requestPendingCount count]) (s.recordPendingCount count) := by
  obtain ⟨rfl, hsends⟩ := hp.of_requestPendingCount
  have hdone := h.not_sendDone (by simp [hsends])
  refine ⟨?_, ?_, ?_, ?_, ?_⟩
  · simpa using h.received
  · simp [Event.isSend]
  · simpa using h.sendDone
  · simp
  · rcases h.caller.before_send hdone with hc | hc <;>
      simp [hc, hdone]

lemma sound_recordSendDone (hp : Partial n (p ++ [.commitSendDone])) (h : Sound n p s) :
    Sound n (p ++ [.commitSendDone]) s.recordSendDone := by
  have hsends := hp.of_commitSendDone
  have hdone := h.not_sendDone (by simp [hsends])
  have hpend : s.requestPendingCount = n := by simpa [hsends] using h.pending
  have hrcv := h.received
  have herror := h.hasError
  rcases h.caller.before_send hdone with hc | hc <;>
    refine ⟨?_, ?_, ?_, ?_, ?_⟩ <;>
    simp [recordSendDone, notifySend, hc, hpend, hrcv, herror, Event.isSend]

lemma Sound.pending_of_sendDone
    (h : Sound n p s) (hs : s.commitSendDone = true) : s.requestPendingCount = n := by
  have hmem := commitSendDone_mem_filter (h.sendDone.1 hs)
  rw [h.pending, if_neg (ne_nil_of_mem hmem)]

lemma requestPendingCountDec_counters (wakeUp : Bool) (s : TransactionState) :
    (s.requestPendingCountDec wakeUp).requestReceivedCount = s.requestReceivedCount + 1 ∧
    (s.requestPendingCountDec wakeUp).requestPendingCount = s.requestPendingCount ∧
    (s.requestPendingCountDec wakeUp).commitSendDone = s.commitSendDone ∧
    (s.requestPendingCountDec wakeUp).hasError = (s.hasError || wakeUp) := by
  cases wakeUp <;> simp only [requestPendingCountDec, notifyCount] <;> split_ifs <;> simp_all

lemma callerSound_requestPendingCountDec {wakeUp : Bool}
    (h : CallerSound n s) (hrcv : s.requestReceivedCount + 1 ≤ n)
    (hpend : s.commitSendDone = true → s.requestPendingCount = n) :
    CallerSound n (s.requestPendingCountDec wakeUp) := by
  unfold CallerSound at h
  cases hc : s.caller <;> simp only [hc] at h
  case waitsForReplies =>
    have hn := hpend h.1
    cases wakeUp <;> simp only [requestPendingCountDec, notifyCount, hn] <;> split_ifs <;>
      simp_all
    omega
  case repliesIn =>
    have he : s.hasError = true := h.2.resolve_left (by omega)
    cases wakeUp <;> simp only [requestPendingCountDec, notifyCount] <;> split_ifs <;>
      simp_all
  case returned => omega
  all_goals
    cases wakeUp <;> simp only [requestPendingCountDec, notifyCount] <;> split_ifs <;>
      simp_all

lemma sound_requestPendingCountDec {wakeUp : Bool}
    (hp : Partial n (p ++ [.requestPendingCountDec wakeUp])) (h : Sound n p s) :
    Sound n (p ++ [.requestPendingCountDec wakeUp]) (s.requestPendingCountDec wakeUp) := by
  obtain ⟨hrcv, hpend, hdone, herror⟩ := requestPendingCountDec_counters wakeUp s
  have hle : s.requestReceivedCount + 1 ≤ n := by
    rw [h.received]
    simpa using hp.replies
  refine ⟨?_, ?_, ?_, ?_, ?_⟩
  · simp [hrcv, h.received]
  · simp [hpend, h.pending, Event.isSend]
  · simp [hdone, h.sendDone]
  · simp [herror, h.hasError]
  · exact callerSound_requestPendingCountDec h.caller hle h.pending_of_sendDone

attribute [local simp] completeRequest

lemma completeRequest_counters (s : TransactionState) :
    s.completeRequest = { s with caller := s.completeRequest.caller } := by
  cases hc : s.caller <;> simp [hc]
  all_goals exact congrArg (TransactionState.mk _ _ _ _) hc

lemma callerSound_completeRequest (h : CallerSound n s) (hrcv : s.requestReceivedCount ≤ n)
    (hpend : s.commitSendDone = true → s.requestPendingCount = n) :
    CallerSound n s.completeRequest := by
  unfold CallerSound at h
  cases hc : s.caller <;> simp only [hc] at h
  case outside =>
    cases hd : s.commitSendDone <;> simp [hc, hd]
  case sendDone =>
    have hn := hpend h
    by_cases hr : s.requestReceivedCount < n
    · simp [hc, hn, h, hr]
    · simp [hc, hn, h, hr]
      omega
  case repliesIn =>
    cases he : s.hasError <;> simp_all
  all_goals simp_all

lemma sound_completeRequest (hp : Partial n (p ++ [.completeRequest])) (h : Sound n p s) :
    Sound n (p ++ [.completeRequest]) s.completeRequest := by
  have hle : s.requestReceivedCount ≤ n := by
    rw [h.received]
    simpa using hp.replies
  have hcaller := callerSound_completeRequest h.caller hle h.pending_of_sendDone
  rw [completeRequest_counters] at hcaller ⊢
  refine ⟨?_, ?_, ?_, ?_, hcaller⟩
  · simp [h.received]
  · simp [h.pending, Event.isSend]
  · simp [h.sendDone]
  · simp [h.hasError]

lemma sound_run (hp : Partial n p) : Sound n p (run step fresh p) := by
  refine run_trace_invariant Partial.init (sound_fresh n) ?_ hp
  intro q e s hq h
  cases e with
  | requestPendingCount count => exact sound_recordPendingCount hq h
  | commitSendDone => exact sound_recordSendDone hq h
  | requestPendingCountDec wakeUp => exact sound_requestPendingCountDec hq h
  | completeRequest => exact sound_completeRequest hq h

lemma requestAllComplete_iff (hp : Partial n p) : (run step fresh p).requestAllComplete = true ↔
      Event.commitSendDone ∈ p ∧ p.countP Event.isReply = n := by
  have h := sound_run hp
  rw [← h.sendDone, ← h.received]
  cases hd : (run step fresh p).commitSendDone with
  | false => simp [requestAllComplete, hd]
  | true => simp [requestAllComplete, hd, h.pending_of_sendDone hd, eq_comm]

lemma run_completeRequest_of_over
    (h : s.caller = .returned ∨ s.caller = .threwCommitUnsuccessful) (k : ℕ) :
    run step s (replicate k .completeRequest) = s := by
  induction k with
  | zero => rfl
  | succ k ih =>
    have hs : step s .completeRequest = s := by
      rcases h with h | h <;> simp [step, h]
    rw [replicate_succ, run_cons, hs, ih]

/-- When the send is done and all replies are in, the caller needs at most three more
steps, and what it then reports is the error flag. -/
theorem caller_of_all_replies {n k : ℕ} (h : CallerSound n s)
    (hd : s.commitSendDone = true) (hpend : s.requestPendingCount = n)
    (hrcv : s.requestReceivedCount = n) (hk : 3 ≤ k) :
    (run step s (replicate k .completeRequest)).caller =
      if s.hasError = true then .threwCommitUnsuccessful else .returned := by
  obtain ⟨j, rfl⟩ := Nat.exists_eq_add_of_le hk
  have three : (run step s (replicate 3 .completeRequest)).caller =
      if s.hasError = true then .threwCommitUnsuccessful else .returned := by
    cases hc : s.caller <;> cases he : s.hasError <;>
      simp_all [replicate, step]
  rw [← replicate_append_replicate, run_append, run_completeRequest_of_over _ j, three]
  rw [three]
  split_ifs
  · exact Or.inr rfl
  · exact Or.inl rfl

lemma errorSinceCount_eq_mem (a : List Event) {b : List Event}
    (hb : ∀ count, Event.requestPendingCount count ∉ b) :
    errorSinceCount (a ++ .requestPendingCount n :: b) =
      decide (Event.requestPendingCountDec true ∈ b) := by
  induction b using reverseRecOn with
  | nil => simp
  | append_singleton b e ih =>
    have hb' : ∀ count, Event.requestPendingCount count ∉ b := fun count hm =>
      hb count (mem_append_left _ hm)
    rw [← cons_append, ← append_assoc, errorSinceCount_snoc, ih hb']
    cases e with
    | requestPendingCount count => exact absurd (by simp) (hb count)
    | commitSendDone => simp
    | completeRequest => simp
    | requestPendingCountDec wakeUp => cases wakeUp <;> simp

/-- What is promised of a run in which all `n` replies have arrived: once the thread in
`completeRequest` gets to run, it returns if no reply had `wakeUp` set and throws if one
had; and at every point `requestAllComplete` tells whether everything has been sent and
answered. -/
def Reports (n : ℕ) (l : List Event) : Prop :=
  (∀ k, 3 ≤ k → (run step fresh (l ++ replicate k .completeRequest)).caller =
    if Event.requestPendingCountDec true ∈ l then .threwCommitUnsuccessful else .returned) ∧
  ∀ p, p <+: l → ((run step fresh p).requestAllComplete = true ↔
    Event.commitSendDone ∈ p ∧ p.countP Event.isReply = n)

lemma Interleaving.split {l : List Event} (h : Interleaving n l) :
    ∃ a b, l = a ++ .requestPendingCount n :: b ∧ (∀ count, Event.requestPendingCount count ∉ a) ∧
      ∀ count, Event.requestPendingCount count ∉ b := by
  obtain ⟨a, b, hl, ha, -, hb⟩ := filter_eq_cons_iff.1 h.sends
  refine ⟨a, b, hl, fun count hm => ha _ hm rfl, fun count hm => ?_⟩
  have hmem : Event.requestPendingCount count ∈ b.filter Event.isSend :=
    mem_filter.2 ⟨hm, rfl⟩
  simp [hb] at hmem

/-- `completeSendInvoke` resets the error flag, so a run is reported faithfully exactly
when an error that came before the count was recorded is followed by another one. -/
theorem reports_iff_error_not_lost (n : ℕ) (l : List Event) (h : Interleaving n l) :
    Reports n l ↔ ∀ a b, l = a ++ .requestPendingCount n :: b →
      Event.requestPendingCountDec true ∈ a → Event.requestPendingCountDec true ∈ b := by
  obtain ⟨a, b, rfl, ha, hb⟩ := h.split
  have hsound := sound_run (h.partial_prefix (prefix_refl _))
  have hdone : Event.commitSendDone ∈ a ++ .requestPendingCount n :: b := by
    have : Event.commitSendDone ∈ (a ++ .requestPendingCount n :: b).filter Event.isSend := by
      rw [h.sends]
      simp
    exact (mem_filter.1 this).1
  have hsend := hsound.sendDone.2 hdone
  have hcaller : ∀ k, 3 ≤ k → (run step fresh (a ++ .requestPendingCount n :: b ++
      replicate k .completeRequest)).caller =
      if Event.requestPendingCountDec true ∈ b then .threwCommitUnsuccessful
      else .returned := by
    intro k hk
    rw [run_append, caller_of_all_replies hsound.caller hsend
      (hsound.pending_of_sendDone hsend) (hsound.received.trans h.replies) hk,
      hsound.hasError, errorSinceCount_eq_mem a hb]
    simp only [decide_eq_true_eq]
  constructor
  · rintro ⟨hreport, -⟩ a' b' hl hearly
    obtain ⟨rfl, -, rfl⟩ := (append_cons_inj_of_notMem (ha n) (hb n)).1 hl
    have hthrew := (hcaller 3 le_rfl).symm.trans (hreport 3 le_rfl)
    rw [if_pos (mem_append_left _ hearly)] at hthrew
    by_contra hlate
    simp [hlate] at hthrew
  · intro hlate
    refine ⟨fun k hk => ?_, fun p hp => requestAllComplete_iff (h.partial_prefix hp)⟩
    rw [hcaller k hk]
    have hiff : Event.requestPendingCountDec true ∈ a ++ .requestPendingCount n :: b ↔
        Event.requestPendingCountDec true ∈ b := by
      simpa using hlate a b rfl
    simp only [hiff]

/-- One error reply before the count and one after it. -/
theorem reports_late_error : Reports 2 [.requestPendingCountDec true, .requestPendingCount 2,
      .requestPendingCountDec true, .commitSendDone] := by
  refine (reports_iff_error_not_lost 2 _ ⟨by decide, by decide⟩).2 fun a b hl _ => ?_
  obtain ⟨-, -, rfl⟩ := (append_cons_inj_of_notMem (by decide) (by decide)).1
    (show [Event.requestPendingCountDec true] ++ .requestPendingCount 2 ::
      [.requestPendingCountDec true, .commitSendDone] = a ++ .requestPendingCount 2 :: b from hl)
  decide

/-- The reply of the only region arrives with an error before `completeSendInvoke`, and
`completeRequest` returns normally. -/
theorem early_error_lost :
    Interleaving 1 [.requestPendingCountDec true, .requestPendingCount 1, .commitSendDone] ∧
    ¬ Reports 1 [.requestPendingCountDec true, .requestPendingCount 1, .commitSendDone] := by
  refine ⟨⟨by decide, by decide⟩, fun h => ?_⟩
  have := h.1 3 le_rfl
  revert this
  decide

end Trafodion.PhaseTwoReplies
