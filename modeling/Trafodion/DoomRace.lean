import Trafodion.DtmTransaction

/-!
# A doom beside an end

`doom_txn` runs in the main thread while the transaction's own thread may be in `state_change` with
`TX_COMMIT`. They share `iv_tx_state` and `iv_mark_for_rollback`, without a lock; a step here is one read or write
of these. The results of the branches are those of the request.
-/
namespace Trafodion.Dtm.DoomRace

open List Session

/-- What `doom_txn` does next: compare the state, which it reads anew each time, with those that may still be
doomed, set the mark, or nothing. -/
inductive Doomer
  | compare (states : List TxState)
  | mark
  | returned (error : ℤ)
  deriving DecidableEq, Repr

/-- What `state_change` does next. -/
inductive Ender
  | readMark | endBranches | readMarkAgain | setPreparing | prepareBranches | readMarkPrepared
  | setCommitting | numPartic | setCommitted | writeRecord | commitBranches | setAborting | out | done
  deriving DecidableEq, Repr

structure State where
  txState : TxState := .active
  markForRollback : Bool := false
  doomer : Doomer := .compare [.notx, .beginning, .active, .preparing]
  ender : Ender := .readMark
  log : List Entry := []
  deriving DecidableEq, Repr

def feNoTransid : ℤ := 75

def State.doomed (s : State) : State := { s with markForRollback := true, doomer := .returned feOk }

def doomStep (s : State) : State :=
  match s.doomer with
  | .compare [] => { s with doomer := .returned feNoTransid }
  | .compare (state :: states) =>
    { s with doomer := if s.txState = state then .mark else .compare states }
  | .mark => s.doomed
  | .returned _ => s

section
variable (r : Results)

variable (s : State)

def endStep : State :=
  match s.ender with
  | .readMark => { s with ender := if s.markForRollback then .readMarkAgain else .endBranches }
  | .endBranches => { s with ender := .readMarkAgain, log := s.log ++ [.endBranches r.endTse] }
  | .readMarkAgain =>
    { s with ender := if r.endTse = xaOk ∧ s.markForRollback = false then .setPreparing else .setAborting }
  | .setPreparing => { s with txState := .preparing, ender := .prepareBranches }
  | .prepareBranches =>
    let error := prepareResult r.prepareHbase r.prepareTse
    { s with markForRollback := s.markForRollback || r.prepareMarks || (error ≠ xaOk && error ≠ xaRdonly : Bool)
             ender := .readMarkPrepared
             log := s.log ++ [.prepareBranches error] }
  | .readMarkPrepared =>
    let error := prepareResult r.prepareHbase r.prepareTse
    { s with ender := if s.markForRollback = false ∧ (error = xaRdonly ∨ error = xaOk) then .setCommitting
                      else .setAborting }
  | .setCommitting => { s with txState := .committing, ender := .numPartic }
  -- without participants the transaction is read-only, and neither a record nor a branch call follows
  | .numPartic =>
    if r.numRmPartic = 0 then { s with txState := .committed, ender := .out }
    else { s with ender := .setCommitted }
  | .setCommitted => { s with txState := .committed, ender := .writeRecord }
  | .writeRecord => { s with ender := .commitBranches, log := s.log ++ [.transState .committed] }
  | .commitBranches => { s with ender := .done, log := s.log ++ [.commitBranches r.commitHbase r.commitTse] }
  | .setAborting => { s with txState := .aborting, ender := .out }
  | .out | .done => s

inductive Turn
  | doomer | ender
  deriving DecidableEq, Repr

def step : Turn → State
  | .doomer => doomStep s
  | .ender => endStep r s

abbrev run (s : State) (turns : List Turn) : State := Runs.run (step r) s turns

def Commits : Prop :=
  .transState .committed ∈ s.log ∨ .commitBranches r.commitHbase r.commitTse ∈ s.log

/-- The transaction's thread has read the mark for the last time and goes on to the second phase. -/
def Ender.Decided : Ender → Prop
  | .setCommitting | .numPartic => r.numRmPartic ≠ 0
  | .setCommitted | .writeRecord | .commitBranches | .done => True
  | _ => False

variable {r} {s : State}

@[simp] lemma doomStep_ender (s : State) : (doomStep s).ender = s.ender := by
  unfold doomStep
  split <;> rfl

@[simp] lemma doomStep_log (s : State) : (doomStep s).log = s.log := by
  unfold doomStep
  split <;> rfl

variable (turn : Turn)

lemma decided_step (h : s.ender.Decided r) : (step r s turn).ender.Decided r := by
  cases turn with
  | doomer => simpa [step] using h
  | ender => cases he : s.ender <;> simp_all [step, endStep, Ender.Decided]

lemma decided_run (h : s.ender.Decided r) (turns : List Turn) : (run r s turns).ender.Decided r :=
  Runs.run_invariant (I := fun t : State => t.ender.Decided r) (fun _ turn => decided_step turn) h turns

/-- Nothing that commits is logged before the decision, and all of it at the end. -/
def Logged (r : Results) (s : State) : Prop :=
  (Commits r s → s.ender.Decided r) ∧ (s.ender = .done → Commits r s)

lemma logged_step (h : Logged r s) : Logged r (step r s turn) := by
  unfold Logged Commits at *
  cases turn with
  | doomer => simpa [step] using h
  | ender =>
    cases he : s.ender <;> simp_all [step, endStep, Ender.Decided] <;> split <;> simp_all

lemma logged_run (marked : Bool) (turns : List Turn) : Logged r (run r { markForRollback := marked } turns) :=
  Runs.run_invariant (fun _ turn => logged_step turn) (by simp [Logged, Commits]) turns

lemma commits_of_decided (h : s.ender.Decided r) (hlog : Logged r s) :
    Commits r (run r s (replicate 5 .ender)) := by
  have hdone := hlog.2
  unfold Commits at *
  cases he : s.ender <;> simp_all [Ender.Decided, replicate, Runs.run, step, endStep]

lemma marked_step (h : s.markForRollback = true ∧ ¬ s.ender.Decided r) :
    (step r s turn).markForRollback = true ∧ ¬ (step r s turn).ender.Decided r := by
  cases turn with
  | doomer =>
    refine ⟨?_, by simpa [step] using h.2⟩
    rw [step, doomStep]
    split <;> simp [State.doomed, h.1]
  | ender => cases he : s.ender <;> simp_all [step, endStep, Ender.Decided]

@[simp] lemma endStep_doomer (s : State) : (endStep r s).doomer = s.doomer := by
  unfold endStep
  split <;> (try split) <;> rfl

lemma returned_step (h : s.doomer = .returned feOk) :
    (step r s turn).doomer = .returned feOk := by
  cases turn <;> simp [step, doomStep, h]

lemma mark_of_returned {turn : Turn} (h : (step r s turn).doomer = .returned feOk)
    (hs : s.doomer ≠ .returned feOk) : turn = .doomer ∧ s.doomer = .mark := by
  cases turn with
  | ender => exact absurd (by simpa [step] using h) hs
  | doomer =>
    refine ⟨rfl, ?_⟩
    rw [step, doomStep] at h
    split at h
    · simp [feNoTransid, feOk] at h
    · simp only at h
      split at h <;> cases h
    · assumption
    · exact absurd h hs

/-- A doom that returned `FEOK` has set the mark at one of its turns. -/
theorem exists_mark {turns : List Turn} (h : (run r s turns).doomer = .returned feOk)
    (hs : s.doomer ≠ .returned feOk) :
    ∃ pre post, turns = pre ++ .doomer :: post ∧ (run r s pre).doomer = .mark := by
  induction turns generalizing s with
  | nil => exact absurd h hs
  | cons turn turns ih =>
    by_cases hret : (step r s turn).doomer = .returned feOk
    · obtain ⟨rfl, hmark⟩ := mark_of_returned hret hs
      exact ⟨[], turns, rfl, hmark⟩
    · obtain ⟨pre, post, rfl, hmark⟩ := ih h hret
      exact ⟨turn :: pre, post, rfl, hmark⟩

lemma run_mark (pre post : List Turn) (hmark : (run r s pre).doomer = .mark) :
    run r s (pre ++ .doomer :: post) = run r (run r s pre).doomed post := by
  rw [run, Runs.run_append, Runs.run_cons, step, doomStep, hmark]

end

/-- **A doom that returns `FEOK`** keeps the transaction from ever committing, under every schedule of the two
threads, exactly if the transaction was not decided when the mark was set. -/
theorem doom_promise_iff (r : Results) (marked : Bool) (turns : List Turn) :
    ((run r { markForRollback := marked } turns).doomer = .returned feOk →
      ∀ later, ¬ Commits r (run r { markForRollback := marked } (turns ++ later))) ↔
    ∀ pre post, turns = pre ++ .doomer :: post →
      (run r { markForRollback := marked } pre).doomer = .mark →
      ¬ (run r { markForRollback := marked } pre).ender.Decided r := by
  constructor
  · rintro h pre post rfl hmark hdec
    have hret := run_mark pre post hmark
    refine h ?_ (replicate 5 .ender) ?_
    · rw [hret]
      exact Runs.run_invariant (I := fun t : State => t.doomer = .returned feOk)
        (fun _ turn => returned_step turn) (s := State.doomed _) rfl post
    · rw [run, Runs.run_append]
      refine commits_of_decided ?_ (logged_run marked _)
      rw [show Runs.run (step r) _ _ = _ from hret]
      exact decided_run (s := State.doomed _) hdec post
  · intro h hret later hcommits
    obtain ⟨pre, post, rfl, hmark⟩ := exists_mark hret (by simp)
    have hdec := (logged_run marked _).1 hcommits
    rw [append_assoc, cons_append, run_mark _ _ hmark] at hdec
    exact (Runs.run_invariant (I := fun t : State => t.markForRollback = true ∧ ¬ t.ender.Decided r)
      (fun _ turn => marked_step turn) (s := State.doomed _) ⟨rfl, h pre post rfl hmark⟩
      (post ++ later)).2 hdec

/-- The doom finds the transaction active and sets its mark when the other thread has read it for the last time. -/
theorem doomed_transaction_commits :
    let s := run {} {} (replicate 3 .doomer ++ replicate 6 .ender ++ [.doomer] ++ replicate 5 .ender)
    s.doomer = .returned feOk ∧ s.markForRollback = true ∧
      s.log = [.endBranches 0, .prepareBranches 0, .transState .committed, .commitBranches 0 0] := by
  decide

end Trafodion.Dtm.DoomRace
