import Trafodion.DtmRequests

/-!
# The decision of the transaction manager

Once the COMMITTED record of a transaction is issued it must not be rolled back, and once it is
rolled back it must not be committed. The states of the transaction keep the two sides apart, but
ENDTRANSACTION from a process that is not the ender and the redrives set the state whatever it
was. A transaction is forgotten when its second phase is over, but some results of the second
phase are dropped.
-/
namespace Trafodion.Dtm

open List

def Entry.isRollback : Entry → Bool
  | .rollbackBranches _ _ => true
  | _ => false

def Entry.isCommit : Entry → Bool
  | .commitBranches _ _ => true
  | .transState .committed => true
  | _ => false

/-- The later entry `y` does not go back on the earlier entry `x`. -/
def Compatible (x y : Entry) : Prop :=
  (x = .transState .committed → y.isRollback = false) ∧
    (x.isRollback = true → y.isCommit = false)

instance (x y : Entry) : Decidable (Compatible x y) := inferInstanceAs (Decidable (_ ∧ _))

variable (log : List Entry)

def Final : Prop := log.Pairwise Compatible

instance (log : List Entry) : Decidable (Final log) :=
  inferInstanceAs (Decidable (log.Pairwise Compatible))

def RollbackFree : Prop := ∀ x ∈ log, x.isRollback = false

attribute [local simp] RollbackFree

def CommitFree : Prop := ∀ x ∈ log, x.isCommit = false

lemma rollbackFree_append {l m : List Entry} :
    RollbackFree (l ++ m) ↔ RollbackFree l ∧ RollbackFree m := forall_mem_append

lemma commitFree_append {l m : List Entry} :
    CommitFree (l ++ m) ↔ CommitFree l ∧ CommitFree m := forall_mem_append

variable {l : List Entry} {x : Entry}

lemma rollbackFree_cons :
    RollbackFree (x :: l) ↔ x.isRollback = false ∧ RollbackFree l := forall_mem_cons

lemma commitFree_cons :
    CommitFree (x :: l) ↔ x.isCommit = false ∧ CommitFree l := forall_mem_cons

lemma Entry.Quiet.not_rollback (h : x.Quiet) : x.isRollback = false := by
  cases x <;> simp_all [Quiet, isRollback]

lemma Entry.Quiet.not_commit (h : x.Quiet) : x.isCommit = false := by
  cases x <;> simp_all [Quiet, isCommit]

lemma rollbackFree_of_quiet (h : ∀ x ∈ l, x.Quiet) : RollbackFree l :=
  fun x hx => (h x hx).not_rollback

lemma commitFree_of_quiet (h : ∀ x ∈ l, x.Quiet) : CommitFree l :=
  fun x hx => (h x hx).not_commit

lemma final_of_free {log : List Entry} (h : RollbackFree log ∨ CommitFree log) : Final log := by
  refine pairwise_iff_forall_sublist.2 fun {x y} hxy => ?_
  have hx : x ∈ log := hxy.subset (by simp)
  have hy : y ∈ log := hxy.subset (by simp)
  rcases h with h | h
  · exact ⟨fun _ => h y hy, fun hr => absurd hr (by simp [h x hx])⟩
  · refine ⟨?_, fun _ => h y hy⟩
    rintro rfl
    exact absurd (h _ hx) (by simp [Entry.isCommit])

lemma CommitEnd.rollbackFree {r : Results} {tx' : Tx} (h : CommitEnd r tx' l) :
    RollbackFree l := by
  cases h with
  | completed between _ _ hquiet _ =>
    rw [rollbackFree_append]
    exact ⟨rollbackFree_of_quiet hquiet, by simp [Entry.isRollback]⟩
  | heuristic _ _ _ => simp [Entry.isRollback]
  | hung _ _ _ => simp

lemma CommitEnd.state {r : Results} {tx' : Tx} (h : CommitEnd r tx' l) :
    tx'.state = .forgotten ∨ tx'.state = .hungCommitted := by
  cases h with
  | completed _ _ _ _ h => exact .inl h
  | heuristic _ _ h => exact .inl h
  | hung _ h _ => exact .inr h

namespace Manager

def Timely (m : Manager) (e : Event) : Prop :=
  match e.request with
  | .endTransaction pid =>
    pid = m.tx.enderPid ∨ m.tx.state = .active ∨ m.tx.state = .hungAborted
  | .redriveRollback => m.tx.state = .active ∨ m.tx.state = .hungAborted
  | .redriveCommit => m.tx.state = .active ∨ m.tx.state = .hungCommitted
  | _ => True

instance (m : Manager) (e : Event) : Decidable (m.Timely e) := by
  unfold Timely
  split <;> infer_instance

structure Decided (m : Manager) : Prop where
  steady : m.tx.Steady
  running : m.running = true
  exclusive : RollbackFree m.log ∨ CommitFree m.log
  rollbackFree : m.tx.state = .active ∨ m.tx.state = .hungCommitted → RollbackFree m.log
  commitFree : m.tx.state = .active ∨ m.tx.state = .hungAborted → CommitFree m.log

variable {m : Manager} {e : Event}

lemma Timely.of_forcesRollback (h : m.Timely e) (hforces : e.request.ForcesRollback m.tx) :
    m.tx.state = .active ∨ m.tx.state = .hungAborted := by
  obtain ⟨request, results⟩ := e
  cases request with
  | endTransaction pid => exact h.resolve_left hforces
  | redriveRollback => exact h
  | _ => exact hforces.elim

lemma Timely.of_redriveCommit (h : m.Timely e)
    (heq : e.request = .redriveCommit) : m.tx.state = .active ∨ m.tx.state = .hungCommitted := by
  obtain ⟨request, results⟩ := e
  subst heq
  exact h

lemma Decided.step (early : Bool) {m : Manager} {e : Event} (h : m.Decided)
    (htimely : m.Timely e) : (m.step early e).Decided := by
  obtain ⟨hstd, hrun, l, hlog, heff, -⟩ := step_effect early e h.steady h.running
  cases heff with
  | quiet l hquiet hst hev =>
    have hr := rollbackFree_of_quiet hquiet
    have hc := commitFree_of_quiet hquiet
    refine ⟨hstd, hrun, ?_, ?_, ?_⟩
    · rw [hlog, rollbackFree_append, commitFree_append]
      exact h.exclusive.imp (⟨·, hr⟩) (⟨·, hc⟩)
    · intro hs
      rw [hst] at hs
      rw [hlog, rollbackFree_append]
      exact ⟨h.rollbackFree hs, hr⟩
    · intro hs
      rw [hst] at hs
      rw [hlog, commitFree_append]
      exact ⟨h.commitFree hs, hc⟩
  | rolledBack before between hfrom hbef hbtw hend =>
    have hold : CommitFree m.log := h.commitFree (hfrom.elim .inl htimely.of_forcesRollback)
    have hnew : CommitFree (m.step early e).log := by
      rw [hlog]
      simp only [commitFree_append, commitFree_cons]
      exact ⟨hold, commitFree_of_quiet hbef, rfl, commitFree_of_quiet hbtw, by
        simp [CommitFree, Entry.isCommit]⟩
    refine ⟨hstd, hrun, .inr hnew, fun hs => ?_, fun _ => hnew⟩
    rcases hend with ⟨_, hend⟩ | ⟨_, hend, _⟩ <;> simp [hend] at hs
  | readOnly l hfrom hquiet hst _ =>
    have hold := h.rollbackFree (hfrom.elim .inl htimely.of_redriveCommit)
    have hnew : RollbackFree (m.step early e).log := by
      rw [hlog, rollbackFree_append]
      exact ⟨hold, rollbackFree_of_quiet hquiet⟩
    exact ⟨hstd, hrun, .inl hnew, fun _ => hnew, fun hs => by simp [hst] at hs⟩
  | committed before after rest hfrom hbef haft hrest =>
    have hold := h.rollbackFree (hfrom.elim .inl htimely.of_redriveCommit)
    have hrec : RollbackFree (Session.commitRecord m.tx) := by
      unfold Session.commitRecord
      split <;> simp [Entry.isRollback]
    have hnew : RollbackFree (m.step early e).log := by
      rw [hlog]
      simp only [rollbackFree_append, rollbackFree_cons]
      exact ⟨hold, ⟨rollbackFree_of_quiet hbef, hrec⟩, rfl, haft.rollbackFree,
        rollbackFree_of_quiet hrest⟩
    refine ⟨hstd, hrun, .inl hnew, fun _ => hnew, fun hs => ?_⟩
    rcases haft.state with hst | hst <;> simp [hst] at hs

lemma decided_begun (enderPid numActivePartic : ℕ) : (begun enderPid numActivePartic).Decided :=
  ⟨steady_begun _ _, rfl, .inl (by simp [begun]),
    fun _ => by simp [begun], fun _ => by simp [CommitFree, begun]⟩

/-- The decision is final in every run in which the redrives and ENDTRANSACTION from other
processes than the ender come in time. -/
theorem decision_final (early : Bool) (enderPid numActivePartic : ℕ) (l : List Event)
    (h : Runs.Guarded (step early) Timely (begun enderPid numActivePartic) l) :
    Final (run early (begun enderPid numActivePartic) l).log :=
  final_of_free (h.invariant (fun _ _ hI hG => Decided.step early hI hG)
    (decided_begun enderPid numActivePartic)).exclusive

/-- A commit that hangs and is redriven, and a late ABORTTRANSACTION. -/
theorem decision_final_of_hung_commit :
    Final (run false (begun 1 1)
      [⟨.endTransaction 1, { commitTse := -7 }⟩, ⟨.abortTransaction, {}⟩,
        ⟨.redriveCommit, {}⟩]).log :=
  decision_final false 1 1 _ (by decide)

/-- The commit hangs; then another process than the ender ends the transaction, which is rolled
back although its COMMITTED record was written. -/
theorem hung_commit_rolled_back : ¬ Final (run false (begun 1 1)
      [⟨.endTransaction 1, { commitTse := -7 }⟩, ⟨.endTransaction 2, {}⟩]).log := by
  decide

end Manager

/-! ### Forgetting -/

def Entry.Failed : Entry → Prop
  | .commitBranches hbase tse => hbase ≠ retOk ∨ tse ≠ xaOk
  | .rollbackBranches hbase tse => hbase ≠ retOk ∨ tse ≠ xaOk
  | .completeRequest error => error ≠ retOk
  | _ => False

attribute [local simp] Entry.Failed

instance : DecidablePred Entry.Failed
  | .commitBranches _ _ => inferInstanceAs (Decidable (_ ∨ _))
  | .rollbackBranches _ _ => inferInstanceAs (Decidable (_ ∨ _))
  | .completeRequest _ => inferInstanceAs (Decidable (_ ≠ _))
  | .endBranches _ | .prepareBranches _ | .forgetHeurBranches | .transState _ | .reply _ =>
    inferInstanceAs (Decidable False)

structure Completed (l : List Entry) : Prop where
  called : ∃ hbase tse, .commitBranches hbase tse ∈ l ∨ .rollbackBranches hbase tse ∈ l
  waited : ∃ error, .completeRequest error ∈ l
  succeeded : ∀ x ∈ l, ¬ x.Failed

/-- A request that adds `l` to the log forgets the transaction only when it has completed the
second phase, and leaves it hung when a call of the second phase fails. -/
structure ForgetsFinished (tx tx' : Tx) (l : List Entry) : Prop where
  forgotten : tx'.state = .forgotten →
    tx.state = .forgotten ∨ tx'.readOnly = true ∨ Completed l
  recorded : .transState .forgotten ∈ l → Completed l
  hung : (∃ x ∈ l, x.Failed) →
    (tx'.state = .hungCommitted ∨ tx'.state = .hungAborted) ∧ tx'.hungEvent ≠ none

def Results.Heeded (r : Results) : Prop :=
  r.rollbackHbase = retOk ∧ r.rollbackTse = xaOk ∧ r.completeAfterCommit = retOk ∧
    ¬ (r.commitHbase = retOk ∧ Heuristic r.commitTse)

instance (r : Results) : Decidable r.Heeded := inferInstanceAs (Decidable (_ ∧ _))

lemma Entry.Quiet.not_failed (h : x.Quiet) : ¬ x.Failed := by
  cases x <;> simp_all [Quiet, Failed]

lemma Entry.Quiet.ne_forgotten (h : x.Quiet) : x ≠ .transState .forgotten := by
  rintro rfl
  exact h

lemma not_failed_of_quiet (h : ∀ x ∈ l, x.Quiet) : ∀ x ∈ l, ¬ x.Failed :=
  fun x hx => (h x hx).not_failed

variable {tx tx' : Tx}

lemma forgetsFinished_of_quiet (h : ∀ x ∈ l, x.Quiet)
    (hforg : tx'.state = .forgotten → tx.state = .forgotten ∨ tx'.readOnly = true) :
    ForgetsFinished tx tx' l where
  forgotten h' := (hforg h').imp_right .inl
  recorded h' := absurd rfl (h _ h').ne_forgotten
  hung := fun ⟨x, hx, hfailed⟩ => absurd hfailed (h x hx).not_failed

lemma forgetsFinished_of_hung (hst : tx'.state = .hungCommitted ∨ tx'.state = .hungAborted)
    (hev : tx'.hungEvent ≠ none) (hl : .transState .forgotten ∉ l) :
    ForgetsFinished tx tx' l where
  forgotten h := by rcases hst with h' | h' <;> simp [h'] at h
  recorded h := absurd h hl
  hung _ := ⟨hst, hev⟩

lemma forgetsFinished_of_completed (h : Completed l) :
    ForgetsFinished tx tx' l where
  forgotten _ := .inr (.inr h)
  recorded _ := h
  hung := fun ⟨x, hx, hfailed⟩ => absurd hfailed (h.succeeded x hx)

lemma Effect.forgetsFinished {e : Event}
    (h : Effect e tx tx' l) (hheeded : e.results.Heeded) : ForgetsFinished tx tx' l := by
  obtain ⟨hhbase, htse, hcompl, hheur⟩ := hheeded
  cases h with
  | quiet l hquiet hst _ => exact forgetsFinished_of_quiet hquiet fun h => .inl (hst ▸ h)
  | readOnly l _ hquiet _ hreadOnly => exact forgetsFinished_of_quiet hquiet fun _ => .inr hreadOnly
  | rolledBack before between _ hbef hbtw hend =>
    rcases hend with ⟨hc, hst⟩ | ⟨hc, hst, hev⟩
    · refine forgetsFinished_of_completed
        ⟨⟨e.results.rollbackHbase, e.results.rollbackTse, .inr (by simp)⟩,
          ⟨e.results.completeAfterRollback, by simp⟩, ?_⟩
      · have h₁ := not_failed_of_quiet hbef
        have h₂ := not_failed_of_quiet hbtw
        simp only [forall_mem_append, forall_mem_cons, hhbase, htse, hc]
        exact ⟨h₁, by simp, h₂, by simp⟩
    · refine forgetsFinished_of_hung (.inr hst) hev fun hmem => ?_
      simp only [mem_append, mem_cons, not_mem_nil, reduceCtorEq, or_false, false_or] at hmem
      exact hmem.elim (fun h => (hbef _ h).ne_forgotten rfl)
        fun h => (hbtw _ h).ne_forgotten rfl
  | committed before after rest _ hbef haft hrest =>
    have hrec : ∀ x ∈ Session.commitRecord tx, ¬ x.Failed ∧ x ≠ .transState .forgotten := by
      unfold Session.commitRecord
      split <;> simp
    cases haft with
    | completed between hh ht hbtw hst =>
      refine forgetsFinished_of_completed
        ⟨⟨e.results.commitHbase, e.results.commitTse, .inl (by simp)⟩,
          ⟨e.results.completeAfterCommit, by simp⟩, ?_⟩
      · have h₁ := not_failed_of_quiet hbef
        have h₂ := not_failed_of_quiet hbtw
        have h₃ := not_failed_of_quiet hrest
        simp only [forall_mem_append, forall_mem_cons, hh, ht, hcompl]
        exact ⟨⟨h₁, fun x hx => (hrec x hx).1⟩, by simp, ⟨h₂, by simp⟩, h₃⟩
    | heuristic hh ht _ => exact absurd ⟨hh, ht⟩ hheur
    | hung hfailed hst hev =>
      refine forgetsFinished_of_hung (.inl hst) hev fun hmem => ?_
      simp only [mem_append, mem_cons, not_mem_nil, reduceCtorEq, false_or] at hmem
      rcases hmem with (h | h) | h
      · exact (hbef _ h).ne_forgotten rfl
      · exact (hrec _ h).2 rfl
      · exact (hrest _ h).ne_forgotten rfl

namespace Manager

/-- After any run, a request whose unheeded results are good forgets only a finished
transaction. -/
theorem forgets_finished (early : Bool) (enderPid numActivePartic : ℕ) (l : List Event)
    (e : Event) (h : e.results.Heeded) : ∃ entries,
      (run early (begun enderPid numActivePartic) (l ++ [e])).log =
        (run early (begun enderPid numActivePartic) l).log ++ entries ∧
      ForgetsFinished (run early (begun enderPid numActivePartic) l).tx
        (run early (begun enderPid numActivePartic) (l ++ [e])).tx entries := by
  obtain ⟨hsteady, hrunning⟩ := run_steady early enderPid numActivePartic l
  obtain ⟨-, -, entries, hlog, heffect, -⟩ := step_effect early e hsteady hrunning
  have hrun : run early (begun enderPid numActivePartic) (l ++ [e]) =
      (run early (begun enderPid numActivePartic) l).step early e := Runs.run_snoc _ _ _ _
  rw [hrun]
  exact ⟨entries, hlog, heffect.forgetsFinished h⟩

/-- A commit that is redriven after the resource managers failed once. -/
theorem redriven_commit_forgets_finished :
    ∃ entries,
      (run false (begun 1 1) ([⟨.endTransaction 1, { commitTse := -7 }⟩] ++
        [⟨.redriveCommit, {}⟩])).log =
        (run false (begun 1 1) [⟨.endTransaction 1, { commitTse := -7 }⟩]).log ++ entries ∧
      ForgetsFinished (run false (begun 1 1) [⟨.endTransaction 1, { commitTse := -7 }⟩]).tx
        (run false (begun 1 1) ([⟨.endTransaction 1, { commitTse := -7 }⟩] ++
          [⟨.redriveCommit, {}⟩])).tx entries :=
  forgets_finished false 1 1 _ ⟨.redriveCommit, {}⟩ (by decide)

/-- The completion of the commit fails; the transaction is forgotten all the same, and no redrive
is scheduled. -/
theorem failed_completion_forgotten :
    let m := run false (begun 1 1) [⟨.endTransaction 1, { completeAfterCommit := 1 }⟩]
    (∃ x ∈ m.log, x.Failed) ∧ .transState .forgotten ∈ m.log ∧ m.tx.state = .forgotten ∧
      m.tx.readOnly = false ∧ m.tx.hungEvent = none := by
  decide

end Manager

/-- A hung transaction is to be redriven. -/
def Tx.Scheduled (tx : Tx) : Prop :=
  tx.state = .hungCommitted ∨ tx.state = .hungAborted → tx.hungEvent ≠ none

lemma Effect.scheduled {e : Event} (h : Effect e tx tx' l) (htx : tx.Scheduled) : tx'.Scheduled := by
  intro hhung
  cases h with
  | quiet _ _ hstate hevent => exact hevent ▸ htx (hstate ▸ hhung)
  | rolledBack _ _ _ _ _ hend =>
    rcases hend with ⟨-, hstate⟩ | ⟨-, -, hevent⟩
    · simp [hstate] at hhung
    · exact hevent
  | readOnly _ _ _ hstate _ => simp [hstate] at hhung
  | committed _ _ _ _ _ hafter _ =>
    cases hafter with
    | completed _ _ _ _ hstate | heuristic _ _ hstate => simp [hstate] at hhung
    | hung _ _ hevent => exact hevent

namespace Manager

/-- The request does not ask for the rollback of a transaction that hangs in its commit. -/
def Considerate (m : Manager) (e : Event) : Prop := ¬ e.request.Disturbs m.tx

instance (m : Manager) (e : Event) : Decidable (m.Considerate e) := by
  unfold Considerate Request.Disturbs
  split <;> infer_instance

/-- A transaction that hangs is still there. -/
def Held (m : Manager) : Prop :=
  m.tx.state = .hungCommitted ∨ m.tx.state = .hungAborted → m.tx.cleanup = false

lemma run_scheduled (early : Bool) (enderPid numActivePartic : ℕ) (l : List Event) :
    (run early (begun enderPid numActivePartic) l).tx.Scheduled := by
  -- what a request does is known for a steady transaction only, so both are carried along the run
  refine (Runs.run_invariant (I := fun m : Manager => m.tx.Scheduled ∧ m.tx.Steady ∧ m.running)
    (fun m e h => ?_) ⟨fun h => by cases h <;> contradiction, steady_begun _ _, rfl⟩ l).1
  obtain ⟨hsteady, hrunning, _, -, heffect, -⟩ := step_effect early e h.2.1 h.2.2
  exact ⟨heffect.scheduled h.1, hsteady, hrunning⟩

lemma run_held (early : Bool) (enderPid numActivePartic : ℕ) {l : List Event}
    (h : Runs.Guarded (step early) Considerate (begun enderPid numActivePartic) l) :
    (run early (begun enderPid numActivePartic) l).Held := by
  refine (h.invariant (I := fun m : Manager => m.Held ∧ m.tx.Steady ∧ m.running)
    (fun m e hm hconsiderate => ?_) ⟨fun _ => rfl, steady_begun _ _, rfl⟩).1
  obtain ⟨hsteady, hrunning, _, -, heffect, hspared⟩ := step_effect early e hm.2.1 hm.2.2
  refine ⟨fun hhung => ?_, hsteady, hrunning⟩
  by_contra hcleanup
  rcases hspared hhung (by simpa using hcleanup) with hgone | hdisturbs
  · -- an object that is being given back refuses the request and stays as it is
    have hsame : (m.step early e).tx = m.tx := by simp [step, hm.2.2, hgone]
    rw [hsame] at hhung
    exact absurd hgone (by simp [hm.1 hhung])
  · exact hconsiderate hdisturbs

-- ABORTTRANSACTION gives up the object of a commit that hangs, and its redrive is refused
example : let m := run false (begun 1 1) [⟨.endTransaction 1, { commitTse := -7 }⟩,
      ⟨.abortTransaction, {}⟩, ⟨.redriveCommit, {}⟩]
    m.tx.state = .hungCommitted ∧ m.tx.hungEvent = some .redriveCommit ∧ m.tx.cleanup = true := by
  decide

end Manager

end Trafodion.Dtm
