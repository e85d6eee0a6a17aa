import Trafodion.TwoPhaseCommit

/-!
# The votes of a transaction

`prepareCommit` takes the replies of the regions in the order in which they complete. A conflict takes
precedence over other refusals, and read-only regions are left out of the second phase. `tryCommit`
goes on by the result, and has no branch for a conflict.
-/
namespace Trafodion.TwoPhaseCommit

open List ClientState Region

variable {ρ : Type*} [DecidableEq ρ]

namespace ClientState

def joined (regions : List ρ) : ClientState ρ := { new with participatingRegions := regions }

/-- The replies of the regions in `order`, each with the vote of the region. -/
def collect (votes : ρ → Vote) (order : List ρ) (ts : ClientState ρ) : ClientState ρ :=
  order.foldl (fun ts p => ts.doPrepareX p (.vote (votes p))) ts

end ClientState

/-- How `tryCommit` ends: the regions that `doCommit` has sent a commit to, and the number of requests
that `completeSendInvoke` is told, or an exception. -/
inductive TryCommitEnd (ρ : Type*)
  | returned (contacted : List ρ) (sent : Option ℕ)
  | threw
  deriving DecidableEq

/-- `tryCommit`, from the result of `prepareCommit` on. -/
def ClientState.tryCommit (ts : ClientState ρ) : TryCommitEnd ρ :=
  match ts.prepareCommit with
  | some .commitOk => .returned ts.secondPhaseRegions (some ts.secondPhaseRegions.length)
  | some .commitOkReadOnly => .returned [] (some 0)
  | some .commitUnsuccessful => .threw
  | some .commitConflict => .returned [] none
  | none => .threw

/-- What the votes come to: a conflict, else a refusal, else a read-only transaction if all regions
were only read. -/
def aggregate (votes : List Vote) : Vote :=
  if .commitConflict ∈ votes then .commitConflict
  else if .commitUnsuccessful ∈ votes then .commitUnsuccessful
  else if ∀ v ∈ votes, v = .commitOkReadOnly then .commitOkReadOnly
  else .commitOk

/-- The votes are aggregated, and a transaction that is committed had only votes to commit, and is
committed at the regions that have something to commit. -/
def VotesHonoured (regions : List ρ) (votes : ρ → Vote) (order : List ρ) : Prop :=
  let ts := (joined regions).collect votes order
  ts.prepareCommit = some (aggregate (regions.map votes)) ∧
    ∀ contacted sent, ts.tryCommit = .returned contacted sent →
      (∀ p ∈ regions, votes p = .commitOk ∨ votes p = .commitOkReadOnly) ∧
        contacted = regions.filter fun p => votes p = .commitOk

/-- What `doPrepareX` returns for a vote. -/
def prepareResult : Vote → PrepareResult
  | .commitOk => .commitTrue
  | .commitOkReadOnly => .commitReadOnly
  | .commitConflict => .commitFalseConflict
  | .commitUnsuccessful => .commitFalse

namespace ClientState

variable {votes : ρ → Vote} {order regions : List ρ} {ts : ClientState ρ}

lemma mem_addRegionToIgnore (p q : ρ) (ts : ClientState ρ) :
    q ∈ (ts.addRegionToIgnore p).regionsToIgnore ↔ q = p ∨ q ∈ ts.regionsToIgnore := by
  unfold addRegionToIgnore
  split_ifs with h
  · constructor
    · exact .inr
    · rintro (rfl | hq)
      · exact h
      · exact hq
  · simp [or_comm]

lemma addRegionToIgnore_frame (p : ρ) (ts : ClientState ρ) :
    (ts.addRegionToIgnore p).prepared = ts.prepared ∧
      (ts.addRegionToIgnore p).participatingRegions = ts.participatingRegions := by
  unfold addRegionToIgnore
  split_ifs <;> exact ⟨rfl, rfl⟩

lemma doPrepareX_vote (p : ρ) (v : Vote) (ts : ClientState ρ) :
    (ts.doPrepareX p (.vote v)).prepared = ts.prepared ++ [prepareResult v] ∧
      (ts.doPrepareX p (.vote v)).participatingRegions = ts.participatingRegions ∧
      ∀ q, q ∈ (ts.doPrepareX p (.vote v)).regionsToIgnore ↔
        (q = p ∧ v ≠ .commitOk) ∨ q ∈ ts.regionsToIgnore := by
  obtain ⟨hprep, hregions⟩ := addRegionToIgnore_frame p ts
  cases v with
  | commitOk => exact ⟨rfl, rfl, fun q => by simp [doPrepareX]⟩
  | commitOkReadOnly | commitConflict | commitUnsuccessful =>
    refine ⟨?_, hregions, fun q => ?_⟩
    · simp only [doPrepareX, hprep]
      rfl
    · simp only [doPrepareX, mem_addRegionToIgnore]
      simp

lemma collect_votes (votes : ρ → Vote) (order : List ρ) (ts : ClientState ρ) :
    (ts.collect votes order).prepared = ts.prepared ++ order.map (prepareResult ∘ votes) ∧
      (ts.collect votes order).participatingRegions = ts.participatingRegions ∧
      ∀ q, q ∈ (ts.collect votes order).regionsToIgnore ↔
        (q ∈ order ∧ votes q ≠ .commitOk) ∨ q ∈ ts.regionsToIgnore := by
  induction order generalizing ts with
  | nil => exact ⟨(append_nil _).symm, rfl, fun q => by simp [collect]⟩
  | cons p order ih =>
    obtain ⟨hprep, hregions, hignore⟩ := doPrepareX_vote p (votes p) ts
    obtain ⟨hprep', hregions', hignore'⟩ := ih (ts.doPrepareX p (.vote (votes p)))
    refine ⟨?_, hregions'.trans hregions, fun q => ?_⟩
    · refine hprep'.trans ?_
      rw [hprep, append_assoc]
      rfl
    · refine (hignore' q).trans ?_
      rw [hignore q, mem_cons]
      constructor
      · rintro (⟨hq, hv⟩ | ⟨rfl, hv⟩ | hq)
        · exact .inl ⟨.inr hq, hv⟩
        · exact .inl ⟨.inl rfl, hv⟩
        · exact .inr hq
      · rintro (⟨rfl | hq, hv⟩ | hq)
        · exact .inr (.inl ⟨rfl, hv⟩)
        · exact .inl ⟨hq, hv⟩
        · exact .inr (.inr hq)

/-- The loop of `prepareCommit` does not depend on the order of the answers. -/
theorem commitError_eq (ans : List PrepareResult) : commitError ans =
      if .commitFalseConflict ∈ ans then some .commitConflict
      else if .commitFalse ∈ ans then some .commitUnsuccessful else none := by
  induction ans using reverseRecOn with
  | nil => rfl
  | append_singleton ans answer ih =>
    cases answer with
    | commitFalse =>
      have hsnoc : commitError (ans ++ [.commitFalse]) =
          if commitError ans = some .commitConflict then commitError ans
          else some .commitUnsuccessful := by
        rw [commitError, foldl_append]
        rfl
      rw [hsnoc, ih]
      by_cases hconf : .commitFalseConflict ∈ ans
      · simp [hconf]
      · by_cases hfls : .commitFalse ∈ ans <;> simp [hconf, hfls]
    | commitFalseConflict => simp [commitError]
    | commitTrue | commitReadOnly | exception =>
      rw [commitError, foldl_append]
      exact ih.trans (by simp)

omit [DecidableEq ρ] in
lemma mem_prepared_iff {v : Vote} (votes : ρ → Vote) (order : List ρ) :
    prepareResult v ∈ order.map (prepareResult ∘ votes) ↔ v ∈ order.map votes := by
  have hinjective : Function.Injective prepareResult := by
    intro v v' h
    cases v <;> cases v' <;> first | rfl | cases h
  rw [← map_map]
  exact mem_map_of_injective hinjective

omit [DecidableEq ρ] in
lemma exception_notMem (votes : ρ → Vote) (order : List ρ) :
    .exception ∉ order.map (prepareResult ∘ votes) := by
  intro hmem
  obtain ⟨p, -, hp⟩ := mem_map.1 hmem
  cases hv : votes p <;> simp [hv, prepareResult] at hp

lemma prepareCommit_collect (hord : order.Perm regions) :
    ((joined regions).collect votes order).prepareCommit = some (aggregate (regions.map votes)) := by
  obtain ⟨hprep, -, -⟩ := collect_votes votes order (joined regions)
  have hlist : ((joined regions).collect votes order).prepared =
      order.map (prepareResult ∘ votes) := hprep
  have hmem : ∀ v, prepareResult v ∈ order.map (prepareResult ∘ votes) ↔ v ∈ regions.map votes :=
    fun v => (mem_prepared_iff votes order).trans (hord.map votes).mem_iff
  have hconf := hmem .commitConflict
  have hfls := hmem .commitUnsuccessful
  have htrue := hmem .commitOk
  simp only [prepareResult] at hconf hfls htrue
  rw [prepareCommit, hlist, if_neg (exception_notMem votes order), commitError_eq, aggregate]
  simp only [hconf, hfls, htrue]
  by_cases hc : .commitConflict ∈ regions.map votes
  · rw [if_pos hc, if_pos hc]
  · by_cases hf : .commitUnsuccessful ∈ regions.map votes
    · rw [if_neg hc, if_neg hc, if_pos hf, if_pos hf]
    · rw [if_neg hc, if_neg hc, if_neg hf, if_neg hf]
      by_cases hok : .commitOk ∈ regions.map votes
      · have hnot : ¬ ∀ v ∈ regions.map votes, v = Vote.commitOkReadOnly := by
          intro hall
          cases hall _ hok
        rw [if_neg hnot]
        simp only [if_pos hok]
      · have hall : ∀ v ∈ regions.map votes, v = Vote.commitOkReadOnly := by
          intro v hv
          cases v with
          | commitOk => exact absurd hv hok
          | commitOkReadOnly => rfl
          | commitUnsuccessful => exact absurd hv hf
          | commitConflict => exact absurd hv hc
        rw [if_pos hall]
        simp only [if_neg hok]

/-- The regions that `doCommit` sends to are those that voted to commit. -/
theorem secondPhaseRegions_collect (hord : order.Perm regions) :
    ((joined regions).collect votes order).secondPhaseRegions =
      regions.filter fun p => votes p = .commitOk := by
  obtain ⟨-, hregions, hignore⟩ := collect_votes votes order (joined regions)
  rw [secondPhaseRegions, hregions]
  apply filter_congr
  intro p hp
  have hq := hignore p
  rw [hord.mem_iff] at hq
  have hnone : p ∉ (joined regions).regionsToIgnore := not_mem_nil
  have hiff : p ∉ ((joined regions).collect votes order).regionsToIgnore ↔ votes p = .commitOk := by
    rw [hq]
    constructor
    · intro hnot
      by_contra hv
      exact hnot (.inl ⟨hp, hv⟩)
    · rintro hv (⟨-, hne⟩ | hmem)
      · exact hne hv
      · exact hnone hmem
  exact decide_eq_decide.2 hiff

end ClientState

lemma tryCommit_collect {votes : ρ → Vote} {order regions : List ρ} (hord : order.Perm regions) :
    ((joined regions).collect votes order).tryCommit =
      match aggregate (regions.map votes) with
      | .commitOk => .returned (regions.filter fun p => votes p = .commitOk)
          (some (regions.filter fun p => votes p = .commitOk).length)
      | .commitOkReadOnly => .returned [] (some 0)
      | .commitUnsuccessful => .threw
      | .commitConflict => .returned [] none := by
  rw [tryCommit, prepareCommit_collect hord, secondPhaseRegions_collect hord]
  cases aggregate (regions.map votes) <;> rfl

/-- The votes are honoured in every order of the replies, unless a region votes for a conflict. -/
theorem votesHonoured_iff (regions : List ρ) (votes : ρ → Vote) (order : List ρ)
    (horder : order.Perm regions) :
    VotesHonoured regions votes order ↔ ∀ p ∈ regions, votes p ≠ .commitConflict := by
  have htry := @tryCommit_collect ρ _ votes order regions horder
  constructor
  · rintro ⟨-, hreturned⟩ p hp hconflict
    have haggregate : aggregate (regions.map votes) = .commitConflict := by
      apply if_pos
      rw [← hconflict]
      exact mem_map_of_mem hp
    rw [haggregate] at htry
    obtain ⟨hvotes, -⟩ := hreturned [] none htry
    obtain hv | hv := hvotes p hp
    · cases hconflict.symm.trans hv
    · cases hconflict.symm.trans hv
  · intro hvotes
    refine ⟨prepareCommit_collect horder, fun contacted sent hreturned => ?_⟩
    have hconflict : .commitConflict ∉ regions.map votes := by
      intro hmem
      obtain ⟨p, hp, hv⟩ := mem_map.1 hmem
      exact hvotes p hp hv
    rw [hreturned, aggregate, if_neg hconflict] at htry
    by_cases hfalse : .commitUnsuccessful ∈ regions.map votes
    · rw [if_pos hfalse] at htry
      cases htry
    · rw [if_neg hfalse] at htry
      have hcommit : ∀ p ∈ regions, votes p = .commitOk ∨ votes p = .commitOkReadOnly := by
        intro p hp
        cases hv : votes p with
        | commitOk => exact .inl rfl
        | commitOkReadOnly => exact .inr rfl
        | commitUnsuccessful => exact absurd (hv ▸ mem_map_of_mem hp) hfalse
        | commitConflict => exact absurd hv (hvotes p hp)
      refine ⟨hcommit, ?_⟩
      by_cases hall : ∀ v ∈ regions.map votes, v = Vote.commitOkReadOnly
      · rw [if_pos hall] at htry
        have hnone : (regions.filter fun p => votes p = .commitOk) = [] := by
          apply filter_eq_nil_iff.2
          intro p hp
          rw [hall _ (mem_map_of_mem hp)]
          decide
        cases htry
        exact hnone.symm
      · rw [if_neg hall] at htry
        cases htry
        rfl

def oneWriter : ℕ → Vote
  | 1 => .commitOk
  | _ => .commitOkReadOnly

theorem oneWriter_honoured : [2, 1].Perm [1, 2] ∧ VotesHonoured [1, 2] oneWriter [2, 1] :=
  ⟨by decide, (votesHonoured_iff [1, 2] oneWriter [2, 1] (by decide)).2 (by decide)⟩

def oneConflict : ℕ → Vote
  | 1 => .commitOk
  | _ => .commitConflict

/-- `tryCommit` returns as if the transaction were committed, and commits it nowhere. -/
theorem conflict_not_honoured :
    ((joined [1, 2]).collect oneConflict [1, 2]).prepareCommit = some .commitConflict ∧
      ((joined [1, 2]).collect oneConflict [1, 2]).tryCommit = .returned [] none ∧
      ¬ VotesHonoured [1, 2] oneConflict [1, 2] := by
  refine ⟨by decide, by decide, fun h => ?_⟩
  obtain ⟨hvotes, -⟩ := h.2 [] none (by decide)
  exact absurd (hvotes 2 (by decide)) (by decide)

end Trafodion.TwoPhaseCommit
