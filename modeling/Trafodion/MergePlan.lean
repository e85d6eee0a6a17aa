import Mathlib.Data.List.Range
import Mathlib.Tactic.Linarith

/-!
# The merge passes of the sort utility

`sortSendEndProcessing` plans the merges of the initial runs. A pass over `numRuns` runs merges
the first few, so that a multiple of the merge order is left, and then the rest in groups of the
merge order. The run number only moves forward, over the runs of the pass and the run that its
first merge has appended behind them. Each merge appends one run to the run directory.
-/
namespace Trafodion.SortUtil

open Nat

/-! ### The merge order -/

def retryMergeOrder (setup : ℕ → Bool) (mergeOrderUsed : ℕ) : Option ℕ :=
  if mergeOrderUsed / 2 < 2 then none
  else if setup (mergeOrderUsed / 2) then some (mergeOrderUsed / 2)
  else retryMergeOrder setup (mergeOrderUsed / 2)
termination_by mergeOrderUsed

/-- The merge order from its estimate. `setup` says for which orders `setupSortMergeBufferPool`
succeeds. -/
def fixMergeOrder (memoryQuotaSystemEnabled : Bool) (setup : ℕ → Bool) (estimate numRuns : ℕ) :
    Option ℕ :=
  let mergeOrder := if estimate < 2 then 2 else estimate
  let mergeOrderUsed := if numRuns > mergeOrder then mergeOrder else numRuns
  if setup mergeOrderUsed then some mergeOrder
  else if memoryQuotaSystemEnabled || mergeOrderUsed ≤ 2 then none
  else retryMergeOrder setup mergeOrderUsed

variable {setup : ℕ → Bool} {used m : ℕ}

lemma two_le_of_retryMergeOrder (h : retryMergeOrder setup used = some m) : 2 ≤ m := by
  fun_induction retryMergeOrder setup used with
  | case1 => cases h
  | case2 used hhalf hsetup =>
    obtain rfl := Option.some.inj h
    omega
  | case3 used hhalf hsetup ih => exact ih h

lemma two_le_of_fixMergeOrder {quota : Bool} {estimate numRuns m : ℕ}
    (h : fixMergeOrder quota setup estimate numRuns = some m) : 2 ≤ m := by
  simp only [fixMergeOrder] at h
  have htwo : 2 ≤ if estimate < 2 then 2 else estimate := by split_ifs <;> omega
  generalize (if estimate < 2 then 2 else estimate) = mergeOrder at h htwo
  generalize (if numRuns > mergeOrder then mergeOrder else numRuns) = used at h
  by_cases hsetup : setup used
  · rw [if_pos hsetup] at h
    exact Option.some.inj h ▸ htwo
  · rw [if_neg hsetup] at h
    split at h
    · cases h
    · exact two_le_of_retryMergeOrder h

/-! ### The passes -/

/-- A tree over `order` runs from the run number `runnum` on. -/
structure Merge where
  runnum : ℕ
  order : ℕ
  deriving DecidableEq

def Merge.runs (x : Merge) : List ℕ := List.range' x.runnum x.order

structure Progress where
  runnum : ℕ
  numRunsGenerated : ℕ
  merges : List Merge
  deriving DecidableEq

open Progress

namespace Progress

/-- One intermediate merge: `generateInterRuns` appends one run. -/
def generateInterRuns (order : ℕ) (s : Progress) : Progress where
  runnum := s.runnum + order
  numRunsGenerated := s.numRunsGenerated + 1
  merges := s.merges ++ [⟨s.runnum, order⟩]

/-- The `for` loop of a pass. -/
def interPasses (mergeOrder : ℕ) : ℕ → Progress → Progress
  | 0, s => s
  | k + 1, s => interPasses mergeOrder k (s.generateInterRuns mergeOrder)

/-- One turn of the `while` loop. -/
def pass (mergeOrder numRuns : ℕ) (s : Progress) : Progress :=
  let numInterPasses := numRuns / mergeOrder
  let firstMergeOrder := 1 + (numRuns - numInterPasses * mergeOrder)
  let s := if firstMergeOrder > 1 then s.generateInterRuns firstMergeOrder else s
  s.interPasses mergeOrder numInterPasses

/-- The `while` loop, with the number of runs left for the final merge. -/
def mergePasses (mergeOrder : ℕ) : ℕ → ℕ → Progress → Option (ℕ × Progress)
  | 0, _, _ => none
  | fuel + 1, numRuns, s =>
    let numInterPasses := numRuns / mergeOrder
    if numInterPasses > mergeOrder then
      mergePasses mergeOrder fuel numInterPasses (s.pass mergeOrder numRuns)
    else some (numInterPasses, s.pass mergeOrder numRuns)

end Progress

structure Plan where
  merges : List Merge
  final : Merge
  deriving DecidableEq

/-- `sortSendEndProcessing` from the merge order on. -/
def sortSendEndProcessing (fuel mergeOrder numInitRuns : ℕ) : Option Plan :=
  let start : Progress := ⟨1, numInitRuns, []⟩
  if numInitRuns > mergeOrder then
    (start.mergePasses mergeOrder fuel numInitRuns).map fun (finalMergeOrder, s) =>
      ⟨s.merges, ⟨s.runnum, finalMergeOrder⟩⟩
  else some ⟨[], ⟨1, numInitRuns⟩⟩

/-- Every run that exists, initial or appended, is read by one merge, after it has been appended,
and no merge takes more than `mergeOrder` runs. -/
structure Plan.Covers (mergeOrder numInitRuns : ℕ) (p : Plan) : Prop where
  exactly_once : (p.merges ++ [p.final]).flatMap Merge.runs =
    List.range' 1 (numInitRuns + p.merges.length)
  generated : ∀ i x, (p.merges ++ [p.final])[i]? = some x → ∀ run ∈ x.runs, run ≤ numInitRuns + i
  order_le : ∀ x ∈ p.merges, x.order ≤ mergeOrder
  one_le_final : 1 ≤ p.final.order
  final_le : p.final.order ≤ mergeOrder

namespace Progress

structure Sound (mergeOrder numInitRuns : ℕ) (s : Progress) : Prop where
  one_le : 1 ≤ s.runnum
  merged : s.merges.flatMap Merge.runs = List.range' 1 (s.runnum - 1)
  numRunsGenerated_eq : s.numRunsGenerated = numInitRuns + s.merges.length
  generated : ∀ i x, s.merges[i]? = some x → ∀ run ∈ x.runs, run ≤ numInitRuns + i
  order_le : ∀ x ∈ s.merges, x.order ≤ mergeOrder

def Left (s : Progress) (n : ℕ) : Prop := s.runnum + n = s.numRunsGenerated + 1

variable {m R n : ℕ} {s : Progress}

lemma Sound.start : Sound m R ⟨1, R, []⟩ where
  one_le := le_rfl
  merged := rfl
  numRunsGenerated_eq := rfl
  generated := by simp
  order_le := by simp

lemma range_append_runs (h : 1 ≤ s.runnum) (order : ℕ) :
    List.range' 1 (s.runnum - 1) ++ (Merge.mk s.runnum order).runs =
      List.range' 1 (s.runnum + order - 1) := by
  have hst0 : s.runnum = 1 + 1 * (s.runnum - 1) := by omega
  have hlen : s.runnum + order - 1 = s.runnum - 1 + order := by omega
  rw [hlen, ← List.range'_append, ← hst0, Merge.runs]

lemma Sound.generateInterRuns (h : Sound m R s) {order : ℕ} (hord : order ≤ m)
    (hleft : s.Left (n + order)) :
    Sound m R (s.generateInterRuns order) ∧ (s.generateInterRuns order).Left (n + 1) := by
  have hgenerated := h.numRunsGenerated_eq
  unfold Left at hleft
  refine ⟨⟨?_, ?_, ?_, ?_, ?_⟩, ?_⟩
  · exact h.one_le.trans (Nat.le_add_right _ _)
  · simp [Progress.generateInterRuns, h.merged, range_append_runs h.one_le]
  · simp [Progress.generateInterRuns, hgenerated]
    omega
  · intro i x hx run hrun
    rw [Progress.generateInterRuns, List.getElem?_append] at hx
    split at hx
    · exact h.generated i x hx run hrun
    · -- the new merge: `i` merges have appended a run before it
      rw [List.getElem?_singleton] at hx
      split at hx
      · cases hx
        rw [Merge.runs, List.mem_range'_1] at hrun
        simp only at hrun
        omega
      · cases hx
  · exact List.forall_mem_append.2 ⟨h.order_le, List.forall_mem_singleton.2 hord⟩
  · simp only [Progress.generateInterRuns, Left]
    omega

/-- Every group of the `for` loop is there when its turn comes, and each leaves one run. -/
theorem Sound.interPasses (k : ℕ) (h : Sound m R s) (hleft : s.Left (n + k * m)) :
    Sound m R (s.interPasses m k) ∧ (s.interPasses m k).Left (n + k) := by
  induction k generalizing s n with
  | zero => exact ⟨h, by simpa [interPasses] using hleft⟩
  | succ k ih =>
    have hfst : s.Left ((n + k * m) + m) := by
      rw [succ_mul, ← add_assoc] at hleft
      exact hleft
    obtain ⟨hsnd, hleft⟩ := h.generateInterRuns le_rfl hfst
    have hnext : (s.generateInterRuns m).Left ((n + 1) + k * m) := by
      rw [add_right_comm]
      exact hleft
    obtain ⟨hsnd, hleft⟩ := ih hsnd hnext
    exact ⟨hsnd, by rwa [add_assoc, add_comm 1 k] at hleft⟩

/-- A pass merges its runs, and the run of its first merge, into one run for each group. -/
theorem Sound.pass (hm : 0 < m) (hmn : m ≤ n) (h : Sound m R s) (hleft : s.Left n) :
    Sound m R (s.pass m n) ∧ (s.pass m n).Left (n / m) := by
  have hdiv := Nat.div_add_mod' n m
  have hmod := Nat.mod_lt n hm
  have hpos : 0 < n / m * m := Nat.mul_pos (Nat.div_pos hmn hm) hm
  have hst0 : ∃ s', s.pass m n = s'.interPasses m (n / m) ∧ Sound m R s' ∧
      s'.Left (0 + n / m * m) := by
    by_cases hfst : 1 + (n - n / m * m) > 1
    · refine ⟨_, congrArg (Progress.interPasses m (n / m)) (if_pos hfst), ?_⟩
      have hall : s.Left ((n / m * m - 1) + (1 + (n - n / m * m))) := by
        rwa [show n / m * m - 1 + (1 + (n - n / m * m)) = n by omega]
      obtain ⟨hsnd, hleft⟩ := h.generateInterRuns (by omega) hall
      rw [Nat.sub_add_cancel hpos] at hleft
      exact ⟨hsnd, by rwa [Nat.zero_add]⟩
    · refine ⟨s, congrArg (Progress.interPasses m (n / m)) (if_neg hfst), h, ?_⟩
      rwa [show 0 + n / m * m = n by omega]
  obtain ⟨s', heq, hsnd, hleft⟩ := hst0
  rw [heq]
  simpa using hsnd.interPasses _ hleft

/-- The `while` loop ends, since every pass leaves fewer runs than it had. -/
theorem Sound.mergePasses (hm : 2 ≤ m) (hmn : m < n) (h : Sound m R s) (hleft : s.Left n) :
    ∃ k s', (∀ fuel, n ≤ fuel → s.mergePasses m fuel n = some (k, s')) ∧
      1 ≤ k ∧ k ≤ m ∧ Sound m R s' ∧ s'.Left k := by
  induction n using Nat.strong_induction_on generalizing s with
  | _ n ih =>
    obtain ⟨hsnd, hpass⟩ := h.pass (by omega) hmn.le hleft
    have hpos : 1 ≤ n / m := div_pos hmn.le (by omega)
    have hless : n / m < n := div_lt_self (by omega) hm
    by_cases hmore : m < n / m
    · obtain ⟨k, s', hrest, hk⟩ := ih (n / m) hless hmore hsnd hpass
      refine ⟨k, s', fun fuel hfuel => ?_, hk⟩
      obtain ⟨fuel, rfl⟩ : ∃ fuel', fuel = fuel' + 1 := ⟨fuel - 1, by omega⟩
      rw [mergePasses, if_pos hmore]
      exact hrest fuel (by omega)
    · refine ⟨n / m, s.pass m n, fun fuel hfuel => ?_, hpos, by omega, hsnd, hpass⟩
      obtain ⟨fuel, rfl⟩ : ∃ fuel', fuel = fuel' + 1 := ⟨fuel - 1, by omega⟩
      rw [mergePasses, if_neg hmore]

lemma Sound.covers (h : Sound m R s) (hleft : s.Left n) (hone : 1 ≤ n) (hle : n ≤ m) :
    Plan.Covers m R ⟨s.merges, ⟨s.runnum, n⟩⟩ := by
  have hgenerated := h.numRunsGenerated_eq
  have hone_le := h.one_le
  unfold Left at hleft
  refine ⟨?_, ?_, h.order_le, hone, hle⟩
  · have htotal : s.runnum + n - 1 = R + s.merges.length := by omega
    simp [h.merged, range_append_runs h.one_le, htotal]
  · obtain ⟨hsnd, -⟩ := h.generateInterRuns (n := 0) hle (by unfold Left; omega)
    exact hsnd.generated

end Progress

/-- Every sort plans its merges in finitely many passes, and the plan covers the runs. -/
theorem sortSendEndProcessing_covers {m R : ℕ} (hm : 2 ≤ m) (hR : 1 ≤ R) :
    ∃ p : Plan, (∀ fuel, R ≤ fuel → sortSendEndProcessing fuel m R = some p) ∧ p.Covers m R := by
  have hleft : Progress.Left ⟨1, R, []⟩ R := add_comm 1 R
  by_cases hmerge : m < R
  · obtain ⟨k, s, hloop, hone, hle, hsound, hleft⟩ :=
      Progress.Sound.start.mergePasses hm hmerge hleft
    refine ⟨⟨s.merges, ⟨s.runnum, k⟩⟩, fun fuel hfuel => ?_, hsound.covers hleft hone hle⟩
    rw [sortSendEndProcessing, if_pos hmerge, hloop fuel hfuel]
    rfl
  · refine ⟨⟨[], ⟨1, R⟩⟩, fun fuel _ => if_neg hmerge, ?_⟩
    exact Progress.Sound.start.covers hleft hR (by omega)

/-- Seven runs merged by two. The last merge of each pass takes the run of its first merge. -/
theorem seven_runs_by_two : sortSendEndProcessing 7 2 7 =
        some ⟨[⟨1, 2⟩, ⟨3, 2⟩, ⟨5, 2⟩, ⟨7, 2⟩, ⟨9, 2⟩, ⟨11, 2⟩], ⟨13, 1⟩⟩ ∧
      ∃ p : Plan, (∀ fuel, 7 ≤ fuel → sortSendEndProcessing fuel 2 7 = some p) ∧ p.Covers 2 7 :=
  ⟨by decide, sortSendEndProcessing_covers (by decide) (by decide)⟩

end Trafodion.SortUtil
