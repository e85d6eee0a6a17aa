import Trafodion.MergeJoin

/-!
# What is left of a merge join

The rows that one left row still has to give, as the operator gives them, and how the join of what
is left changes when a row is dropped or saved.
-/
namespace Trafodion.MergeJoin

open List

variable {α β κ : Type}

namespace Tdb

variable (j : Tdb α β κ) (m : Bool) (l : α)

def kept (x : Option β) : List (α × Option β) :=
  if j.postJoinExpr l x then [(l, x)] else []

def returned (r : β) : List (α × Option β) :=
  if j.satisfies l r then
    if j.kind = .anti then [] else j.kept l (if j.kind = .semi then none else some r)
  else []

attribute [local simp] returned

def unmatched : List (α × Option β) :=
  if m = false ∧ (j.kind = .left ∨ j.kind = .anti) then j.kept l none else []

attribute [local simp] unmatched

def rowRest (j : Tdb α β κ) (l : α) : Bool → List β → List (α × Option β)
  | m, [] => j.unmatched m l
  | m, r :: ms =>
    (if j.isSemiJoin ∧ m then [] else j.returned l r) ++ j.rowRest l (m || j.satisfies l r) ms

attribute [local simp] rowRest

lemma length_kept_le (x : Option β) : (j.kept l x).length ≤ 1 := by
  unfold kept
  split_ifs <;> simp

lemma length_returned_le (r : β) : (j.returned l r).length ≤ 1 := by
  unfold returned
  split_ifs
  · exact Nat.zero_le 1
  · exact j.length_kept_le l _
  · exact j.length_kept_le l _
  · exact Nat.zero_le 1

lemma length_unmatched_le : (j.unmatched m l).length ≤ 1 := by
  unfold unmatched
  split_ifs
  · exact j.length_kept_le l _
  · exact Nat.zero_le 1

variable {j : Tdb α β κ}

lemma rowRest_semi (hsemi : j.isSemiJoin = true) (l : α) (ms : List β) :
    j.rowRest l true ms = [] := by
  induction ms with
  | nil => simp
  | cons r ms ih => simp [hsemi, ih]

attribute [local simp] joinRow

attribute [local simp] isSemiJoin

lemma rowRest_inner (hkind : j.kind = .inner) (l : α) (m : Bool) (ms : List β) :
    j.rowRest l m ms = j.joinRow l ms := by
  induction ms generalizing m with
  | nil => simp [hkind]
  | cons r ms ih =>
    rw [rowRest, ih]
    by_cases hs : j.satisfies l r <;> by_cases hp : j.postJoinExpr l (some r) <;>
      simp [kept, hkind, hs, hp]

lemma rowRest_matched (hkind : j.kind = .left) (l : α) (ms : List β) :
    j.rowRest l true ms = ((ms.filter (j.satisfies l)).map fun r => (l, some r)).filter
      fun x => j.postJoinExpr x.1 x.2 := by
  induction ms with
  | nil => simp
  | cons r ms ih =>
    rw [rowRest, Bool.true_or, ih]
    by_cases hs : j.satisfies l r <;> by_cases hp : j.postJoinExpr l (some r) <;>
      simp [kept, hkind, hs, hp]

lemma rowRest_eq (j : Tdb α β κ) (l : α) (ms : List β) : j.rowRest l false ms = j.joinRow l ms := by
  induction ms with
  | nil =>
    cases hkind : j.kind with
    | inner | semi => simp [hkind]
    | left | anti => by_cases hp : j.postJoinExpr l none <;> simp [kept, hkind, hp]
  | cons r ms ih =>
    by_cases hs : j.satisfies l r
    · rw [rowRest, hs, Bool.false_or]
      cases hkind : j.kind with
      | inner =>
        rw [rowRest_inner hkind]
        by_cases hp : j.postJoinExpr l (some r) <;> simp [kept, hkind, hs, hp]
      | left =>
        rw [rowRest_matched hkind]
        by_cases hp : j.postJoinExpr l (some r) <;> simp [kept, hkind, hs, hp]
      | semi =>
        rw [rowRest_semi (by simp [hkind])]
        by_cases hp : j.postJoinExpr l none <;> simp [kept, hkind, hs, hp]
      | anti =>
        rw [rowRest_semi (by simp [hkind])]
        simp [hkind, hs]
    · rw [Bool.not_eq_true] at hs
      rw [rowRest, hs, Bool.false_or, ih]
      cases hkind : j.kind <;> simp [hkind, hs]

section Join
variable [LinearOrder κ]

lemma join_cons (j : Tdb α β κ) (l : α) (ls : List α) (rs : List β) :
    j.join (l :: ls) rs = j.rowRest l false (j.matching l rs) ++ j.join ls rs := by
  rw [rowRest_eq]
  rfl

variable {j : Tdb α β κ} {l : α}

lemma matching_nil {rs : List β}
    (h : ∀ r ∈ rs, j.rightKey r ≠ j.leftKey l) : j.matching l rs = [] := by
  exact filter_eq_nil_iff.2 fun r hr => by simpa using h r hr

lemma matching_all {rs : List β}
    (h : ∀ r ∈ rs, j.rightKey r = j.leftKey l) : j.matching l rs = rs := by
  exact filter_eq_self.2 fun r hr => by simpa using h r hr

lemma matching_append (j : Tdb α β κ) (l : α) (rs ts : List β) :
    j.matching l (rs ++ ts) = j.matching l rs ++ j.matching l ts := filter_append ..

variable {ls : List α} {ds : List β} {r : β}

lemma matching_cons_ne (h : j.rightKey r ≠ j.leftKey l)
    (rs : List β) : j.matching l (r :: rs) = j.matching l rs :=
  filter_cons_of_neg (by simpa using h)

lemma matching_cons_eq (h : j.rightKey r = j.leftKey l)
    (rs : List β) : j.matching l (r :: rs) = r :: j.matching l rs :=
  filter_cons_of_pos (by simpa using h)

lemma join_append_left (h : ∀ l ∈ ls, ∀ d ∈ ds, j.rightKey d ≠ j.leftKey l) (rs : List β) :
    j.join ls (ds ++ rs) = j.join ls rs := by
  refine flatMap_congr fun l hl => ?_
  rw [matching_append, matching_nil (h l hl), nil_append]

lemma join_cons_right (h : ∀ l ∈ ls, j.rightKey r ≠ j.leftKey l) (rs : List β) :
    j.join ls (r :: rs) = j.join ls rs := by
  have hnone : ∀ l ∈ ls, ∀ d ∈ [r], j.rightKey d ≠ j.leftKey l := by
    intro l hl d hd
    rw [mem_singleton.1 hd]
    exact h l hl
  exact join_append_left hnone rs

/-- Without a predicate one matching row decides a semi join, and an anti join. -/
lemma join_skip (hsemi : j.isSemiJoin = true) (hpre : j.preJoinExpr = none) {d r : β} (hd : d ∈ ds)
    (hkey : j.rightKey d = j.rightKey r) (ls : List α) (rs : List β) :
    j.join ls (ds ++ r :: rs) = j.join ls (ds ++ rs) := by
  refine flatMap_congr fun l _ => ?_
  by_cases hr : j.rightKey r = j.leftKey l
  · have hmem : ∀ ts, d ∈ j.matching l (ds ++ ts) := fun ts => by
      simp [matching, hd, hkey, hr]
    have hsat : ∀ ts : List β, ts.filter (j.satisfies l) = ts := fun ts =>
      filter_eq_self.2 fun x _ => by simp [satisfies, hpre]
    have hsome : ∀ ts, j.joinRow l (j.matching l (ds ++ ts)) =
        (if j.kind = .semi then [(l, none)] else []).filter fun x => j.postJoinExpr x.1 x.2 := by
      intro ts
      obtain hkind | hkind : j.kind = .semi ∨ j.kind = .anti := by simpa using hsemi
      · simp only [joinRow, hsat, hkind, if_neg (ne_nil_of_mem (hmem ts)), if_true]
      · simp only [joinRow, hsat, hkind, if_neg (ne_nil_of_mem (hmem ts)), reduceCtorEq, if_false]
    rw [hsome, hsome]
  · rw [matching_append, matching_append, matching_cons_ne hr]

lemma join_nil_right (hkind : ¬(j.kind = .left ∨ j.kind = .anti))
    (ls : List α) : j.join ls [] = [] := by
  refine flatMap_eq_nil_iff.2 fun l _ => ?_
  rw [← rowRest_eq]
  simp [matching, hkind]

end Join

end Tdb

/-! ### Rows sent -/

namespace Tcb

variable {t : Tcb α β}

variable (j : Tdb α β κ) (l : α)

variable {out : List (α × Option β)}

lemma sendRow_eq (x : Option β) (hup : t.up = out.map some) (hcnt : t.matchCount = out.length) :
    (t.sendRow j l x).up = (out ++ j.kept l x).map some ∧
    (t.sendRow j l x).matchCount = (out ++ j.kept l x).length := by
  unfold sendRow Tdb.kept
  split_ifs
  · simp [hup, hcnt]
  · simp [hup, hcnt]

lemma returnRow_eq (r : β) (hup : t.up = out.map some) (hcnt : t.matchCount = out.length) :
    (t.returnRow j l r).up = (out ++ j.returned l r).map some ∧
    (t.returnRow j l r).matchCount = (out ++ j.returned l r).length ∧
    (t.returnRow j l r).outerMatched = (t.outerMatched || j.satisfies l r) := by
  unfold returnRow Tdb.returned
  by_cases hs : j.satisfies l r
  · rw [if_pos hs, if_pos hs]
    by_cases hanti : j.kind = .anti
    · simp [hanti, hup, hcnt, hs]
    · rw [if_neg hanti, if_neg hanti]
      obtain ⟨c, u, f, hsend⟩ := sendRow_frame j l (if j.kind = .semi then none else some r)
        { t with outerMatched := true }
      have heq := sendRow_eq j l (if j.kind = .semi then none else some r)
        (t := { t with outerMatched := true }) hup hcnt
      exact ⟨heq.1, heq.2, by rw [hsend]; simp [hs]⟩
  · simp [hs, hup, hcnt]

lemma returnUnmatched_eq (hup : t.up = out.map some) (hcnt : t.matchCount = out.length) :
    (t.returnUnmatched j l).up = (out ++ j.unmatched t.outerMatched l).map some ∧
    (t.returnUnmatched j l).matchCount = (out ++ j.unmatched t.outerMatched l).length := by
  unfold returnUnmatched Tdb.unmatched
  split_ifs
  · exact sendRow_eq j l none hup hcnt
  · simp [hup, hcnt]

end Tcb
end Trafodion.MergeJoin
