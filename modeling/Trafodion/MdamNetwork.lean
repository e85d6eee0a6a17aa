import Trafodion.MdamColumn
import Mathlib.Data.List.GetD

/-!
# Building the MDAM network

The disjuncts are built one after the other, each of them from the last column to the first. A
disjunct that is empty in some column is thrown away; the others are merged into the interval
lists of all columns.
-/
namespace Trafodion.Mdam

open List MdamColumn OrGroup IntervalSweeps

variable {α : Type*} [LinearOrder α]

/-- The loop over the columns, from the last one; the first column of the list is the first column
of the key if `isFirst`. -/
def buildDisjuncts (disjunctNumber : ℕ) (stopListsBuilt : Bool) :
    Bool → List (MdamColumn α) → Bool × List (MdamColumn α)
  | _, [] => (stopListsBuilt, [])
  | isFirst, c :: columns =>
    let (disjunctNumberInStopList, columns) :=
      buildDisjuncts disjunctNumber stopListsBuilt false columns
    let (disjunctNumberInStopList, c) :=
      c.buildDisjunct isFirst disjunctNumber disjunctNumberInStopList
    (disjunctNumberInStopList, c :: columns)

def addDisjunct (stopListsBuilt : Bool) (columns : List (MdamColumn α)) (disjunctNumber : ℕ) :
    List (MdamColumn α) :=
  let (_, columns) := buildDisjuncts disjunctNumber stopListsBuilt true columns
  if columns.any disjunctIsEmpty then columns.map tossDisjunct
  else columns.map fun c => c.mergeDisjunct disjunctNumber

def MdamColumn.releaseNetwork (c : MdamColumn α) : MdamColumn α :=
  { c with intervals := [], tentativeIntervals := [] }

def buildNetwork (stopListsBuilt : Bool) (numDisjuncts : ℕ) (columns : List (MdamColumn α)) :
    List (MdamColumn α) :=
  (range numDisjuncts).foldl (addDisjunct stopListsBuilt)
    (columns.map fun c => c.releaseNetwork.initCurrentPred)

/-! ### The groups of a disjunct -/

/-- The `or_result` of a group. -/
def orResult (dom : Domain α) (g : OrGroup α) : List (MdamInterval α) :=
  g.preds.foldl (orIn dom) []

def andGroups (dom : Domain α) : List (MdamInterval α) → List (OrGroup α) → List (MdamInterval α)
  | intervals, [] => intervals
  | intervals, g :: groups =>
    if intervals = [] then [] else andGroups dom (intersect intervals (orResult dom g)) groups

variable {dom : Domain α} {current : ℕ}

def EndsGroup (current : ℕ) : List (PredNode α) → Prop
  | [] => True
  | p :: _ => p.disjunctNumber ≠ current ∨ p.firstInOrGroup

variable {left rest later ps : List (PredNode α)}

lemma orLoop_map (h : EndsGroup current rest)
    (ps : List (MdamPred α)) (intervals : List (MdamInterval α)) :
    orLoop dom current true intervals (ps.map (⟨current, false, ·⟩) ++ rest) =
      (ps.foldl (orIn dom) intervals, rest) := by
  induction ps generalizing intervals with
  | nil =>
    cases rest with
    | nil => rfl
    | cons p rest =>
      refine if_neg ?_
      rcases h with h | h <;> simp [h]
  | cons p ps ih =>
    rw [map_cons, cons_append, orLoop, if_pos (by simp), ih]
    rfl

lemma orLoop_nodes (h : EndsGroup current rest) (g : OrGroup α) :
    orLoop dom current false [] (g.nodes current ++ rest) = (orResult dom g, rest) := by
  rw [nodes, cons_append, orLoop, if_pos (by simp), orLoop_map h]
  rfl

section

omit [LinearOrder α]

lemma endsGroup_groups (hlat : ∀ p ∈ later, current < p.disjunctNumber)
    (groups : List (OrGroup α)) : EndsGroup current (groups.flatMap (nodes current) ++ later) := by
  cases groups with
  | nil =>
    cases later with
    | nil => trivial
    | cons p later => exact .inl (hlat p mem_cons_self).ne'
  | cons g groups => exact .inr rfl

lemma positionToNextOr_of_le (h : ∀ p ∈ ps, current ≤ p.disjunctNumber) :
    positionToNextOr current ps = ps := by
  cases ps with
  | nil => rfl
  | cons p ps => exact dropWhile_cons_of_neg (by simp [h p mem_cons_self])

lemma positionToCurrentDisjunct_append
    (hleft : ∀ p ∈ left, p.disjunctNumber < current) (h : ∀ p ∈ ps, current ≤ p.disjunctNumber) :
    positionToCurrentDisjunct current (left ++ ps) = ps := by
  rw [positionToCurrentDisjunct, dropWhile_append_of_pos (by simpa using hleft)]
  cases ps with
  | nil => rfl
  | cons p ps => exact dropWhile_cons_of_neg (by simp [h p mem_cons_self])

lemma disjunctNumber_of_mem_nodes {groups : List (OrGroup α)} {p : PredNode α}
    (hp : p ∈ groups.flatMap (nodes current)) : p.disjunctNumber = current := by
  obtain ⟨g, -, hg⟩ := mem_flatMap.1 hp
  rcases mem_cons.1 hg with rfl | hg
  · rfl
  · obtain ⟨q, -, rfl⟩ := mem_map.1 hg
    rfl

lemma positionToNextOr_groups
    (hlat : ∀ p ∈ later, current < p.disjunctNumber) (groups : List (OrGroup α)) :
    positionToNextOr current (groups.flatMap (nodes current) ++ later) =
      groups.flatMap (nodes current) ++ later := by
  exact positionToNextOr_of_le (forall_mem_append.2
    ⟨fun p hp => (disjunctNumber_of_mem_nodes hp).ge, fun p hp => (hlat p hp).le⟩)

end

/-- The loop intersects the OR groups of the disjunct; those that it does not come to are left in
the list. -/
theorem andLoop_groups (dom : Domain α)
    (hlat : ∀ p ∈ later, current < p.disjunctNumber) (groups : List (OrGroup α)) (got : Bool)
    (intervals : List (MdamInterval α)) :
    ∃ left : List (PredNode α), (∀ p ∈ left, p.disjunctNumber = current) ∧
      andLoop dom current got intervals (groups.flatMap (nodes current) ++ later) =
        (got || (!groups.isEmpty && !intervals.isEmpty), andGroups dom intervals groups,
          left ++ later) := by
  induction groups generalizing got intervals with
  | nil =>
    have hpos := positionToNextOr_groups hlat []
    have hstop : atOr current later = false := by
      cases later with
      | nil => rfl
      | cons p later => simp [atOr, (hlat p mem_cons_self).ne']
    rw [flatMap_nil, nil_append] at hpos ⊢
    rw [andLoop, dif_neg (by simp [hpos, hstop]), hpos]
    exact ⟨[], forall_mem_nil _, by simp [andGroups]⟩
  | cons g groups ih =>
    have hpos := positionToNextOr_groups hlat (g :: groups)
    by_cases hints : intervals = []
    · rw [andLoop, dif_neg (by simp [hints]), hpos]
      exact ⟨(g :: groups).flatMap (nodes current), fun p => disjunctNumber_of_mem_nodes,
        by simp [hints, andGroups]⟩
    · obtain ⟨left, hleft, heq⟩ := ih true (intersect intervals (orResult dom g))
      have hat : atOr current (positionToNextOr current
          ((g :: groups).flatMap (nodes current) ++ later)) := by
        rw [hpos]
        simp [nodes, atOr]
      rw [andLoop, dif_pos ⟨hat, hints⟩, hpos,
        flatMap_cons, append_assoc, orLoop_nodes (endsGroup_groups hlat groups)]
      refine ⟨left, hleft, ?_⟩
      simp only [heq, andGroups, hints, if_false, Bool.true_or, isEmpty_cons,
        isEmpty_eq_false_iff.2 hints, Bool.not_false, Bool.and_true, Bool.or_true]

/-! ### A column -/

variable {disjunctNumber : ℕ}

omit [LinearOrder α] in
lemma le_of_mem_predList {disjuncts : List (List (OrGroup α))}
    {p : PredNode α} (hp : p ∈ predList disjunctNumber disjuncts) :
    disjunctNumber ≤ p.disjunctNumber := by
  induction disjuncts generalizing disjunctNumber with
  | nil => cases hp
  | cons groups disjuncts ih =>
    rcases mem_append.1 hp with hp | hp
    · exact (disjunctNumber_of_mem_nodes hp).ge
    · exact (Nat.le_succ _).trans (ih hp)

omit [LinearOrder α] in
lemma predList_drop (disjuncts : List (List (OrGroup α))) (disjunctNumber : ℕ) :
    predList disjunctNumber (disjuncts.drop disjunctNumber) =
      (disjuncts.getD disjunctNumber []).flatMap (nodes disjunctNumber) ++
        predList (disjunctNumber + 1) (disjuncts.drop (disjunctNumber + 1)) := by
  by_cases h : disjunctNumber < disjuncts.length
  · rw [drop_eq_getElem_cons h, predList, getD_eq_getElem _ _ h]
  · rw [drop_eq_nil_of_le (by omega), drop_eq_nil_of_le (by omega), getD_eq_default _ _ (by omega)]
    rfl

namespace MdamColumnGen

variable (gen : MdamColumnGen α)

def groups (disjunctNumber : ℕ) : List (OrGroup α) :=
  gen.disjuncts.getD disjunctNumber []

def disjunctIntervals (disjunctNumber : ℕ) : List (MdamInterval α) :=
  andGroups gen.domain [⟨⟨gen.domain.lo, .included⟩, ⟨gen.domain.hi, .included⟩, []⟩]
    (gen.groups disjunctNumber)

def hasPred (disjunctNumber : ℕ) : Bool :=
  !(gen.groups disjunctNumber).isEmpty

end MdamColumnGen

structure Ready (disjunctNumber : ℕ) (c : MdamColumn α) : Prop where
  tentative : c.tentativeIntervals = []
  preds : ∃ left : List (PredNode α), (∀ p ∈ left, p.disjunctNumber < disjunctNumber) ∧
    c.currentPred =
      left ++ predList disjunctNumber (c.columnGenInfo.disjuncts.drop disjunctNumber)

lemma buildDisjunct_eq {c : MdamColumn α} (h : Ready disjunctNumber c)
    (isFirst num : Bool) :
    ∃ currentPred : List (PredNode α),
      (∃ left : List (PredNode α), (∀ p ∈ left, p.disjunctNumber < disjunctNumber + 1) ∧
        currentPred = left ++ predList (disjunctNumber + 1)
          (c.columnGenInfo.disjuncts.drop (disjunctNumber + 1))) ∧
      c.buildDisjunct isFirst disjunctNumber num =
        (num || c.columnGenInfo.hasPred disjunctNumber || isFirst, { c with
            tentativeIntervals := c.columnGenInfo.disjunctIntervals disjunctNumber
            currentPred := currentPred
            stopList := if (c.columnGenInfo.hasPred disjunctNumber || isFirst) &&
                !num
              then insertDisjunctNum disjunctNumber c.stopList else c.stopList }) := by
  obtain ⟨left, hleft, hpreds⟩ := h.preds
  have hlat : ∀ p ∈ predList (disjunctNumber + 1)
      (c.columnGenInfo.disjuncts.drop (disjunctNumber + 1)), disjunctNumber < p.disjunctNumber :=
    fun p hp => Nat.lt_of_succ_le (le_of_mem_predList hp)
  obtain ⟨left', hleft', heq⟩ := andLoop_groups c.domain hlat
    (c.columnGenInfo.groups disjunctNumber) false
    [⟨⟨c.domain.lo, .included⟩, ⟨c.domain.hi, .included⟩, []⟩]
  refine ⟨_, ⟨left', fun p hp => (hleft' p hp).trans_lt (Nat.lt_succ_self _), rfl⟩, ?_⟩
  have hpos : positionToCurrentDisjunct disjunctNumber c.currentPred =
      (c.columnGenInfo.groups disjunctNumber).flatMap (nodes disjunctNumber) ++
        predList (disjunctNumber + 1) (c.columnGenInfo.disjuncts.drop (disjunctNumber + 1)) := by
    rw [hpreds, positionToCurrentDisjunct_append hleft fun p hp => le_of_mem_predList hp,
      predList_drop]
    rfl
  simp only [buildDisjunct, h.tentative, hpos, nil_append, heq, Bool.false_or,
    isEmpty_cons, Bool.not_false, Bool.and_true]
  change (if ((c.columnGenInfo.hasPred disjunctNumber || isFirst) && _) = true then _ else _) = _
  cases c.columnGenInfo.hasPred disjunctNumber <;> cases isFirst <;>
    cases num <;> rfl

/-! ### The values of a disjunct -/

def MdamPred.Admits (dom : Domain α) (p : MdamPred α) (v : α) : Prop :=
  ∃ i ∈ p.interval dom, i.contains v

def MdamPred.Ordered (dom : Domain α) (p : MdamPred α) : Prop :=
  ∀ i ∈ p.interval dom, lo i ≤ hi i

namespace MdamColumnGen

def Admits (gen : MdamColumnGen α) (disjunctNumber : ℕ) (v : α) : Prop :=
  ∀ g ∈ gen.groups disjunctNumber, ∃ p ∈ g.preds, p.Admits gen.domain v

def Ordered (gen : MdamColumnGen α) : Prop :=
  ∀ groups ∈ gen.disjuncts, ∀ g ∈ groups, ∀ p ∈ g.preds, p.Ordered gen.domain

end MdamColumnGen

lemma separated_singleton {i : MdamInterval α} (h : lo i ≤ hi i) : Separated lo hi [i] :=
  ⟨by simpa using h, pairwise_singleton _ _⟩

variable {l : List (MdamInterval α)}

lemma orIn_spec {p : MdamPred α} (hl : Separated lo hi l)
    (hp : p.Ordered dom) : Separated lo hi (orIn dom l p) ∧
      ∀ v, Covers (orIn dom l p) v ↔ Covers l v ∨ p.Admits dom v := by
  unfold orIn
  cases hi : p.interval dom with
  | none =>
    refine ⟨hl, fun v => (or_iff_left ?_).symm⟩
    simp [MdamPred.Admits, hi]
  | some i =>
    have hcov : ∀ v, Covers [i] v ↔ p.Admits dom v := by
      intro v
      simp [Covers, MdamPred.Admits, hi]
    have hsingle := separated_singleton (hp i hi)
    cases l with
    | nil =>
      refine ⟨hsingle, fun v => ?_⟩
      simpa [Covers] using hcov v
    | cons j l =>
      obtain ⟨hunion, hunionCovers⟩ := unionSameDisjunct_spec hl hsingle
      refine ⟨hunion, fun v => ?_⟩
      rw [← hcov v]
      exact hunionCovers v

lemma foldl_orIn_spec {ps : List (MdamPred α)} (hps : ∀ p ∈ ps, p.Ordered dom)
    (hl : Separated lo hi l) : Separated lo hi (ps.foldl (orIn dom) l) ∧
      ∀ v, Covers (ps.foldl (orIn dom) l) v ↔ Covers l v ∨ ∃ p ∈ ps, p.Admits dom v := by
  induction ps generalizing l with
  | nil => exact ⟨hl, by simp⟩
  | cons p ps ih =>
    obtain ⟨hp, hps⟩ := forall_mem_cons.1 hps
    obtain ⟨hor, horCovers⟩ := orIn_spec hl hp
    obtain ⟨hfold, hfoldCovers⟩ := ih hps hor
    refine ⟨hfold, fun v => ?_⟩
    rw [foldl_cons, hfoldCovers, horCovers, exists_mem_cons_iff, or_assoc]

lemma separated_nil : Separated (lo (α := α)) hi [] := ⟨forall_mem_nil _, .nil⟩

lemma andGroups_spec {groups : List (OrGroup α)}
    (hgrp : ∀ g ∈ groups, ∀ p ∈ g.preds, p.Ordered dom) (hl : Separated lo hi l) :
    Separated lo hi (andGroups dom l groups) ∧ ∀ v, Covers (andGroups dom l groups) v ↔
        Covers l v ∧ ∀ g ∈ groups, ∃ p ∈ g.preds, p.Admits dom v := by
  induction groups generalizing l with
  | nil => exact ⟨hl, by simp [andGroups]⟩
  | cons g groups ih =>
    obtain ⟨hg, hgrp⟩ := forall_mem_cons.1 hgrp
    rw [andGroups]
    split_ifs with hemp
    · subst hemp
      exact ⟨hl, by simp [Covers]⟩
    · obtain ⟨hor, horCovers⟩ := foldl_orIn_spec hg separated_nil
      obtain ⟨hand, handCovers⟩ := intersect_spec hl hor
      obtain ⟨hrest, hrestCovers⟩ := ih hgrp hand
      refine ⟨hrest, fun v => ?_⟩
      rw [orResult, hrestCovers, handCovers, horCovers, forall_mem_cons, and_assoc]
      simp [Covers]

variable {gen : MdamColumnGen α}

lemma exists_of_mem_groups {g : OrGroup α}
    (hg : g ∈ gen.groups disjunctNumber) : ∃ groups ∈ gen.disjuncts, g ∈ groups := by
  unfold MdamColumnGen.groups at hg
  by_cases hlt : disjunctNumber < gen.disjuncts.length
  · rw [getD_eq_getElem _ _ hlt] at hg
    exact ⟨_, getElem_mem hlt, hg⟩
  · rw [getD_eq_default _ _ (not_lt.1 hlt)] at hg
    cases hg

lemma disjunctIntervals_spec (h : gen.Ordered) (disjunctNumber : ℕ) :
    Separated lo hi (gen.disjunctIntervals disjunctNumber) ∧
      ∀ v, Covers (gen.disjunctIntervals disjunctNumber) v ↔
        (gen.domain.lo ≤ v ∧ v ≤ gen.domain.hi) ∧ gen.Admits disjunctNumber v := by
  have hgrp : ∀ g ∈ gen.groups disjunctNumber, ∀ p ∈ g.preds, p.Ordered gen.domain := by
    intro g hg
    obtain ⟨groups, hmem, hg⟩ := exists_of_mem_groups hg
    exact h groups hmem g hg
  have hdomain : gen.domain.lo ≤ gen.domain.hi :=
    gen.domain.lo_le.trans (gen.domain.nonNull_le.trans gen.domain.le_hi)
  obtain ⟨hseparated, hcov⟩ := andGroups_spec hgrp (separated_singleton
    (i := ⟨⟨gen.domain.lo, .included⟩, ⟨gen.domain.hi, .included⟩, []⟩) (by
      refine Prod.Lex.toLex_le_toLex.2 (hdomain.lt_or_eq.imp_right fun heq => ⟨heq, ?_⟩)
      simp))
  refine ⟨hseparated, fun v => (hcov v).trans ?_⟩
  simp [Covers, contains_mk, MdamColumnGen.Admits]

/-! ### The network -/

def MergedIn (gens : List (MdamColumnGen α)) (disjunctNumber : ℕ) : Prop :=
  ∀ gen ∈ gens, gen.disjunctIntervals disjunctNumber ≠ []

instance (gens : List (MdamColumnGen α)) (disjunctNumber : ℕ) :
    Decidable (MergedIn gens disjunctNumber) :=
  inferInstanceAs (Decidable (∀ gen ∈ gens, gen.disjunctIntervals disjunctNumber ≠ []))

def mergedIntervals (gens : List (MdamColumnGen α)) (gen : MdamColumnGen α) :
    ℕ → List (MdamInterval α)
  | 0 => []
  | n + 1 =>
    if MergedIn gens n then
      unionSeparateDisjuncts (mergedIntervals gens gen n) (gen.disjunctIntervals n) n
    else mergedIntervals gens gen n

lemma mergedIntervals_spec (gens : List (MdamColumnGen α)) (h : gen.Ordered) (num : ℕ) :
    Separated lo hi (mergedIntervals gens gen num) ∧
      ∀ v n, Refers (mergedIntervals gens gen num) v n ↔
        n < num ∧ MergedIn gens n ∧ Covers (gen.disjunctIntervals n) v := by
  induction num with
  | zero => exact ⟨separated_nil, by simp [mergedIntervals, Refers]⟩
  | succ m ih =>
    obtain ⟨hseparated, hrefers⟩ := ih
    rw [mergedIntervals]
    split_ifs with hmgd
    · obtain ⟨hunion, hunionRefers⟩ :=
        unionSeparateDisjuncts_spec hseparated (disjunctIntervals_spec h m).1 m
      refine ⟨hunion, fun v n => ?_⟩
      rw [hunionRefers, hrefers, Nat.lt_succ_iff_lt_or_eq]
      constructor
      · rintro (⟨hlt, hrest⟩ | ⟨rfl, hcov⟩)
        · exact ⟨.inl hlt, hrest⟩
        · exact ⟨.inr rfl, hmgd, hcov⟩
      · rintro ⟨hlt | rfl, hrest⟩
        · exact .inl ⟨hlt, hrest⟩
        · exact .inr ⟨rfl, hrest.2⟩
    · refine ⟨hseparated, fun v n => ?_⟩
      rw [hrefers, Nat.lt_succ_iff_lt_or_eq]
      constructor
      · rintro ⟨hlt, hrest⟩
        exact ⟨.inl hlt, hrest⟩
      · rintro ⟨hlt | rfl, hrest⟩
        · exact ⟨hlt, hrest⟩
        · exact (hmgd hrest.1).elim

/-- The column `c'` is `c` after it has built a disjunct. -/
structure BuiltFrom (disjunctNumber : ℕ) (c c' : MdamColumn α) : Prop where
  columnGenInfo : c'.columnGenInfo = c.columnGenInfo
  intervals : c'.intervals = c.intervals
  tentative : c'.tentativeIntervals = c.columnGenInfo.disjunctIntervals disjunctNumber
  preds : ∃ left : List (PredNode α), (∀ p ∈ left, p.disjunctNumber < disjunctNumber + 1) ∧
    c'.currentPred = left ++ predList (disjunctNumber + 1)
      (c'.columnGenInfo.disjuncts.drop (disjunctNumber + 1))

variable {cols : List (MdamColumn α)}

lemma buildDisjuncts_built (h : ∀ c ∈ cols, Ready disjunctNumber c) (built isFirst : Bool) :
    List.Forall₂ (BuiltFrom disjunctNumber) cols
      (buildDisjuncts disjunctNumber built isFirst cols).2 := by
  induction cols generalizing isFirst with
  | nil => exact .nil
  | cons c cols ih =>
    obtain ⟨hc, hcolumns⟩ := forall_mem_cons.1 h
    obtain ⟨currentPred, hpreds, heq⟩ := buildDisjunct_eq hc isFirst
      (buildDisjuncts disjunctNumber built false cols).1
    simp only [buildDisjuncts, heq]
    exact .cons ⟨rfl, rfl, rfl, hpreds⟩ (ih hcolumns false)

/-- A column after the disjuncts below `disjunctNumber`. -/
structure Built (gens : List (MdamColumnGen α)) (disjunctNumber : ℕ) (c : MdamColumn α) : Prop
    extends Ready disjunctNumber c where
  intervals : c.intervals = mergedIntervals gens c.columnGenInfo disjunctNumber

section
variable {cols cols' : List (MdamColumn α)} (h : List.Forall₂ (BuiltFrom disjunctNumber) cols cols')
include h

lemma exists_builtFrom {c' : MdamColumn α}
    (hc' : c' ∈ cols') : ∃ c ∈ cols, BuiltFrom disjunctNumber c c' := by
  induction h with
  | nil => cases hc'
  | @cons c d cols cols' hd _ ih =>
    rcases mem_cons.1 hc' with rfl | hc'
    · exact ⟨c, mem_cons_self, hd⟩
    · obtain ⟨b, hb, hblt⟩ := ih hc'
      exact ⟨b, mem_cons_of_mem c hb, hblt⟩

lemma map_columnGenInfo_eq :
    cols'.map columnGenInfo = cols.map columnGenInfo := by
  induction h with
  | nil => rfl
  | cons hd _ ih => rw [map_cons, map_cons, hd.columnGenInfo, ih]

lemma any_disjunctIsEmpty_iff : cols'.any disjunctIsEmpty ↔
      ¬ MergedIn (cols.map columnGenInfo) disjunctNumber := by
  induction h with
  | nil => simp [MergedIn]
  | @cons c c' cols cols' hd _ ih =>
    rw [any_cons, Bool.or_eq_true, ih, disjunctIsEmpty, hd.tentative, List.isEmpty_iff]
    simp only [MergedIn, map_cons, forall_mem_cons]
    tauto

end

lemma addDisjunct_built
    (h : ∀ c ∈ cols, Built (cols.map columnGenInfo) disjunctNumber c) (built : Bool) :
    (∀ c ∈ addDisjunct built cols disjunctNumber,
      Built (cols.map columnGenInfo) (disjunctNumber + 1) c) ∧
    (addDisjunct built cols disjunctNumber).map columnGenInfo = cols.map columnGenInfo := by
  have hblt := buildDisjuncts_built (fun c hc => (h c hc).toReady) built true
  unfold addDisjunct
  simp only
  refine ⟨fun c' hc' => ?_, ?_⟩
  · split_ifs at hc' with hemp
    all_goals
      obtain ⟨c', hmem, rfl⟩ := mem_map.1 hc'
      obtain ⟨c, hc, hfrom⟩ := exists_builtFrom hblt hmem
      refine ⟨⟨rfl, hfrom.preds⟩, ?_⟩
      rw [mergedIntervals]
    · rw [if_neg ((any_disjunctIsEmpty_iff hblt).1 hemp)]
      change c'.intervals = mergedIntervals _ c'.columnGenInfo _
      rw [hfrom.intervals, hfrom.columnGenInfo, (h c hc).intervals]
    · rw [if_pos (not_not.1 (mt (any_disjunctIsEmpty_iff hblt).2 hemp))]
      change unionSeparateDisjuncts c'.intervals c'.tentativeIntervals _ =
        unionSeparateDisjuncts (mergedIntervals _ c'.columnGenInfo _)
          (c'.columnGenInfo.disjunctIntervals _) _
      rw [hfrom.intervals, hfrom.tentative, hfrom.columnGenInfo, (h c hc).intervals]
  · split_ifs <;> rw [map_map] <;> exact map_columnGenInfo_eq hblt

lemma foldl_addDisjunct_built {gens : List (MdamColumnGen α)}
    (hgens : cols.map columnGenInfo = gens) (h : ∀ c ∈ cols, Built gens 0 c)
    (built : Bool) (num : ℕ) : (∀ c ∈ (range num).foldl (addDisjunct built) cols,
      Built gens num c) ∧ ((range num).foldl (addDisjunct built) cols).map
      columnGenInfo = gens := by
  induction num with
  | zero => exact ⟨h, hgens⟩
  | succ n ih =>
    obtain ⟨hblt, heq⟩ := ih
    obtain ⟨hnext, hnextEq⟩ := addDisjunct_built (heq ▸ hblt) built
    rw [heq] at hnext hnextEq
    rw [range_succ, foldl_append]
    exact ⟨hnext, hnextEq⟩

lemma buildNetwork_built (cols : List (MdamColumn α)) (built : Bool) (num : ℕ) :
    (∀ c ∈ buildNetwork built num cols, Built (cols.map columnGenInfo) num c) ∧
    (buildNetwork built num cols).map columnGenInfo = cols.map columnGenInfo := by
  refine foldl_addDisjunct_built ?_ ?_ built num
  · rw [map_map]
    rfl
  · exact forall_mem_map.2 fun _ _ => ⟨⟨rfl, [], forall_mem_nil _, rfl⟩, rfl⟩

/-! ### Predicates whose operands fit -/

structure MdamPred.Proper (dom : Domain α) (p : MdamPred α) : Prop where
  operandsFit : p.OperandsFit dom
  ordered : ∀ i ∈ p.interval dom, lo i ≤ hi i

def MdamColumnGen.Proper (gen : MdamColumnGen α) : Prop :=
  ∀ groups ∈ gen.disjuncts, ∀ g ∈ groups, ∀ p ∈ g.preds, p.Proper gen.domain

def MdamColumnGen.Satisfies (gen : MdamColumnGen α) (disjunctNumber : ℕ) (v : α) : Prop :=
  ∀ g ∈ gen.groups disjunctNumber, ∃ p ∈ g.preds, p.Satisfies gen.domain v

lemma MdamColumnGen.Proper.ordered (h : gen.Proper) : gen.Ordered :=
  fun groups hgrp g hg p hp => (h groups hgrp g hg p hp).ordered

lemma MdamColumnGen.Proper.admits_iff (h : gen.Proper) (disjunctNumber : ℕ) (v : α) :
    gen.Admits disjunctNumber v ↔ gen.Satisfies disjunctNumber v := by
  refine forall₂_congr fun g hg => exists_congr fun p => and_congr_right fun hp => ?_
  obtain ⟨groups, hmem, hg⟩ := exists_of_mem_groups hg
  exact interval_contains_iff (h groups hmem g hg p hp).operandsFit

lemma proper_of_mem_buildNetwork
    (hproper : ∀ c ∈ cols, c.columnGenInfo.Proper) {built : Bool} {num : ℕ}
    {c : MdamColumn α} (hc : c ∈ buildNetwork built num cols) : c.columnGenInfo.Proper := by
  have hmem : c.columnGenInfo ∈ cols.map columnGenInfo :=
    (buildNetwork_built cols built num).2 ▸ mem_map_of_mem hc
  obtain ⟨d, hd, heq⟩ := mem_map.1 hmem
  exact heq ▸ hproper d hd

/-- The intervals of a column are ascending and pairwise disjoint, and the interval around a value
refers to the merged disjuncts whose predicates on the column the value satisfies. -/
structure Partitioned (gens : List (MdamColumnGen α)) (numDisjuncts : ℕ) (c : MdamColumn α) :
    Prop where
  begins_before : ∀ i ∈ c.intervals, i.beginPoint.val ≤ i.endPoint.val
  ascending : c.intervals.Pairwise fun i j => i.endPoint.val ≤ j.beginPoint.val ∧
    ∀ v, ¬ (i.contains v ∧ j.contains v)
  refers : ∀ v, c.domain.lo ≤ v → v ≤ c.domain.hi → ∀ n,
    ((∃ i ∈ c.intervals, i.contains v ∧ n ∈ i.refList) ↔
      n < numDisjuncts ∧ MergedIn gens n ∧ c.columnGenInfo.Satisfies n v)

lemma partitioned_of_proper (hproper : ∀ c ∈ cols, c.columnGenInfo.Proper) {built : Bool}
    {num : ℕ} {c : MdamColumn α} (hc : c ∈ buildNetwork built num cols) :
    Partitioned (cols.map columnGenInfo) num c := by
  have hgen := proper_of_mem_buildNetwork hproper hc
  have hintervals := ((buildNetwork_built cols built num).1 c hc).intervals
  obtain ⟨hseparated, hrefers⟩ := mergedIntervals_spec
    (cols.map columnGenInfo) hgen.ordered num
  rw [← hintervals] at hseparated hrefers
  refine ⟨fun i hi => ?_, ?_, fun v hlo hhi n => ?_⟩
  · exact (Prod.Lex.toLex_le_toLex.1 (hseparated.le i hi)).elim le_of_lt fun h => h.1.le
  · refine hseparated.pairwise.imp fun {i j} hij => ⟨?_, fun v hboth => ?_⟩
    · exact (Prod.Lex.toLex_le_toLex.1 hij).elim le_of_lt fun h => h.1.le
    · rw [contains_iff, contains_iff] at hboth
      exact (hboth.1.2.trans_le hij).not_ge hboth.2.1
  · refine (hrefers v n).trans ?_
    rw [(disjunctIntervals_spec hgen.ordered n).2, hgen.admits_iff]
    simp only [and_congr_right_iff]
    exact fun _ _ => and_iff_right ⟨hlo, hhi⟩

/-! ### Inverted ranges -/

section inverted
variable {p : MdamPred α} {b e : MdamPoint α}

/-- The bounds of a BETWEEN after the rounding of its operands, in the order of the column. -/
inductive MdamPred.Bounds (p : MdamPred α) : MdamPoint α → MdamPoint α → Prop
  | ascending {pv pv2 : Operand α} {s e : Inclusion} : p.predType = .between →
      p.reverseEndpoints = false → p.value = some pv → p.value2 = some pv2 →
      transformStart p.getStartInclusion pv.convResult = some s →
      transformEnd p.getEndInclusion pv2.convResult = some e →
      Bounds p ⟨pv.val, s⟩ ⟨pv2.val, e⟩
  | descending {pv pv2 : Operand α} {s e : Inclusion} : p.predType = .between →
      p.reverseEndpoints = true → p.value = some pv → p.value2 = some pv2 →
      transformStart p.getStartInclusion pv.convResult = some s →
      transformEnd p.getEndInclusion pv2.convResult = some e →
      Bounds p ⟨pv2.val, e⟩ ⟨pv.val, s⟩

/-- The lower bound of a BETWEEN is above the upper one, or they are equal and both excluded. -/
def MdamPred.Inverted (p : MdamPred α) : Prop :=
  ∃ b e, p.Bounds b e ∧ (e.val < b.val ∨
    e.val = b.val ∧ b.inclusion = .excluded ∧ e.inclusion = .excluded)

/-- A BETWEEN does not begin after the highest value of the column. -/
def MdamPred.BeginsInside (dom : Domain α) (p : MdamPred α) : Prop :=
  ∀ b e, p.Bounds b e → b ≠ ⟨dom.hi, .excluded⟩

lemma interval_of_bounds (dom : Domain α) (h : p.Bounds b e) :
    p.interval dom = some ⟨b, e, []⟩ := by
  obtain ⟨htype, hrev, hval, hval2, hs, he⟩ | ⟨htype, hrev, hval, hval2, hs, he⟩ := h <;>
    simp [MdamPred.interval, MdamPred.evaluate, MdamPred.getTransformedPredType, orAccumulator,
      htype, hrev, hval, hval2, hs, he]

lemma bounds_of_mem_interval {i : MdamInterval α} (htype : p.predType = .between)
    (h : i ∈ p.interval dom) : p.Bounds i.beginPoint i.endPoint := by
  unfold MdamPred.interval MdamPred.evaluate at h
  cases hval : p.value with
  | none => simp [hval] at h
  | some pv =>
    cases hval2 : p.value2 with
    | none => simp [hval, htype, hval2] at h
    | some pv2 =>
      cases hs : transformStart p.getStartInclusion pv.convResult with
      | none => simp [hval, htype, hval2, MdamPred.getTransformedPredType, hs, orAccumulator] at h
      | some s =>
        cases he : transformEnd p.getEndInclusion pv2.convResult with
        | none =>
          simp [hval, htype, hval2, MdamPred.getTransformedPredType, hs, he, orAccumulator] at h
        | some e =>
          simp only [hval, htype, hval2, MdamPred.getTransformedPredType, hs, he, orAccumulator,
            if_true, Option.map_some] at h
          cases hrev : p.reverseEndpoints with
          | false =>
            obtain rfl : ⟨⟨pv.val, s⟩, ⟨pv2.val, e⟩, []⟩ = i := by simpa [hrev] using h
            exact .ascending htype hrev hval hval2 hs he
          | true =>
            obtain rfl : ⟨⟨pv2.val, e⟩, ⟨pv.val, s⟩, []⟩ = i := by simpa [hrev] using h
            exact .descending htype hrev hval hval2 hs he

lemma Operand.Fits.inside {β : Type*} [LinearOrder β] {least greatest : β} {o : Operand β}
    (h : o.Fits least greatest) (hle : least ≤ greatest) (hconv : o.convResult ≠ .failed) :
    least ≤ o.val ∧ o.val ≤ greatest := by
  unfold Operand.Fits at h
  split at h
  · exact h
  · exact h
  · exact h
  · exact ⟨h ▸ hle, h.le⟩
  · exact ⟨h.ge, h ▸ hle⟩
  · next hr => exact absurd hr hconv
  · exact h.elim

lemma ne_failed_of_transformStart {inc : Inclusion} {r : ConvResult}
    (h : (transformStart inc r).isSome) : r ≠ .failed := by
  rintro rfl
  cases inc <;> cases h

lemma ne_failed_of_transformEnd {inc : Inclusion} {r : ConvResult}
    (h : (transformEnd inc r).isSome) : r ≠ .failed := by
  rintro rfl
  cases inc <;> cases h

/-- The bounds of a BETWEEN whose operands fit are values of the column. -/
theorem MdamPred.Bounds.inside (hfit : p.OperandsFit dom) (h : p.Bounds b e) :
    (dom.lo ≤ b.val ∧ b.val ≤ dom.hi) ∧ dom.lo ≤ e.val ∧ e.val ≤ dom.hi := by
  have hdomain : ∀ v, dom.nonNullLo ≤ v ∧ v ≤ dom.nonNullHi → dom.lo ≤ v ∧ v ≤ dom.hi :=
    fun v hv => ⟨dom.lo_le.trans hv.1, hv.2.trans dom.le_hi⟩
  obtain ⟨htype, hrev, hval, hval2, hs, he⟩ | ⟨htype, hrev, hval, hval2, hs, he⟩ := h
  all_goals
    have hconv := ne_failed_of_transformStart (Option.isSome_iff_exists.2 ⟨_, hs⟩)
    have hconv2 := ne_failed_of_transformEnd (Option.isSome_iff_exists.2 ⟨_, he⟩)
    simp only [MdamPred.OperandsFit, htype, hrev, if_true, if_false, Bool.false_eq_true] at hfit
    have hpv := hfit _ (.inl hval)
    have hpv2 := hfit _ (.inr hval2)
  · exact ⟨hdomain _ (hpv.inside dom.nonNull_le hconv),
      hdomain _ (hpv2.inside dom.nonNull_le hconv2)⟩
  · exact ⟨hdomain _ (hpv2.inside dom.nonNull_le hconv2).symm,
      hdomain _ (hpv.inside dom.nonNull_le hconv).symm⟩

lemma lo_le_hi_of_included {i : MdamInterval α} (h : i.beginPoint.val ≤ i.endPoint.val)
    (hinc : i.beginPoint.inclusion = .included ∨ i.endPoint.inclusion = .included) :
    lo i ≤ hi i := by
  refine Prod.Lex.toLex_le_toLex.2 (h.lt_or_eq.imp_right fun heq => ⟨heq, ?_⟩)
  rcases hinc with hinc | hinc <;> simp [hinc]

lemma lo_le_hi_of_not_inverted {i : MdamInterval α} (h : ¬ p.Inverted)
    (hb : p.Bounds i.beginPoint i.endPoint) : lo i ≤ hi i := by
  have hnot : ¬ (i.endPoint.val < i.beginPoint.val ∨ i.endPoint.val = i.beginPoint.val ∧
    i.beginPoint.inclusion = .excluded ∧ i.endPoint.inclusion = .excluded) :=
      fun hinv => h ⟨_, _, hb, hinv⟩
  push Not at hnot
  obtain ⟨hle, hexcluded⟩ := hnot
  rcases hle.lt_or_eq with hlt | heq
  · exact Prod.Lex.toLex_le_toLex.2 (.inl hlt)
  · refine lo_le_hi_of_included hle ?_
    cases hinc : i.beginPoint.inclusion with
    | included => exact .inl rfl
    | excluded =>
      cases hend : i.endPoint.inclusion with
      | included => exact .inr rfl
      | excluded => exact absurd hend (hexcluded heq.symm hinc)

/-- Only a BETWEEN can be inverted. -/
theorem ordered_of_not_inverted (hfit : p.OperandsFit dom) (h : ¬ p.Inverted) :
    p.Ordered dom := by
  intro i hi
  by_cases hbetween : p.predType = .between
  · exact lo_le_hi_of_not_inverted h (bounds_of_mem_interval hbetween hi)
  unfold MdamPred.interval MdamPred.evaluate at hi
  unfold MdamPred.OperandsFit at hfit
  cases hval : p.value with
  | none => simp [hval] at hi
  | some pv =>
    have hinside : (∀ o ∈ p.value, o.Fits dom.nonNullLo dom.nonNullHi) →
        pv.convResult ≠ .failed → dom.nonNullLo ≤ pv.val ∧ pv.val ≤ dom.nonNullHi :=
      fun hfits => (hfits pv hval).inside dom.nonNull_le
    cases htype : p.predType with
    | between => exact absurd htype hbetween
    | lt | le =>
      simp only [hval, htype, MdamPred.getTransformedPredType, reduceCtorEq, if_false,
        orAccumulator_endType, Option.mem_def, Option.map_eq_some_iff] at hi hfit
      obtain ⟨inclusion, ht, rfl⟩ := hi
      have hconv := ne_failed_of_transformEnd (Option.isSome_iff_exists.2 ⟨_, ht⟩)
      exact lo_le_hi_of_included (hinside (hval ▸ hfit) hconv).1 (.inl rfl)
    | gt | ge =>
      simp only [hval, htype, MdamPred.getTransformedPredType, reduceCtorEq, if_false,
        orAccumulator_startType, Option.mem_def, Option.map_eq_some_iff] at hi hfit
      obtain ⟨inclusion, ht, rfl⟩ := hi
      have hconv := ne_failed_of_transformStart (Option.isSome_iff_exists.2 ⟨_, ht⟩)
      exact lo_le_hi_of_included (hinside (hval ▸ hfit) hconv).2 (.inr rfl)
    | eq =>
      simp only [hval, htype, MdamPred.getTransformedPredType, reduceCtorEq, if_false] at hi
      split_ifs at hi with hconv
      · cases hi
      · obtain rfl := Option.some.inj hi
        exact lo_le_hi_of_included le_rfl (.inl rfl)
    | isNull | isNullDesc =>
      simp only [hval, htype, MdamPred.getTransformedPredType, reduceCtorEq, if_false] at hi
      obtain rfl := Option.some.inj hi
      exact lo_le_hi_of_included le_rfl (.inl rfl)
    | isNotNull =>
      simp only [hval, htype, MdamPred.getTransformedPredType, reduceCtorEq, if_false] at hi
      obtain rfl := Option.some.inj hi
      exact lo_le_hi_of_included dom.nonNull_le (.inl rfl)
    | returnFalse =>
      simp [hval, htype, MdamPred.getTransformedPredType, orAccumulator] at hi

/-! ### An inverted range in a network of two disjuncts -/

/-- The bounds of an inverted range lie inside `[low` and `high]`. -/
structure InvertedIn (low high : α) (b e : MdamPoint α) : Prop where
  begins : low < b.val ∨ low = b.val ∧ b.inclusion = .excluded
  begins_before : b.val < high ∨ b.val = high ∧ b.inclusion = .included
  ends_before : e.val < high
  inverted : e.val < b.val ∨
    e.val = b.val ∧ b.inclusion = .excluded ∧ e.inclusion = .excluded

lemma MdamPred.Inverted.inside (hfit : p.OperandsFit dom) (hbegin : p.BeginsInside dom)
    (h : p.Inverted) : ∃ b e, p.Bounds b e ∧ InvertedIn dom.lo dom.hi b e := by
  obtain ⟨⟨b, s⟩, ⟨e, t⟩, hb, hinv⟩ := h
  obtain ⟨⟨hlo, hhi⟩, helo, -⟩ := hb.inside hfit
  have hne := hbegin _ _ hb
  refine ⟨_, _, hb, ?_, ?_, ?_, hinv⟩
  · rcases hlo.lt_or_eq with hlt | heq
    · exact .inl hlt
    · refine .inr ⟨heq, ?_⟩
      rcases hinv with hlt | hinv
      · exact absurd (heq ▸ helo) hlt.not_ge
      · exact hinv.2.1
  · rcases hhi.lt_or_eq with hlt | heq
    · exact .inl hlt
    · refine .inr ⟨heq, ?_⟩
      cases s with
      | included => rfl
      | excluded => exact absurd (congrArg (MdamPoint.mk · _) heq) hne
  · rcases hinv with hlt | ⟨heq, hs, -⟩
    · exact hlt.trans_le hhi
    · refine (heq.trans_le hhi).lt_of_ne fun hlast => hne ?_
      obtain rfl : s = .excluded := hs
      exact congrArg (MdamPoint.mk · _) (heq.symm.trans hlast)

end inverted
section separate
variable {low high : α} {b e : MdamPoint α} (refs : List ℕ)

/-- The endpoints of the range come between the endpoints of the column. -/
lemma InvertedIn.merge_eq (h : InvertedIn low high b e) :
    merge (endPoints0 [⟨⟨low, .included⟩, ⟨high, .included⟩, refs⟩]) (endPoints1 [⟨b, e, []⟩]) =
      [⟨⟨low, .included⟩, .beginning, some ⟨⟨low, .included⟩, ⟨high, .included⟩, refs⟩, none⟩,
        ⟨b, .beginning, none, some ⟨b, e, []⟩⟩, ⟨e, .ending, none, some ⟨b, e, []⟩⟩,
        ⟨⟨high, .included⟩, .ending, some ⟨⟨low, .included⟩, ⟨high, .included⟩, refs⟩, none⟩] := by
  have hfirst : ∀ i j i' j', (⟨⟨low, .included⟩, .beginning, i, j⟩ : MdamEndPoint α).compare
      ⟨b, .beginning, i', j'⟩ = .lt := by
    intro i j i' j'
    rcases h.begins with hlt | ⟨heq, hinc⟩
    · simp [MdamEndPoint.compare, compare_lt_iff_lt.2 hlt]
    · simp [MdamEndPoint.compare, MdamEndPoint.rank, heq, hinc, compare_lt_iff_lt]
  have hlast : ∀ i j i' j', (⟨⟨high, .included⟩, .ending, i, j⟩ : MdamEndPoint α).compare
      ⟨b, .beginning, i', j'⟩ = .gt := by
    intro i j i' j'
    rcases h.begins_before with hlt | ⟨heq, hinc⟩
    · simp [MdamEndPoint.compare, compare_gt_iff_gt.2 hlt]
    · simp [MdamEndPoint.compare, MdamEndPoint.rank, heq, hinc, compare_gt_iff_gt]
  have hend : ∀ i j i' j', (⟨⟨high, .included⟩, .ending, i, j⟩ : MdamEndPoint α).compare
      ⟨e, .ending, i', j'⟩ = .gt := by
    intro i j i' j'
    simp [MdamEndPoint.compare, compare_gt_iff_gt.2 h.ends_before]
  simp [endPoints0, endPoints1, endPoints, merge, mergeInto, hfirst, hlast, hend]

lemma InvertedIn.intersect_eq (h : InvertedIn low high b e) :
    intersect [⟨⟨low, .included⟩, ⟨high, .included⟩, refs⟩] [⟨b, e, []⟩] = [⟨b, e, []⟩] := by
  rw [intersect, h.merge_eq]
  simp [intersectLoop, activeIntervals]

/-- The pieces before and after the range. -/
lemma InvertedIn.separate_eq (h : InvertedIn low high b e) (disjunctNum : ℕ) :
    let whole : MdamInterval α := ⟨⟨low, .included⟩, ⟨high, .included⟩, refs⟩
    ∃ middle, unionSeparateDisjuncts [whole] [⟨b, e, []⟩] disjunctNum =
      ⟨⟨low, .included⟩, b.reverseInclusion, createRefList (some whole) none disjunctNum⟩ ::
        (middle ++ [⟨e.reverseInclusion, ⟨high, .included⟩,
          createRefList (some whole) none disjunctNum⟩]) := by
  intro whole
  have hbegins : ¬ b.val = low ∨ b.inclusion = .excluded :=
    h.begins.imp (fun hlt => hlt.ne') And.right
  have hends : ¬ high = e.reverseInclusion.val := h.ends_before.ne'
  rw [unionSeparateDisjuncts, h.merge_eq]
  by_cases hval : e.val = b.val
  · have hexcluded : b.inclusion = .excluded :=
      h.inverted.elim (fun hlt => absurd hval hlt.ne) fun hinv => hinv.2.1
    refine ⟨[], ?_⟩
    simp [unionSeparateLoop, activeIntervals, MdamEndPoint.givesNonEmptyInterval,
      MdamEndPoint.adjustIntervalPtr, asPrevious, asEnd, MdamEndPoint.reverseInclusion,
      hends, hval, hexcluded, whole]
  · refine ⟨[⟨b, e, createRefList (some whole) (some ⟨b, e, []⟩) disjunctNum⟩], ?_⟩
    simp [unionSeparateLoop, activeIntervals, MdamEndPoint.givesNonEmptyInterval,
      MdamEndPoint.adjustIntervalPtr, asPrevious, asEnd, MdamEndPoint.reverseInclusion,
      hends, hbegins, hval, whole]

/-- The pieces before and after the range are not ascending, or they overlap. -/
theorem InvertedIn.not_ascending (h : InvertedIn low high b e) (disjunctNum : ℕ) :
    ¬ (unionSeparateDisjuncts [⟨⟨low, .included⟩, ⟨high, .included⟩, refs⟩] [⟨b, e, []⟩]
        disjunctNum).Pairwise fun i j => i.endPoint.val ≤ j.beginPoint.val ∧
      ∀ v, ¬ (i.contains v ∧ j.contains v) := by
  obtain ⟨middle, heq⟩ := h.separate_eq refs disjunctNum
  rw [heq, pairwise_cons]
  intro hpairwise
  obtain ⟨hle, hdisjoint⟩ := hpairwise.1 _ (mem_append_right _ (mem_singleton_self _))
  rcases h.inverted with hlt | ⟨hval, hb, he⟩
  · exact hlt.not_ge hle
  · have hlow : low ≤ b.val := h.begins.elim le_of_lt fun hlow => hlow.1.le
    have hhigh : b.val ≤ high := hval ▸ h.ends_before.le
    refine hdisjoint b.val ?_
    simp [MdamInterval.contains, MdamPoint.reverseInclusion, Inclusion.reverse, hb, he, hval, hlow,
      hhigh]

end separate

/-- The predicates on a column belong to a class of predicates. -/
def MdamColumnGen.PredsIn (allowed : Domain α → MdamPred α → Prop) (gen : MdamColumnGen α) : Prop :=
  ∀ groups ∈ gen.disjuncts, ∀ g ∈ groups, ∀ p ∈ g.preds, allowed gen.domain p

/-- A column without a predicate in disjunct 0 and with one predicate in disjunct 1. -/
def secondDisjunct (dom : Domain α) (p : MdamPred α) : MdamColumn α where
  columnGenInfo := ⟨dom, [[], [⟨p, []⟩]]⟩
  currentPred := []
  intervals := []
  tentativeIntervals := []
  stopList := []

/-- A network with an inverted BETWEEN whose column is not partitioned. -/
theorem secondDisjunct_not_partitioned {p : MdamPred α} (hfit : p.OperandsFit dom)
    (hbegin : p.BeginsInside dom) (h : p.Inverted) :
    ∃ c ∈ buildNetwork false 2 [secondDisjunct dom p],
      ¬ Partitioned [(secondDisjunct dom p).columnGenInfo] 2 c := by
  obtain ⟨b, e, hbounds, hinv⟩ := h.inside hfit hbegin
  obtain ⟨hbuilt, hgens⟩ := buildNetwork_built [secondDisjunct dom p] false 2
  obtain ⟨c, hc, hgen⟩ := map_eq_singleton_iff.1 hgens
  have hmem : c ∈ buildNetwork false 2 [secondDisjunct dom p] := hc ▸ mem_singleton_self c
  refine ⟨c, hmem, fun hpartitioned => ?_⟩
  have hsecond : (secondDisjunct dom p).columnGenInfo.disjunctIntervals 1 = [⟨b, e, []⟩] := by
    rw [← hinv.intersect_eq []]
    simp [secondDisjunct, MdamColumnGen.disjunctIntervals, MdamColumnGen.groups, andGroups, orResult,
      OrGroup.preds, orIn, interval_of_bounds dom hbounds]
  have hfirst : (secondDisjunct dom p).columnGenInfo.disjunctIntervals 0 =
      [⟨⟨dom.lo, .included⟩, ⟨dom.hi, .included⟩, []⟩] := rfl
  have hintervals : c.intervals = unionSeparateDisjuncts
      [⟨⟨dom.lo, .included⟩, ⟨dom.hi, .included⟩, [0]⟩] [⟨b, e, []⟩] 1 := by
    rw [(hbuilt c hmem).intervals, hgen]
    simp only [mergedIntervals, MergedIn, mem_singleton, forall_eq, map_singleton, hfirst, hsecond,
      ne_eq, cons_ne_nil, not_false_eq_true, if_true]
    congr 1
    simp [unionSeparateDisjuncts, endPoints0, endPoints1, endPoints, merge, unionSeparateLoop,
      activeIntervals, MdamEndPoint.givesNonEmptyInterval, MdamEndPoint.adjustIntervalPtr, asPrevious,
      asEnd, createRefList, insertDisjunctNum]
  exact hinv.not_ascending [0] 1 (hintervals ▸ hpartitioned.ascending)

def between (b : ℕ × ℕ) : MdamPred ℕ :=
  ⟨.between, some ⟨b.1, .ok⟩, some ⟨b.2, .ok⟩, true, true, false⟩

def betweenColumn (bounds : List (ℕ × ℕ)) : MdamColumn ℕ where
  columnGenInfo :=
    { domain := ⟨0, 0, 30, 30, le_rfl, by omega, le_rfl⟩
      disjuncts := bounds.map fun b => [⟨between b, []⟩] }
  currentPred := []
  intervals := []
  tentativeIntervals := []
  stopList := []

lemma bounds_between {b : ℕ × ℕ} {b' e : MdamPoint ℕ} (h : (between b).Bounds b' e) :
    b' = ⟨b.1, .included⟩ ∧ e = ⟨b.2, .included⟩ := by
  obtain ⟨-, -, hval, hval2, hs, he⟩ | ⟨-, hrev, -, -, -, -⟩ := h
  · obtain rfl := Option.some.inj hval
    obtain rfl := Option.some.inj hval2
    obtain rfl := Option.some.inj hs
    obtain rfl := Option.some.inj he
    exact ⟨rfl, rfl⟩
  · cases hrev

lemma between_fits {b : ℕ × ℕ} (h : b.1 ≤ 30 ∧ b.2 ≤ 30) :
    (between b).OperandsFit (betweenColumn []).domain ∧
      (between b).BeginsInside (betweenColumn []).domain := by
  refine ⟨?_, fun b' e hbounds => ?_⟩
  · rintro o (ho | ho)
    · obtain rfl := Option.some.inj ho
      exact ⟨Nat.zero_le _, h.1⟩
    · obtain rfl := Option.some.inj ho
      exact ⟨Nat.zero_le _, h.2⟩
  · rw [(bounds_between hbounds).1]
    simp

end Trafodion.Mdam
