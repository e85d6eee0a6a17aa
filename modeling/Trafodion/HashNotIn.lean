import Mathlib.Data.List.Perm.Basic
import Trafodion.Runs

/-!
# NOT IN by hash join

A NOT IN subquery becomes an anti-semi hash join of the outer table with the subquery. The
build phase gives up at the first null of the inner table, and the probe phase drops the
nulls of the outer table unless the inner table was empty. Whether it was is remembered in a
flag of the operator, which outlives the request. Rows of clusters that did not fit into
memory are set aside and joined cluster by cluster at the end, over several passes when the
inner cluster does not fit either.

A request returns what NOT IN asks for unless an earlier one left the flag behind, or a
cluster was split off without an outer cluster (`serve_returns_not_in`).
-/
namespace Trafodion.HashJoin

open List Function

/-! ### The predicate -/

section NotIn

variable {κ : Type*} [DecidableEq κ]

/-- Equality in three-valued logic; `none` is unknown. -/
def sqlEq : Option κ → Option κ → Option Bool
  | some a, some b => some (a = b)
  | _, _ => none

/-- `x NOT IN (keys)`: false when some comparison is true, unknown when one is unknown. -/
def notIn (x : Option κ) (keys : List (Option κ)) : Option Bool :=
  if ∃ key ∈ keys, sqlEq x key = some true then some false
  else if ∃ key ∈ keys, sqlEq x key = none then none
  else some true

lemma notIn_eq_true {x : Option κ} {keys : List (Option κ)} :
    notIn x keys = some true ↔ ∀ key ∈ keys, sqlEq x key = some false := by
  unfold notIn
  constructor
  · intro h key hkey
    split at h
    · cases h
    · next htrue =>
      split at h
      · cases h
      · next hunknown =>
        push Not at htrue hunknown
        match he : sqlEq x key with
        | some true => exact absurd he (htrue key hkey)
        | some false => rfl
        | none => exact absurd he (hunknown key hkey)
  · intro h
    rw [if_neg, if_neg]
    all_goals
      rintro ⟨key, hkey, he⟩
      rw [h key hkey] at he
      cases he

end NotIn

/-! ### The operator -/

variable {α β κ : Type*} [DecidableEq κ]

/-- What is fixed when the operator is built: the keys, their hash values and the number of
buckets. -/
structure Tdb (α β κ : Type*) where
  leftKey : α → Option κ
  rightKey : β → Option κ
  hashKey : Option κ → ℕ
  bucketCount : ℕ
  bucketCount_pos : 0 < bucketCount

namespace Tdb

variable (tdb : Tdb α β κ)

def nullHashValue : ℕ := tdb.hashKey none

def leftBucket (row : α) : ℕ := tdb.hashKey (tdb.leftKey row) % tdb.bucketCount

def rightBucket (row : β) : ℕ := tdb.hashKey (tdb.rightKey row) % tdb.bucketCount

def Matches (left : α) (right : β) : Prop :=
  sqlEq (tdb.leftKey left) (tdb.rightKey right) = some true

instance (left : α) (right : β) : Decidable (tdb.Matches left right) :=
  inferInstanceAs (Decidable (_ = _))

end Tdb

structure State (α β : Type*) where
  isInnerEmpty : Bool
  /-- The rows in each bucket of the inner table. -/
  buckets : ℕ → List β
  /-- The rows set aside for each cluster. -/
  outer : ℕ → List α
  returned : List α

def State.start (isInnerEmpty : Bool) : State α β := ⟨isInnerEmpty, fun _ => [], fun _ => [], []⟩

inductive Place
  /-- In memory, with a hash table unless there are none. -/
  | chained
  /-- In a scratch file, with an outer cluster for the outer rows. -/
  | flushed
  /-- In a scratch file, without an outer cluster. Flushing a cluster that is chained already
  may split it, and only the half that keeps its place in the list gets an outer cluster. -/
  | splitOff
  deriving DecidableEq, Repr

structure Clusters (bucketCount : ℕ) where
  count : ℕ
  clusterOf : ℕ → ℕ
  place : ℕ → Place
  clusterOf_lt : ∀ bucket < bucketCount, clusterOf bucket < count

inductive Ending
  | complete
  /-- A cancel or an error after so many rows of the inner input. -/
  | stopInner (rows : ℕ)
  /-- A cancel or an error after so many rows of the outer input. -/
  | stopOuter (rows : ℕ)
  /-- A cancel or an error while the clusters are joined, after so many results. -/
  | stopClusters (rows : ℕ)
  deriving DecidableEq, Repr

structure Request (α β : Type*) (bucketCount : ℕ) where
  right : List β
  left : List α
  clusters : Clusters bucketCount
  /-- For each cluster the numbers of rows read in the passes of a hash loop but the last. -/
  passes : ℕ → List ℕ
  ending : Ending

section Phases

variable (tdb : Tdb α β κ)

variable (clusters : Clusters tdb.bucketCount) (s : State α β)

/-- One row of the inner input; `error` is the cancel at a null. -/
def workReadInner (row : β) : Except (State α β) (State α β) :=
  let s := { s with isInnerEmpty := false }
  if tdb.hashKey (tdb.rightKey row) = tdb.nullHashValue ∧ tdb.rightKey row = none then .error s
  else .ok { s with
    buckets := update s.buckets (tdb.rightBucket row)
      (s.buckets (tdb.rightBucket row) ++ [row]) }

def readInner (rows : List β) : Except (State α β) (State α β) :=
  rows.foldlM (workReadInner tdb) s

/-- One row of the outer input: dropped, set aside, or probed. The probe finds nothing where
there is no hash table. -/
def workReadOuter (row : α) : State α β :=
  let bucket := tdb.leftBucket row
  let cluster := clusters.clusterOf bucket
  if s.isInnerEmpty = false ∧ tdb.hashKey (tdb.leftKey row) = tdb.nullHashValue ∧
      tdb.leftKey row = none then s
  else if clusters.place cluster = .flushed then
    { s with
      outer := update s.outer cluster (s.outer cluster ++ [row]) }
  else if clusters.place cluster = .chained ∧
      ∃ right ∈ s.buckets bucket, tdb.Matches row right then s
  else { s with returned := s.returned ++ [row] }

def readOuter (rows : List α) : State α β :=
  rows.foldl (workReadOuter tdb clusters) s

def passRows : List ℕ → List β → List (List β)
  | [], rows => [rows]
  | n :: passes, rows => rows.take n :: passRows passes (rows.drop n)

/-- The passes over one pair of clusters. Matches are remembered in the bitmap; the last pass
returns the rows that have none. -/
def hashLoop : List (List β) → List (α × Bool) → List α
  | [], _ => []
  | [part], outer =>
    (outer.filter fun row => ¬ (∃ right ∈ part, tdb.Matches row.1 right) ∧ row.2 = false).map
      Prod.fst
  | part :: parts, outer =>
    hashLoop parts (outer.map fun row =>
      (row.1, row.2 || decide (∃ right ∈ part, tdb.Matches row.1 right)))

def clusterRows (cluster : ℕ) : List β :=
  ((range tdb.bucketCount).filter (clusters.clusterOf · = cluster)).flatMap s.buckets

def joinClusters (passes : ℕ → List ℕ) (s : State α β) :
    List α :=
  (range clusters.count).flatMap fun cluster =>
    hashLoop tdb (passRows (passes cluster) (clusterRows tdb clusters s cluster))
      ((s.outer cluster).map (·, false))

/-- Serves one request; the result is the flag it leaves and the rows it returns. The end of
the outer input sets the flag. -/
def serve (isInnerEmpty : Bool) (request : Request α β tdb.bucketCount) : Bool × List α :=
  match request.ending with
  | .stopInner n =>
    match readInner tdb (.start isInnerEmpty) (request.right.take n) with
    | .ok s => (s.isInnerEmpty, [])
    | .error s => (s.isInnerEmpty, [])
  | ending =>
    match readInner tdb (.start isInnerEmpty) request.right with
    | .error s => (s.isInnerEmpty, [])
    | .ok s =>
      match ending with
      | .stopOuter n =>
        let s := readOuter tdb request.clusters s (request.left.take n)
        (s.isInnerEmpty, s.returned)
      | .stopClusters n =>
        let s := readOuter tdb request.clusters s request.left
        (true, s.returned ++ (joinClusters tdb request.clusters request.passes s).take n)
      | _ =>
        let s := readOuter tdb request.clusters s request.left
        (true, s.returned ++ joinClusters tdb request.clusters request.passes s)

def flagAfter (history : List (Request α β tdb.bucketCount)) : Bool :=
  Runs.run (fun flag request => (serve tdb flag request).1) true history

end Phases

/-! ### The phases -/

section Results

variable (tdb : Tdb α β κ)

lemma matches_bucket {x : α} {y : β} (h : tdb.Matches x y) :
    tdb.leftBucket x = tdb.rightBucket y := by
  have hkeys : tdb.leftKey x = tdb.rightKey y := by
    unfold Tdb.Matches at h
    match hx : tdb.leftKey x, hy : tdb.rightKey y with
    | some a, some b =>
      rw [hx, hy, sqlEq, Option.some.injEq, decide_eq_true_eq] at h
      rw [h]
    | none, _ => rw [hx] at h; cases h
    | some _, none => rw [hx, hy] at h; cases h
  rw [Tdb.leftBucket, Tdb.rightBucket, hkeys]

omit [DecidableEq κ] in
/-- Reading the inner input gives up exactly when there is a null; otherwise each bucket has
its rows. -/
theorem readInner_spec (s : State α β) (rows : List β) :
    ((∃ y ∈ rows, tdb.rightKey y = none) ∧
      ∃ s', readInner tdb s rows = .error s' ∧ s'.isInnerEmpty = false) ∨
    (∀ y ∈ rows, tdb.rightKey y ≠ none) ∧
      readInner tdb s rows = .ok { s with
        isInnerEmpty := s.isInnerEmpty && rows.isEmpty
        buckets := fun b => s.buckets b ++ rows.filter (tdb.rightBucket · = b) } := by
  induction rows generalizing s with
  | nil => exact .inr ⟨forall_mem_nil _, by simp [readInner, pure, Except.pure]⟩
  | cons y rows ih =>
    by_cases hy : tdb.rightKey y = none
    · refine .inl ⟨⟨y, mem_cons_self .., hy⟩, { s with isInnerEmpty := false }, ?_, rfl⟩
      rw [readInner, foldlM_cons, workReadInner]
      rw [if_pos ⟨by rw [hy]; rfl, hy⟩]
      rfl
    · let s₁ := { s with
        isInnerEmpty := false
        buckets := update s.buckets (tdb.rightBucket y) (s.buckets (tdb.rightBucket y) ++ [y]) }
      have hstep : readInner tdb s (y :: rows) = readInner tdb s₁ rows := by
        rw [readInner, foldlM_cons, workReadInner, if_neg fun h => hy h.2]
        rfl
      rw [hstep]
      obtain ⟨⟨z, hz, hnull⟩, s', hs', hflag⟩ | ⟨hnone, hok⟩ := ih s₁
      · exact .inl ⟨⟨z, mem_cons_of_mem _ hz, hnull⟩, s', hs', hflag⟩
      · refine .inr ⟨forall_mem_cons.2 ⟨hy, hnone⟩, hok.trans ?_⟩
        congr 2
        · simp
        · funext b
          by_cases hb : b = tdb.rightBucket y
          · subst hb
            simp [s₁]
          · simp [s₁, update_of_ne hb, Ne.symm hb]

def Dropped (isInnerEmpty : Bool) (x : α) : Prop :=
  isInnerEmpty = false ∧ tdb.leftKey x = none

instance (isInnerEmpty : Bool) (x : α) : Decidable (Dropped tdb isInnerEmpty x) :=
  inferInstanceAs (Decidable (_ ∧ _))

variable (x : α) (clusters : Clusters tdb.bucketCount)

def Found (buckets : ℕ → List β) (x : α) : Prop :=
  clusters.place (clusters.clusterOf (tdb.leftBucket x)) = .chained ∧
    ∃ y ∈ buckets (tdb.leftBucket x), tdb.Matches x y

instance (clusters : Clusters tdb.bucketCount) (buckets : ℕ → List β) (x : α) :
    Decidable (Found tdb clusters buckets x) :=
  inferInstanceAs (Decidable (_ ∧ _))

/-- Reading the outer input: what is set aside for each cluster, and what is returned. -/
theorem readOuter_spec (s : State α β) (rows : List α) :
    readOuter tdb clusters s rows = { s with
      outer := fun c => s.outer c ++ rows.filter fun x =>
        ¬ Dropped tdb s.isInnerEmpty x ∧ clusters.place c = .flushed ∧
          clusters.clusterOf (tdb.leftBucket x) = c
      returned := s.returned ++ rows.filter fun x =>
        ¬ Dropped tdb s.isInnerEmpty x ∧
          clusters.place (clusters.clusterOf (tdb.leftBucket x)) ≠ .flushed ∧
          ¬ Found tdb clusters s.buckets x } := by
  induction rows generalizing s with
  | nil => simp [readOuter]
  | cons x rows ih =>
    have hcons : readOuter tdb clusters s (x :: rows) =
        readOuter tdb clusters (workReadOuter tdb clusters s x) rows := rfl
    have hcond : (s.isInnerEmpty = false ∧ tdb.hashKey (tdb.leftKey x) = tdb.nullHashValue ∧
        tdb.leftKey x = none) ↔ Dropped tdb s.isInnerEmpty x :=
      ⟨fun h => ⟨h.1, h.2.2⟩, fun h => ⟨h.1, by rw [h.2]; rfl, h.2⟩⟩
    rw [hcons, ih]
    by_cases hdrop : Dropped tdb s.isInnerEmpty x
    · have hwork : workReadOuter tdb clusters s x = s := if_pos (hcond.2 hdrop)
      rw [hwork]
      simp [hdrop]
    by_cases hflush : clusters.place (clusters.clusterOf (tdb.leftBucket x)) = .flushed
    · have hwork : workReadOuter tdb clusters s x = { s with
          outer := update s.outer (clusters.clusterOf (tdb.leftBucket x))
            (s.outer (clusters.clusterOf (tdb.leftBucket x)) ++ [x]) } :=
        (if_neg (mt hcond.1 hdrop)).trans (if_pos hflush)
      rw [hwork]
      congr 1
      · funext c
        by_cases hc : c = clusters.clusterOf (tdb.leftBucket x)
        · subst hc
          simp [hdrop, hflush]
        · simp [update_of_ne hc, Ne.symm hc]
      · simp [hflush]
    have hnot : ∀ c, ¬ (clusters.place c = .flushed ∧
        clusters.clusterOf (tdb.leftBucket x) = c) := by
      rintro c ⟨hc, rfl⟩
      exact hflush hc
    by_cases hfd : Found tdb clusters s.buckets x
    · have hwork : workReadOuter tdb clusters s x = s :=
        (if_neg (mt hcond.1 hdrop)).trans ((if_neg hflush).trans (if_pos hfd))
      rw [hwork]
      congr 1
      · funext c
        rw [filter_cons_of_neg (by simpa using fun _ hc => hnot c ∘ And.intro hc)]
      · rw [filter_cons_of_neg (by simpa using fun _ _ => hfd)]
    · have hwork : workReadOuter tdb clusters s x = { s with returned := s.returned ++ [x] } :=
        (if_neg (mt hcond.1 hdrop)).trans ((if_neg hflush).trans (if_neg hfd))
      have hkeep : ¬ Dropped tdb s.isInnerEmpty x ∧
          clusters.place (clusters.clusterOf (tdb.leftBucket x)) ≠ .flushed ∧
          ¬ Found tdb clusters s.buckets x :=
        ⟨hdrop, hflush, hfd⟩
      rw [hwork]
      congr 1
      · funext c
        rw [filter_cons_of_neg (by simpa using fun _ hc => hnot c ∘ And.intro hc)]
      · rw [filter_cons_of_pos (by simpa using hkeep)]
        simp

/-! ### The flushed clusters -/

lemma flatten_passRows (passes : List ℕ) (rows : List β) :
    (passRows passes rows).flatten = rows := by
  induction passes generalizing rows with
  | nil => simp [passRows]
  | cons n passes ih => rw [passRows, flatten_cons, ih, take_append_drop]

lemma passRows_ne_nil (passes : List ℕ) (rows : List β) : passRows passes rows ≠ [] := by
  cases passes <;> simp [passRows]

lemma hashLoop_eq (parts : List (List β)) (hparts : parts ≠ []) (outer : List (α × Bool)) :
    hashLoop tdb parts outer =
      (outer.filter fun row => ¬ (∃ y ∈ parts.flatten, tdb.Matches row.1 y) ∧
        row.2 = false).map Prod.fst := by
  induction parts generalizing outer with
  | nil => exact absurd rfl hparts
  | cons part parts ih =>
    cases parts with
    | nil => simp [hashLoop]
    | cons next parts =>
      have hstep : hashLoop tdb (part :: next :: parts) outer = hashLoop tdb (next :: parts)
          (outer.map fun row =>
            (row.1, row.2 || decide (∃ y ∈ part, tdb.Matches row.1 y))) := rfl
      rw [hstep, ih (cons_ne_nil _ _)]
      · rw [filter_map, map_map]
        have hfst : (Prod.fst ∘ fun row : α × Bool =>
            (row.1, row.2 || decide (∃ y ∈ part, tdb.Matches row.1 y))) = Prod.fst := rfl
        rw [hfst]
        congr 1
        refine filter_congr fun row _ => ?_
        simp only [comp_apply, flatten_cons (l := part), mem_append, or_and_right, exists_or, not_or,
          Bool.or_eq_false_iff, decide_eq_false_iff_not, decide_eq_decide]
        tauto

omit [DecidableEq κ] in
lemma leftBucket_lt : tdb.leftBucket x < tdb.bucketCount :=
  Nat.mod_lt _ tdb.bucketCount_pos

variable {rows : List β} {s : State α β}

section
variable (hbk : ∀ b, s.buckets b = rows.filter (tdb.rightBucket · = b))
include hbk

lemma exists_match_clusterRows (x : α) :
    (∃ y ∈ clusterRows tdb clusters s (clusters.clusterOf (tdb.leftBucket x)), tdb.Matches x y) ↔
      ∃ y ∈ rows, tdb.Matches x y := by
  simp only [clusterRows, mem_flatMap, mem_filter, mem_range, hbk, decide_eq_true_eq]
  constructor
  · rintro ⟨y, ⟨_, -, hrow, -⟩, hmatch⟩
    exact ⟨y, hrow, hmatch⟩
  · rintro ⟨y, hy, hmatch⟩
    exact ⟨y, ⟨tdb.leftBucket x, ⟨leftBucket_lt tdb x, rfl⟩, hy, (matches_bucket tdb hmatch).symm⟩,
      hmatch⟩

lemma exists_match_bucket (x : α) :
    (∃ y ∈ s.buckets (tdb.leftBucket x), tdb.Matches x y) ↔ ∃ y ∈ rows, tdb.Matches x y := by
  rw [hbk]
  constructor
  · rintro ⟨y, hy, hmatch⟩
    exact ⟨y, (mem_filter.1 hy).1, hmatch⟩
  · rintro ⟨y, hy, hmatch⟩
    exact ⟨y, mem_filter.2 ⟨hy, decide_eq_true (matches_bucket tdb hmatch).symm⟩, hmatch⟩

end

section Partition

variable {γ δ ε : Type*}

lemma flatMap_ite_of_unique {p : γ → Bool} {l : List γ} (f : List δ)
    (happart : l.Pairwise fun c d => p c = true → ¬ p d = true) (hex : ∃ c ∈ l, p c = true) :
    (l.flatMap fun c => if p c then f else []) = f := by
  induction l with
  | nil =>
    obtain ⟨c, hc, -⟩ := hex
    exact absurd hc not_mem_nil
  | cons c l ih =>
    rw [pairwise_cons] at happart
    rw [flatMap_cons]
    by_cases hc : p c = true
    · have hrest : (l.flatMap fun c => if p c then f else []) = [] := by
        rw [flatMap_eq_nil_iff]
        intro d hd
        rw [if_neg (happart.1 d hd hc)]
      rw [if_pos hc, hrest, append_nil]
    · obtain ⟨d, hd, hp⟩ := hex
      obtain rfl | hd := mem_cons.1 hd
      · exact absurd hp hc
      · rw [if_neg hc, nil_append, ih happart.2 ⟨d, hd, hp⟩]

lemma flatMap_perm_classes {p : γ → δ → Bool} {classes : List γ} (rows : List δ)
    (f : δ → List ε) (happart : ∀ x, classes.Pairwise fun c d => p c x = true → ¬ p d x = true)
    (hcover : ∀ x, ∃ c ∈ classes, p c x = true) :
    (rows.flatMap f).Perm (classes.flatMap fun c => (rows.filter (p c)).flatMap f) := by
  induction rows with
  | nil => simp
  | cons x rows ih =>
    have hcons : ∀ c, ((x :: rows).filter (p c)).flatMap f =
        (if p c x then f x else []) ++ (rows.filter (p c)).flatMap f := by
      intro c
      by_cases hc : p c x = true
      · rw [filter_cons_of_pos hc, if_pos hc, flatMap_cons]
      · rw [filter_cons_of_neg hc, if_neg hc, nil_append]
    simp only [hcons, flatMap_cons]
    refine List.Perm.trans ?_ (flatMap_append_perm _ _ _)
    rw [flatMap_ite_of_unique (f x) (happart x) (hcover x)]
    exact ih.append_left _

end Partition

/-! ### Requests -/

/-- What a request returns that reads all its input: the rows that are not dropped and have
no match, in some order. -/
theorem served_perm (hcl : ∀ c, clusters.place c ≠ .splitOff) (passes : ℕ → List ℕ)
    (hbk : ∀ b, s.buckets b = rows.filter (tdb.rightBucket · = b))
    (houter : ∀ c, s.outer c = []) (hret : s.returned = []) (left : List α) :
    ((readOuter tdb clusters s left).returned ++
        joinClusters tdb clusters passes (readOuter tdb clusters s left)).Perm
      (left.filter fun x => ¬ Dropped tdb s.isInnerEmpty x ∧ ¬ ∃ y ∈ rows, tdb.Matches x y) := by
  let keep : α → Bool := fun x => ¬ Dropped tdb s.isInnerEmpty x ∧ ¬ ∃ y ∈ rows, tdb.Matches x y
  let aside : α → Bool := fun x =>
    clusters.place (clusters.clusterOf (tdb.leftBucket x)) = .flushed
  rw [readOuter_spec]
  -- the second phase returns the rows of the clusters in memory
  have hprobed : (left.filter fun x => ¬ Dropped tdb s.isInnerEmpty x ∧
      clusters.place (clusters.clusterOf (tdb.leftBucket x)) ≠ .flushed ∧
      ¬ Found tdb clusters s.buckets x) = (left.filter keep).filter (fun x => !aside x) := by
    rw [filter_filter]
    refine filter_congr fun x _ => Bool.eq_iff_iff.2 ?_
    simp only [keep, aside, Bool.and_eq_true, Bool.not_eq_true', decide_eq_true_eq,
      decide_eq_false_iff_not]
    have hmatch := exists_match_bucket tdb hbk x
    constructor
    · rintro ⟨hdrop, hplace, hfd⟩
      refine ⟨hplace, hdrop, fun h => hfd ⟨?_, hmatch.2 h⟩⟩
      match hp : clusters.place (clusters.clusterOf (tdb.leftBucket x)) with
      | .chained => rfl
      | .flushed => exact absurd hp hplace
      | .splitOff => exact absurd hp (hcl _)
    · rintro ⟨hplace, hdrop, hnone⟩
      exact ⟨hdrop, hplace, fun hfd => hnone (hmatch.1 hfd.2)⟩
  -- each flushed cluster returns its rows
  have hclu : ∀ c, hashLoop tdb (passRows (passes c) (clusterRows tdb clusters s c))
      ((left.filter fun x => ¬ Dropped tdb s.isInnerEmpty x ∧ clusters.place c = .flushed ∧
        clusters.clusterOf (tdb.leftBucket x) = c).map (·, false)) =
      ((left.filter keep).filter aside).filter
        (fun x => clusters.clusterOf (tdb.leftBucket x) = c) := by
    intro c
    rw [hashLoop_eq tdb _ (passRows_ne_nil _ _), flatten_passRows, filter_map, map_map]
    have hid : (Prod.fst ∘ fun x : α => (x, false)) = id := rfl
    rw [hid, map_id, filter_filter, filter_filter, filter_filter]
    refine filter_congr fun x _ => Bool.eq_iff_iff.2 ?_
    simp only [keep, aside, comp_apply, Bool.and_eq_true, decide_eq_true_eq, and_true]
    constructor
    · rintro ⟨hmatch, hdrop, hflush, rfl⟩
      exact ⟨⟨rfl, hflush⟩, hdrop, mt (exists_match_clusterRows tdb clusters hbk x).2 hmatch⟩
    · rintro ⟨⟨rfl, hflush⟩, hdrop, hmatch⟩
      exact ⟨mt (exists_match_clusterRows tdb clusters hbk x).1 hmatch, hdrop, hflush, rfl⟩
  have hjoined : (joinClusters tdb clusters passes (readOuter tdb clusters s left)).Perm
      ((left.filter keep).filter aside) := by
    rw [readOuter_spec]
    have hgrp := flatMap_perm_classes (p := fun c x => clusters.clusterOf (tdb.leftBucket x) = c)
      ((left.filter keep).filter aside) (fun x => [x])
      (fun x => nodup_range.imp fun hne hc hd => hne (by simp_all))
      (fun x => ⟨_, mem_range.2 (clusters.clusterOf_lt _ (leftBucket_lt tdb x)), by simp⟩)
    simp only [flatMap_singleton'] at hgrp
    refine List.Perm.trans (List.Perm.of_eq ?_) hgrp.symm
    refine flatMap_congr fun c _ => ?_
    have haside : (s.outer c ++ left.filter fun x => ¬ Dropped tdb s.isInnerEmpty x ∧
        clusters.place c = .flushed ∧ clusters.clusterOf (tdb.leftBucket x) = c) =
        left.filter fun x => ¬ Dropped tdb s.isInnerEmpty x ∧
          clusters.place c = .flushed ∧ clusters.clusterOf (tdb.leftBucket x) = c := by
      rw [houter, nil_append]
    rw [← hclu c, ← haside]
    rfl
  rw [readOuter_spec] at hjoined
  refine (hjoined.append_left _).trans ?_
  rw [hret, nil_append, hprobed]
  exact perm_append_comm.trans (filter_append_perm aside (left.filter keep))

lemma notIn_iff_no_match (hrows : ∀ y ∈ rows, tdb.rightKey y ≠ none) :
    notIn (tdb.leftKey x) (rows.map tdb.rightKey) = some true ↔
      ¬ Dropped tdb rows.isEmpty x ∧ ¬ ∃ y ∈ rows, tdb.Matches x y := by
  rw [notIn_eq_true, forall_mem_map]
  constructor
  · intro h
    constructor
    · rintro ⟨hrows', hnull⟩
      obtain ⟨y, hy⟩ := exists_mem_of_ne_nil rows (by simpa using hrows')
      have hfls := h y hy
      rw [hnull] at hfls
      cases hfls
    · rintro ⟨y, hy, hmatch⟩
      rw [Tdb.Matches, h y hy] at hmatch
      cases hmatch
  · rintro ⟨hdrop, hnone⟩ y hy
    have hleft : tdb.leftKey x ≠ none := fun hnull =>
      hdrop ⟨isEmpty_eq_false_iff.2 (ne_nil_of_mem hy), hnull⟩
    obtain ⟨a, ha⟩ := Option.ne_none_iff_exists'.1 hleft
    obtain ⟨b, hb⟩ := Option.ne_none_iff_exists'.1 (hrows y hy)
    have hne : ¬ tdb.Matches x y := fun h => hnone ⟨y, hy, h⟩
    rw [Tdb.Matches, ha, hb] at hne
    rw [ha, hb]
    simpa [sqlEq] using hne

omit [DecidableEq κ] in
lemma readInner_start (flag : Bool) (hrows : ∀ y ∈ rows, tdb.rightKey y ≠ none) :
    readInner tdb (.start flag : State α β) rows = .ok
      ⟨flag && rows.isEmpty, fun b => rows.filter (tdb.rightBucket · = b), fun _ => [], []⟩ := by
  obtain ⟨⟨y, hy, hnull⟩, -⟩ | ⟨-, hok⟩ := readInner_spec tdb (.start flag) rows
  · exact absurd hnull (hrows y hy)
  · rw [hok]
    rfl

/-- A request that is not stopped returns the rows the join keeps, or none at all when the
inner input has a null. -/
theorem serve_complete (flag : Bool) {request : Request α β tdb.bucketCount}
    (hending : request.ending = .complete) (hcl : ∀ c, request.clusters.place c ≠ .splitOff) :
    (∃ y ∈ request.right, tdb.rightKey y = none) ∧ (serve tdb flag request).2 = [] ∨
    (∀ y ∈ request.right, tdb.rightKey y ≠ none) ∧ (serve tdb flag request).2.Perm
      (request.left.filter fun x => ¬ Dropped tdb (flag && request.right.isEmpty) x ∧
        ¬ ∃ y ∈ request.right, tdb.Matches x y) := by
  obtain ⟨hnull, s, hs, -⟩ | ⟨hnone, -⟩ := readInner_spec tdb (.start flag) request.right
  · refine .inl ⟨hnull, ?_⟩
    simp only [serve, hending, hs]
  · refine .inr ⟨hnone, ?_⟩
    simp only [serve, hending, readInner_start tdb flag hnone]
    exact served_perm tdb request.clusters hcl request.passes (fun _ => rfl) (fun _ => rfl)
      rfl request.left

/-- The request leaves the flag as a new operator has it: it reads no row of the inner input,
or no null there and all of the outer input. -/
def Request.ReadsOuter (request : Request α β tdb.bucketCount) : Prop :=
  request.right = [] ∨ (∀ y ∈ request.right, tdb.rightKey y ≠ none) ∧
    (request.ending = .complete ∨ ∃ n, request.ending = .stopClusters n)

lemma serve_flag {request : Request α β tdb.bucketCount} (h : request.ReadsOuter tdb) :
    (serve tdb true request).1 = true := by
  have hflag : ∀ (s : State α β) rows,
      (readOuter tdb request.clusters s rows).isInnerEmpty = s.isInnerEmpty := by
    intro s rows
    rw [readOuter_spec]
  obtain hrt | ⟨hnone, hend⟩ := h
  · have hread := readInner_start (α := α) tdb true (forall_mem_nil _)
    cases hending : request.ending <;> simp [serve, hending, hrt, hread, hflag]
  · have hread := readInner_start (α := α) tdb true hnone
    obtain hend | ⟨n, hend⟩ := hend <;> simp only [serve, hend, hread]

lemma flagAfter_eq_true {history : List (Request α β tdb.bucketCount)}
    (h : ∀ request ∈ history, request.ReadsOuter tdb) : flagAfter tdb history = true := by
  induction history using reverseRecOn with
  | nil => rfl
  | append_singleton history request ih =>
    have hbef := ih fun r hr => h r (mem_append_left _ hr)
    have hstep : flagAfter tdb (history ++ [request]) =
        (serve tdb (flagAfter tdb history) request).1 := Runs.run_snoc ..
    rw [hstep, hbef]
    exact serve_flag tdb (h request (by simp))

/-- A request returns the left rows for which NOT IN is true, provided the flag was not left
behind by an earlier request or does not matter: the inner input is not empty, or the outer
input has no null. -/
theorem serve_returns_not_in (history : List (Request α β tdb.bucketCount))
    (request : Request α β tdb.bucketCount) (hending : request.ending = .complete)
    (hclusters : ∀ c, request.clusters.place c ≠ .splitOff)
    (hflag : flagAfter tdb history = true ∨ request.right ≠ [] ∨
      ∀ x ∈ request.left, tdb.leftKey x ≠ none) :
    (serve tdb (flagAfter tdb history) request).2.Perm (request.left.filter fun x =>
      notIn (tdb.leftKey x) (request.right.map tdb.rightKey) = some true) := by
  obtain ⟨⟨y, hy, hnull⟩, hserve⟩ | ⟨hnone, hserve⟩ :=
    serve_complete tdb (flagAfter tdb history) hending hclusters
  · rw [hserve, filter_eq_nil_iff.2]
    intro x _ htrue
    have hfalse := notIn_eq_true.1 (of_decide_eq_true htrue) _ (mem_map_of_mem hy)
    rw [hnull] at hfalse
    cases hx : tdb.leftKey x <;> rw [hx] at hfalse <;> cases hfalse
  · refine hserve.trans (List.Perm.of_eq (filter_congr fun x hx => ?_))
    rw [decide_eq_decide, notIn_iff_no_match tdb x hnone]
    refine and_congr_left fun _ => not_congr ?_
    obtain hflag | hright | hleft := hflag
    · rw [hflag, Bool.true_and]
    · rw [isEmpty_eq_false_iff.2 hright, Bool.and_false]
    · exact ⟨fun h => absurd h.2 (hleft x hx), fun h => absurd h.2 (hleft x hx)⟩

end Results

/-! ### A null that is lost -/

def sampleTdb : Tdb (Option ℕ) (Option ℕ) ℕ where
  leftKey := id
  rightKey := id
  hashKey key := key.getD 0
  bucketCount := 1
  bucketCount_pos := by decide

def sampleRequest (right left : List (Option ℕ)) (place : Place) :
    Request (Option ℕ) (Option ℕ) sampleTdb.bucketCount where
  right := right
  left := left
  clusters := ⟨1, fun _ => 0, fun _ => place, fun _ _ => by decide⟩
  passes := fun _ => [1]
  ending := .complete

/-- After a request over a flushed cluster, a null is not in the empty table. -/
theorem null_not_in_empty :
    (serve sampleTdb (flagAfter sampleTdb [sampleRequest [some 1, some 2] [some 3] .flushed])
        (sampleRequest [] [none, some 1] .chained)).2.Perm
      ([none, some 1].filter fun x => notIn x [] = some true) :=
  serve_returns_not_in sampleTdb _ (sampleRequest [] [none, some 1] .chained) rfl
    (fun _ => Place.noConfusion) (.inl (by decide))

/-- A request that ends at a null of the inner input leaves the flag behind, and the next one
loses the null of its outer input. -/
theorem null_lost_after_inner_null :
    (serve sampleTdb (flagAfter sampleTdb [sampleRequest [none] [some 3] .chained])
        (sampleRequest [] [none, some 1] .chained)).2 = [some 1] ∧
      notIn (none : Option ℕ) [] = some true := by
  decide

end Trafodion.HashJoin
