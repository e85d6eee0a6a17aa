import Trafodion.MdamUnions
import Mathlib.Data.Set.Insert
import Mathlib.Data.List.Sort

/-!
# Reference lists

A reference list is a ring of disjunct numbers with a pointer to the last entry. Here it is the list of the
entries from the one behind the last. The target of `intersect` or `unionx` is emptied before the sources are
read, so it must not be one of them.
-/
namespace Trafodion.Mdam.RefList

open List Function

/-- The walk of `positionBeforePtr` and the insertion behind `before`; it ends before the last entry. -/
def insertBehind (disjunctNum before : ℤ) : List ℤ → List ℤ
  | [] => if disjunctNum = before then [before] else [before, disjunctNum]
  | next :: l =>
    if disjunctNum ≥ next then before :: insertBehind disjunctNum next l
    else if disjunctNum = before then before :: next :: l
    else before :: disjunctNum :: next :: l

variable (l : List ℤ)

def insert (disjunctNum : ℤ) : List ℤ :=
  match l with
  | [] => [disjunctNum]
  | head :: rest =>
    let last := (head :: rest).getLast (cons_ne_nil head rest)
    if disjunctNum ≥ head ∧ disjunctNum < last then insertBehind disjunctNum head rest
    else if disjunctNum = last then head :: rest
    else if last < disjunctNum then head :: rest ++ [disjunctNum]
    else disjunctNum :: head :: rest

def copyEntries (l otherList : List ℤ) : List ℤ := otherList.foldl insert l

/-- The loop of `intersect`, with the entries of the target. -/
def intersectLoop (l : List ℤ) : List ℤ → List ℤ → List ℤ
  | m :: l0, n :: l1 =>
    if m = n then intersectLoop (insert l m) l0 l1
    else if m < n then intersectLoop l l0 (n :: l1)
    else intersectLoop l (m :: l0) l1
  | [], _ | _, [] => l
  termination_by l0 l1 => l0.length + l1.length

def unionLoop (l : List ℤ) : List ℤ → List ℤ → List ℤ
  | m :: l0, n :: l1 =>
    if m = n then unionLoop (insert l m) l0 l1
    else if m < n then unionLoop (insert l m) l0 (n :: l1)
    else unionLoop (insert l n) (m :: l0) l1
  | l0, [] => copyEntries l l0
  | [], l1 => copyEntries l l1
  termination_by l0 l1 => l0.length + l1.length

def intersectEmpty : List ℤ → List ℤ → Bool
  | m :: l, n :: l' =>
    if m = n then false
    else if m < n then intersectEmpty l (n :: l')
    else intersectEmpty (m :: l) l'
  | [], _ | _, [] => true
  termination_by l l' => l.length + l'.length

def intersectEmpty3 : List ℤ → List ℤ → List ℤ → Bool
  | m :: l0, n :: l1, k :: l2 =>
    if m = n then
      if m = k then false
      else if m < k then intersectEmpty3 l0 l1 (k :: l2)
      else intersectEmpty3 (m :: l0) (n :: l1) l2
    else if m < n then
      if m < k then intersectEmpty3 l0 (n :: l1) (k :: l2)
      else intersectEmpty3 l0 (n :: l1) l2
    else
      if n < k then intersectEmpty3 (m :: l0) l1 (k :: l2)
      else intersectEmpty3 (m :: l0) l1 l2
  | [], _, _ | _, [], _ | _, _, [] => true
  termination_by l0 l1 l2 => l0.length + l1.length + l2.length

inductive Call
  | insert (i : ℕ) (disjunctNum : ℤ)
  | copyEntries (i otherList : ℕ)
  | intersect (i refList0 refList1 : ℕ)
  | unionx (i refList0 refList1 : ℕ)
  | deleteEntries (i : ℕ)

def call (s : ℕ → List ℤ) : Call → ℕ → List ℤ
  | .insert i n => update s i (insert (s i) n)
  | .copyEntries i j => update s i (copyEntries (s i) (s j))
  | .intersect i j k => update s i (intersectLoop [] (update s i [] j) (update s i [] k))
  | .unionx i j k => update s i (unionLoop [] (update s i [] j) (update s i [] k))
  | .deleteEntries i => update s i []

/-- The sets that the lists stand for. -/
def callSets (S : ℕ → Set ℤ) : Call → ℕ → Set ℤ
  | .insert i n => update S i (Insert.insert n (S i))
  | .copyEntries i j => update S i (S i ∪ S j)
  | .intersect i j k => update S i (S j ∩ S k)
  | .unionx i j k => update S i (S j ∪ S k)
  | .deleteEntries i => update S i ∅

/-- The target is not one of the sources. -/
def Call.Apart : Call → Prop
  | .intersect i j k | .unionx i j k => j ≠ i ∧ k ≠ i
  | _ => True

/-! ### Ascending lists -/

abbrev Ascending : Prop := l.Pairwise (· < ·)

/-- The entries ascend and are those of a set. -/
def Holds (S : Set ℤ) : Prop := Ascending l ∧ ∀ m, m ∈ l ↔ m ∈ S

variable {l l0 l1 l2 : List ℤ} {m n before : ℤ} {S T : Set ℤ}

lemma Holds.congr (h : Holds l S) (hT : ∀ m, m ∈ S ↔ m ∈ T) : Holds l T :=
  ⟨h.1, fun m => (h.2 m).trans (hT m)⟩

lemma not_mem_of_lt (h : Ascending (n :: l)) (hlt : m < n) : m ∉ n :: l := by
  intro hm
  rcases mem_cons.1 hm with rfl | hm
  · exact hlt.false
  · exact (hlt.trans ((pairwise_cons.1 h).1 m hm)).false

lemma insertBehind_holds (h : Ascending (before :: l)) (hle : before ≤ n) :
    Holds (insertBehind n before l) {m | m = n ∨ m ∈ before :: l} := by
  induction l generalizing before with
  | nil =>
    unfold insertBehind Holds
    grind
  | cons next l ih =>
    obtain ⟨hb, hl⟩ := pairwise_cons.1 h
    unfold insertBehind
    split_ifs with hge heq
    · obtain ⟨hp, hm⟩ := ih hl hge
      refine ⟨pairwise_cons.2 ⟨fun k hk => ?_, hp⟩, by grind⟩
      rcases (hm k).1 hk with rfl | hk
      · exact (hb next mem_cons_self).trans_le hge
      · exact hb k hk
    · exact ⟨h, by grind⟩
    · have hn : ∀ k ∈ next :: l, n < k := by
        refine forall_mem_cons.2 ⟨not_le.1 hge, fun k hk => ?_⟩
        exact (not_le.1 hge).trans ((pairwise_cons.1 hl).1 k hk)
      exact ⟨pairwise_cons.2 ⟨by grind, pairwise_cons.2 ⟨hn, hl⟩⟩, by grind⟩

lemma insert_holds (h : Ascending l) (n : ℤ) : Holds (insert l n) {m | m = n ∨ m ∈ l} := by
  cases l with
  | nil => simp [insert, Holds]
  | cons head rest =>
    unfold insert
    generalize hlast : (head :: rest).getLast (cons_ne_nil head rest) = last
    have hsplit : (head :: rest).dropLast ++ [last] = head :: rest := by
      rw [← hlast, dropLast_concat_getLast]
    have hle : ∀ m ∈ head :: rest, m ≤ last := by
      rw [← hsplit] at h ⊢
      exact forall_mem_append.2 ⟨fun m hm => ((pairwise_append.1 h).2.2 m hm last mem_cons_self).le,
        forall_mem_singleton.2 le_rfl⟩
    have hhead : ∀ m ∈ head :: rest, head ≤ m :=
      forall_mem_cons.2 ⟨le_rfl, fun m hm => ((pairwise_cons.1 h).1 m hm).le⟩
    have hmem : last ∈ head :: rest := hlast ▸ getLast_mem _
    dsimp only
    split_ifs with hin heq hlt
    · exact insertBehind_holds h hin.1
    · exact ⟨h, by grind⟩
    · exact ⟨pairwise_append.2 ⟨h, pairwise_singleton _ _, by grind⟩, by grind⟩
    · exact ⟨pairwise_cons.2 ⟨by grind, h⟩, by grind⟩

section network

lemma insertDisjunctNum_ascending {refs : List ℕ} (h : refs.Pairwise (· < ·)) (n : ℕ) :
    (insertDisjunctNum n refs).Pairwise (· < ·) := by
  induction refs with
  | nil => exact pairwise_singleton _ _
  | cons m refs ih =>
    obtain ⟨hm, hrefs⟩ := pairwise_cons.1 h
    rw [insertDisjunctNum]
    split_ifs with hlt heq
    · exact pairwise_cons.2 ⟨forall_mem_cons.2 ⟨hlt, fun k hk => hlt.trans (hm k hk)⟩, h⟩
    · exact h
    · refine pairwise_cons.2 ⟨fun k hk => ?_, ih hrefs⟩
      rcases mem_insertDisjunctNum.1 hk with rfl | hk
      · omega
      · exact hm k hk

/-- The insertion of the network model, which goes through the list from its first entry. -/
lemma map_insertDisjunctNum {refs : List ℕ} (h : refs.Pairwise (· < ·)) (n : ℕ) :
    (insertDisjunctNum n refs).map Int.ofNat = insert (refs.map Int.ofNat) n := by
  have hcast : ∀ {l : List ℕ}, l.Pairwise (· < ·) → Ascending (l.map Int.ofNat) :=
    fun hl => hl.map _ fun _ _ => Int.ofNat_lt.2
  obtain ⟨hins, hmem⟩ := insert_holds (hcast h) n
  refine (hcast (insertDisjunctNum_ascending h n)).eq_of_mem_iff hins fun m => ?_
  rw [hmem]
  simp only [mem_map, mem_insertDisjunctNum, Set.mem_ofPred_eq]
  grind

lemma map_copied (refs : List ℕ) {copied : List ℕ} (h : copied.Pairwise (· < ·)) :
    (refs.foldl (fun refs n => insertDisjunctNum n refs) copied).Pairwise (· < ·) ∧
      (refs.foldl (fun refs n => insertDisjunctNum n refs) copied).map Int.ofNat =
        copyEntries (copied.map Int.ofNat) (refs.map Int.ofNat) := by
  induction refs generalizing copied with
  | nil => exact ⟨h, rfl⟩
  | cons n refs ih =>
    obtain ⟨hasc, hmap⟩ := ih (insertDisjunctNum_ascending h n)
    refine ⟨hasc, hmap.trans ?_⟩
    rw [map_insertDisjunctNum h]
    rfl

/-- The reference list of a piece in the network is built by these operations. -/
theorem map_createRefList {α : Type*} (interval0 interval1 : Option (MdamInterval α))
    (disjunctNum : ℕ) : (createRefList interval0 interval1 disjunctNum).map Int.ofNat =
      let refs := copyEntries [] ((interval0.elim [] (·.refList)).map Int.ofNat)
      if interval1.isSome then insert refs disjunctNum else refs := by
  obtain ⟨hasc, hmap⟩ := map_copied (interval0.elim [] (·.refList)) Pairwise.nil
  unfold createRefList
  cases interval0 <;> cases interval1 <;>
    simp_all [map_insertDisjunctNum]

end network

lemma copyEntries_holds (h : Ascending l) (l0 : List ℤ) :
    Holds (copyEntries l l0) {m | m ∈ l ∨ m ∈ l0} := by
  induction l0 generalizing l with
  | nil => exact ⟨h, by simp [copyEntries]⟩
  | cons n l0 ih =>
    obtain ⟨hp, hm⟩ := insert_holds h n
    exact (ih hp).congr (by grind)

lemma intersectLoop_holds (h : Ascending l) (h0 : Ascending l0) (h1 : Ascending l1) :
    Holds (intersectLoop l l0 l1) {m | m ∈ l ∨ m ∈ l0 ∧ m ∈ l1} := by
  fun_induction intersectLoop l l0 l1 with
  | case1 l l0 n l1 ih =>
    obtain ⟨hp, hm⟩ := insert_holds h n
    exact (ih hp h0.of_cons h1.of_cons).congr (by grind)
  | case2 l m l0 n l1 hne hlt ih =>
    have hm := not_mem_of_lt h1 hlt
    exact (ih h h0.of_cons h1).congr (by grind)
  | case3 l m l0 n l1 hne hlt ih =>
    have hm := not_mem_of_lt h0 (lt_of_le_of_ne (not_lt.1 hlt) (Ne.symm hne))
    exact (ih h h0 h1.of_cons).congr (by grind)
  | case4 | case5 => exact ⟨h, by simp⟩

lemma unionLoop_holds (h : Ascending l) (l0 l1 : List ℤ) :
    Holds (unionLoop l l0 l1) {m | m ∈ l ∨ m ∈ l0 ∨ m ∈ l1} := by
  fun_induction unionLoop l l0 l1 with
  | case1 l l0 n l1 ih =>
    obtain ⟨hp, hm⟩ := insert_holds h n
    exact (ih hp).congr (by grind)
  | case2 l m l0 n l1 hne hlt ih =>
    obtain ⟨hp, hm⟩ := insert_holds h m
    exact (ih hp).congr (by grind)
  | case3 l m l0 n l1 hne hlt ih =>
    obtain ⟨hp, hm⟩ := insert_holds h n
    exact (ih hp).congr (by grind)
  | case4 l l0 => exact (copyEntries_holds h l0).congr (by grind)
  | case5 l l1 => exact (copyEntries_holds h l1).congr (by grind)

lemma intersectEmpty_iff (h0 : Ascending l0) (h1 : Ascending l1) :
    intersectEmpty l0 l1 ↔ ∀ m ∈ l0, m ∉ l1 := by
  fun_induction intersectEmpty l0 l1 with
  | case1 => simp
  | case2 m l0 n l1 hne hlt ih =>
    have hm := not_mem_of_lt h1 hlt
    rw [ih h0.of_cons h1]
    grind
  | case3 m l0 n l1 hne hlt ih =>
    have hn := not_mem_of_lt h0 (lt_of_le_of_ne (not_lt.1 hlt) (Ne.symm hne))
    rw [ih h0 h1.of_cons]
    grind
  | case4 | case5 => simp

lemma intersectEmpty3_iff (h0 : Ascending l0) (h1 : Ascending l1) (h2 : Ascending l2) :
    intersectEmpty3 l0 l1 l2 ↔ ∀ m ∈ l0, m ∈ l1 → m ∉ l2 := by
  fun_induction intersectEmpty3 l0 l1 l2 with
  | case1 => simp
  | case2 l0 m l1 k l2 hne hlt ih =>
    have hm := not_mem_of_lt h2 hlt
    rw [ih h0.of_cons h1.of_cons h2]
    grind
  | case3 l0 m l1 k l2 hne hlt ih =>
    have hk : k ∉ m :: l0 := not_mem_of_lt h0 (by omega)
    rw [ih h0 h1 h2.of_cons]
    grind
  | case4 m l0 n l1 k l2 hne hlt hlt' ih =>
    have hm := not_mem_of_lt h1 hlt
    rw [ih h0.of_cons h1 h2]
    grind
  | case5 m l0 n l1 k l2 hne hlt hlt' ih =>
    have hm := not_mem_of_lt h1 hlt
    have hk : k ∉ n :: l1 := not_mem_of_lt h1 (by omega)
    rw [ih h0.of_cons h1 h2.of_cons]
    grind
  | case6 m l0 n l1 k l2 hne hlt hlt' ih =>
    have hn : n ∉ m :: l0 := not_mem_of_lt h0 (by omega)
    rw [ih h0 h1.of_cons h2]
    grind
  | case7 m l0 n l1 k l2 hne hlt hlt' ih =>
    have hn : n ∉ m :: l0 := not_mem_of_lt h0 (by omega)
    have hk : k ∉ m :: l0 := not_mem_of_lt h0 (by omega)
    rw [ih h0 h1.of_cons h2.of_cons]
    grind
  | case8 | case9 | case10 => simp

/-! ### Sequences of calls -/

def run (calls : List Call) : ℕ → List ℤ := calls.foldl call fun _ => []

def runSets (calls : List Call) : ℕ → Set ℤ := calls.foldl callSets fun _ => ∅

lemma call_holds {s : ℕ → List ℤ} {S : ℕ → Set ℤ} (h : ∀ i, Holds (s i) (S i)) {c : Call}
    (hc : c.Apart) : ∀ i, Holds (call s c i) (callSets S c i) := by
  have hupdate : ∀ i l T, Holds l T → ∀ j, Holds (update s i l j) (update S i T j) := by
    intro i l T hl j
    by_cases hj : j = i
    · subst hj
      simpa using hl
    · simpa [hj] using h j
  cases c with
  | insert i n =>
    refine hupdate _ _ _ ((insert_holds (h i).1 n).congr fun m => ?_)
    exact or_congr_right ((h i).2 m)
  | copyEntries i j =>
    refine hupdate _ _ _ ((copyEntries_holds (h i).1 (s j)).congr fun m => ?_)
    exact or_congr ((h i).2 m) ((h j).2 m)
  | intersect i j k =>
    rw [call, update_of_ne hc.1, update_of_ne hc.2]
    refine hupdate _ _ _ ((intersectLoop_holds .nil (h j).1 (h k).1).congr fun m => ?_)
    exact (or_iff_right not_mem_nil).trans (and_congr ((h j).2 m) ((h k).2 m))
  | unionx i j k =>
    rw [call, update_of_ne hc.1, update_of_ne hc.2]
    refine hupdate _ _ _ ((unionLoop_holds .nil (s j) (s k)).congr fun m => ?_)
    exact (or_iff_right not_mem_nil).trans (or_congr ((h j).2 m) ((h k).2 m))
  | deleteEntries i => exact hupdate _ _ _ ⟨.nil, by simp⟩

theorem run_holds (calls : List Call) (hapart : ∀ c ∈ calls, c.Apart) :
    (∀ i, (run calls i).Pairwise (· < ·) ∧ ∀ n, n ∈ run calls i ↔ n ∈ runSets calls i) ∧
    (∀ i j, intersectEmpty (run calls i) (run calls j) ↔ runSets calls i ∩ runSets calls j = ∅) ∧
    ∀ i j k, intersectEmpty3 (run calls i) (run calls j) (run calls k) ↔
      runSets calls i ∩ runSets calls j ∩ runSets calls k = ∅ := by
  have hrun : ∀ {s S}, (∀ i, Holds (s i) (S i)) →
      ∀ i, Holds (calls.foldl call s i) (calls.foldl callSets S i) := by
    induction calls with
    | nil => exact fun h => h
    | cons c calls ih =>
      obtain ⟨hc, hcalls⟩ := forall_mem_cons.1 hapart
      exact fun h => ih hcalls (call_holds h hc)
  have h : ∀ i, Holds (run calls i) (runSets calls i) := hrun fun _ => ⟨.nil, by simp⟩
  refine ⟨h, fun i j => ?_, fun i j k => ?_⟩
  · rw [intersectEmpty_iff (h i).1 (h j).1, Set.eq_empty_iff_forall_notMem]
    simp only [(h i).2, (h j).2, Set.mem_inter_iff, not_and]
  · rw [intersectEmpty3_iff (h i).1 (h j).1 (h k).1, Set.eq_empty_iff_forall_notMem]
    simp only [(h i).2, (h j).2, (h k).2, Set.mem_inter_iff, not_and, and_imp]

theorem run_holds_union : run [.insert 0 5, .insert 1 3, .unionx 2 0 1] 2 = [3, 5] ∧
    (run [.insert 0 5, .insert 1 3, .unionx 2 0 1] 2).Pairwise (· < ·) := by
  refine ⟨?_, ((run_holds _ ?_).1 2).1⟩
  · simp [run, call, unionLoop, insert, copyEntries]
  · simp [Call.Apart]

/-- A list that is intersected with itself into itself becomes empty. -/
theorem intersect_into_source : run [.insert 0 1, .intersect 0 0 0] 0 = [] ∧
    (1 : ℤ) ∈ runSets [.insert 0 1, .intersect 0 0 0] 0 := by
  constructor
  · simp [run, call, intersectLoop]
  · simp [runSets, callSets]

end Trafodion.Mdam.RefList
