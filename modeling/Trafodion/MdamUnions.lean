import Trafodion.MdamIntervals

/-!
# Unions of interval lists

The intervals of one disjunct are united into larger ones. The intervals of separate disjuncts are
cut at each other's endpoints, and each piece refers to the disjuncts that it belongs to.
-/
namespace Trafodion.Mdam

open List IntervalSweeps MdamEndPoint Option

variable {α : Type*} [LinearOrder α] {s t : Option (MdamInterval α)} {e : MdamEndPoint α}
variable {es zs : List (MdamEndPoint α)} {l l' : List (MdamInterval α)} {i : MdamInterval α}
variable {x : Piece (MdamEndPoint α) (MdamInterval α)} {disjunctNum n : ℕ}

/-! ### Union with the same disjunct -/

/-- Between two intervals of a union, or in one that begins with `first`. -/
def Begun (first : Option (MdamEndPoint α)) (s t : Option (MdamInterval α))
    (es : List (MdamEndPoint α)) : Prop :=
  match first with
  | none => s = none ∧ t = none
  | some e => (s.isSome ∨ t.isSome) ∧ e.endPointType = .beginning ∧ ∀ e' ∈ es, cut e ≤ cut e'

section

omit [LinearOrder α]

lemma count_add_pos : count s + count t ≥ 1 ↔ s.isSome ∨ t.isSome := by
  cases s <;> cases t <;> simp [count]

section
variable (hbel : e.interval0 ≠ none ∨ e.interval1 ≠ none)
include hbel

lemma isSome_adjust (htype : e.endPointType = .beginning) :
    (adjust reading e s).isSome ∨ (adjust reading.swap e t).isSome := by
  rw [← adjust_eq, ← adjust_swap_eq]
  refine hbel.imp (fun h => ?_) fun h => ?_
  all_goals
    obtain ⟨i, hi⟩ := ne_none_iff_exists'.1 h
    simp [adjustIntervalPtr, hi, htype]

lemma beginning_of_alternates
    (h0 : Alternates reading none (e :: es)) (h1 : Alternates reading.swap none (e :: es)) :
    e.endPointType = .beginning := by
  by_contra htype
  rcases hbel with h | h
  · obtain ⟨i, hi⟩ := ne_none_iff_exists'.1 h
    have := h0.1 i hi
    simp [reading, htype] at this
  · obtain ⟨i, hi⟩ := ne_none_iff_exists'.1 h
    have := h1.1 i hi
    simp [reading, Reading.swap, htype] at this

lemma ending_of_closed
    (hclosed : ¬ count (adjust reading e s) + count (adjust reading.swap e t) ≥ 1) :
    e.endPointType = .ending ∧ adjust reading e s = none ∧ adjust reading.swap e t = none := by
  rw [count_add_pos] at hclosed
  refine ⟨?_, by simpa using hclosed⟩
  cases htype : e.endPointType with
  | ending => rfl
  | beginning => exact (hclosed (isSome_adjust hbel htype)).elim

end

end

/-- A list of intervals that is right from `first` on. -/
structure Unites (l : List (MdamInterval α)) (first : Option (MdamEndPoint α))
    (s t : Option (MdamInterval α)) (es : List (MdamEndPoint α)) : Prop where
  separated : Separated lo hi l
  le_lo : ∀ c, (∀ e ∈ first.toList ++ es, c ≤ cut e) → ∀ i ∈ l, c ≤ lo i
  exists_iff : ∀ p, (∀ e ∈ first, cut e ≤ p) → ((∃ i ∈ l, lo i ≤ p ∧ p < hi i) ↔
    (stateAt reading p s es).isSome ∨ (stateAt reading.swap p t es).isSome)

lemma unionSameLoop_spec (first : Option (MdamEndPoint α)) (h : Ascending reading es)
    (hbel : ∀ e ∈ es, e.interval0 ≠ none ∨ e.interval1 ≠ none) (h0 : Alternates reading s es)
    (h1 : Alternates reading.swap t es) (hfst : Begun first s t es) :
    Unites (unionSameLoop (count s + count t) first es) first s t es := by
  induction es generalizing s t first with
  | nil =>
    obtain rfl : s = none := h0
    obtain rfl : t = none := h1
    cases first with
    | none => exact ⟨⟨nofun, .nil⟩, nofun, by simp [unionSameLoop, stateAt]⟩
    | some e => simp [Begun] at hfst
  | cons e' es ih =>
    obtain ⟨hle, hes⟩ := pairwise_cons.1 h
    obtain ⟨hbelong, hbel'⟩ := forall_mem_cons.1 hbel
    have hact := activeIntervals_of_alternates hbel h0 h1
    -- at a position before `e'` nothing of `es` counts
    have hbef : ∀ {p}, ¬ cut e' ≤ p → ∀ e ∈ es, p < cut e := fun hp e he =>
      (not_le.1 hp).trans_le (hle e he)
    cases first with
    | none =>
      obtain ⟨rfl, rfl⟩ := hfst
      have htype := beginning_of_alternates hbelong h0 h1
      have hrest := ih (some e') hes hbel' h0.2 h1.2 ⟨isSome_adjust hbelong htype, htype, hle⟩
      rw [unionSameLoop, hact]
      refine ⟨hrest.separated, hrest.le_lo, fun p _ => ?_⟩
      by_cases hp : cut e' ≤ p
      · rw [hrest.exists_iff p (by simpa using hp), stateAt_cons_of_le hp,
          stateAt_cons_of_le (R := reading.swap) hp]
      · rw [stateAt_cons_of_not_le hp, stateAt_cons_of_not_le (R := reading.swap) hp]
        refine iff_of_false ?_ (by simp)
        rintro ⟨i, hi, hlo, -⟩
        exact hp ((hrest.le_lo _ (forall_mem_cons.2 ⟨le_rfl, hle⟩) i hi).trans hlo)
    | some e =>
      obtain ⟨hopen, htype, hcut⟩ := hfst
      rw [unionSameLoop, hact]
      split_ifs with hpos
      · have hopen' := count_add_pos.1 hpos
        have hrest := ih (some e) hes hbel' h0.2 h1.2 ⟨hopen', htype, (forall_mem_cons.1 hcut).2⟩
        refine ⟨hrest.separated, fun c hc => hrest.le_lo c fun d hd => hc d ?_, fun p hp => ?_⟩
        · exact cons_subset_cons e (subset_cons_self e' es) hd
        · rw [hrest.exists_iff p hp]
          by_cases hp' : cut e' ≤ p
          · rw [stateAt_cons_of_le hp', stateAt_cons_of_le (R := reading.swap) hp']
          · rw [stateAt_cons_of_not_le hp', stateAt_cons_of_not_le (R := reading.swap) hp',
              stateAt_of_lt (hbef hp'), stateAt_of_lt (R := reading.swap) (hbef hp')]
            exact iff_of_true hopen' hopen
      · obtain ⟨htype', hclosed⟩ := ending_of_closed hbelong hpos
        have hrest := ih none hes hbel' h0.2 h1.2 hclosed
        have hlo : lo (⟨e.point, e'.point, []⟩ : MdamInterval α) = cut e := toLex_beginning htype
        have hhi : hi (⟨e.point, e'.point, []⟩ : MdamInterval α) = cut e' := toLex_ending htype'
        have hcut' := hcut e' mem_cons_self
        have hlat := hrest.le_lo (cut e') hle
        refine ⟨⟨?_, ?_⟩, ?_, fun p hp => ?_⟩
        · refine forall_mem_cons.2 ⟨?_, hrest.separated.le⟩
          rw [hlo, hhi]
          exact hcut'
        · refine pairwise_cons.2 ⟨fun i hi => ?_, hrest.separated.pairwise⟩
          rw [hhi]
          exact hlat i hi
        · intro c hc
          have hce : c ≤ cut e := hc e (by simp)
          refine forall_mem_cons.2 ⟨hlo ▸ hce, fun i hi => ?_⟩
          exact hce.trans (hcut'.trans (hlat i hi))
        · have hpe : cut e ≤ p := hp e rfl
          rw [exists_mem_cons_iff, hlo, hhi, hrest.exists_iff p (by simp)]
          by_cases hp' : cut e' ≤ p
          · rw [stateAt_cons_of_le hp', stateAt_cons_of_le (R := reading.swap) hp']
            exact or_iff_right fun hin => hin.2.not_ge hp'
          · rw [stateAt_cons_of_not_le hp', stateAt_cons_of_not_le (R := reading.swap) hp']
            exact iff_of_true (.inl ⟨hpe, not_le.1 hp'⟩) hopen

lemma unionSameDisjunct_spec (h : Separated lo hi l) (h' : Separated lo hi l') :
    Separated lo hi (unionSameDisjunct l l') ∧
      ∀ v, Covers (unionSameDisjunct l l') v ↔ Covers l v ∨ Covers l' v := by
  have hsw := swept h h'
  have hunites := unionSameLoop_spec none hsw.ascending hsw.belongs hsw.alternates0
    hsw.alternates1 ⟨rfl, rfl⟩
  refine ⟨hunites.separated, fun v => ?_⟩
  rw [← (hsw.isSome_iff v).1, ← (hsw.isSome_iff v).2, ← hunites.exists_iff (pos v) nofun]
  simp only [Covers, contains_iff]
  rfl

/-! ### Union of separate disjuncts -/

section

omit [LinearOrder α]

lemma count_add_ne_zero : count s + count t ≠ 0 ↔ s.isSome ∨ t.isSome := by
  cases s <;> cases t <;> simp [count]

lemma toLex_asPrevious (e : MdamEndPoint α) :
    toLex ((asPrevious e).point.val, decide ((asPrevious e).point.inclusion = .excluded)) = cut e := by
  unfold asPrevious
  cases htype : e.endPointType with
  | beginning => simpa using toLex_beginning htype
  | ending =>
    rw [if_pos rfl, ← toLex_ending htype]
    cases h : e.point.inclusion <;>
      simp [reverseInclusion, MdamPoint.reverseInclusion, Inclusion.reverse, h]

lemma toLex_asEnd (e : MdamEndPoint α) :
    toLex ((asEnd e).val, decide ((asEnd e).inclusion = .included)) = cut e := by
  unfold asEnd
  cases htype : e.endPointType with
  | ending => simpa using toLex_ending htype
  | beginning =>
    rw [if_pos rfl, ← toLex_beginning htype]
    cases h : e.point.inclusion <;> simp [MdamPoint.reverseInclusion, Inclusion.reverse, h]

end

lemma givesNonEmptyInterval_iff {e' : MdamEndPoint α} (h : cut e ≤ cut e') :
    e'.givesNonEmptyInterval (asPrevious e) ↔ cut e < cut e' := by
  have hprevious := toLex_asPrevious e
  obtain ⟨prev, hp⟩ : ∃ prev, prev = asPrevious e := ⟨_, rfl⟩
  rw [← hp] at hprevious ⊢
  rw [← hprevious] at h ⊢
  unfold cut at h ⊢
  rw [Prod.Lex.toLex_le_toLex] at h
  rw [Prod.Lex.toLex_lt_toLex]
  unfold givesNonEmptyInterval rank
  rcases h with hlt | ⟨heq, -⟩
  · simp [hlt, hlt.ne']
  · replace heq : prev.point.val = e'.point.val := heq
    cases hi : prev.point.inclusion <;> cases ht : e'.endPointType <;>
      cases hi' : e'.point.inclusion <;> simp [heq]

def separatePiece (disjunctNum : ℕ) (x : Piece (MdamEndPoint α) (MdamInterval α)) :
    Option (MdamInterval α) :=
  if (x.left.isSome ∨ x.right.isSome) ∧ x.last.givesNonEmptyInterval (asPrevious x.first) then
    some ⟨(asPrevious x.first).point, asEnd x.last, createRefList x.left x.right disjunctNum⟩
  else none

lemma unionSeparateLoop_eq (hbel : ∀ e' ∈ es, e'.interval0 ≠ none ∨ e'.interval1 ≠ none)
    (h0 : Alternates reading s es) (h1 : Alternates reading.swap t es) :
    unionSeparateLoop disjunctNum (count s + count t) (asPrevious e) s t es =
      (pieces reading s t e es).filterMap (separatePiece disjunctNum) := by
  induction es generalizing s t e with
  | nil => rfl
  | cons e' es ih =>
    rw [unionSeparateLoop, activeIntervals_of_alternates hbel h0 h1, adjust_eq, adjust_swap_eq,
      ih (forall_mem_cons.1 hbel).2 h0.2 h1.2, pieces,
      filterMap_cons, separatePiece]
    simp only [count_add_ne_zero]
    split_ifs <;> rfl

lemma unionSeparateDisjuncts_eq (disjunctNum : ℕ)
    (h : Swept l l' (merge (endPoints0 l) (endPoints1 l'))) :
    unionSeparateDisjuncts l l' disjunctNum =
      (allPieces reading (merge (endPoints0 l) (endPoints1 l'))).filterMap
        (separatePiece disjunctNum) := by
  unfold unionSeparateDisjuncts
  cases hzs : merge (endPoints0 l) (endPoints1 l') with
  | nil => rfl
  | cons e es =>
    rw [hzs] at h
    simp only [h.activeIntervals_first, adjust_eq, adjust_swap_eq]
    exact unionSeparateLoop_eq (forall_mem_cons.1 h.belongs).2
      h.alternates0.2 h.alternates1.2

lemma mem_insertDisjunctNum {refs : List ℕ} :
    n ∈ insertDisjunctNum disjunctNum refs ↔ n = disjunctNum ∨ n ∈ refs := by
  induction refs with
  | nil => simp [insertDisjunctNum]
  | cons m refs ih =>
    rw [insertDisjunctNum]
    split_ifs with hlt heq
    · exact mem_cons
    · subst heq
      simp
    · rw [mem_cons, ih, mem_cons]
      tauto

lemma mem_foldl_insertDisjunctNum {refs copied : List ℕ} :
    n ∈ refs.foldl (fun refs n => insertDisjunctNum n refs) copied ↔ n ∈ refs ∨ n ∈ copied := by
  induction refs generalizing copied with
  | nil => simp
  | cons m refs ih =>
    rw [foldl_cons, ih, mem_insertDisjunctNum, mem_cons]
    tauto

omit [LinearOrder α] in
lemma mem_createRefList : n ∈ createRefList s t disjunctNum ↔
      (∃ i ∈ s, n ∈ i.refList) ∨ (n = disjunctNum ∧ t.isSome) := by
  unfold createRefList
  cases s <;> cases t <;> simp [mem_insertDisjunctNum, mem_foldl_insertDisjunctNum, or_comm]

lemma lo_separatePiece (h : i ∈ separatePiece disjunctNum x) :
    lo i = cut x.first ∧ hi i = cut x.last ∧
      i.refList = createRefList x.left x.right disjunctNum := by
  unfold separatePiece at h
  split_ifs at h
  · obtain rfl := some.inj h
    exact ⟨toLex_asPrevious _, toLex_asEnd _, rfl⟩
  · cases h

lemma isSome_of_separatePiece (h : i ∈ separatePiece disjunctNum x) :
    (x.left.isSome ∨ x.right.isSome) ∧ x.last.givesNonEmptyInterval (asPrevious x.first) := by
  unfold separatePiece at h
  split_ifs at h with hopen
  · exact hopen
  · cases h

def Refers (l : List (MdamInterval α)) (v : α) (n : ℕ) : Prop :=
  ∃ i ∈ l, i.contains v ∧ n ∈ i.refList

lemma Swept.mem_createRefList_iff (h : Swept l l' zs) (v : α) (n disjunctNum : ℕ) :
    n ∈ createRefList (stateAt reading (pos v) none zs) (stateAt reading.swap (pos v) none zs)
      disjunctNum ↔ Refers l v n ∨ (n = disjunctNum ∧ Covers l' v) := by
  rw [mem_createRefList, (h.isSome_iff v).2]
  refine or_congr_left ?_
  simp only [mem_def, h.state0, Refers, contains_iff, and_assoc]

/-- A value is in a piece of the result exactly if something is open at it. -/
theorem exists_separatePiece_iff (h : Swept l l' zs) (disjunctNum : ℕ)
    (v : α) {P : Option (MdamInterval α) → Option (MdamInterval α) → Prop}
    (hP : ∀ s t, P s t → s.isSome ∨ t.isSome) :
    (∃ x ∈ allPieces reading zs, ∃ i ∈ separatePiece disjunctNum x, i.contains v ∧ P x.left x.right) ↔
      P (stateAt reading (pos v) none zs) (stateAt reading.swap (pos v) none zs) := by
  rw [← exists_mem_allPieces_iff h.ascending h.alternates0 h.alternates1 (P := P) (fun hnone => by simpa using hP _ _ hnone)]
  simp only [contains_iff]
  constructor
  · rintro ⟨x, hx, i, hi, hv, hPx⟩
    obtain ⟨hlo, hhi, -⟩ := lo_separatePiece hi
    rw [hlo, hhi] at hv
    exact ⟨x, hx, hv.1, hv.2, hPx⟩
  · rintro ⟨x, hx, hfst, hlast, hPx⟩
    -- the piece is not left out, since the value lies in it
    have hnonempty := (givesNonEmptyInterval_iff (le_of_mem_allPieces h.ascending hx)).2
      (hfst.trans_lt hlast)
    have hi : separatePiece disjunctNum x = some _ := if_pos ⟨hP _ _ hPx, hnonempty⟩
    obtain ⟨hlo, hhi, -⟩ := lo_separatePiece hi
    refine ⟨x, hx, _, hi, ?_, hPx⟩
    rw [hlo, hhi]
    exact ⟨hfst, hlast⟩

lemma covers_unionSeparateDisjuncts (h : Swept l l' zs) (v : α) :
    Covers ((allPieces reading zs).filterMap (separatePiece disjunctNum)) v ↔ Covers l v ∨ Covers l' v := by
  rw [← (h.isSome_iff v).1, ← (h.isSome_iff v).2, ← exists_separatePiece_iff h disjunctNum v
    (P := fun s t => s.isSome ∨ t.isSome) fun _ _ => id]
  simp only [Covers, mem_filterMap]
  constructor
  · rintro ⟨i, ⟨x, hx, hi⟩, hv⟩
    exact ⟨x, hx, i, hi, hv, (isSome_of_separatePiece hi).1⟩
  · rintro ⟨x, hx, i, hi, hv, -⟩
    exact ⟨i, ⟨x, hx, hi⟩, hv⟩

lemma mem_refList_iff (h : Swept l l' zs)
    (hi : i ∈ (allPieces reading zs).filterMap (separatePiece disjunctNum)) {v : α} (hv : i.contains v) :
    n ∈ i.refList ↔ Refers l v n ∨ (n = disjunctNum ∧ Covers l' v) := by
  obtain ⟨x, hx, hxi⟩ := mem_filterMap.1 hi
  have hrefs := (exists_separatePiece_iff h disjunctNum v
    (P := fun s t => (s.isSome ∨ t.isSome) ∧ i.refList = createRefList s t disjunctNum)
    fun _ _ => And.left).1 ⟨x, hx, i, hxi, hv, (isSome_of_separatePiece hxi).1, (lo_separatePiece hxi).2.2⟩
  rw [hrefs.2]
  exact h.mem_createRefList_iff v n disjunctNum

lemma unionSeparateDisjuncts_spec (h : Separated lo hi l) (h' : Separated lo hi l')
    (disjunctNum : ℕ) : Separated lo hi (unionSeparateDisjuncts l l' disjunctNum) ∧
      ∀ v n, Refers (unionSeparateDisjuncts l l' disjunctNum) v n ↔
        Refers l v n ∨ (n = disjunctNum ∧ Covers l' v) := by
  have hsw := swept h h'
  rw [unionSeparateDisjuncts_eq disjunctNum hsw]
  refine ⟨separated_filterMap hsw.ascending fun x _ i hi =>
    ⟨(lo_separatePiece hi).1, (lo_separatePiece hi).2.1⟩, fun v n => ⟨?_, fun hn => ?_⟩⟩
  · rintro ⟨i, hi, hv, hn⟩
    exact (mem_refList_iff hsw hi hv).1 hn
  · have hcov : Covers l v ∨ Covers l' v := hn.imp (fun ⟨i, hi, hv, _⟩ => ⟨i, hi, hv⟩) And.right
    obtain ⟨i, hi, hv⟩ := (covers_unionSeparateDisjuncts hsw v).2 hcov
    exact ⟨i, hi, hv, (mem_refList_iff hsw hi hv).2 hn⟩

/-! ### Intervals that begin before they end -/

lemma rankCut_le_iff {e' : MdamEndPoint α} (h : e.endPointType = .beginning)
    (h' : e'.endPointType = .ending) : rankCut e ≤ rankCut e' ↔ cut e < cut e' := by
  unfold rankCut cut rank
  rw [Prod.Lex.toLex_le_toLex, Prod.Lex.toLex_lt_toLex, h, h']
  cases e.point.inclusion <;> cases e'.point.inclusion <;> simp

/-- Ascending, disjoint intervals that begin before they end. -/
structure IntervalList (l : List (MdamInterval α)) : Prop where
  lt : ∀ i ∈ l, lo i < hi i
  pairwise : l.Pairwise fun i j => hi i ≤ lo j

section
variable (h : IntervalList l)
include h

lemma IntervalList.separated : Separated lo hi l :=
  ⟨fun i hi => (h.lt i hi).le, h.pairwise⟩

lemma IntervalList.separated_ranked :
    Separated (fun i => rankCut ⟨i.beginPoint, .beginning, none, none⟩)
      (fun i => rankCut ⟨i.endPoint, .ending, none, none⟩) l := by
  refine ⟨fun i hi => (rankCut_le_iff rfl rfl).2 ?_, h.pairwise.imp fun hle => ?_⟩
  · rw [← toLex_beginning rfl, ← toLex_ending rfl]
    exact h.lt i hi
  · refine (lt_of_not_ge fun hge => ?_).le
    have hlt := (rankCut_le_iff rfl rfl).1 hge
    rw [← toLex_beginning rfl, ← toLex_ending rfl] at hlt
    exact hle.not_gt hlt

lemma IntervalList.ascending_ranked (h' : IntervalList l') :
    Ascending (readingBy rankCut) (merge (endPoints0 l) (endPoints1 l')) := by
  refine (merge_merged (fun _ _ => id) _ _).ascending
    (h.separated_ranked.ascending ⟨?_, ?_, ?_, ?_, ?_, ?_⟩)
    (h'.separated_ranked.ascending (R := (readingBy rankCut).swap) ⟨?_, ?_, ?_, ?_, ?_, ?_⟩)
  all_goals exact fun _ => rfl

lemma IntervalList.intersect (h' : IntervalList l') : IntervalList (intersect l l') := by
  have hsw := swept h.separated h'.separated
  refine ⟨fun i hi => ?_, (intersect_spec h.separated h'.separated).1.pairwise⟩
  rw [intersect_eq hsw] at hi
  obtain ⟨x, hx, hxi⟩ := mem_filterMap.1 hi
  obtain ⟨hbeginning, hending⟩ := (types_of_intersection hsw hx hxi).1
  obtain ⟨hlo, hhi⟩ := lo_intersection hsw x hx i hxi
  rw [hlo, hhi, ← rankCut_le_iff hbeginning hending]
  exact rel_of_mem_allPieces (h.ascending_ranked h') hx

end

lemma lt_of_mem_unionSameLoop (first : Option (MdamEndPoint α)) (h : Ascending (readingBy rankCut) es)
    (hbel : ∀ e ∈ es, e.interval0 ≠ none ∨ e.interval1 ≠ none) (h0 : Alternates reading s es)
    (h1 : Alternates reading.swap t es) (hfst : Begun first s t [])
    (hrank : ∀ e ∈ first, ∀ e' ∈ es, rankCut e ≤ rankCut e') :
    ∀ i ∈ unionSameLoop (count s + count t) first es, lo i < hi i := by
  induction es generalizing s t first with
  | nil => cases first <;> exact nofun
  | cons e' es ih =>
    obtain ⟨hle, hes⟩ := pairwise_cons.1 h
    obtain ⟨hbelong, hbel'⟩ := forall_mem_cons.1 hbel
    have hact := activeIntervals_of_alternates hbel h0 h1
    cases first with
    | none =>
      obtain ⟨rfl, rfl⟩ := hfst
      have htype := beginning_of_alternates hbelong h0 h1
      rw [unionSameLoop, hact]
      exact ih (some e') hes hbel' h0.2 h1.2 ⟨isSome_adjust hbelong htype, htype, nofun⟩
        (by rintro _ ⟨⟩; exact hle)
    | some e =>
      obtain ⟨-, htype, -⟩ := hfst
      have hrank' := hrank e rfl
      rw [unionSameLoop, hact]
      split_ifs with hpos
      · exact ih (some e) hes hbel' h0.2 h1.2 ⟨count_add_pos.1 hpos, htype, nofun⟩
          (by rintro _ ⟨⟩; exact (forall_mem_cons.1 hrank').2)
      · obtain ⟨htype', hclosed⟩ := ending_of_closed hbelong hpos
        refine forall_mem_cons.2 ⟨?_, ih none hes hbel' h0.2 h1.2 hclosed nofun⟩
        have hlt := (rankCut_le_iff htype htype').1 (hrank' e' mem_cons_self)
        rwa [← toLex_beginning htype, ← toLex_ending htype'] at hlt

theorem intervalList_operations (h : IntervalList l) (h' : IntervalList l') (disjunctNum : ℕ) :
    (IntervalList (intersect l l') ∧ ∀ v, Covers (intersect l l') v ↔ Covers l v ∧ Covers l' v) ∧
    (IntervalList (unionSameDisjunct l l') ∧
      ∀ v, Covers (unionSameDisjunct l l') v ↔ Covers l v ∨ Covers l' v) ∧
    IntervalList (unionSeparateDisjuncts l l' disjunctNum) ∧
      (∀ v, Covers (unionSeparateDisjuncts l l' disjunctNum) v ↔ Covers l v ∨ Covers l' v) ∧
      ∀ i ∈ unionSeparateDisjuncts l l' disjunctNum, ∀ v, i.contains v → ∀ n, n ∈ i.refList ↔
        (∃ j ∈ l, j.contains v ∧ n ∈ j.refList) ∨ (n = disjunctNum ∧ Covers l' v) := by
  have hswept := swept h.separated h'.separated
  have hsame := unionSameDisjunct_spec h.separated h'.separated
  have hseparate := unionSeparateDisjuncts_spec h.separated h'.separated disjunctNum
  refine ⟨⟨h.intersect h', (intersect_spec h.separated h'.separated).2⟩, ⟨⟨?_, hsame.1.pairwise⟩, hsame.2⟩,
    ⟨?_, hseparate.1.pairwise⟩, ?_⟩
  · exact lt_of_mem_unionSameLoop none (h.ascending_ranked h') hswept.belongs hswept.alternates0
      hswept.alternates1 ⟨rfl, rfl⟩ nofun
  · intro i hi
    rw [unionSeparateDisjuncts_eq disjunctNum hswept] at hi
    obtain ⟨x, hx, hxi⟩ := mem_filterMap.1 hi
    obtain ⟨hlo, hhi, -⟩ := lo_separatePiece hxi
    rw [hlo, hhi, ← givesNonEmptyInterval_iff (le_of_mem_allPieces hswept.ascending hx)]
    exact (isSome_of_separatePiece hxi).2
  · rw [unionSeparateDisjuncts_eq disjunctNum hswept]
    exact ⟨covers_unionSeparateDisjuncts hswept, fun i hi v hv n => mem_refList_iff hswept hi hv⟩

/-- The intervals from 1 to 3 and from 2 to 4, without the outer endpoints. -/
theorem intervalList_operations_overlap :
    IntervalList (intersect [⟨⟨1, .excluded⟩, ⟨3, .included⟩, [7]⟩]
      [(⟨⟨2, .included⟩, ⟨4, .excluded⟩, []⟩ : MdamInterval ℕ)]) := by
  refine (intervalList_operations ⟨?_, ?_⟩ ⟨?_, ?_⟩ 8).1.1
  all_goals decide

end Trafodion.Mdam
