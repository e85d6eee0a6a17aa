import Trafodion.SplitTopOrder

/-!
# The merge sequence

The sequence holds children with a row at the head of their queue, ordered by the keys of those
rows. When all the active children are in it, the first has a least row of all that are left.
-/
namespace Trafodion.SplitTop

open List Tcb

variable {α κ : Type} [LinearOrder κ]

/-! ### Binary search -/

def SortedKeys (seq : List (ℕ × κ)) : Prop := seq.Pairwise fun x y => x.2 ≤ y.2

variable {seq : List (ℕ × κ)}

section
variable (h : SortedKeys seq)
include h

variable (ch : ℕ) (newKey : κ) {i : ℕ} {x : ℕ × κ}

lemma SortedKeys.drop_of_le (hx : seq[i]? = some x) {newKey : κ} (hle : newKey ≤ x.2) :
    ∀ y ∈ seq.drop i, newKey ≤ y.2 := by
  obtain ⟨hi, rfl⟩ := List.getElem?_eq_some_iff.1 hx
  intro y hy
  rw [List.drop_eq_getElem_cons hi] at hy
  have hdrop : SortedKeys (seq.drop i) := h.sublist (List.drop_sublist i seq)
  rw [List.drop_eq_getElem_cons hi] at hdrop
  obtain rfl | hy := List.mem_cons.1 hy
  · exact hle
  · exact hle.trans ((List.pairwise_cons.1 hdrop).1 y hy)

lemma SortedKeys.take_of_lt (hx : seq[i]? = some x) {newKey : κ} (hlt : x.2 < newKey) :
    ∀ y ∈ seq.take (i + 1), y.2 < newKey := by
  obtain ⟨hi, rfl⟩ := List.getElem?_eq_some_iff.1 hx
  have htake : SortedKeys (seq.take (i + 1)) := h.sublist (List.take_sublist _ seq)
  rw [List.take_succ_eq_append_getElem hi] at htake ⊢
  refine List.forall_mem_append.2 ⟨fun y hy => ?_, List.forall_mem_singleton.2 hlt⟩
  exact lt_of_le_of_lt ((List.pairwise_append.1 htake).2.2 y hy _ (by simp)) hlt

lemma searchKey_spec (low high : ℕ)
    (hhigh : high ≤ seq.length) (hfront : ∀ x ∈ seq.take low, x.2 < newKey)
    (hback : ∀ x ∈ seq.drop high, newKey ≤ x.2) (hle : low ≤ high) :
    (∀ x ∈ seq.take (searchKey seq newKey low high), x.2 < newKey) ∧
      ∀ x ∈ seq.drop (searchKey seq newKey low high), newKey ≤ x.2 := by
  fun_induction searchKey seq newKey low high with
  | case1 low high hlt ch testKey hget hkey ih =>
    exact ih (by omega) hfront (h.drop_of_le hget hkey) (by omega)
  | case2 low high hlt ch testKey hget hkey ih =>
    exact ih hhigh (h.take_of_lt hget (not_le.1 hkey)) hback (by omega)
  | case3 low high hlt hget =>
    rw [getElem?_eq_none_iff] at hget
    omega
  | case4 low high hlt =>
    obtain rfl : low = high := by omega
    exact ⟨hfront, hback⟩

lemma insertAt_sorted :
    SortedKeys (insertAt seq (searchKey seq newKey 0 seq.length) (ch, newKey)) := by
  obtain ⟨hfront, hback⟩ := searchKey_spec h newKey 0 seq.length le_rfl (by simp) (by simp)
    (Nat.zero_le _)
  generalize searchKey seq newKey 0 seq.length = i at *
  refine pairwise_append.2 ⟨h.sublist (take_sublist i seq), ?_, ?_⟩
  · exact pairwise_cons.2 ⟨hback, h.sublist (drop_sublist i seq)⟩
  · intro x hx y hy
    obtain rfl | hy := mem_cons.1 hy
    · exact (hfront x hx).le
    · exact (hfront x hx).le.trans (hback y hy)

end

omit [LinearOrder κ] in
lemma insertAt_perm (seq : List (ℕ × κ)) (i : ℕ) (x : ℕ × κ) :
    (insertAt seq i x).Perm (x :: seq) := by
  refine perm_middle.trans ?_
  rw [take_append_drop]

/-! ### Completing the sequence -/

variable {key : α → κ} {queues : ℕ → List (Entry α)}

structure Merged (key : α → κ) (queues : ℕ → List (Entry α)) (seq : List (ℕ × κ)) : Prop where
  sorted : SortedKeys seq
  heads : ∀ x ∈ seq, ∃ r q, queues x.1 = .row r :: q ∧ key r = x.2

lemma Merged.insert (h : Merged key queues seq) {ch : ℕ} {r : α}
    {q : List (Entry α)} (hq : queues ch = .row r :: q) :
    Merged key queues (insertAt seq (searchKey seq (key r) 0 seq.length) (ch, key r)) := by
  refine ⟨insertAt_sorted h.sorted ch (key r), fun x hx => ?_⟩
  obtain rfl | hx := mem_cons.1 ((insertAt_perm _ _ _).subset hx)
  · exact ⟨r, q, hq, rfl⟩
  · exact h.heads x hx

structure Completed (key : α → κ) (queues : ℕ → List (Entry α)) (visit : List ℕ)
    (seq : List (ℕ × κ)) (unmerged : List ℕ) (res : List (ℕ × κ) × List ℕ × Option ℕ) :
    Prop where
  merged : Merged key queues res.1
  perm : (res.2.2.toList ++ (res.1.map Prod.fst ++ res.2.1)).Perm (seq.map Prod.fst ++ unmerged)
  sub : ∀ ch ∈ res.2.1, ch ∈ unmerged
  last : ∀ ch ∈ res.2.2, (queues ch).head? = some .noData
  rest : res.2.2 = none → ∀ ch ∈ res.2.1, ch ∈ visit → queues ch = []

lemma mergeChildren_spec {visit : List ℕ} {unmerged : List ℕ} (hseq : Merged key queues seq)
    (hsub : ∀ ch ∈ visit, ch ∈ unmerged) (hvisit : visit.Nodup) (hunmerged : unmerged.Nodup) :
    Completed key queues visit seq unmerged (mergeChildren key queues visit seq unmerged) := by
  induction visit generalizing seq unmerged with
  | nil => exact ⟨hseq, .refl _, fun _ hc => hc, by simp [mergeChildren], by simp⟩
  | cons ch visit ih =>
    obtain ⟨hnot, hvisit'⟩ := nodup_cons.1 hvisit
    have hch := hsub ch mem_cons_self
    have hsub' : ∀ c ∈ visit, c ∈ unmerged := (forall_mem_cons.1 hsub).2
    rw [mergeChildren]
    match hq : queues ch with
    | [] =>
      have hrec := ih hseq hsub' hvisit' hunmerged
      refine { hrec with rest := fun hnone c hc hmem => ?_ }
      obtain rfl | hmem := mem_cons.1 hmem
      · exact hq
      · exact hrec.rest hnone c hc hmem
    | .noData :: q =>
      refine ⟨hseq, ?_, fun c hc => mem_of_mem_erase hc, ?_, by simp⟩
      · have hperm : (ch :: unmerged.erase ch).Perm unmerged := (perm_cons_erase hch).symm
        have hmiddle : (ch :: (seq.map Prod.fst ++ unmerged.erase ch)).Perm
            (seq.map Prod.fst ++ ch :: unmerged.erase ch) := perm_middle.symm
        exact hmiddle.trans (hperm.append_left (seq.map Prod.fst))
      · simp [hq]
    | .row r :: q =>
      have hsub'' : ∀ c ∈ visit, c ∈ unmerged.erase ch := by
        intro c hc
        have hne : c ≠ ch := by
          rintro rfl
          exact hnot hc
        exact (mem_erase_of_ne hne).2 (hsub' c hc)
      have hrec := ih (hseq.insert hq) hsub'' hvisit' (hunmerged.erase ch)
      refine ⟨hrec.merged, hrec.perm.trans ?_, fun c hc => mem_of_mem_erase (hrec.sub c hc),
        hrec.last, fun hnone c hc hmem => ?_⟩
      · have hperm : (ch :: unmerged.erase ch).Perm unmerged := (perm_cons_erase hch).symm
        refine (((insertAt_perm _ _ _).map Prod.fst).append_right _).trans ?_
        refine List.Perm.trans ?_ (hperm.append_left (seq.map Prod.fst))
        exact perm_middle.symm
      · obtain rfl | hmem := mem_cons.1 hmem
        · exact absurd (hrec.sub c hc) hunmerged.not_mem_erase
        · exact hrec.rest hnone c hc hmem

/-! ### The next child -/

section Next

variable {active : List ℕ} {rows : ℕ → List α} {req : Request} {t : Tcb α κ}
  {pending : ℕ → List (Entry α)}

def MergeData (key : α → κ) (t : Tcb α κ) : Prop :=
  t.state = .merging → Merged key t.queues t.mergeSequence ∧
    (t.mergeSequence.map Prod.fst ++ t.unmergedChildren).Perm t.activeChildren

structure Next (active : List ℕ) (rows : ℕ → List α) (key : α → κ) (req : Request)
    (pending : ℕ → List (Entry α)) (t : Tcb α κ) (ch : ℕ) : Prop where
  good : Good active rows (some key) req t pending
  mem : ch ∈ t.activeChildren
  entry : t.queues ch ≠ []
  least : ∀ r q, t.queues ch = .row r :: q → Open active rows req t pending →
    Least active (some key) t pending r
  merged : t.state = .merging → Merged key t.queues t.mergeSequence
  apart : t.state = .merging → ch ∉ t.mergeSequence.map Prod.fst
  others : t.state = .merging → (t.queues ch).head? = some .noData →
    (ch :: (t.mergeSequence.map Prod.fst ++ t.unmergedChildren)).Perm t.activeChildren
  all : t.state = .merging → (t.queues ch).head? ≠ some .noData →
    (t.mergeSequence.map Prod.fst ++ t.unmergedChildren).Perm t.activeChildren

lemma Next.takeEntry {ch : ℕ} (h : Next active rows key req pending t ch) :
    Good active rows (some key) req (t.takeEntry req ch).1 pending ∧
      MergeData key (t.takeEntry req ch).1 ∧ (t.takeEntry req ch).1.queued < t.queued := by
  obtain ⟨hgood, htook, -⟩ := h.good.takeEntry h.mem h.entry h.least
  refine ⟨hgood, fun hst => ?_, htook.queued_lt h.good.nodup h.mem h.entry⟩
  have hmerg : t.state = .merging := by
    obtain hsame | hcan := htook.state
    · rw [← hsame, hst]
    · rw [hst] at hcan
      cases hcan
  have hmgd := h.merged hmerg
  rw [htook.mergeSequence, htook.unmerged, htook.active]
  refine ⟨⟨hmgd.sorted, fun x hx => ?_⟩, ?_⟩
  · have hne : x.1 ≠ ch := by
      intro heq
      have hmem : x.1 ∈ t.mergeSequence.map Prod.fst := mem_map_of_mem hx
      rw [heq] at hmem
      exact h.apart hmerg hmem
    rw [htook.queues, Function.update_of_ne hne]
    exact hmgd.heads x hx
  · by_cases hlast : (t.queues ch).head? = some .noData
    · rw [if_pos (htook.last.2 hlast)]
      exact (cons_perm_iff_perm_erase.1 (h.others hmerg hlast)).2
    · rw [if_neg fun hend => hlast (htook.last.1 hend)]
      exact h.all hmerg hlast

variable {ch : ℕ}

lemma Open.sorted (hopen : Open active rows req t pending)
    (hsort : ∀ ch ∈ active, (rows ch).Pairwise fun x y => key x ≤ key y) (hch : ch ∈ active) {r : α}
    {q : List (Entry α)} (hq : t.queues ch = .row r :: q) :
    ∀ y ∈ rowsOf (t.queues ch ++ pending ch), key r ≤ key y := by
  have hdrop : ((rows ch).drop (fromChild ch (sentRows t.up)).length).Pairwise
      fun x y => key x ≤ key y := (hsort ch hch).sublist (drop_sublist _ _)
  have hrows := hopen.left ch hch
  rw [hopen.next hch hq] at hdrop hrows
  rw [hrows]
  exact forall_mem_cons.2 ⟨le_rfl, (pairwise_cons.1 hdrop).1⟩

lemma least_of_complete (h : Good active rows (some key) req t pending)
    (hsort : ∀ ch ∈ active, (rows ch).Pairwise fun x y => key x ≤ key y)
    (hopen : Open active rows req t pending) {k : κ} (hmgd : Merged key t.queues ((ch, k) :: seq))
    (hall : ∀ c ∈ t.activeChildren, c ∈ ((ch, k) :: seq).map Prod.fst) {r : α} {q : List (Entry α)}
    (hq : t.queues ch = .row r :: q) : Least active (some key) t pending r := by
  rintro key' hkey' c hc y hy
  cases hkey'
  have hk : key r = k := by
    obtain ⟨r', q', hq', hkey⟩ := hmgd.heads _ mem_cons_self
    rw [hq] at hq'
    cases hq'
    exact hkey
  by_cases hact : c ∈ t.activeChildren
  · obtain ⟨x, hx, rfl⟩ := mem_map.1 (hall c hact)
    obtain ⟨r', q', hq', hkey⟩ := hmgd.heads x hx
    have hle : ∀ x ∈ (ch, k) :: seq, k ≤ x.2 :=
      forall_mem_cons.2 ⟨le_rfl, (pairwise_cons.1 hmgd.sorted).1⟩
    rw [hk]
    exact (hle x hx).trans (hkey ▸ hopen.sorted hsort hc hq' y hy)
  · rw [(h.ended c hact).1, (h.ended c hact).2] at hy
    cases hy

section
variable {mergeKey : Option (α → κ)} (h : Good active rows mergeKey req t pending)
include h

lemma Good.setMerge (seq : List (ℕ × κ)) (unmerged : List ℕ) : Good active rows mergeKey req
      { t with mergeSequence := seq, unmergedChildren := unmerged } pending :=
  ⟨h.sub, h.desc, h.live, h.ended, h.emptyRead, h.up, h.first,
    h.wanted.imp (fun hopen => { hopen with })
      fun hfill => ⟨hfill.state, hfill.count⟩, h.done⟩

lemma Good.startMerge (hst : t.state = .allSentDown) : Good active rows mergeKey req { t with
      mergeSequence := [], unmergedChildren := t.activeChildren, state := .merging } pending := by
  refine { h with up := ?_, wanted := ?_, done := by simp }
  · have hup := h.up
    rwa [hst] at hup
  · obtain hopen | hfill := h.wanted
    · exact .inl ⟨by simp, hopen.count, hopen.few, hopen.left⟩
    · have hnot := hfill.state
      rw [hst] at hnot
      simp at hnot

end

/-! ### Any child -/

lemma mem_takeWhile_of_lt {l : List ℕ} (hdesc : l.Pairwise (· > ·)) {start : Option ℕ} {c : ℕ}
    (hc : c ∈ l) (hst0 : ∀ s ∈ start, s < c) : c ∈ l.takeWhile fun ch => start ≠ some ch := by
  induction l with
  | nil => cases hc
  | cons x l ih =>
    obtain ⟨hgt, hdesc'⟩ := pairwise_cons.1 hdesc
    have hxc : c ≤ x := by
      obtain rfl | hc := mem_cons.1 hc
      · exact le_rfl
      · exact (hgt c hc).le
    have hx : start ≠ some x := by
      rintro rfl
      have := hst0 x rfl
      omega
    rw [takeWhile_cons_of_pos (by simpa using hx)]
    obtain rfl | hc := mem_cons.1 hc
    · exact mem_cons_self
    · exact mem_cons_of_mem _ (ih hdesc' hc)

omit [LinearOrder κ] in
lemma findAnyChild_some (h : t.findAnyChild = some ch) :
    ch ∈ t.activeChildren ∧ t.queues ch ≠ [] := by
  have hne : t.queues ch ≠ [] := by
    have hpred := find?_some h
    simpa using hpred
  refine ⟨?_, hne⟩
  obtain hmem | hmem := mem_append.1 (mem_of_find?_eq_some h)
  · exact (mem_filter.1 hmem).1
  · match hact : t.activeChildren with
    | [] =>
      rw [hact] at hmem
      cases hmem
    | last :: rest =>
      rw [hact] at hmem
      obtain rfl | hmem := mem_cons.1 hmem
      · exact mem_cons_self
      · exact mem_cons_of_mem _ ((takeWhile_sublist _).subset hmem)

omit [LinearOrder κ] in
lemma findAnyChild_none (hdesc : t.activeChildren.Pairwise (· > ·)) (h : t.findAnyChild = none) :
    ∀ ch ∈ t.activeChildren, t.queues ch = [] := by
  intro ch hch
  have hall := find?_eq_none.1 h ch
  by_contra hne
  refine hall ?_ (by simpa using hne)
  by_cases hlt : ch < t.currActiveChild
  · exact mem_append_left _ (mem_filter.2 ⟨hch, by simpa using hlt⟩)
  · refine mem_append_right _ ?_
    have hst0 : ∀ s ∈ (t.activeChildren.filter (· < t.currActiveChild)).head?, s < ch := by
      intro s hs
      have hmem := mem_of_mem_head? hs
      have hs' := (mem_filter.1 hmem).2
      have hs'' : s < t.currActiveChild := by simpa using hs'
      omega
    generalize (t.activeChildren.filter (· < t.currActiveChild)).head? = start at hst0
    match hact : t.activeChildren with
    | [] =>
      rw [hact] at hch
      cases hch
    | last :: rest =>
      rw [hact] at hch hdesc
      obtain rfl | hch := mem_cons.1 hch
      · exact mem_cons_self
      · exact mem_cons_of_mem _ (mem_takeWhile_of_lt (pairwise_cons.1 hdesc).2 hch hst0)

/-! ### `findNextReadyChild` -/

structure Found (active : List ℕ) (rows : ℕ → List α) (key : α → κ) (req : Request)
    (pending : ℕ → List (Entry α)) (t : Tcb α κ) (res : Tcb α κ × Option ℕ) : Prop where
  good : Good active rows (some key) req res.1 pending
  same : res.1.activeChildren = t.activeChildren ∧ res.1.queues = t.queues ∧ res.1.free = t.free
  next : ∀ ch ∈ res.2, Next active rows key req pending res.1 ch
  left : res.2 = none → MergeData key res.1
  found : (∀ ch ∈ t.activeChildren, t.queues ch ≠ []) → t.activeChildren ≠ [] → res.2 ≠ none

lemma Good.findAny (h : Good active rows (some key) req t pending) (hst : t.state = .cancelling) :
    Found active rows key req pending t t.findAny := by
  have hmerg : ∀ {p : Prop}, t.state = .merging → p := by
    intro p hmerg
    rw [hst] at hmerg
    cases hmerg
  unfold Tcb.findAny
  match hany : t.findAnyChild with
  | some ch =>
    obtain ⟨hmem, hne⟩ := findAnyChild_some hany
    have hgood : Good active rows (some key) req { t with currActiveChild := ch } pending :=
      ⟨h.sub, h.desc, h.live, h.ended, h.emptyRead, h.up, h.first,
        h.wanted.imp (fun hopen => { hopen with })
          fun hfill => ⟨hfill.state, hfill.count⟩, h.done⟩
    refine ⟨hgood, ⟨rfl, rfl, rfl⟩, ?_, by simp, by simp⟩
    rintro c hc
    cases hc
    exact ⟨hgood, hmem, hne, fun r q _ hopen => absurd hst hopen.state, hmerg, hmerg,
      hmerg, hmerg⟩
  | none =>
    refine ⟨h, ⟨rfl, rfl, rfl⟩, by simp, fun _ => hmerg, fun hall hact => ?_⟩
    obtain ⟨ch, hch⟩ := exists_mem_of_ne_nil _ hact
    exact absurd (findAnyChild_none h.desc hany ch hch) (hall ch hch)

lemma mergeChildren_of_empty (hemp : ∀ ch, queues ch = []) (visit : List ℕ)
    (seq : List (ℕ × κ)) (unmerged : List ℕ) :
    mergeChildren key queues visit seq unmerged = (seq, unmerged, none) := by
  induction visit with
  | nil => rfl
  | cons ch visit ih =>
    rw [mergeChildren, hemp ch]
    exact ih

omit [LinearOrder κ] in
lemma chooseFirst_of_empty (hact : t.activeChildren = []) (seq : List (ℕ × κ))
    (unmerged : List ℕ) : t.chooseFirst seq unmerged =
      ({ t with mergeSequence := seq, unmergedChildren := unmerged }, none) := by
  cases seq with
  | nil => rfl
  | cons x rest =>
    unfold chooseFirst
    dsimp only
    rw [if_neg (by simp [hact])]

section
variable (h : Good active rows (some key) req t pending)
  (hsort : ∀ ch ∈ active, (rows ch).Pairwise fun x y => key x ≤ key y)
include h hsort

lemma Good.chooseFirst {seq : List (ℕ × κ)} {unmerged : List ℕ} (hmgd : Merged key t.queues seq)
    (hperm : (seq.map Prod.fst ++ unmerged).Perm t.activeChildren)
    (hrest : ∀ ch ∈ unmerged, t.queues ch = []) :
    Found active rows key req pending t (t.chooseFirst seq unmerged) := by
  have hlen : seq.length + unmerged.length = t.activeChildren.length := by
    rw [← hperm.length_eq, length_append, length_map]
  have hstuck : Found active rows key req pending t
      ({ t with mergeSequence := seq, unmergedChildren := unmerged }, none) ∨ unmerged = [] := by
    by_cases hnil : unmerged = []
    · exact .inr hnil
    · refine .inl ⟨h.setMerge seq unmerged, ⟨rfl, rfl, rfl⟩, by simp, fun _ _ => ⟨hmgd, hperm⟩,
        fun hall _ => ?_⟩
      obtain ⟨ch, hch⟩ := exists_mem_of_ne_nil _ hnil
      exact absurd (hrest ch hch) (hall ch (hperm.subset (mem_append_right _ hch)))
  unfold Tcb.chooseFirst
  match seq with
  | [] =>
    obtain hfd | hnil := hstuck
    · exact hfd
    · refine ⟨h.setMerge [] unmerged, ⟨rfl, rfl, rfl⟩, by simp, fun _ _ => ⟨hmgd, hperm⟩,
        fun _ hact => ?_⟩
      rw [hnil] at hperm
      exact absurd hperm.symm.eq_nil hact
  | (ch, k) :: rest =>
    split_ifs with hcompl
    · have hnil : unmerged = [] := eq_nil_of_length_eq_zero (by omega)
      subst hnil
      rw [append_nil] at hperm
      obtain ⟨r, q, hq, hk⟩ := hmgd.heads _ mem_cons_self
      have hnd := hperm.nodup_iff.2 h.nodup
      have hgood := h.setMerge rest (([] : List ℕ).orderedInsert (· ≥ ·) ch)
      refine ⟨hgood, ⟨rfl, rfl, rfl⟩, ?_, by simp, by simp⟩
      rintro c hc
      cases hc
      refine ⟨hgood, hperm.subset mem_cons_self, by simp [hq], ?_, ?_, ?_, ?_, ?_⟩
      · intro r' q' hq' hopen
        have hopen' : Open active rows req t pending :=
          { hopen with }
        exact least_of_complete h hsort hopen' hmgd (fun c hc => hperm.symm.subset hc) hq'
      · exact fun _ => ⟨(pairwise_cons.1 hmgd.sorted).2,
          (forall_mem_cons.1 hmgd.heads).2⟩
      · exact fun _ => (nodup_cons.1 hnd).1
      · exact fun _ hlast => by simp [hq] at hlast
      · intro _ _
        exact perm_append_comm.trans hperm
    · refine hstuck.resolve_right fun hnil => hcompl ?_
      rw [hnil] at hlen
      simpa using hlen

lemma Good.findMerging (hdata : MergeData key t)
    (hmerg : t.state = .merging) : Found active rows key req pending t (t.findMerged key) := by
  obtain ⟨hmgd, hperm⟩ := hdata hmerg
  have hnd : t.unmergedChildren.Nodup :=
    (hperm.nodup_iff.2 h.nodup).sublist (sublist_append_right _ _)
  have hspec := mergeChildren_spec hmgd (fun _ hc => hc) hnd hnd
  unfold findMerged
  generalize mergeChildren key t.queues t.unmergedChildren t.mergeSequence
    t.unmergedChildren = res at hspec ⊢
  obtain ⟨seq, unmerged, ended⟩ := res
  have hall := hspec.perm.trans hperm
  cases ended with
  | none =>
    exact h.chooseFirst hsort hspec.merged hall
      fun ch hch => hspec.rest rfl ch hch (hspec.sub ch hch)
  | some ch =>
    have hlast := hspec.last ch rfl
    have hnd' := nodup_cons.1 (hall.nodup_iff.2 h.nodup)
    have hgood := h.setMerge seq unmerged
    refine ⟨hgood, ⟨rfl, rfl, rfl⟩, ?_, by simp, by simp⟩
    rintro c hc
    cases hc
    refine ⟨hgood, hall.subset mem_cons_self, ?_, ?_, fun _ => hspec.merged, ?_,
      fun _ _ => hall, fun _ hne => absurd hlast hne⟩
    · intro hnil
      rw [show t.queues ch = [] from hnil] at hlast
      cases hlast
    · intro r q hq
      rw [show t.queues ch = .row r :: q from hq] at hlast
      cases hlast
    · intro _ hmem
      exact hnd'.1 (mem_append_left unmerged hmem)

omit hsort in
lemma Good.findEnded (hend : t.state = .endOfData ∨ t.state = .finished) :
    Found active rows key req pending t (t.findMerged key) := by
  have hact := h.done hend
  have hemp : ∀ ch, t.queues ch = [] := fun ch => (h.ended ch (by simp [hact])).1
  have hnone : t.findMerged key =
      ({ t with mergeSequence := t.mergeSequence, unmergedChildren := t.unmergedChildren },
        none) := by
    rw [findMerged, mergeChildren_of_empty hemp]
    exact chooseFirst_of_empty hact _ _
  rw [hnone]
  refine ⟨h.setMerge _ _, ⟨rfl, rfl, rfl⟩, by simp, fun _ hmerg => ?_,
    fun _ hne => absurd hact hne⟩
  obtain hend | hend := hend <;> rw [show t.state = .merging from hmerg] at hend <;> cases hend

lemma Good.findNextReadyChild (hdata : MergeData key t) :
    Found active rows key req pending t (t.findNextReadyChild key) := by
  unfold Tcb.findNextReadyChild
  by_cases hst0 : t.state = .allSentDown
  · have hfd := (h.startMerge hst0).findMerging hsort
      (fun _ => ⟨⟨List.Pairwise.nil, by simp⟩, .refl _⟩) rfl
    have hbegin : t.startMerge = { t with
      mergeSequence := [], unmergedChildren := t.activeChildren, state := .merging } := if_pos hst0
    rw [hbegin, if_neg (by simp)]
    exact { hfd with }
  have hsame : t.startMerge = t := if_neg hst0
  rw [hsame]
  split_ifs with hcan
  · exact h.findAny hcan
  by_cases hmerg : t.state = .merging
  · exact h.findMerging hsort hdata hmerg
  · refine h.findEnded ?_
    cases hst : t.state <;> simp_all

end

/-! ### The loop -/

lemma Found.queued {res : Tcb α κ × Option ℕ} (h : Found active rows key req pending t res) :
    res.1.queued = t.queued := by
  rw [Tcb.queued, Tcb.queued, h.same.1, h.same.2.1]

section
variable (fuel : ℕ) (h : Good active rows (some key) req t pending) (hdata : MergeData key t)
  (hsort : ∀ ch ∈ active, (rows ch).Pairwise fun x y => key x ≤ key y)
include h hdata hsort

lemma Good.mergeLoop : Good active rows (some key) req (mergeLoop key req fuel t) pending ∧
      MergeData key (mergeLoop key req fuel t) ∧ (mergeLoop key req fuel t).queued ≤ t.queued := by
  induction fuel generalizing t with
  | zero => exact ⟨h, hdata, le_rfl⟩
  | succ fuel ih =>
    rw [mergeLoop]
    split_ifs with hfull
    · exact ⟨h, hdata, le_rfl⟩
    · have hfd := h.findNextReadyChild hsort hdata
      have hqd := hfd.queued
      match hres : t.findNextReadyChild key with
      | (t', none) =>
        rw [hres] at hfd hqd
        exact ⟨hfd.good, hfd.left rfl, hqd.le⟩
      | (t', some ch) =>
        rw [hres] at hfd hqd
        obtain ⟨hgood, hdata', hlt⟩ := (hfd.next ch rfl).takeEntry
        obtain ⟨hgood', hdata'', hle⟩ := ih hgood hdata'
        exact ⟨hgood', hdata'', hle.trans (hlt.le.trans hqd.le)⟩

lemma Good.mergeLoop_lt (hfree : t.free ≠ 0)
    (hall : ∀ ch ∈ t.activeChildren, t.queues ch ≠ []) (hact : t.activeChildren ≠ []) :
    (Tcb.mergeLoop key req (fuel + 1) t).queued < t.queued := by
  rw [Tcb.mergeLoop, if_neg hfree]
  have hfd := h.findNextReadyChild hsort hdata
  have hqd := hfd.queued
  match hres : t.findNextReadyChild key with
  | (t', none) =>
    rw [hres] at hfd
    exact absurd rfl (hfd.found hall hact)
  | (t', some ch) =>
    rw [hres] at hfd hqd
    obtain ⟨hgood, hdata', hlt⟩ := (hfd.next ch rfl).takeEntry
    obtain ⟨-, -, hle⟩ := hgood.mergeLoop fuel hdata' hsort
    dsimp only at hqd hlt hle ⊢
    omega

end

end Next

end Trafodion.SplitTop
