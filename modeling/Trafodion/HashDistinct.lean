import Mathlib.Data.List.Dedup
import Trafodion.HashGroupBySteps

/-!
# Hash distinct

Without aggregates a group is returned when it is inserted into a cluster that was not spilled. The
groups that were returned are the hash table of such a cluster, and the second sequence of a spilled
one. When a cluster is read back these come first, so that a group of the first sequence is either
found or has not been returned.
-/
namespace Trafodion.HashGroupBy

open List Cluster HashRow Tcb

variable {α γ A : Type}

def Cluster.marked (c : Cluster γ A) : List γ :=
  match c.state with
  | .chained => c.table.map key
  | .flushed => c.seqOne.map key

def Tcb.up (t : Tcb α γ A) : List γ := t.resultRows.map Prod.fst

structure Once [CommMonoid A] (tdb : Tdb α γ A) (input : List α) (t : Tcb α γ A) : Prop where
  nodup : t.up.Nodup
  ones : ∀ p ∈ t.resultRows, p.2 = 1
  marked : ∀ p ∈ t.clusterList, ∀ k ∈ p.2.marked, k ∈ t.up
  tail : ∀ r ∈ t.tail, r.key ∈ t.up
  seen : ∀ k ∈ t.up, k ∈ t.current tdb →
    k ∈ t.tail.map key ∨ ∃ p ∈ t.clusterList, k ∈ p.2.marked
  waits : ∀ c ∈ t.ofClusterList, (∀ r ∈ c.seqOne, r.key ∈ t.up) ∧
    ∀ r ∈ c.seqZero, r.key ∈ t.up → r.key ∈ c.seqOne.map key
  chained : t.tail ≠ [] → ∀ p ∈ t.clusterList, p.2.state = .chained
  keys : ∀ k, k ∈ input.map tdb.key ↔
    k ∈ t.up ∨ k ∈ t.current tdb ∨ k ∈ t.waiting.map key

section

variable {tdb : Tdb α γ A} {H : γ → ℕ} {t s : Tcb α γ A} {c c' : Cluster γ A}

lemma Cluster.marked_chained (h : c.state = .chained) : c.marked = c.table.map key := by
  rw [marked, h]

lemma Cluster.marked_flushed (h : c.state = .flushed) : c.marked = c.seqOne.map key := by
  rw [marked, h]

variable {k : γ}

lemma Cluster.marked_all (hk : k ∈ c.marked) : ∃ r ∈ c.all, r.key = k := by
  cases hc : c.state with
  | chained =>
    rw [marked_chained hc] at hk
    obtain ⟨r, hr, rfl⟩ := mem_map.1 hk
    exact ⟨r, table_subset r hr, rfl⟩
  | flushed =>
    rw [marked_flushed hc] at hk
    obtain ⟨r, hr, rfl⟩ := mem_map.1 hk
    exact ⟨r, mem_append_left _ (mem_append_left _ hr), rfl⟩

lemma Cluster.Tidy.marked_spill (h : c.Tidy) (keep : ℕ) : (c.spill true keep).marked = c.marked := by
  cases hc : c.state with
  | chained =>
    obtain ⟨hkept, hzero, -⟩ := h.chained hc
    rw [marked_chained hc, Cluster.spill, if_pos ⟨hc, rfl⟩, Cluster.bufferPool, hkept, hzero]
    rfl
  | flushed =>
    have hnot : ¬(c.state = .chained ∧ true = true) := by simp [hc]
    rw [marked_flushed hc, Cluster.spill, if_neg hnot]
    rfl

lemma Takes.keys {hv : ℕ} {v : A} {ret : Bool} (htk : Takes tdb t k hv v ret s) (j : γ) :
    j ∈ t.current tdb ↔ j = k ∨ j ∈ s.current tdb := by
  cases htk with
  | child hst hc =>
    simp only [Tcb.current, Tcb.live, hc, map_cons, cons_append, mem_cons]
  | tail hst hr =>
    simp only [Tcb.current, Tcb.live, hr, map_cons, cons_append, mem_cons, mem_append]
    tauto
  | rows hst htail hr =>
    simp only [Tcb.current, Tcb.live, hr, htail, map_cons, cons_append, nil_append,
      mem_cons, mem_append]
    tauto

lemma mem_current_replace {a d : List (ℕ × Cluster γ A)} {b : ℕ} {E R : List (γ × A)}
    (hlist : s.clusterList = a ++ (b, c) :: d) {j : γ}
    (hall : j ∈ c'.all.map key ↔ j ∈ c.all.map key ∨ j ∈ E.map Prod.fst) :
    j ∈ current tdb { s with clusterList := a ++ (b, c') :: d, resultRows := R } ↔
      j ∈ s.current tdb ∨ j ∈ E.map Prod.fst := by
  simp only [current, live, hlist, flatMap_append, flatMap_cons, map_append, mem_append, hall]
  tauto

lemma Inv.takes_tail (h : Inv tdb H t) {hv : ℕ} {v : A} {ret : Bool}
    (htk : Takes tdb t k hv v ret s) :
    (ret = true ∧ t.tail = []) ∨ ret = false ∧ ∃ r rs, t.tail = r :: rs ∧ r.key = k ∧ s.tail = rs := by
  cases htk with
  | child hst hc => exact .inl ⟨rfl, (h.noOuter (by rw [hst]; decide)).1⟩
  | tail hst hr => exact .inr ⟨rfl, _, _, hr, rfl, rfl⟩
  | rows hst htail hr => exact .inl ⟨rfl, htail⟩

lemma Inv.tail_read (h : Inv tdb H t) {hv : ℕ} {v : A} {ret : Bool}
    (htk : Takes tdb t k hv v ret s) (hk : t.tail ≠ [] → k ∈ c.marked) :
    ∀ j ∈ t.tail.map key, j ∈ s.tail.map key ∨ j ∈ c.marked := by
  obtain ⟨-, hnil⟩ | ⟨-, r, rs, htail, rfl, rfl⟩ := h.takes_tail htk
  · simp [hnil]
  · rw [htail, map_cons, forall_mem_cons]
    exact ⟨.inr (hk (by simp [htail])), fun j hj => .inl hj⟩

lemma Inv.marked_here (h : Inv tdb H t) (hc : (H k % tdb.bucketCount, c) ∈ t.clusterList)
    {p : ℕ × Cluster γ A} (hp : p ∈ t.clusterList) (hk : k ∈ p.2.marked) : k ∈ c.marked := by
  obtain ⟨r, hr, rfl⟩ := marked_all hk
  have hplace := (h.placed.place p hp r hr).2
  rw [hplace] at hc
  rwa [h.placed.unique hp hc]

end

section

variable [CommMonoid A] {tdb : Tdb α γ A} {H : γ → ℕ} {t s : Tcb α γ A} {c c' : Cluster γ A}
  {input : List α} {a d : List (ℕ × Cluster γ A)}

lemma Once.regroup (h : Once tdb input t) {b : ℕ} {E : List γ}
    (hlist : t.clusterList = a ++ (b, c) :: d) (hnew : s.clusterList = a ++ (b, c') :: d)
    (hof : s.ofClusterList = t.ofClusterList) (htail : ∀ r ∈ s.tail, r ∈ t.tail)
    (hres : s.resultRows = t.resultRows ++ E.map fun k => (k, 1))
    (hnd : (t.up ++ E).Nodup) (hmono : ∀ k ∈ c.marked, k ∈ c'.marked)
    (hmark : ∀ k ∈ c'.marked, k ∈ t.up ∨ k ∈ E)
    (hread : ∀ k ∈ t.tail.map key, k ∈ s.tail.map key ∨ k ∈ c'.marked)
    (hextra : ∀ k ∈ E, k ∈ c'.marked ∧ k ∈ t.current tdb)
    (hapart : ∀ r ∈ t.waiting, r.key ∉ t.current tdb)
    (hcurrent : ∀ k, k ∈ s.current tdb ↔ k ∈ t.current tdb)
    (hchain : t.tail ≠ [] → c'.state = .chained) : Once tdb input s := by
  have hup : s.up = t.up ++ E := by
    rw [up, hres, map_append, map_map]
    exact congrArg (t.up ++ ·) (map_id _)
  have hmem := mem_of_replace hlist hnew
  have hkept : ∀ p ∈ t.clusterList, ∀ k ∈ p.2.marked, ∃ q ∈ s.clusterList, k ∈ q.2.marked := by
    intro p hp k hk
    rw [hlist, mem_append, mem_cons] at hp
    rw [hnew]
    obtain hp | rfl | hp := hp
    · exact ⟨p, mem_append_left _ hp, hk⟩
    · exact ⟨(b, c'), mem_append_right _ mem_cons_self, hmono k hk⟩
    · exact ⟨p, mem_append_right _ (mem_cons_of_mem _ hp), hk⟩
  have hhere : (b, c') ∈ s.clusterList := by
    rw [hnew]
    exact mem_append_right _ mem_cons_self
  refine ⟨hup ▸ hnd, ?_, fun p hp k hk => ?_, fun r hr => ?_, fun k hk hcur => ?_,
    fun e he => ?_, fun hne p hp => ?_, fun k => ?_⟩
  · rw [hres]
    exact forall_mem_append.2 ⟨h.ones, forall_mem_map.2 fun _ _ => rfl⟩
  · rw [hup, mem_append]
    obtain rfl | hp := hmem p hp
    · exact hmark k hk
    · exact .inl (h.marked p hp k hk)
  · rw [hup]
    exact mem_append_left _ (h.tail r (htail r hr))
  · rw [hup, mem_append] at hk
    obtain hk | hk := hk
    · obtain hk | ⟨p, hp, hk⟩ := h.seen k hk ((hcurrent k).1 hcur)
      · exact (hread k hk).imp_right fun hk => ⟨_, hhere, hk⟩
      · exact .inr (hkept p hp k hk)
    · exact .inr ⟨_, hhere, (hextra k hk).1⟩
  · rw [hof] at he
    rw [hup]
    refine ⟨fun r hr => mem_append_left _ ((h.waits e he).1 r hr), fun r hr hk => ?_⟩
    obtain hk | hk := mem_append.1 hk
    · exact (h.waits e he).2 r hr hk
    · have hr' : r ∈ t.waiting := mem_flatMap.2 ⟨e, he, mem_append_left _ (mem_append_right _ hr)⟩
      exact (hapart r hr' (hextra _ hk).2).elim
  · have hne' : t.tail ≠ [] := fun hnil =>
      hne (eq_nil_of_subset_nil fun r hr => hnil ▸ htail r hr)
    obtain rfl | hp := hmem p hp
    · exact hchain hne'
    · exact h.chained hne' p hp
  · rw [h.keys k, hup, mem_append, hcurrent k, waiting, waiting, hof]
    have := hextra k
    tauto

variable [DecidableEq γ]

lemma Once.found (h : Once tdb input t) (hinv : Inv tdb H t) (haggr : tdb.aggregates = false)
    {k : γ} {v : A} {ret : Bool} (htk : Takes tdb t k (H k) v ret s)
    (hlist : t.clusterList = a ++ (H k % tdb.bucketCount, c) :: d)
    (hkey : k ∈ c.table.map key) :
    Once tdb input { s with
      clusterList := a ++ (H k % tdb.bucketCount,
        if tdb.aggregates then c.aggregate k (H k) v else c) :: d } := by
  have hc : (H k % tdb.bucketCount, c) ∈ t.clusterList := mem_of_split hlist
  have hslist := htk.same.1.trans hlist
  have hlive : k ∈ s.current tdb := by
    obtain ⟨r, hr, rfl⟩ := mem_map.1 hkey
    refine mem_append_right _ (mem_map_of_mem (mem_append_right _ ?_))
    rw [live, htk.same.1]
    exact mem_flatMap.2 ⟨_, hc, table_subset r hr⟩
  have hif : (if tdb.aggregates then c.aggregate k (H k) v else c) = c := by simp [haggr]
  rw [hif]
  have hread := hinv.tail_read (c := c) htk fun hne => by
    rwa [marked_chained (h.chained hne _ hc)]
  refine h.regroup (E := []) hlist rfl htk.same.2.2.1 htk.subset.2.1 ?_ ?_
    (fun _ hk => hk) (fun j hj => .inl (h.marked _ hc j hj)) hread
    (fun j hj => absurd hj not_mem_nil) hinv.apart (fun j => ?_) fun hne => h.chained hne _ hc
  · rw [map_nil, append_nil]
    exact htk.same.2.1
  · rw [append_nil]
    exact h.nodup
  · rw [mem_current_replace (E := []) hslist (by simp), htk.keys j]
    constructor
    · rintro (hj | hj)
      · exact .inr hj
      · exact absurd hj not_mem_nil
    · rintro (rfl | hj)
      · exact .inl hlive
      · exact .inl hj

section

omit [DecidableEq γ]

section
variable (h : Once tdb input t) (hinv : Inv tdb H t)
include h hinv

lemma Once.insert (haggr : tdb.aggregates = false)
    {k : γ} {v : A} {ret : Bool} (htk : Takes tdb t k (H k) v ret s)
    (hlist : t.clusterList = a ++ (H k % tdb.bucketCount, c) :: d)
    (hkey : k ∉ c.table.map HashRow.key) :
    Once tdb input { s with
      clusterList := a ++ (H k % tdb.bucketCount,
        c.insert ⟨k, H k, if tdb.aggregates then v else 1⟩) :: d
      resultRows := t.resultRows ++
        if tdb.aggregates = false ∧ c.state = .chained ∧ ret = true then [(k, 1)] else [] } := by
  have hc : (H k % tdb.bucketCount, c) ∈ t.clusterList := mem_of_split hlist
  have hslist := htk.same.1.trans hlist
  generalize hr' : (⟨k, H k, if tdb.aggregates then v else 1⟩ : HashRow γ A) = row
  have hrow : row.key = k := by rw [← hr']
  have hmark : (c.insert row).marked = c.marked ++ if c.state = .chained then [k] else [] := by
    cases hst : c.state with
    | chained =>
      rw [Cluster.marked_chained hst, Cluster.marked_chained (show (c.insert row).state = _ from hst),
        Cluster.insert, map_append, map_singleton, hrow]
      rfl
    | flushed =>
      rw [Cluster.marked_flushed hst, Cluster.marked_flushed (show (c.insert row).state = _ from hst)]
      exact (append_nil _).symm
  have hcur : ∀ R j, j ∈ Tcb.current tdb { s with
      clusterList := a ++ (H k % tdb.bucketCount, c.insert row) :: d, resultRows := R } ↔
      j ∈ t.current tdb := by
    intro R j
    have hall : j ∈ (c.insert row).all.map HashRow.key ↔
        j ∈ c.all.map HashRow.key ∨ j ∈ [(k, (1 : A))].map Prod.fst := by
      rw [Cluster.all_insert, map_append, mem_append, map_singleton, hrow]
      exact Iff.rfl
    rw [mem_current_replace hslist hall, htk.keys j, map_singleton, mem_singleton]
    exact or_comm
  have hst' : t.tail ≠ [] → (c.insert row).state = .chained := fun hne => h.chained hne _ hc
  have hread : ∀ j ∈ t.tail.map HashRow.key,
      j ∈ s.tail.map HashRow.key ∨ j ∈ (c.insert row).marked := by
    refine hinv.tail_read htk fun hne => ?_
    rw [hmark, if_pos (h.chained hne _ hc)]
    exact mem_append_right _ mem_cons_self
  have hmono : ∀ j ∈ c.marked, j ∈ (c.insert row).marked := by
    intro j hj
    rw [hmark]
    exact mem_append_left _ hj
  by_cases hret : c.state = .chained ∧ ret = true
  · rw [if_pos ⟨haggr, hret⟩]
    rw [if_pos hret.1] at hmark
    have htail : t.tail = [] := by
      obtain ⟨-, hnil⟩ | ⟨hfls, -⟩ := hinv.takes_tail htk
      · exact hnil
      · rw [hret.2] at hfls
        cases hfls
    have hfr : k ∉ t.up := by
      intro hk
      obtain hk | ⟨p, hp, hk⟩ := h.seen k hk htk.current
      · rw [htail] at hk
        exact absurd hk not_mem_nil
      · have hk := hinv.marked_here hc hp hk
        rw [Cluster.marked_chained hret.1] at hk
        exact hkey hk
    refine h.regroup (E := [k]) hlist rfl htk.same.2.2.1 htk.subset.2.1 rfl ?_ hmono
      (fun j hj => ?_) hread (fun j hj => ?_) hinv.apart (hcur _) hst'
    · rw [← concat_eq_append]
      exact h.nodup.concat hfr
    · rw [hmark, mem_append] at hj
      exact hj.imp_left (h.marked _ hc j)
    · rw [mem_singleton.1 hj, hmark]
      exact ⟨mem_append_right _ mem_cons_self, htk.current⟩
  · rw [if_neg fun hall => hret hall.2]
    refine h.regroup (E := []) hlist rfl htk.same.2.2.1 htk.subset.2.1 rfl ?_ hmono
      (fun j hj => ?_) hread (fun j hj => absurd hj not_mem_nil) hinv.apart (hcur _) hst'
    · rw [append_nil]
      exact h.nodup
    · rw [hmark, mem_append] at hj
      obtain hj | hj := hj
      · exact .inl (h.marked _ hc j hj)
      · -- The row was returned before the cluster it was in was spilled.
        split_ifs at hj with hchain
        · obtain ⟨htrue, -⟩ | ⟨-, r, rs, htail, rfl, -⟩ := hinv.takes_tail htk
          · exact (hret ⟨hchain, htrue⟩).elim
          · rw [mem_singleton.1 hj]
            exact .inl (h.tail r (by rw [htail]; exact mem_cons_self))
        · exact absurd hj not_mem_nil

lemma Once.spill (haggr : tdb.aggregates = false)
    {b keep : ℕ} (hlist : t.clusterList = a ++ (b, c) :: d)
    (htail : t.tail = []) :
    Once tdb input { t with clusterList := a ++ (b, c.spill (!tdb.aggregates) keep) :: d } := by
  have hc : (b, c) ∈ t.clusterList := mem_of_split hlist
  have htidy := hinv.placed.tidy _ hc
  have hmark := htidy.marked_spill keep
  rw [haggr, Bool.not_false]
  refine h.regroup (E := []) hlist rfl rfl (fun _ hr => hr) ?_ ?_ (fun j hj => ?_) (fun j hj => ?_)
    (fun j hj => .inl hj) (fun j hj => absurd hj not_mem_nil) hinv.apart (fun j => ?_)
    fun hne => (hne htail).elim
  · rw [map_nil, append_nil]
  · rw [append_nil]
    exact h.nodup
  · rwa [hmark]
  · rw [hmark] at hj
    exact .inl (h.marked _ hc j hj)
  · have hall : j ∈ (c.spill true keep).all.map key ↔
        j ∈ c.all.map key ∨ j ∈ ([] : List (γ × A)).map Prod.fst := by
      rw [((htidy.all_spill true keep).map key).mem_iff]
      simp
    rw [mem_current_replace hlist hall]
    simp

/-- A cluster leaves the list: its groups are marked no more, and are not read. -/
theorem Once.seen_rest (hst : t.state = .evaluate) {b : ℕ}
    (hlist : t.clusterList = (b, c) :: d) {k : γ} (hk : k ∈ t.up)
    (hcur : k ∈ (d.flatMap fun p => p.2.all).map key) : ∃ p ∈ d, k ∈ p.2.marked := by
  obtain ⟨q, hq, rfl⟩ := mem_map.1 hcur
  have hlive : q.key ∈ t.current tdb := by
    refine mem_append_right _ (mem_map_of_mem (mem_append_right _ ?_))
    rw [live, hlist, flatMap_cons]
    exact mem_append_right _ hq
  obtain ⟨htail, -⟩ := hinv.noOuter (by rw [hst]; decide)
  obtain hmem | ⟨p, hp, hmark⟩ := h.seen _ hk hlive
  · rw [htail] at hmem
    exact absurd hmem not_mem_nil
  · rw [hlist, mem_cons] at hp
    obtain rfl | hp := hp
    · obtain ⟨r, hr, hkey⟩ := marked_all hmark
      exact (hinv.head_apart hlist hr hq hkey.symm).elim
    · exact ⟨p, hp, hmark⟩

end

end

omit [CommMonoid A] [DecidableEq γ] in
lemma Inv.current_evaluate (hinv : Inv tdb H t) (hst : t.state = .evaluate) :
    t.current tdb = t.live.map key := by
  obtain ⟨htail, hrows⟩ := hinv.noOuter (by rw [hst]; decide)
  rw [current, hinv.noChild (by rw [hst]; decide), htail, hrows]
  rfl

section
variable (h : Once tdb input t) (hinv : Inv tdb H t)
include h hinv

lemma Once.complete (haggr : tdb.aggregates = false)
    {b : ℕ} (hst : t.state = .evaluate)
    (hlist : t.clusterList = (b, c) :: d) (hchain : c.state = .chained) :
    Once tdb input { t with
      clusterList := d
      resultRows := t.resultRows ++ Tcb.resultsOf tdb c } := by
  have hnone : t.resultRows ++ Tcb.resultsOf tdb c = t.resultRows := by
    simp [Tcb.resultsOf, haggr]
  rw [hnone]
  have hmem : ∀ p ∈ d, p ∈ t.clusterList := fun _ hp => hlist ▸ mem_cons_of_mem _ hp
  have hc : (b, c) ∈ t.clusterList := mem_of_split (a := []) hlist
  have hnext : Inv tdb H { t with clusterList := d } := hinv.drop hst hlist
  have hcurrent := hnext.current_evaluate hst
  obtain ⟨htail, -⟩ := hinv.noOuter (by rw [hst]; decide)
  exact { h with
    marked := fun p hp => h.marked p (hmem p hp)
    seen := fun k hk hcur => by
      rw [hcurrent] at hcur
      exact .inr (h.seen_rest hinv hst hlist hk hcur)
    chained := fun hne => (hne htail).elim
    keys := fun k => by
      rw [h.keys k, hinv.current_evaluate hst, hcurrent, Tcb.live, hlist, flatMap_cons,
        map_append, mem_append]
      have hup : k ∈ c.all.map HashRow.key → k ∈ t.up := by
        intro hk
        obtain ⟨hkept, hzero, hone⟩ := (hinv.placed.tidy _ hc).chained hchain
        refine h.marked _ hc k ?_
        rw [Cluster.marked_chained hchain]
        simpa only [Cluster.all, Cluster.bufferPool, show c.kept = [] from hkept,
          show c.seqZero = [] from hzero, show c.seqOne = [] from hone, nil_append] using hk
      change _ ↔ k ∈ t.up ∨ k ∈ (d.flatMap fun p => p.2.all).map HashRow.key ∨
        k ∈ t.waiting.map HashRow.key
      tauto }

lemma Once.overflow {b : ℕ}
    (hst : t.state = .evaluate)
    (hlist : t.clusterList = (b, c) :: d) (hflush : c.state = .flushed) :
    Once tdb input { t with
      clusterList := d
      ofClusterList := t.ofClusterList ++ [written tdb c] } := by
  have hmem : ∀ p ∈ d, p ∈ t.clusterList := fun _ hp => hlist ▸ mem_cons_of_mem _ hp
  have hc : (b, c) ∈ t.clusterList := mem_of_split (a := []) hlist
  have htidy := hinv.placed.tidy _ hc
  have hcurrent := (hinv.overflow hst hlist hflush).current_evaluate hst
  obtain ⟨htail, -⟩ := hinv.noOuter (by rw [hst]; decide)
  have hone : (written tdb c).seqOne = c.seqOne := by
    unfold written
    split_ifs
    · rfl
    · have hnot : ¬(c.state = .chained ∧ (!tdb.aggregates) = true) := by simp [hflush]
      rw [Cluster.spill, if_neg hnot]
  have hmark := marked_flushed hflush
  exact { h with
    marked := fun p hp => h.marked p (hmem p hp)
    seen := fun k hk hcur => by
      rw [hcurrent] at hcur
      exact .inr (h.seen_rest hinv hst hlist hk hcur)
    waits := by
      refine forall_mem_append.2 ⟨h.waits, forall_mem_singleton.2 ?_⟩
      rw [hone]
      refine ⟨fun r hr => h.marked _ hc _ ?_, fun r hr hk => ?_⟩
      · rw [hmark]
        exact mem_map_of_mem hr
      · have hr' : r ∈ c.all := (written_all tdb htidy).mem_iff.1
          (mem_append_left _ (mem_append_right _ hr))
        have hplace := hinv.row (a := []) hlist hr'
        obtain hmem | ⟨p, hp, hk'⟩ := h.seen _ hk hplace.2
        · rw [htail] at hmem
          exact absurd hmem not_mem_nil
        · have hhere := hinv.marked_here (c := c) (by rw [hplace.1.2]; exact hc) hp hk'
          rwa [hmark] at hhere
    chained := fun hne => (hne htail).elim
    keys := fun k => by
      have hwrit := ((written_all tdb htidy).map key).mem_iff (a := k)
      rw [h.keys k, hinv.current_evaluate hst, hcurrent, live, hlist, flatMap_cons,
        map_append, mem_append, ← hwrit]
      simp only [waiting, live, flatMap_append, flatMap_cons, flatMap_nil,
        append_nil, map_append, mem_append]
      tauto }

omit [DecidableEq γ] in
lemma Once.restart (haggr : tdb.aggregates = false)
    {d : List (Cluster γ A)} (hst : t.state = .evaluate) (hlist : t.clusterList = [])
    (hof : t.ofClusterList = c :: d) :
    Once tdb input { t with
      state := .readOfRow
      clusterList := allocate tdb
      ofClusterList := d
      tail := if tdb.aggregates then [] else c.seqOne
      rows := c.seqZero } := by
  have hc : c ∈ t.ofClusterList := by
    rw [hof]
    exact mem_cons_self
  have hif : (if tdb.aggregates then [] else c.seqOne) = c.seqOne := by simp [haggr]
  have hch := hinv.noChild (by rw [hst]; decide)
  have hall : c.all = c.seqOne ++ c.seqZero := by
    rw [Cluster.all, (hinv.stored c hc).pool, append_nil]
  rw [hif]
  have hcurrent : current tdb { t with
      state := .readOfRow
      clusterList := allocate tdb
      ofClusterList := d
      tail := c.seqOne
      rows := c.seqZero } = c.all.map key := by
    rw [current, live, live_allocate, hch, hall, append_nil]
    rfl
  exact { h with
    marked := fun p hp k hk => by
      rw [(mem_allocate.1 hp).2] at hk
      exact absurd hk not_mem_nil
    tail := (h.waits c hc).1
    seen := fun k hk hcur => by
      rw [hcurrent, hall, map_append, mem_append] at hcur
      obtain hcur | hcur := hcur
      · exact .inl hcur
      · obtain ⟨r, hr, rfl⟩ := mem_map.1 hcur
        exact .inl ((h.waits c hc).2 r hr hk)
    waits := fun e he => h.waits e (by rw [hof]; exact mem_cons_of_mem _ he)
    chained := fun _ p hp => by rw [(mem_allocate.1 hp).2]
    keys := fun k => by
      rw [h.keys k, hinv.current_evaluate hst, hcurrent, live, hlist, waiting, hof,
        flatMap_cons, map_append, mem_append]
      simp only [flatMap_nil, map_nil, not_mem_nil, false_or]
      exact Iff.rfl }

end

lemma Once.next (haggr : tdb.aggregates = false) (hinv : Inv tdb H t) (h : Once tdb input t)
    (hchg : Change tdb H t s) : Once tdb input s := by
  cases hchg with
  | found htk hlist hkey => exact h.found hinv haggr htk hlist hkey
  | insert htk hlist hkey => exact h.insert hinv haggr htk hlist hkey
  | spill hlist htail => exact h.spill hinv haggr hlist (htail haggr)
  | endInput hst hch htail hrows => exact { h with }
  | complete hst hlist hchain => exact h.complete hinv haggr hst hlist hchain
  | overflow hst hlist hflush => exact h.overflow hinv hst hlist hflush
  | restart hst hlist hof => exact h.restart hinv haggr hst hlist hof
  | finish hst hlist hof => exact { h with }
  | none => exact h

omit [DecidableEq γ] in
lemma Once.initial (tdb : Tdb α γ A) (input : List α) : Once tdb input (initial tdb input) where
  nodup := nodup_nil
  ones p hp := absurd hp not_mem_nil
  marked p hp k hk := by
    rw [(mem_allocate.1 hp).2] at hk
    exact absurd hk not_mem_nil
  tail r hr := absurd hr not_mem_nil
  seen k hk := absurd hk not_mem_nil
  waits c hc := absurd hc not_mem_nil
  chained h := (h rfl).elim
  keys k := by
    simp [HashGroupBy.initial, up, current, waiting, live, live_allocate]

lemma once_run (haggr : tdb.aggregates = false) (evs : List (Option Spill)) :
    (∃ H, Inv tdb H (Runs.run (step tdb) (initial tdb input) evs)) ∧
      Once tdb input (Runs.run (step tdb) (initial tdb input) evs) := by
  have hstep : ∀ u e, (∃ H, Inv tdb H u) ∧ Once tdb input u →
      (∃ H, Inv tdb H (step tdb u e)) ∧ Once tdb input (step tdb u e) := by
    rintro u e ⟨⟨H, hinv⟩, hu⟩
    exact ⟨hinv.next (hinv.change e), hu.next haggr hinv (hinv.change e)⟩
  exact Runs.run_invariant hstep ⟨⟨_, .initial tdb input⟩, .initial tdb input⟩ evs

lemma Once.returned (honce : Once tdb input t) (hinv : Inv tdb H t) (hdone : t.state = .done) :
    ((t.returned tdb).map Prod.fst).Perm
      ((input.map tdb.key).dedup.filter fun k => tdb.having (k, 1)) := by
  obtain ⟨hlist, hof⟩ := hinv.done hdone
  obtain ⟨htail, hrows⟩ := hinv.noOuter (by rw [hdone]; decide)
  have hkeys : ∀ k, k ∈ input.map tdb.key ↔ k ∈ t.up := by
    intro k
    rw [honce.keys k, current, waiting, live, hlist, hof, htail, hrows,
      hinv.noChild (by rw [hdone]; decide)]
    simp
  have hup : t.resultRows = t.up.map fun k => (k, 1) := by
    conv_lhs => rw [← map_id t.resultRows]
    rw [up, map_map]
    exact map_congr_left fun p hp => Prod.ext rfl (honce.ones p hp)
  have hret : (t.returned tdb).map Prod.fst = t.up.filter fun k => tdb.having (k, 1) := by
    rw [Tcb.returned, hup, filter_map, map_map]
    exact map_id _
  rw [hret]
  refine List.Perm.filter _ ?_
  rw [perm_ext_iff_of_nodup honce.nodup (nodup_dedup _)]
  intro k
  rw [mem_dedup, hkeys k]

/-- Hash distinct returns each grouping value of its input once, if it passes the having expression,
whichever inserts fail and whichever clusters are spilled. -/
theorem hash_distinct_returns_once (tdb : Tdb α γ A) (haggr : tdb.aggregates = false) (input : List α)
    (events : List (Option Spill))
    (hdone : (Runs.run (step tdb) (initial tdb input) events).state = .done) :
    (((Runs.run (step tdb) (initial tdb input) events).returned tdb).map Prod.fst).Perm
      ((input.map tdb.key).dedup.filter fun k => tdb.having (k, 1)) := by
  obtain ⟨⟨H, hinv⟩, honce⟩ := once_run haggr events
  exact honce.returned hinv hdone

end

def distinctRemainders : Tdb ℕ ℕ ℕ where
  key := fun x => x % 5
  hash := fun k => 257 * k
  aggregates := false
  value := fun _ => 1
  having := fun _ => true
  bucketCount := 2
  bucketCount_pos := Nat.two_pos

def distinctSpills : List (Option Spill) :=
  [none, none, some ⟨0, 1⟩] ++ replicate 5 none ++ [some ⟨0, 1⟩] ++ replicate 8 none ++
    [some ⟨0, 0⟩] ++ replicate 20 none

theorem distinctRemainders_returned :
    (((Runs.run (step distinctRemainders) (initial distinctRemainders [4, 6, 8, 7, 9, 11, 13, 5])
      distinctSpills).returned distinctRemainders).map Prod.fst).Perm [0, 1, 2, 3, 4] :=
  (hash_distinct_returns_once distinctRemainders rfl [4, 6, 8, 7, 9, 11, 13, 5] distinctSpills
    (by decide)).trans (by decide)

end Trafodion.HashGroupBy
