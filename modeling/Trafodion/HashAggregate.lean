import Trafodion.HashGroupBySteps
import Trafodion.KeyedProducts

/-!
# The aggregates of the hash group-by

A group may be in the hash table, in the buffer, in several pieces in the scratch file and among the
rows that are still to be read. No event changes what its pieces stand for together, and a group that
has been returned has no piece left.
-/
namespace Trafodion.HashGroupBy

open List Keyed Alike Cluster HashRow Tcb

variable {α γ A : Type} [DecidableEq γ] [CommMonoid A]

def HashRow.pair (r : HashRow γ A) : γ × A := (r.key, r.aggr)

def Tcb.left (tdb : Tdb α γ A) (t : Tcb α γ A) : List (γ × A) :=
  t.child.map (fun x => (tdb.key x, tdb.value x)) ++
    (t.tail ++ t.rows ++ t.live ++ t.waiting).map pair

variable {tdb : Tdb α γ A} {H : γ → ℕ} {t s : Tcb α γ A}

omit [DecidableEq γ] [CommMonoid A] in
lemma Takes.left {k : γ} {hv : ℕ} {v : A} {ret : Bool} (htk : Takes tdb t k hv v ret s) :
    (t.left tdb).Perm ((k, v) :: s.left tdb) := by
  cases htk with
  | child hst hc =>
    simp only [left, live, waiting, hc, map_cons, cons_append]
    exact List.Perm.refl _
  | tail hst hr =>
    simp only [left, live, waiting, hr, map_cons, cons_append]
    exact perm_middle
  | rows hst htail hr =>
    simp only [left, live, waiting, htail, hr, map_cons, cons_append, nil_append]
    exact perm_middle

lemma Alike.left {a d : List (ℕ × Cluster γ A)} {b : ℕ} {c c' : Cluster γ A}
    {extra : List (γ × A)} (hlist : s.clusterList = a ++ (b, c) :: d)
    (h : Alike (extra ++ c.all.map pair) (c'.all.map pair)) {R : List (γ × A)} :
    Alike (extra ++ s.left tdb)
      (Tcb.left tdb { s with clusterList := a ++ (b, c') :: d, resultRows := R }) := by
  refine ⟨fun k => ?_, fun k => ?_⟩
  · have hk := h.product k
    simp only [Tcb.left, Tcb.live, Tcb.waiting, hlist, flatMap_append, flatMap_cons,
      map_append, product_append, ← hk]
    ac_rfl
  · have hk := h.keys k
    simp only [Tcb.left, Tcb.live, Tcb.waiting, hlist, flatMap_append, flatMap_cons,
      map_append, mem_append, ← hk]
    tauto

lemma Cluster.Tidy.alike {c : Cluster γ A} (htidy : c.Tidy) {k : γ} (hk : k ∈ c.table.map key)
    (hhash : ∀ r ∈ c.table, r.key = k → r.hashValue = H k) (v : A) :
    Alike ([(k, v)] ++ c.all.map pair) ((c.aggregate k (H k) v).all.map pair) := by
  have hkeys : (c.table.map pair).map Prod.fst = c.table.map key := by
    rw [map_map]
    rfl
  have htable : (c.aggregate k (H k) v).table.map pair =
      (c.table.map pair).map fun p => if p.1 = k then (p.1, p.2 * v) else p := by
    simp only [Cluster.aggregate, map_map]
    refine map_congr_left fun r hr => ?_
    simp only [Function.comp]
    by_cases hrk : r.key = k
    · rw [if_pos ⟨hhash r hr hrk, hrk⟩, if_pos (show r.pair.1 = k from hrk)]
      rfl
    · rw [if_neg fun hboth => hrk hboth.2, if_neg (show ¬r.pair.1 = k from hrk)]
  have hmul := Alike.multiply (v := v) (hkeys ▸ htidy.nodup) (hkeys ▸ hk)
  rw [← htable] at hmul
  have hall : ∀ l : List (HashRow γ A), ((c.seqOne ++ c.seqZero) ++ (c.kept ++ l)).map pair =
      (c.seqOne ++ c.seqZero ++ c.kept).map pair ++ l.map pair := by
    intro l
    rw [← map_append, append_assoc _ c.kept]
  have happ := (Alike.refl ((c.seqOne ++ c.seqZero ++ c.kept).map pair)).append hmul
  have hfront := (Alike.of_perm perm_middle).symm.trans happ
  rw [← hall, ← hall] at hfront
  exact hfront

/-- What an event returns is taken from what was left, and no piece of it stays. -/
theorem Change.conserves (h : Inv tdb H t) (haggr : tdb.aggregates = true)
    (hchg : Change tdb H t s) :
    ∃ new, s.resultRows = t.resultRows ++ new ∧ Alike (t.left tdb) (new ++ s.left tdb) ∧
      (new.map Prod.fst).Nodup ∧ ∀ k ∈ new.map Prod.fst, k ∉ (s.left tdb).map Prod.fst := by
  have hnone : ∀ {u : Tcb α γ A}, u.resultRows = t.resultRows → Alike (t.left tdb) (u.left tdb) →
      ∃ new, u.resultRows = t.resultRows ++ new ∧ Alike (t.left tdb) (new ++ u.left tdb) ∧
        (new.map Prod.fst).Nodup ∧ ∀ k ∈ new.map Prod.fst, k ∉ (u.left tdb).map Prod.fst :=
    fun hu halike => ⟨[], by rw [hu, append_nil], halike, nodup_nil,
      fun k hk => absurd hk not_mem_nil⟩
  cases hchg with
  | @found k v ret s a d c htk hlist hkey =>
    have hc : (H k % tdb.bucketCount, c) ∈ t.clusterList := mem_of_split hlist
    have hslist := htk.same.1.trans hlist
    have hclu := (h.placed.tidy _ hc).alike hkey (fun r hr hrk => by
      rw [(h.row hlist (Cluster.table_subset r hr)).1.1, hrk]) v
    refine hnone htk.same.2.1 ((Alike.of_perm htk.left).trans ?_)
    rw [if_pos haggr]
    exact Alike.left hslist hclu
  | @insert k v ret s a d c htk hlist hkey =>
    have hslist := htk.same.1.trans hlist
    refine hnone ?_ ((Alike.of_perm htk.left).trans ?_)
    · simp [haggr]
    · simp only [haggr, if_true]
      have hclu : Alike ([(k, v)] ++ c.all.map pair)
          ((c.insert ⟨k, H k, v⟩).all.map pair) := by
        rw [Cluster.all_insert, map_append]
        exact .of_perm perm_append_comm
      exact Alike.left hslist hclu
  | @spill b keep a d c hlist htail =>
    have hc : (b, c) ∈ t.clusterList := mem_of_split hlist
    have hperm := ((h.placed.tidy _ hc).all_spill (!tdb.aggregates) keep).symm.map pair
    have hclu : Alike ([] ++ c.all.map pair)
        ((c.spill (!tdb.aggregates) keep).all.map pair) := .of_perm hperm
    exact hnone rfl (Alike.left hlist hclu)
  | @complete b c d hst hlist hchain =>
    have hc : (b, c) ∈ t.clusterList := mem_of_split (a := []) hlist
    have htidy := h.placed.tidy _ hc
    obtain ⟨hkept, hzero, hone⟩ := htidy.chained hchain
    have hall : c.all = c.table := by
      simp only [Cluster.all, Cluster.bufferPool]
      rw [hkept, hzero, hone]
      rfl
    have hresults : Tcb.resultsOf tdb c = c.all.map pair := by
      rw [Tcb.resultsOf, if_pos haggr, hall, Cluster.bufferPool, hkept]
      rfl
    refine ⟨Tcb.resultsOf tdb c, rfl, ?_, ?_, fun k hk hleft => ?_⟩
    · rw [hresults]
      refine ⟨fun k => ?_, fun k => ?_⟩
      · simp only [Tcb.left, Tcb.live, Tcb.waiting, hlist, flatMap_cons, map_append, product_append]
        ac_rfl
      · simp only [Tcb.left, Tcb.live, Tcb.waiting, hlist, flatMap_cons, map_append, mem_append]
        tauto
    · rw [hresults, hall, map_map]
      exact htidy.nodup
    · rw [hresults, map_map, mem_map] at hk
      obtain ⟨r, hr, rfl⟩ := hk
      have hch := h.noChild (by rw [hst]; decide)
      obtain ⟨htail, hrows⟩ := h.noOuter (by rw [hst]; decide)
      simp only [Tcb.left, Tcb.live, hch, htail, hrows, map_nil, nil_append, map_map,
        mem_map, mem_append] at hleft
      obtain ⟨q, hq | hq, hkey⟩ := hleft
      · exact h.head_apart hlist hr hq hkey
      · refine h.apart q hq ?_
        rw [show q.key = r.key from hkey]
        exact (h.row (a := []) hlist hr).2
  | @overflow b c d hst hlist hflush =>
    have hc : (b, c) ∈ t.clusterList := mem_of_split (a := []) hlist
    have hwrit : Alike ((Tcb.written tdb c).all.map pair) (c.all.map pair) :=
      .of_perm ((written_all tdb (h.placed.tidy _ hc)).map pair)
    refine hnone rfl ⟨fun k => ?_, fun k => ?_⟩
    · simp only [Tcb.left, Tcb.live, Tcb.waiting, hlist, flatMap_cons, flatMap_append,
        map_append, flatMap_nil, append_nil, product_append, hwrit.product k]
      ac_rfl
    · have hk := hwrit.keys k
      simp only [Tcb.left, Tcb.live, Tcb.waiting, hlist, flatMap_cons, flatMap_append,
        map_append, flatMap_nil, append_nil, mem_append, hk]
      tauto
  | @restart c d hst hlist hof =>
    have hstrd := h.stored c (by rw [hof]; exact mem_cons_self)
    have hone := hstrd.seqOne haggr
    have hall : c.all = c.seqZero := by
      rw [Cluster.all, hone, hstrd.pool]
      simp
    obtain ⟨htail, hrows⟩ := h.noOuter (by rw [hst]; decide)
    refine hnone rfl (Alike.of_perm ?_)
    simp only [Tcb.left, Tcb.live, Tcb.waiting, hlist, hof, htail, hrows, live_allocate, haggr, if_true,
      flatMap_cons, flatMap_nil, nil_append, append_nil, hall]
    exact List.Perm.refl _
  | _ => exact hnone rfl (Alike.refl _)

structure Sums (tdb : Tdb α γ A) (input : List α) (t : Tcb α γ A) : Prop where
  inv : ∃ H, Inv tdb H t
  alike : Alike (input.map fun x => (tdb.key x, tdb.value x)) (t.resultRows ++ t.left tdb)
  nodup : (t.resultRows.map Prod.fst).Nodup
  apart : ∀ k ∈ t.resultRows.map Prod.fst, k ∉ (t.left tdb).map Prod.fst

lemma Sums.initial (tdb : Tdb α γ A) (input : List α) : Sums tdb input (initial tdb input) := by
  refine ⟨⟨_, .initial tdb input⟩, ?_, nodup_nil, fun k hk => absurd hk not_mem_nil⟩
  simp only [HashGroupBy.initial, left, live, waiting, live_allocate, flatMap_nil,
    append_nil, map_nil, nil_append]
  exact refl _

lemma Sums.step {input : List α} (haggr : tdb.aggregates = true) (h : Sums tdb input t)
    (fails : Option Spill) : Sums tdb input (step tdb t fails) := by
  obtain ⟨H, hinv⟩ := h.inv
  have hchg := hinv.change fails
  obtain ⟨new, hrows, halike, hnd, hnew⟩ := hchg.conserves hinv haggr
  have hleft : ∀ k, k ∈ (t.left tdb).map Prod.fst ↔
      k ∈ new.map Prod.fst ∨ k ∈ ((HashGroupBy.step tdb t fails).left tdb).map Prod.fst := by
    intro k
    rw [halike.keys k, map_append, mem_append]
  refine ⟨hinv.next hchg, ?_, ?_, ?_⟩
  · rw [hrows, append_assoc]
    exact h.alike.trans ((Alike.refl _).append halike)
  · rw [hrows, map_append, nodup_append']
    exact ⟨h.nodup, hnd, fun k hk hk' => h.apart k hk ((hleft k).2 (.inl hk'))⟩
  · intro k hk hk'
    rw [hrows, map_append, mem_append] at hk
    obtain hk | hk := hk
    · exact h.apart k hk ((hleft k).2 (.inr hk'))
    · exact hnew k hk hk'

/-- Hash group-by returns one row for each distinct grouping value that passes the having
expression, with the aggregate of all its rows, whichever inserts fail and whichever clusters are
spilled. -/
theorem hash_group_by_aggregates (tdb : Tdb α γ A) (haggr : tdb.aggregates = true) (input : List α)
    (events : List (Option Spill))
    (hdone : (Runs.run (step tdb) (initial tdb input) events).state = .done) :
    ((Runs.run (step tdb) (initial tdb input) events).returned tdb).Perm
      (((input.map tdb.key).dedup.map fun k =>
        (k, ((input.filter fun x => tdb.key x = k).map tdb.value).prod)).filter tdb.having) := by
  have hstep : ∀ u e, Sums tdb input u → Sums tdb input (step tdb u e) :=
    fun u e hu => hu.step haggr e
  have hsums := Runs.run_invariant hstep (Sums.initial tdb input) events
  obtain ⟨H, hinv⟩ := hsums.inv
  obtain ⟨hlist, hof⟩ := hinv.done hdone
  obtain ⟨htail, hrows⟩ := hinv.noOuter (by rw [hdone]; decide)
  have hleft : (Runs.run (step tdb) (initial tdb input) events).left tdb = [] := by
    simp only [left, live, waiting, hlist, hof, htail, hrows,
      hinv.noChild (by rw [hdone]; decide), flatMap_nil, append_nil, map_nil]
  have halike := hsums.alike
  rw [hleft, append_nil] at halike
  have hperm := halike.perm_products hsums.nodup
  simp only [product_map_filter, map_map] at hperm
  exact hperm.filter _

def remainders : Tdb ℕ ℕ ℕ where
  key := fun x => x % 5
  hash := fun k => 257 * k
  aggregates := true
  value := id
  having := fun p => p.2 ≠ 7
  bucketCount := 2
  bucketCount_pos := Nat.two_pos

def spills : List (Option Spill) :=
  [none, none, some ⟨0, 1⟩, none, none, none, some ⟨0, 0⟩] ++ replicate 8 none ++
    [some ⟨0, 0⟩] ++ replicate 18 none

/-- The group 2 does not pass the having expression. -/
theorem remainders_aggregated :
    ((Runs.run (step remainders) (initial remainders [3, 4, 6, 8, 7, 9, 11, 13]) spills).returned
      remainders).Perm [(1, 66), (4, 36), (3, 312)] :=
  (hash_group_by_aggregates remainders rfl [3, 4, 6, 8, 7, 9, 11, 13] spills (by decide)).trans
    (by decide)

end Trafodion.HashGroupBy
