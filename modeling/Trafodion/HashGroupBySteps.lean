import Trafodion.HashGroupByRows

/-!
# The steps of the hash group-by

What one event of the operator does to its clusters, its input and the rows it has produced, and
what holds of the clusters in every state.
-/

namespace Trafodion.HashGroupBy

open List Cluster Tcb

variable {α γ A : Type}

/-! ### The state -/

namespace Tcb

variable (tdb : Tdb α γ A) (t : Tcb α γ A)

def live : List (HashRow γ A) := t.clusterList.flatMap fun p => p.2.all

def current : List γ :=
  t.child.map tdb.key ++ (t.tail ++ t.rows ++ t.live).map HashRow.key

def waiting : List (HashRow γ A) := t.ofClusterList.flatMap all

end Tcb

structure Stored (aggregates : Bool) (c : Cluster γ A) : Prop where
  pool : c.bufferPool = []
  level : ∃ K : γ → ℕ, ∀ r ∈ c.all, r.hashValue = K r.key
  seqOne : aggregates = true → c.seqOne = []

/-- What holds in every state, where `H` gives the hash values of the input that is read. -/
structure Inv (tdb : Tdb α γ A) (H : γ → ℕ) (t : Tcb α γ A) : Prop where
  placed : Placed tdb.bucketCount H t.clusterList
  full : t.state = .readChild ∨ t.state = .readOfRow →
    ∀ b < tdb.bucketCount, ∃ c, (b, c) ∈ t.clusterList
  seqOne : tdb.aggregates = true → ∀ p ∈ t.clusterList, p.2.seqOne = []
  child : ∀ x ∈ t.child, mask31 (tdb.hash (tdb.key x)) = H (tdb.key x)
  outer : ∀ r ∈ t.tail ++ t.rows, respread r.hashValue = H r.key
  noChild : t.state ≠ .readChild → t.child = []
  noOuter : t.state ≠ .readOfRow → t.tail = [] ∧ t.rows = []
  later : t.ofClusterList.Pairwise fun c d => ∀ r ∈ c.all, ∀ s ∈ d.all, r.key ≠ s.key
  apart : ∀ r ∈ t.waiting, r.key ∉ t.current tdb
  stored : ∀ c ∈ t.ofClusterList, Stored tdb.aggregates c
  done : t.state = .done → t.clusterList = [] ∧ t.ofClusterList = []

inductive Takes (tdb : Tdb α γ A) (t : Tcb α γ A) : γ → ℕ → A → Bool → Tcb α γ A → Prop
  | child {x : α} {xs : List α} (hstate : t.state = .readChild) (h : t.child = x :: xs) :
    Takes tdb t (tdb.key x) (mask31 (tdb.hash (tdb.key x))) (tdb.value x) true { t with child := xs }
  | tail {r : HashRow γ A} {rs : List (HashRow γ A)} (hstate : t.state = .readOfRow)
    (h : t.tail = r :: rs) : Takes tdb t r.key (respread r.hashValue) r.aggr false { t with tail := rs }
  | rows {r : HashRow γ A} {rs : List (HashRow γ A)} (hstate : t.state = .readOfRow)
    (htail : t.tail = []) (h : t.rows = r :: rs) :
    Takes tdb t r.key (respread r.hashValue) r.aggr true { t with rows := rs }

variable [DecidableEq γ] [CommMonoid A]

inductive Change (tdb : Tdb α γ A) (H : γ → ℕ) (t : Tcb α γ A) : Tcb α γ A → Prop
  | found {k : γ} {v : A} {ret : Bool} {s : Tcb α γ A} {a d : List (ℕ × Cluster γ A)}
    {c : Cluster γ A} (htakes : Takes tdb t k (H k) v ret s)
    (hlist : t.clusterList = a ++ (H k % tdb.bucketCount, c) :: d) (hkey : k ∈ c.table.map HashRow.key) :
    Change tdb H t { s with
      clusterList := a ++ (H k % tdb.bucketCount,
        if tdb.aggregates then c.aggregate k (H k) v else c) :: d }
  | insert {k : γ} {v : A} {ret : Bool} {s : Tcb α γ A} {a d : List (ℕ × Cluster γ A)}
    {c : Cluster γ A} (htakes : Takes tdb t k (H k) v ret s)
    (hlist : t.clusterList = a ++ (H k % tdb.bucketCount, c) :: d) (hkey : k ∉ c.table.map HashRow.key) :
    Change tdb H t { s with
      clusterList := a ++ (H k % tdb.bucketCount,
        c.insert ⟨k, H k, if tdb.aggregates then v else 1⟩) :: d
      resultRows := t.resultRows ++
        if tdb.aggregates = false ∧ c.state = .chained ∧ ret = true then [(k, 1)] else [] }
  | spill {b keep : ℕ} {a d : List (ℕ × Cluster γ A)} {c : Cluster γ A}
    (hlist : t.clusterList = a ++ (b, c) :: d) (htail : tdb.aggregates = false → t.tail = []) :
    Change tdb H t { t with clusterList := a ++ (b, c.spill (!tdb.aggregates) keep) :: d }
  | endInput (hstate : t.state = .readChild ∨ t.state = .readOfRow) (hchild : t.child = [])
    (htail : t.tail = []) (hrows : t.rows = []) : Change tdb H t { t with state := .evaluate }
  | complete {b : ℕ} {c : Cluster γ A} {d : List (ℕ × Cluster γ A)} (hstate : t.state = .evaluate)
    (hlist : t.clusterList = (b, c) :: d) (hchained : c.state = .chained) :
    Change tdb H t { t with
      clusterList := d
      resultRows := t.resultRows ++ resultsOf tdb c }
  | overflow {b : ℕ} {c : Cluster γ A} {d : List (ℕ × Cluster γ A)} (hstate : t.state = .evaluate)
    (hlist : t.clusterList = (b, c) :: d) (hflushed : c.state = .flushed) :
    Change tdb H t { t with
      clusterList := d
      ofClusterList := t.ofClusterList ++ [written tdb c] }
  | restart {c : Cluster γ A} {d : List (Cluster γ A)} (hstate : t.state = .evaluate)
    (hlist : t.clusterList = []) (hof : t.ofClusterList = c :: d) :
    Change tdb H t { t with
      state := .readOfRow
      clusterList := allocate tdb
      ofClusterList := d
      tail := if tdb.aggregates then [] else c.seqOne
      rows := c.seqZero }
  | finish (hstate : t.state = .evaluate) (hlist : t.clusterList = []) (hof : t.ofClusterList = []) :
    Change tdb H t { t with state := .done }
  | none : Change tdb H t t

variable {tdb : Tdb α γ A} {H : γ → ℕ} {t s : Tcb α γ A} {ret : Bool} {hv : ℕ} {k : γ} {v : A}

section

omit [DecidableEq γ] [CommMonoid A]

lemma Inv.hash_eq (h : Inv tdb H t) (htk : Takes tdb t k hv v ret s) : hv = H k := by
  cases htk with
  | child hst hc => exact h.child _ (by rw [hc]; exact mem_cons_self)
  | tail hst hr => exact h.outer _ (by rw [hr]; simp)
  | rows hst htail hr => exact h.outer _ (by rw [hr]; simp)

lemma Takes.state (htk : Takes tdb t k hv v ret s) :
    t.state = .readChild ∨ t.state = .readOfRow := by
  cases htk with
  | child hst hc => exact .inl hst
  | tail hst hr => exact .inr hst
  | rows hst htail hr => exact .inr hst

lemma Takes.same (htk : Takes tdb t k hv v ret s) :
    s.clusterList = t.clusterList ∧ s.resultRows = t.resultRows ∧ s.ofClusterList = t.ofClusterList ∧
      s.state = t.state := by
  cases htk <;> exact ⟨rfl, rfl, rfl, rfl⟩

lemma Inv.cluster (h : Inv tdb H t) (hst : t.state = .readChild ∨ t.state = .readOfRow) (k : γ) :
    ∃ a c d, t.clusterList = a ++ (H k % tdb.bucketCount, c) :: d ∧
      t.clusterOf (H k % tdb.bucketCount) = c ∧ ∀ f : Cluster γ A → Cluster γ A,
        (t.clusterList.map fun p => if p.1 = H k % tdb.bucketCount then (p.1, f p.2) else p) =
          a ++ (H k % tdb.bucketCount, f c) :: d := by
  obtain ⟨c, hc⟩ := h.full hst _ (Nat.mod_lt _ tdb.bucketCount_pos)
  obtain ⟨a, d, hL, -, hmap⟩ := h.placed.split hc
  exact ⟨a, c, d, hL, clusterOf_eq h.placed hc, hmap⟩

end

variable {c : Cluster γ A} {b : ℕ}

variable {a d : List (ℕ × Cluster γ A)}

omit [CommMonoid A] in
lemma Inv.has_iff (h : Inv tdb H t)
    (hL : t.clusterList = a ++ (b, c) :: d) (k : γ) :
    c.has k (H k) = true ↔ k ∈ c.table.map HashRow.key := by
  rw [Cluster.has_iff, mem_map]
  constructor
  · rintro ⟨r, hr, -, hk⟩
    exact ⟨r, hr, hk⟩
  · rintro ⟨r, hr, rfl⟩
    exact ⟨r, hr, (h.placed.place (b, c) (by rw [hL]; simp) r (Cluster.table_subset r hr)).1, rfl⟩

lemma Inv.group (h : Inv tdb H t) (htk : Takes tdb t k hv v ret s) (fails : Option Spill)
    (hfails : tdb.aggregates = false → t.tail ≠ [] → fails = none) :
    (∀ u, Tcb.group tdb k hv v ret fails t = (u, true) → Change tdb H t { s with
        clusterList := u.clusterList, resultRows := u.resultRows }) ∧
      ∀ u, Tcb.group tdb k hv v ret fails t = (u, false) → Change tdb H t u := by
  obtain rfl := h.hash_eq htk
  obtain ⟨a, c, d, hL, hof, hmap⟩ := h.cluster htk.state k
  obtain ⟨hslist, hsrows, -, -⟩ := htk.same
  unfold Tcb.group
  simp only [hof]
  by_cases hhas : c.has k (H k) = true
  · rw [if_pos hhas]
    refine ⟨fun u hu => ?_, fun u hu => (Bool.false_ne_true (Prod.ext_iff.1 hu).2.symm).elim⟩
    have hfd := Change.found htk hL ((h.has_iff hL k).1 hhas)
    obtain rfl := (Prod.ext_iff.1 hu).1
    refine cast (congrArg (Change tdb H t) ?_) hfd
    by_cases haggr : tdb.aggregates = true
    · simp only [haggr, if_true, Tcb.modify, hmap, hsrows]
    · simp only [haggr, Bool.false_eq_true, if_false, ← hL, hsrows]
  · rw [if_neg hhas]
    cases fails with
    | some spill =>
      refine ⟨fun u hu => (Bool.false_ne_true (Prod.ext_iff.1 hu).2).elim, fun u hu => ?_⟩
      obtain rfl := (Prod.ext_iff.1 hu).1
      by_cases hmem : ∃ e, (spill.bucket, e) ∈ t.clusterList
      · obtain ⟨e, he⟩ := hmem
        obtain ⟨a', d', hL', -, hmap'⟩ := h.placed.split he
        have htail : tdb.aggregates = false → t.tail = [] := by
          intro haggr
          by_contra hne
          cases hfails haggr hne
        have hspill : Change tdb H t { t with
            clusterList := a' ++ (spill.bucket, e.spill (!tdb.aggregates) spill.keep) :: d' } :=
          .spill hL' htail
        refine cast (congrArg (Change tdb H t) ?_) hspill
        simp only [Tcb.modify, hmap']
      · have hsame : t.modify spill.bucket (Cluster.spill (!tdb.aggregates) spill.keep) = t := by
          unfold Tcb.modify
          have hid : (t.clusterList.map fun p => if p.1 = spill.bucket then
              (p.1, Cluster.spill (!tdb.aggregates) spill.keep p.2) else p) = t.clusterList := by
            conv_rhs => rw [← map_id t.clusterList]
            refine map_congr_left fun p hp => if_neg fun hpb => hmem ⟨p.2, ?_⟩
            rw [← hpb]
            exact hp
          rw [hid]
        exact cast (congrArg (Change tdb H t) hsame.symm) .none
    | none =>
      refine ⟨fun u hu => ?_, fun u hu => ?_⟩
      · have hinsert := Change.insert htk hL fun hkey => hhas ((h.has_iff hL k).2 hkey)
        refine cast (congrArg (Change tdb H t) ?_) hinsert
        by_cases hret : tdb.aggregates = false ∧ c.state = .chained ∧ ret = true
        · simp only [if_pos hret] at hu ⊢
          obtain rfl := (Prod.ext_iff.1 hu).1
          simp only [Tcb.modify, hmap, hret.1, Bool.false_eq_true, if_false]
        · simp only [if_neg hret] at hu ⊢
          obtain rfl := (Prod.ext_iff.1 hu).1
          simp only [Tcb.modify, hmap, append_nil]
      · split_ifs at hu <;> cases hu

lemma group_frame (tdb : Tdb α γ A) (t : Tcb α γ A) (k : γ) (hv : ℕ) (v : A) (ret : Bool)
    (fails : Option Spill) :
    ∃ L R, (group tdb k hv v ret fails t).1 = { t with clusterList := L, resultRows := R } := by
  unfold group
  cases fails <;> dsimp only <;> split_ifs <;> exact ⟨_, _, rfl⟩

/-- A work procedure that uses a row goes on with the row taken from the input. -/
theorem Inv.used (h : Inv tdb H t) {k : γ} {hv : ℕ} {v : A} {ret : Bool}
    (htk : Takes tdb t k hv v ret s) (fails : Option Spill)
    (hfails : tdb.aggregates = false → t.tail ≠ [] → fails = none) (f : Tcb α γ A → Tcb α γ A)
    (hf : ∀ L R, f { t with clusterList := L, resultRows := R } =
      { s with clusterList := L, resultRows := R }) :
    Change tdb H t (if (Tcb.group tdb k hv v ret fails t).2 then
      f (Tcb.group tdb k hv v ret fails t).1 else (Tcb.group tdb k hv v ret fails t).1) := by
  obtain ⟨htrue, hfls⟩ := h.group htk fails hfails
  obtain ⟨L, R, hfrm⟩ := group_frame tdb t k hv v ret fails
  rcases hg : Tcb.group tdb k hv v ret fails t with ⟨u, used⟩
  rw [hg] at hfrm
  obtain rfl : u = { t with clusterList := L, resultRows := R } := hfrm
  cases used with
  | true =>
    rw [if_pos rfl, hf]
    exact htrue _ hg
  | false => exact hfls _ hg

lemma Inv.workReadChild (h : Inv tdb H t) (hst : t.state = .readChild) (fails : Option Spill) :
    Change tdb H t (t.workReadChild tdb fails) := by
  obtain ⟨htail, hrows⟩ := h.noOuter (by rw [hst]; decide)
  obtain ⟨state, child, list, of, tail, rows, result⟩ := t
  cases child with
  | nil => exact .endInput (.inl hst) rfl htail hrows
  | cons x xs =>
    have hused := h.used (.child hst rfl) fails (fun _ hne => (hne htail).elim)
      (fun u => { u with child := xs }) fun _ _ => rfl
    refine cast (congrArg (Change tdb H _) ?_) hused
    simp only [Tcb.workReadChild]
    rcases Tcb.group tdb (tdb.key x) _ _ true fails _ with ⟨u, _ | _⟩ <;> rfl

lemma Inv.workReadOverFlowRow (h : Inv tdb H t) (hst : t.state = .readOfRow)
    (fails : Option Spill) : Change tdb H t (t.workReadOverFlowRow tdb fails) := by
  have hch := h.noChild (by rw [hst]; decide)
  obtain ⟨state, child, list, of, tail, rows, result⟩ := t
  cases tail with
  | cons r rs =>
    have hfails : tdb.aggregates = false → r :: rs ≠ [] →
        (if tdb.aggregates then fails else none) = none := by
      intro haggr _
      rw [haggr]
      rfl
    have hused := h.used (.tail hst rfl) _ hfails (fun u => { u with tail := rs }) fun _ _ => rfl
    refine cast (congrArg (Change tdb H _) ?_) hused
    simp only [Tcb.workReadOverFlowRow]
    rcases Tcb.group tdb r.key _ _ false _ _ with ⟨u, _ | _⟩ <;> rfl
  | nil =>
    cases rows with
    | nil => exact .endInput (.inr hst) hch rfl rfl
    | cons r rs =>
      have hused := h.used (.rows hst rfl rfl) fails (fun _ hne => (hne rfl).elim)
        (fun u => { u with rows := rs }) fun _ _ => rfl
      refine cast (congrArg (Change tdb H _) ?_) hused
      simp only [Tcb.workReadOverFlowRow]
      rcases Tcb.group tdb r.key _ _ true fails _ with ⟨u, _ | _⟩ <;> rfl

lemma workEvaluate_change (H : γ → ℕ) (hst : t.state = .evaluate) :
    Change tdb H t (t.workEvaluate tdb) := by
  obtain ⟨state, child, list, of, tail, rows, result⟩ := t
  cases list with
  | cons p d =>
    obtain ⟨b, c⟩ := p
    simp only [workEvaluate]
    cases hc : c.state with
    | chained => exact .complete hst rfl hc
    | flushed => exact .overflow hst rfl hc
  | nil =>
    cases of with
    | cons c d => exact .restart hst rfl rfl
    | nil => exact .finish hst rfl rfl

lemma Inv.change (h : Inv tdb H t) (fails : Option Spill) : Change tdb H t (step tdb t fails) := by
  unfold step
  cases hst : t.state with
  | readChild => exact h.workReadChild hst fails
  | readOfRow => exact h.workReadOverFlowRow hst fails
  | evaluate => exact workEvaluate_change H hst
  | done => exact .none

/-! ### The invariant is kept -/

section

omit [DecidableEq γ] [CommMonoid A]

lemma mem_allocate {p : ℕ × Cluster γ A} :
    p ∈ allocate tdb ↔ p.1 < tdb.bucketCount ∧ p.2 = {} := by
  simp only [allocate, mem_map, mem_reverse, mem_range]
  constructor
  · rintro ⟨i, hi, rfl⟩
    exact ⟨hi, rfl⟩
  · rintro ⟨hi, hp⟩
    exact ⟨p.1, hi, by rw [← hp]⟩

lemma live_allocate : (allocate tdb).flatMap (fun p => p.2.all) = [] := by
  rw [flatMap_eq_nil_iff]
  intro p hp
  rw [(mem_allocate.1 hp).2]
  rfl

lemma placed_allocate (H : γ → ℕ) : Placed tdb.bucketCount H (allocate tdb) := by
  refine ⟨?_, fun p hp => ?_, fun p hp r hr => ?_⟩
  · have hids : (allocate tdb).map Prod.fst = (range tdb.bucketCount).reverse := by
      rw [allocate, map_map]
      exact map_id _
    rw [hids, nodup_reverse]
    exact nodup_range
  · rw [(mem_allocate.1 hp).2]
    exact ⟨nodup_nil, fun _ => ⟨rfl, rfl, rfl⟩⟩
  · rw [(mem_allocate.1 hp).2] at hr
    exact absurd hr not_mem_nil

lemma full_allocate : ∀ b < tdb.bucketCount, ∃ c, (b, c) ∈ allocate tdb :=
  fun _ hb => ⟨{}, mem_allocate.2 ⟨hb, rfl⟩⟩

lemma Inv.initial (tdb : Tdb α γ A) (input : List α) :
    Inv tdb (fun k => mask31 (tdb.hash k)) (initial tdb input) where
  placed := placed_allocate _
  full _ := full_allocate
  seqOne _ p hp := by rw [(mem_allocate.1 hp).2]
  child _ _ := rfl
  outer r hr := absurd hr not_mem_nil
  noChild h := (h rfl).elim
  noOuter _ := ⟨rfl, rfl⟩
  later := List.Pairwise.nil
  apart r hr := absurd hr not_mem_nil
  stored c hc := absurd hc not_mem_nil
  done h := by cases h

lemma Takes.current (htk : Takes tdb t k hv v ret s) : k ∈ t.current tdb := by
  cases htk with
  | child hst hc => simp [current, hc]
  | tail hst hr => simp [current, hr]
  | rows hst htail hr => simp [current, hr]

lemma Takes.subset (htk : Takes tdb t k hv v ret s) :
    (∀ x ∈ s.child, x ∈ t.child) ∧ (∀ r ∈ s.tail, r ∈ t.tail) ∧ ∀ r ∈ s.rows, r ∈ t.rows := by
  cases htk with
  | child hst hc => exact ⟨hc ▸ subset_cons_self _ _, fun _ hr => hr, fun _ hr => hr⟩
  | tail hst hr => exact ⟨fun _ hx => hx, hr ▸ subset_cons_self _ _, fun _ hx => hx⟩
  | rows hst htail hr => exact ⟨fun _ hx => hx, fun _ hx => hx, hr ▸ subset_cons_self _ _⟩

lemma Takes.refl_subset : (∀ x ∈ t.child, x ∈ t.child) ∧ (∀ r ∈ t.tail, r ∈ t.tail) ∧
    ∀ r ∈ t.rows, r ∈ t.rows :=
  ⟨fun _ h => h, fun _ h => h, fun _ h => h⟩

lemma mem_of_replace {L L' : List (ℕ × Cluster γ A)} {c' : Cluster γ A}
    (hlist : L = a ++ (b, c) :: d) (hnew : L' = a ++ (b, c') :: d) :
    ∀ p ∈ L', p = (b, c') ∨ p ∈ L := by
  intro p hp
  rw [hnew] at hp
  rw [hlist]
  simp only [mem_append, mem_cons] at hp ⊢
  tauto

lemma Inv.regroup (h : Inv tdb H t) {c c' : Cluster γ A}
    (hlist : t.clusterList = a ++ (b, c) :: d)
    (hsame : s.ofClusterList = t.ofClusterList ∧ s.state = t.state)
    (hsub : (∀ x ∈ s.child, x ∈ t.child) ∧ (∀ r ∈ s.tail, r ∈ t.tail) ∧ ∀ r ∈ s.rows, r ∈ t.rows)
    (hnew : s.clusterList = a ++ (b, c') :: d) (htidy : c'.Tidy)
    (hseq : tdb.aggregates = true → c'.seqOne = [])
    (hrows : ∀ r ∈ c'.all, (r.hashValue = H r.key ∧ H r.key % tdb.bucketCount = b) ∧
      r.key ∈ t.current tdb) : Inv tdb H s := by
  obtain ⟨hof, hst⟩ := hsame
  obtain ⟨hch, htail, hrest⟩ := hsub
  have hmem := mem_of_replace hlist hnew
  have hcur : ∀ k ∈ s.current tdb, k ∈ t.current tdb := by
    intro k hk
    simp only [current, live, mem_append, mem_map, mem_flatMap] at hk
    obtain ⟨x, hx, rfl⟩ | ⟨r, (hr | hr) | ⟨p, hp, hr⟩, rfl⟩ := hk
    · exact mem_append_left _ (mem_map_of_mem (hch x hx))
    · exact mem_append_right _ (mem_map_of_mem (mem_append_left _ (mem_append_left _ (htail r hr))))
    · exact mem_append_right _ (mem_map_of_mem
        (mem_append_left _ (mem_append_right _ (hrest r hr))))
    · obtain rfl | hp := hmem p hp
      · exact (hrows r hr).2
      · exact mem_append_right _ (mem_map_of_mem (mem_append_right _ (mem_flatMap.2 ⟨p, hp, hr⟩)))
  refine ⟨?_, fun hread b' hb' => ?_, fun haggr p hp => ?_, fun x hx => h.child x (hch x hx),
    fun r hr => h.outer r ?_, fun hne => ?_, fun hne => ?_, ?_, fun r hr hk => ?_, fun c hc => ?_,
    fun hdone => ?_⟩
  · rw [hnew]
    exact h.placed.replace hlist htidy fun r hr => (hrows r hr).1
  · rw [hst] at hread
    obtain ⟨e, he⟩ := h.full hread b' hb'
    rw [hlist] at he
    rw [hnew]
    simp only [mem_append, mem_cons, Prod.mk.injEq] at he ⊢
    obtain he | ⟨rfl, rfl⟩ | he := he
    · exact ⟨e, .inl he⟩
    · exact ⟨c', .inr (.inl ⟨rfl, rfl⟩)⟩
    · exact ⟨e, .inr (.inr he)⟩
  · obtain rfl | hp := hmem p hp
    · exact hseq haggr
    · exact h.seqOne haggr p hp
  · obtain hr | hr := mem_append.1 hr
    · exact mem_append_left _ (htail r hr)
    · exact mem_append_right _ (hrest r hr)
  · rw [hst] at hne
    exact eq_nil_of_subset_nil fun x hx => h.noChild hne ▸ hch x hx
  · rw [hst] at hne
    obtain ⟨ht, hr⟩ := h.noOuter hne
    exact ⟨eq_nil_of_subset_nil fun x hx => ht ▸ htail x hx,
      eq_nil_of_subset_nil fun x hx => hr ▸ hrest x hx⟩
  · rw [hof]
    exact h.later
  · refine h.apart r ?_ (hcur _ hk)
    unfold waiting at hr ⊢
    rw [← hof]
    exact hr
  · rw [hof] at hc
    exact h.stored c hc
  · rw [hst] at hdone
    have hnil := (h.done hdone).1
    rw [hlist] at hnil
    exact absurd hnil (by simp)

lemma Inv.row (h : Inv tdb H t)
    (hlist : t.clusterList = a ++ (b, c) :: d) {r : HashRow γ A} (hr : r ∈ c.all) :
    (r.hashValue = H r.key ∧ H r.key % tdb.bucketCount = b) ∧ r.key ∈ t.current tdb := by
  have hp : (b, c) ∈ t.clusterList := mem_of_split hlist
  refine ⟨h.placed.place _ hp r hr, mem_append_right _ (mem_map_of_mem ?_)⟩
  exact mem_append_right _ (mem_flatMap.2 ⟨_, hp, hr⟩)

lemma Cluster.seqOne_spill {keep : ℕ} : (c.spill false keep).seqOne = c.seqOne := by
  simp [spill]

lemma written_pool (tdb : Tdb α γ A) (hflush : c.state = .flushed) :
    (written tdb c).bufferPool = [] := by
  unfold written
  split_ifs with hemp
  · exact isEmpty_iff.1 hemp
  · have hnot : ¬(c.state = .chained ∧ (!tdb.aggregates) = true) := by simp [hflush]
    rw [spill, if_neg hnot]
    simp [bufferPool]

lemma written_all (tdb : Tdb α γ A) (htidy : c.Tidy) : (written tdb c).all.Perm c.all := by
  unfold written
  split_ifs
  · exact List.Perm.refl _
  · exact htidy.all_spill _ _

variable {d : List (ℕ × Cluster γ A)}

lemma Inv.head_apart (h : Inv tdb H t) (hlist : t.clusterList = (b, c) :: d) {r q : HashRow γ A}
    (hr : r ∈ c.all) (hq : q ∈ d.flatMap fun p => p.2.all) : q.key ≠ r.key := by
  intro hkey
  obtain ⟨p, hp, hq⟩ := mem_flatMap.1 hq
  have hids := h.placed.ids
  rw [hlist, map_cons, nodup_cons] at hids
  have hplace := (h.row (a := []) hlist hr).1.2
  have hplace' := (h.placed.place p (by rw [hlist]; exact mem_cons_of_mem _ hp) q hq).2
  rw [hkey, hplace] at hplace'
  exact hids.1 (mem_map.2 ⟨p, hp, hplace'.symm⟩)

section
variable (h : Inv tdb H t) (hst : t.state = .evaluate) (hlist : t.clusterList = (b, c) :: d)
include h hst hlist

lemma Inv.drop : Inv tdb H { t with clusterList := d } := by
  have hmem : ∀ p ∈ d, p ∈ t.clusterList := fun _ hp => hlist ▸ mem_cons_of_mem _ hp
  have hids := h.placed.ids
  rw [hlist, map_cons, nodup_cons] at hids
  exact { h with
    placed := ⟨hids.2, fun p hp => h.placed.tidy p (hmem p hp),
      fun p hp => h.placed.place p (hmem p hp)⟩
    full := by simp [hst]
    seqOne := fun haggr p hp => h.seqOne haggr p (hmem p hp)
    apart := fun r hr hk => by
      refine h.apart r hr ?_
      simp only [current, live, hlist, flatMap_cons, map_append, mem_append] at hk ⊢
      tauto
    done := by simp [hst] }

lemma Inv.overflow (hflush : c.state = .flushed) :
    Inv tdb H { t with
      clusterList := d
      ofClusterList := t.ofClusterList ++ [written tdb c] } := by
  have hdrop := h.drop hst hlist
  have hc : (b, c) ∈ t.clusterList := mem_of_split (a := []) hlist
  have hall : ∀ r ∈ (written tdb c).all, r ∈ c.all :=
    fun r hr => (written_all tdb (h.placed.tidy _ hc)).mem_iff.1 hr
  have hch := h.noChild (by rw [hst]; decide)
  obtain ⟨htail, hrows⟩ := h.noOuter (by rw [hst]; decide)
  exact { hdrop with
    later := by
      refine pairwise_append.2 ⟨h.later, pairwise_singleton _ _, fun e he f hf r hr q hq => ?_⟩
      rw [mem_singleton.1 hf] at hq
      intro heq
      refine h.apart r (mem_flatMap.2 ⟨e, he, hr⟩) ?_
      rw [heq]
      exact (h.row (a := []) hlist (hall q hq)).2
    apart := fun r hr hk => by
      obtain ⟨e, he, hr⟩ := mem_flatMap.1 hr
      obtain he | he := mem_append.1 he
      · exact hdrop.apart r (mem_flatMap.2 ⟨e, he, hr⟩) hk
      · rw [mem_singleton.1 he] at hr
        simp only [current, live, hch, htail, hrows, map_nil, nil_append, mem_map] at hk
        obtain ⟨q, hq, hkey⟩ := hk
        exact h.head_apart hlist (hall r hr) hq hkey
    stored := by
      refine forall_mem_append.2 ⟨h.stored, forall_mem_singleton.2 ⟨written_pool tdb hflush,
        ⟨H, fun r hr => (h.row (a := []) hlist (hall r hr)).1.1⟩, fun haggr => ?_⟩⟩
      unfold written
      split_ifs
      · exact h.seqOne haggr _ hc
      · rw [haggr, Bool.not_true, seqOne_spill]
        exact h.seqOne haggr _ hc
    done := by simp [hst] }

end

lemma Inv.restart (h : Inv tdb H t) {d : List (Cluster γ A)}
    (hst : t.state = .evaluate) (hof : t.ofClusterList = c :: d) :
    ∃ H', Inv tdb H' { t with
      state := .readOfRow
      clusterList := Tcb.allocate tdb
      ofClusterList := d
      tail := if tdb.aggregates then [] else c.seqOne
      rows := c.seqZero } := by
  have hch := h.noChild (by rw [hst]; decide)
  have hlat := h.later
  rw [hof, pairwise_cons] at hlat
  obtain ⟨K, hK⟩ := (h.stored c (by rw [hof]; exact mem_cons_self)).level
  have houter : ∀ r ∈ (if tdb.aggregates then [] else c.seqOne) ++ c.seqZero, r ∈ c.all := by
    intro r hr
    split_ifs at hr <;> simp_all [Cluster.all]
    tauto
  refine ⟨fun k => respread (K k), placed_allocate _, fun _ => full_allocate, fun _ p hp => ?_,
    fun x hx => ?_, fun r hr => ?_, fun _ => hch, fun hne => (hne rfl).elim, hlat.2,
    fun r hr hk => ?_, fun e he => h.stored e (by rw [hof]; exact mem_cons_of_mem _ he),
    fun hdone => by cases hdone⟩
  · rw [(mem_allocate.1 hp).2]
  · rw [hch] at hx
    exact absurd hx not_mem_nil
  · rw [hK r (houter r hr)]
  · obtain ⟨e, he, hr⟩ := mem_flatMap.1 hr
    simp only [Tcb.current, Tcb.live, live_allocate, hch, map_nil, nil_append,
      append_nil, mem_map] at hk
    obtain ⟨q, hq, hkey⟩ := hk
    exact hlat.1 e he q (houter q hq) r hr hkey

end

lemma Inv.next (h : Inv tdb H t) (hchg : Change tdb H t s) : ∃ H', Inv tdb H' s := by
  cases hchg with
  | @found k v ret s a d c htk hlist hkey =>
    have hc : (H k % tdb.bucketCount, c) ∈ t.clusterList := mem_of_split hlist
    refine ⟨H, h.regroup hlist ⟨htk.same.2.2.1, htk.same.2.2.2⟩ htk.subset rfl ?_ ?_ ?_⟩
    · split_ifs
      · exact (h.placed.tidy _ hc).aggregate
      · exact h.placed.tidy _ hc
    · intro haggr
      rw [if_pos haggr]
      exact h.seqOne haggr _ hc
    · intro r hr
      split_ifs at hr
      · have hname : r.name ∈ c.all.map HashRow.name := by
          rw [← names_aggregate k (H k) v]
          exact mem_map_of_mem hr
        obtain ⟨q, hq, heq⟩ := mem_map.1 hname
        obtain ⟨hkeys, hhash⟩ := Prod.ext_iff.1 heq
        have hrow := h.row hlist hq
        rw [show q.key = r.key from hkeys, show q.hashValue = r.hashValue from hhash] at hrow
        exact hrow
      · exact h.row hlist hr
  | @insert k v ret s a d c htk hlist hkey =>
    have hc : (H k % tdb.bucketCount, c) ∈ t.clusterList := mem_of_split hlist
    refine ⟨H, h.regroup hlist ⟨htk.same.2.2.1, htk.same.2.2.2⟩ htk.subset rfl
      ((h.placed.tidy _ hc).insert hkey) (fun haggr => h.seqOne haggr _ hc) fun r hr => ?_⟩
    rw [all_insert] at hr
    obtain hr | hr := mem_append.1 hr
    · exact h.row hlist hr
    · rw [mem_singleton.1 hr]
      exact ⟨⟨rfl, rfl⟩, htk.current⟩
  | @spill b keep a d c hlist htail =>
    have hc : (b, c) ∈ t.clusterList := mem_of_split hlist
    refine ⟨H, h.regroup hlist ⟨rfl, rfl⟩ Takes.refl_subset rfl (.spill _ _) (fun haggr => ?_)
      fun r hr => h.row hlist (((h.placed.tidy _ hc).all_spill _ _).mem_iff.1 hr)⟩
    rw [haggr, Bool.not_true, seqOne_spill]
    exact h.seqOne haggr _ hc
  | endInput hst hch htail hrows =>
    exact ⟨H, { h with
      full := by simp
      noChild := fun _ => hch
      noOuter := fun _ => ⟨htail, hrows⟩
      done := by simp }⟩
  | complete hst hlist hchain => exact ⟨H, { h.drop hst hlist with }⟩
  | overflow hst hlist hflush => exact ⟨H, h.overflow hst hlist hflush⟩
  | restart hst hlist hof => exact h.restart hst hof
  | finish hst hlist hof =>
    have hch := h.noChild (by rw [hst]; decide)
    have houter := h.noOuter (by rw [hst]; decide)
    exact ⟨H, { h with
      full := by simp
      noChild := fun _ => hch
      noOuter := fun _ => houter
      done := fun _ => ⟨hlist, hof⟩ }⟩
  | none => exact ⟨H, h⟩

end Trafodion.HashGroupBy
