import Mathlib.Data.List.Nodup
import Trafodion.HashGroupBy

/-!
# The clusters of a hash group-by

While an input is read, the hash values of its rows are a function of the grouping columns, and all
rows of a group are in the cluster of that value. Clusters that wait to be read back share no group
with each other or with what is read.
-/
namespace Trafodion.HashGroupBy

open List

variable {α γ A : Type} [DecidableEq γ] [CommMonoid A]

def HashRow.name (r : HashRow γ A) : γ × ℕ := (r.key, r.hashValue)

/-! ### A cluster -/

namespace Cluster

variable {c : Cluster γ A} {key : γ} {hashValue : ℕ} {value : A} {r : HashRow γ A}

def all (c : Cluster γ A) : List (HashRow γ A) := c.seqOne ++ c.seqZero ++ c.bufferPool

/-- The hash table has no group twice, and a cluster that was not spilled is in the hash table. -/
structure Tidy (c : Cluster γ A) : Prop where
  nodup : (c.table.map HashRow.key).Nodup
  chained : c.state = .chained → c.kept = [] ∧ c.seqZero = [] ∧ c.seqOne = []

omit [DecidableEq γ] [CommMonoid A] in
lemma table_subset : ∀ r ∈ c.table, r ∈ c.all := fun r hr => by
  simp [all, bufferPool, hr]

omit [CommMonoid A] in
lemma has_iff : c.has key hashValue = true ↔ ∃ r ∈ c.table, r.hashValue = hashValue ∧ r.key = key := by
  simp [has, any_eq_true]

lemma keys_aggregate : (c.aggregate key hashValue value).table.map HashRow.key =
    c.table.map HashRow.key := by
  simp only [aggregate, map_map]
  refine map_congr_left fun r _ => ?_
  simp only [Function.comp]
  split_ifs <;> rfl

lemma names_aggregate (key : γ) (hashValue : ℕ) (value : A) :
    (c.aggregate key hashValue value).all.map HashRow.name = c.all.map HashRow.name := by
  simp only [all, bufferPool, aggregate, map_append, map_map]
  congr 2
  refine map_congr_left fun r _ => ?_
  simp only [Function.comp]
  split_ifs <;> rfl

lemma Tidy.aggregate (h : c.Tidy) : (c.aggregate key hashValue value).Tidy :=
  ⟨by rw [keys_aggregate]; exact h.nodup, h.chained⟩

section

omit [DecidableEq γ] [CommMonoid A]

lemma Tidy.insert (h : c.Tidy) (hnew : r.key ∉ c.table.map HashRow.key) : (c.insert r).Tidy := by
  refine ⟨?_, h.chained⟩
  rw [Cluster.insert, map_append, map_singleton]
  rw [← concat_eq_append]
  exact h.nodup.concat hnew

lemma all_insert : (c.insert r).all = c.all ++ [r] := by
  simp [all, bufferPool, Cluster.insert]

lemma Tidy.spill (noAgg : Bool) (keep : ℕ) : (c.spill noAgg keep).Tidy := by
  unfold Cluster.spill
  split_ifs <;> exact ⟨nodup_nil, fun h => by cases h⟩

lemma Tidy.all_spill (h : c.Tidy) (noAgg : Bool) (keep : ℕ) :
    (c.spill noAgg keep).all.Perm c.all := by
  unfold Cluster.spill
  split_ifs with hfst
  · simp [all, bufferPool, h.chained hfst.1]
  · have hparts : c.bufferPool.Perm (c.bufferPool.take (c.bufferPool.length - keep) ++
        c.bufferPool.drop (c.bufferPool.length - keep)) := by rw [take_append_drop]
    simp only [all, bufferPool, append_nil, append_assoc]
    exact (perm_append_left_iff _).2 ((perm_append_left_iff _).2 hparts.symm)

end

end Cluster

/-! ### The cluster list -/

/-- The clusters of the input that is read, of which `H` gives the hash values. -/
structure Placed (n : ℕ) (H : γ → ℕ) (L : List (ℕ × Cluster γ A)) : Prop where
  ids : (L.map Prod.fst).Nodup
  tidy : ∀ p ∈ L, p.2.Tidy
  place : ∀ p ∈ L, ∀ r ∈ p.2.all, r.hashValue = H r.key ∧ H r.key % n = p.1

section Placed

variable {n b : ℕ} {H : γ → ℕ} {L : List (ℕ × Cluster γ A)} {c : Cluster γ A}

section

omit [DecidableEq γ] [CommMonoid A]

lemma mem_of_split {a d : List (ℕ × Cluster γ A)} (h : L = a ++ (b, c) :: d) : (b, c) ∈ L :=
  h ▸ mem_append_right a mem_cons_self

lemma Placed.split (h : Placed n H L) (hmem : (b, c) ∈ L) :
    ∃ a d, L = a ++ (b, c) :: d ∧ (∀ p ∈ a ++ d, p.1 ≠ b) ∧
      ∀ f : Cluster γ A → Cluster γ A, (L.map fun p => if p.1 = b then (p.1, f p.2) else p) = a ++ (b, f c) :: d := by
  obtain ⟨a, d, rfl⟩ := append_of_mem hmem
  have hids := h.ids
  rw [map_append, map_cons, nodup_middle, ← map_append] at hids
  have hne : ∀ p ∈ a ++ d, p.1 ≠ b := by
    intro p hp hpb
    exact (nodup_cons.1 hids).1 (mem_map.2 ⟨p, hp, hpb⟩)
  refine ⟨a, d, rfl, hne, fun f => ?_⟩
  have hsame : ∀ l : List (ℕ × Cluster γ A), (∀ p ∈ l, p ∈ a ++ d) →
      (l.map fun p => if p.1 = b then (p.1, f p.2) else p) = l := by
    intro l hl
    conv_rhs => rw [← map_id l]
    exact map_congr_left fun p hp => if_neg (hne p (hl p hp))
  rw [map_append, map_cons, if_pos rfl, hsame a fun p hp => mem_append_left _ hp,
    hsame d fun p hp => mem_append_right _ hp]

lemma Placed.unique (h : Placed n H L) {c' : Cluster γ A} (hmem : (b, c) ∈ L)
    (hmem' : (b, c') ∈ L) : c' = c := by
  obtain ⟨a, d, rfl, hne, -⟩ := h.split hmem
  obtain hmem' | hmem' := mem_append.1 hmem'
  · exact (hne _ (mem_append_left _ hmem') rfl).elim
  · obtain heq | hmem' := mem_cons.1 hmem'
    · exact (Prod.ext_iff.1 heq).2
    · exact (hne _ (mem_append_right _ hmem') rfl).elim

lemma Placed.replace (h : Placed n H L) {a d : List (ℕ × Cluster γ A)} (hL : L = a ++ (b, c) :: d)
    {c' : Cluster γ A} (htidy : c'.Tidy)
    (hplace : ∀ r ∈ c'.all, r.hashValue = H r.key ∧ H r.key % n = b) :
    Placed n H (a ++ (b, c') :: d) := by
  subst hL
  have hmem : ∀ p ∈ a ++ (b, c') :: d, p = (b, c') ∨ p ∈ a ++ (b, c) :: d := by
    intro p hp
    simp only [mem_append, mem_cons] at hp ⊢
    tauto
  refine ⟨?_, fun p hp => ?_, fun p hp => ?_⟩
  · have hids := h.ids
    rw [map_append, map_cons] at hids ⊢
    exact hids
  · obtain rfl | hp := hmem p hp
    · exact htidy
    · exact h.tidy p hp
  · obtain rfl | hp := hmem p hp
    · exact hplace
    · exact h.place p hp

lemma clusterOf_eq {t : Tcb α γ A} (h : Placed n H t.clusterList) (hmem : (b, c) ∈ t.clusterList) :
    t.clusterOf b = c := by
  have hsome : (t.clusterList.find? fun p => p.1 = b).isSome := by
    rw [find?_isSome]
    exact ⟨_, hmem, by simp⟩
  obtain ⟨p, hp⟩ := Option.isSome_iff_exists.1 hsome
  have hpb : p.1 = b := by simpa using find?_some hp
  have hpmem := mem_of_find?_eq_some hp
  rw [Tcb.clusterOf, hp]
  refine h.unique hmem ?_
  rw [← hpb]
  exact hpmem

end

end Placed

end Trafodion.HashGroupBy
