import Mathlib.Algebra.BigOperators.Group.List.Basic
import Mathlib.Data.List.Dedup

/-!
# Products by key

A list of values with keys stands for one value for each of its keys, the product of those it has for
the key. Two lists that stand for the same may hold it in different pieces.
-/
namespace Keyed

open List

variable {γ A : Type*} [DecidableEq γ] [CommMonoid A]

def product (k : γ) (l : List (γ × A)) : A := (l.map fun p => if p.1 = k then p.2 else 1).prod

section

variable {k : γ} {l m : List (γ × A)} {p : γ × A}

@[simp] lemma product_nil : product k ([] : List (γ × A)) = 1 := rfl

@[simp] lemma product_cons : product k (p :: l) = (if p.1 = k then p.2 else 1) * product k l := by
  simp [product]

@[simp] lemma product_append : product k (l ++ m) = product k l * product k m := by
  simp [product]

lemma product_perm (h : l.Perm m) : product k l = product k m := (h.map _).prod_eq

lemma product_eq_one (h : k ∉ l.map Prod.fst) : product k l = 1 := by
  refine prod_eq_one fun a ha => ?_
  obtain ⟨p, hp, rfl⟩ := mem_map.1 ha
  exact if_neg fun hk => h (mem_map.2 ⟨p, hp, hk⟩)

lemma product_of_mem (hnd : (l.map Prod.fst).Nodup) (hp : p ∈ l) : product p.1 l = p.2 := by
  obtain ⟨a, d, rfl⟩ := append_of_mem hp
  rw [map_append, map_cons, nodup_middle, nodup_cons, ← map_append] at hnd
  have hrest := product_eq_one hnd.1
  rw [product_append] at hrest
  rw [product_append, product_cons, if_pos rfl, mul_left_comm, hrest, mul_one]

lemma product_map_filter {α : Type*} (key : α → γ) (value : α → A) (input : List α) :
    product k (input.map fun x => (key x, value x)) =
      ((input.filter fun x => key x = k).map value).prod := by
  induction input with
  | nil => rfl
  | cons x xs ih =>
    rw [map_cons, product_cons, ih]
    split_ifs with hx
    · rw [filter_cons_of_pos (by simpa using hx), map_cons, prod_cons]
    · rw [filter_cons_of_neg (by simpa using hx), one_mul]

end

/-- Two lists stand for the same values. -/
structure Alike (l m : List (γ × A)) : Prop where
  product : ∀ k, product k l = product k m
  keys : ∀ k, k ∈ l.map Prod.fst ↔ k ∈ m.map Prod.fst

variable {l m n : List (γ × A)}

lemma Alike.refl (l : List (γ × A)) : Alike l l := ⟨fun _ => rfl, fun _ => Iff.rfl⟩

lemma Alike.trans (h : Alike l m) (h' : Alike m n) : Alike l n :=
  ⟨fun k => (h.product k).trans (h'.product k), fun k => (h.keys k).trans (h'.keys k)⟩

lemma Alike.symm (h : Alike l m) : Alike m l :=
  ⟨fun k => (h.product k).symm, fun k => (h.keys k).symm⟩

lemma Alike.of_perm (h : l.Perm m) : Alike l m :=
  ⟨fun _ => product_perm h, fun _ => (h.map _).mem_iff⟩

lemma Alike.append {l' m' : List (γ × A)} (h : Alike l m) (h' : Alike l' m') :
    Alike (l ++ l') (m ++ m') := by
  refine ⟨fun k => ?_, fun k => ?_⟩
  · rw [product_append, product_append, h.product k, h'.product k]
  · rw [map_append, map_append, mem_append, mem_append, h.keys k, h'.keys k]

lemma Alike.multiply {k : γ} {v : A} (hnd : (l.map Prod.fst).Nodup) (hk : k ∈ l.map Prod.fst) :
    Alike ((k, v) :: l) (l.map fun p => if p.1 = k then (p.1, p.2 * v) else p) := by
  have hkeys : (l.map fun p => if p.1 = k then (p.1, p.2 * v) else p).map Prod.fst = l.map Prod.fst := by
    rw [map_map]
    refine map_congr_left fun p _ => ?_
    simp only [Function.comp]
    split_ifs <;> rfl
  refine ⟨fun j => ?_, fun j => ?_⟩
  · obtain ⟨p, hp, rfl⟩ := mem_map.1 hk
    by_cases hj : p.1 = j
    · subst hj
      have hnew : (p.1, p.2 * v) ∈ l.map fun q => if q.1 = p.1 then (q.1, q.2 * v) else q :=
        mem_map.2 ⟨p, hp, if_pos rfl⟩
      rw [product_cons, if_pos rfl, product_of_mem hnd hp, product_of_mem (hkeys ▸ hnd) hnew,
        mul_comm]
    · rw [product_cons, if_neg hj, one_mul, Keyed.product, Keyed.product, map_map]
      refine congrArg prod (map_congr_left fun q _ => ?_)
      simp only [Function.comp]
      by_cases hq : q.1 = p.1
      · rw [if_pos hq, if_neg (hq ▸ hj), if_neg (hq ▸ hj)]
      · rw [if_neg hq]
  · rw [hkeys, map_cons, mem_cons, or_iff_right_of_imp]
    rintro rfl
    exact hk

lemma Alike.perm_products (h : Alike l m) (hnd : (m.map Prod.fst).Nodup) :
    m.Perm ((l.map Prod.fst).dedup.map fun k => (k, Keyed.product k l)) := by
  have hrt : ((l.map Prod.fst).dedup.map fun k => (k, Keyed.product k l)).Nodup :=
    (nodup_dedup _).map fun _ _ heq => (Prod.ext_iff.1 heq).1
  rw [perm_ext_iff_of_nodup (List.Nodup.of_map _ hnd) hrt]
  intro p
  rw [mem_map]
  constructor
  · intro hp
    refine ⟨p.1, mem_dedup.2 ((h.keys _).2 (mem_map_of_mem hp)), ?_⟩
    rw [h.product, product_of_mem hnd hp]
  · rintro ⟨k, hk, rfl⟩
    obtain ⟨p, hp, rfl⟩ := mem_map.1 ((h.keys k).1 (mem_dedup.1 hk))
    rw [h.product, product_of_mem hnd hp]
    exact hp

end Keyed
