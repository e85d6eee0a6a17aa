import Mathlib.Data.List.AList

/-!
# Finite maps

Removal of several keys from an association list, and lookups after it.
-/
namespace FiniteMaps

open AList

variable {α β : Type*} [DecidableEq α]

def eraseAll (m : AList fun _ : α => β) (keys : List α) : AList fun _ : α => β :=
  keys.foldl (fun m k => m.erase k) m

lemma lookup_eraseAll (m : AList fun _ : α => β) (keys : List α) (k : α) :
    (eraseAll m keys).lookup k = if k ∈ keys then none else m.lookup k := by
  induction keys generalizing m with
  | nil => simp [eraseAll]
  | cons a keys ih =>
    change (eraseAll (m.erase a) keys).lookup k = _
    rw [ih]
    by_cases hk : k = a
    · subst hk
      simp
    · simp [hk, lookup_erase_ne hk]

lemma lookup_insert_eq (m : AList fun _ : α => β) (a k : α) (b : β) :
    (m.insert a b).lookup k = if k = a then some b else m.lookup k := by
  by_cases hk : k = a
  · subst hk
    simp
  · simp [hk, lookup_insert_ne hk]

lemma lookup_erase_eq (m : AList fun _ : α => β) (a k : α) :
    (m.erase a).lookup k = if k = a then none else m.lookup k := by
  by_cases hk : k = a
  · subst hk
    simp
  · simp [hk, lookup_erase_ne hk]

variable {m : AList fun _ : α => β}

lemma erase_of_lookup_eq_none {k : α} (h : m.lookup k = none) : m.erase k = m := by
  rw [lookup_eq_none, mem_keys] at h
  exact ext (List.kerase_of_notMem_keys h)

lemma erase_insert_empty (a : α) (b : β) :
    ((∅ : AList fun _ : α => β).insert a b).erase a = ∅ := by
  rw [insert_empty]
  exact ext (List.kerase_cons_eq rfl)

lemma lookup_of_erase {a k : α} {b : β}
    (h : (m.erase a).lookup k = some b) : k ≠ a ∧ m.lookup k = some b := by
  rw [lookup_erase_eq] at h
  split_ifs at h with hk
  exact ⟨hk, h⟩

lemma lookup_of_eraseAll {keys : List α} {k : α} {b : β}
    (h : (eraseAll m keys).lookup k = some b) : k ∉ keys ∧ m.lookup k = some b := by
  rw [lookup_eraseAll] at h
  split_ifs at h with hk
  exact ⟨hk, h⟩

lemma mem_keys_iff (m : AList fun _ : α => β) (k : α) :
    k ∈ m.keys ↔ ∃ b, m.lookup k = some b := by
  rw [← mem_keys, ← lookup_isSome, Option.isSome_iff_exists]

end FiniteMaps
