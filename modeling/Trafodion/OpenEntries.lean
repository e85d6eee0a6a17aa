import Trafodion.FiniteMaps
import Mathlib.Data.List.Induction

/-!
# Entries left open by a log

A log opens entries under keys and closes them. An opening of a key that is already open is
ignored. What is open at the end is, for each key, the first opening after the last closing.
-/
namespace OpenEntries

variable {α β : Type*} [DecidableEq α]

inductive Record (α β : Type*)
  | opens (k : α) (v : β)
  | closes (k : α)
  | other

def apply (m : AList fun _ : α => β) : Record α β → AList fun _ : α => β
  | .opens k v => if k ∈ m then m else m.insert k v
  | .closes k => m.erase k
  | .other => m

variable (l : List (Record α β))

/-- The entries that are open after the log. -/
def replay : AList fun _ : α => β := l.foldl apply ∅

lemma replay_snoc (x : Record α β) : replay (l ++ [x]) = apply (replay l) x := by
  simp [replay]

/-- Some opening of `k` has no closing after it. -/
def Unclosed (k : α) : Prop :=
  ∃ pre v post, l = pre ++ .opens k v :: post ∧ .closes k ∉ post

/-- The log opens `k` with `v` when `k` is not open, and does not close `k` afterwards. -/
def LeftOpen (k : α) (v : β) : Prop :=
  ∃ pre post, l = pre ++ .opens k v :: post ∧ .closes k ∉ post ∧ ¬ Unclosed pre k

section
omit [DecidableEq α]

lemma split_snoc {l pre post : List (Record α β)} {x y : Record α β}
    (h : l ++ [x] = pre ++ y :: post) :
    post = [] ∧ x = y ∧ l = pre ∨ ∃ post', post = post' ++ [x] ∧ l = pre ++ y :: post' := by
  induction post using List.reverseRecOn with
  | nil =>
    obtain ⟨hl, hx⟩ := List.append_inj' h rfl
    exact .inl ⟨rfl, (List.singleton_inj.1 hx), hl⟩
  | append_singleton post' z _ =>
    have h' : l ++ [x] = (pre ++ y :: post') ++ [z] := by simpa using h
    obtain ⟨hl, hx⟩ := List.append_inj' h' rfl
    exact .inr ⟨post', by rw [List.singleton_inj.1 hx], hl⟩

variable (l : List (Record α β)) (k : α)

lemma not_leftOpen_nil (v : β) : ¬ LeftOpen [] k v := by
  rintro ⟨pre, post, h, -⟩
  simp at h

lemma unclosed_snoc (x : Record α β) (k : α) :
    Unclosed (l ++ [x]) k ↔ (∃ v, x = .opens k v) ∨ x ≠ .closes k ∧ Unclosed l k := by
  constructor
  · rintro ⟨pre, v, post, h, hpost⟩
    obtain ⟨-, hx, -⟩ | ⟨post', rfl, hl⟩ := split_snoc h
    · exact .inl ⟨v, hx⟩
    · right
      constructor
      · rintro rfl
        exact hpost (by simp)
      · exact ⟨pre, v, post', hl, fun hmem => hpost (by simp [hmem])⟩
  · rintro (⟨v, rfl⟩ | ⟨hx, pre, v, post, rfl, hpost⟩)
    · exact ⟨l, v, [], rfl, by simp⟩
    · refine ⟨pre, v, post ++ [x], by simp, ?_⟩
      simp only [List.mem_append, List.mem_singleton, not_or]
      exact ⟨hpost, fun h => hx h.symm⟩

lemma leftOpen_snoc (x : Record α β) (k : α) (v : β) :
    LeftOpen (l ++ [x]) k v ↔ x = .opens k v ∧ ¬ Unclosed l k ∨ x ≠ .closes k ∧ LeftOpen l k v := by
  constructor
  · rintro ⟨pre, post, h, hpost, hfst⟩
    obtain ⟨-, hx, rfl⟩ | ⟨post', rfl, hl⟩ := split_snoc h
    · exact .inl ⟨hx, hfst⟩
    · right
      constructor
      · rintro rfl
        exact hpost (by simp)
      · exact ⟨pre, post', hl, fun hmem => hpost (by simp [hmem]), hfst⟩
  · rintro (⟨rfl, hnot⟩ | ⟨hx, pre, post, rfl, hpost, hfst⟩)
    · exact ⟨l, [], rfl, by simp, hnot⟩
    · refine ⟨pre, post ++ [x], by simp, ?_, hfst⟩
      simp only [List.mem_append, List.mem_singleton, not_or]
      exact ⟨hpost, fun h => hx h.symm⟩

end

attribute [local simp] apply

lemma mem_replay (l : List (Record α β)) (k : α) : k ∈ replay l ↔ Unclosed l k := by
  induction l using List.reverseRecOn with
  | nil => simp [replay, Unclosed]
  | append_singleton l x ih =>
    rw [replay_snoc, unclosed_snoc, ← ih]
    cases x with
    | other => simp
    | closes k' => simp [eq_comm]
    | opens k' v' =>
      by_cases hk' : k' ∈ replay l
      · simp only [apply, if_pos hk']
        refine ⟨fun h => .inr ⟨nofun, h⟩, ?_⟩
        rintro (⟨v, h⟩ | ⟨-, h⟩)
        · cases h
          exact hk'
        · exact h
      · simp [hk', eq_comm]

lemma lookup_replay (l : List (Record α β)) (k : α) (v : β) :
    (replay l).lookup k = some v ↔ LeftOpen l k v := by
  induction l using List.reverseRecOn generalizing v with
  | nil => simp [replay, not_leftOpen_nil]
  | append_singleton l x ih =>
    have hmem := mem_replay l k
    rw [replay_snoc, leftOpen_snoc, ← ih]
    cases x with
    | other => simp
    | closes k' =>
      by_cases hk : k = k'
      · subst hk
        simp
      · simp [AList.lookup_erase_ne hk, Ne.symm hk]
    | opens k' v' =>
      by_cases hk : k = k'
      · subst hk
        by_cases hopen : Unclosed l k
        · simp [hmem, hopen]
        · have hnone : (replay l).lookup k = none := by
            rw [AList.lookup_eq_none, hmem]
            exact hopen
          simp [hmem, hopen, hnone]
      · have hne : Record.opens k' v' ≠ Record.opens k v := by
          intro h
          injection h with h₁
          exact hk h₁.symm
        by_cases hk' : k' ∈ replay l
        · simp [hk', hne]
        · simp [hk', hne, AList.lookup_insert_ne hk]

lemma unclosed_iff_leftOpen (l : List (Record α β)) (k : α) :
    Unclosed l k ↔ ∃ v, LeftOpen l k v := by
  rw [← mem_replay, ← AList.lookup_isSome, Option.isSome_iff_exists]
  simp only [lookup_replay]

instance (l : List (Record α β)) (k : α) : Decidable (Unclosed l k) :=
  decidable_of_iff (k ∈ replay l) (mem_replay l k)

end OpenEntries
