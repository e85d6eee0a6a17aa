import Mathlib.Computability.Language

/-!
# Words with wildcards

A segment is a word in which some letters are left open. A pattern is a row of segments with
anything between them. All words of a segment have one length, so a segment is split off a word
in at most one way at its beginning or its end, and in between the leftmost occurrence does.
-/
namespace WildcardLanguages

open List Language

variable {α : Type*}

/-- A given letter, or any one letter. -/
def letter : Option α → Language α
  | some a => {[a]}
  | none => {t | t.length = 1}

variable (x : Option α) (s : List (Option α))

/-- The words of a segment. -/
def words : Language α := (s.map letter).prod

@[simp]
lemma mem_top (t : List α) : t ∈ (⊤ : Language α) := trivial

variable {t : List α}

lemma mem_letter_some {a : α} : t ∈ letter (some a) ↔ t = [a] := Iff.rfl

@[simp]
lemma words_nil : words ([] : List (Option α)) = 1 := rfl

lemma words_cons : words (x :: s) = letter x * words s := by
  rw [words, map_cons, prod_cons, words]

lemma words_append (s s' : List (Option α)) : words (s ++ s') = words s * words s' := by
  rw [words, map_append, prod_append, words, words]

lemma words_singleton : words [x] = letter x := by
  rw [words_cons, words_nil, mul_one]

lemma length_of_mem_letter {x : Option α} (h : t ∈ letter x) : t.length = 1 := by
  cases x with
  | none => exact h
  | some a => rw [mem_letter_some.1 h, length_singleton]

lemma length_of_mem_words {s : List (Option α)} (h : t ∈ words s) : t.length = s.length := by
  induction s generalizing t with
  | nil => rw [mem_one t |>.1 h, length_nil, length_nil]
  | cons x s ih =>
    rw [words_cons] at h
    obtain ⟨a, ha, b, hb, rfl⟩ := mem_mul.1 h
    rw [length_append, length_of_mem_letter ha, ih hb, length_cons, Nat.add_comm]

lemma mem_words_map_some {u t : List α} : t ∈ words (u.map some) ↔ t = u := by
  induction u generalizing t with
  | nil => exact mem_one t
  | cons a u ih =>
    rw [map_cons, words_cons, mem_mul]
    constructor
    · rintro ⟨b, hb, c, hc, rfl⟩
      rw [mem_letter_some.1 hb, ih.1 hc, singleton_append]
    · rintro rfl
      exact ⟨[a], rfl, u, ih.2 rfl, rfl⟩

lemma mem_words_replicate_none {n : ℕ} : t ∈ words (replicate n none) ↔ t.length = n := by
  constructor
  · intro h
    rw [length_of_mem_words h, length_replicate]
  · intro h
    subst h
    induction t with
    | nil => exact (mem_one _).2 rfl
    | cons a t ih =>
      rw [length_cons, replicate_succ, words_cons]
      exact append_mem_mul (a := [a]) rfl ih

/-! ### Splitting a segment off -/

variable {s : List (Option α)} {ss : List (List (Option α))} {L : Language α} {u v t : List α}

lemma append_mem_words_mul (hu : u ∈ words s) : u ++ v ∈ words s * L ↔ v ∈ L := by
  refine ⟨fun h => ?_, append_mem_mul hu⟩
  obtain ⟨u', hu', v', hv', heq⟩ := mem_mul.1 h
  have hlen : u'.length = u.length := by rw [length_of_mem_words hu', length_of_mem_words hu]
  rwa [← (append_inj heq hlen).2]

lemma append_mem_mul_words (hv : v ∈ words s) : u ++ v ∈ L * words s ↔ u ∈ L := by
  refine ⟨fun h => ?_, fun hu => append_mem_mul hu hv⟩
  obtain ⟨u', hu', v', hv', heq⟩ := mem_mul.1 h
  have hlen : v'.length = v.length := by rw [length_of_mem_words hv', length_of_mem_words hv]
  rwa [← (append_inj' heq hlen).1]

lemma notMem_words_mul (h : t ∉ words s * ⊤) (L : Language α) : t ∉ words s * L := fun ht =>
  h (mul_le_mul' le_rfl (le_top : L ≤ ⊤) ht)

/-! ### Segments with anything around them -/

lemma top_mul_top : (⊤ : Language α) * ⊤ = ⊤ :=
  top_unique fun t _ => mem_mul.2 ⟨[], trivial, t, trivial, rfl⟩

/-- The segments one after the other, with anything between and around them. -/
def between (ss : List (List (Option α))) : Language α :=
  ⊤ * (ss.map fun s => words s * ⊤).prod

@[simp]
lemma between_nil : between ([] : List (List (Option α))) = ⊤ := by
  rw [between, map_nil, prod_nil, mul_one]

lemma between_cons (s : List (Option α)) (ss : List (List (Option α))) :
    between (s :: ss) = ⊤ * (words s * between ss) := by
  rw [between, map_cons, prod_cons, between, mul_assoc]

lemma mem_between_of_suffix (h : v ∈ between ss) (u : List α) : u ++ v ∈ between ss := by
  have htop : ⊤ * between ss = between ss := by rw [between, ← mul_assoc, top_mul_top]
  rw [← htop]
  exact append_mem_mul trivial h

lemma mem_between_cons_of_notMem {a : α} (h : a :: t ∉ words s * ⊤) :
    a :: t ∈ between (s :: ss) ↔ t ∈ between (s :: ss) := by
  refine ⟨fun ht => ?_, fun ht => mem_between_of_suffix ht [a]⟩
  rw [between_cons] at ht
  obtain ⟨x, -, w, hw, heq⟩ := mem_mul.1 ht
  cases x with
  | nil =>
    subst heq
    exact (notMem_words_mul h _ hw).elim
  | cons b x =>
    obtain ⟨-, rfl⟩ := cons.inj heq
    rw [between_cons]
    exact append_mem_mul trivial hw

/-- An occurrence at the beginning may be taken: any other one leaves less for the other
segments. -/
theorem append_mem_between_cons (hu : u ∈ words s) :
    u ++ v ∈ between (s :: ss) ↔ v ∈ between ss := by
  rw [between_cons]
  refine ⟨fun h => ?_, fun h =>
    mem_mul.2 ⟨[], trivial, u ++ v, append_mem_mul hu h, rfl⟩⟩
  obtain ⟨x, -, w, hw, heq⟩ := mem_mul.1 h
  obtain ⟨u', hu', v', hv', rfl⟩ := mem_mul.1 hw
  have hlen : u'.length = u.length := by rw [length_of_mem_words hu', length_of_mem_words hu]
  rw [← append_assoc] at heq
  rcases append_eq_append_iff.1 heq with ⟨z, hz, hv⟩ | ⟨z, hz, hv⟩
  · -- the other occurrence cannot end before this one
    have hz' := congrArg length hz
    rw [length_append, length_append] at hz'
    obtain rfl : z = [] := eq_nil_of_length_eq_zero (by omega)
    rw [nil_append] at hv
    rwa [hv] at hv'
  · rw [hv]
    exact mem_between_of_suffix hv' z

lemma length_le_of_mem_between (h : t ∈ between (s :: ss)) : s.length ≤ t.length := by
  rw [between_cons] at h
  obtain ⟨x, -, w, hw, rfl⟩ := mem_mul.1 h
  obtain ⟨u, hu, v, -, rfl⟩ := mem_mul.1 hw
  have := length_of_mem_words hu
  simp only [length_append]
  omega

/-! ### Rows of segments -/

/-- The segments `ss` and at last `s`, with anything between two of them. -/
def row (ss : List (List (Option α))) (s : List (Option α)) : Language α :=
  (ss.map fun s => words s * ⊤).prod * words s

lemma row_append (ss : List (List (Option α))) (s s' : List (Option α)) :
    row ss (s ++ s') = row ss s * words s' := by
  rw [row, words_append, ← mul_assoc, row]

lemma row_concat (ss : List (List (Option α))) (s : List (Option α)) :
    row (ss ++ [s]) [] = row ss s * ⊤ := by
  rw [row, map_append, prod_append, map_singleton, prod_singleton, words_nil,
    mul_one, ← mul_assoc, row]

lemma row_concat_mul_top (ss : List (List (Option α))) (s : List (Option α)) :
    row (ss ++ [s]) [] * ⊤ = row (ss ++ [s]) [] := by
  rw [row_concat, mul_assoc, top_mul_top]

lemma row_cons (s₀ : List (Option α)) (ss : List (List (Option α))) (s : List (Option α)) :
    row (s₀ :: ss) s = words s₀ * (between ss * words s) := by
  rw [row, map_cons, prod_cons, between, mul_assoc, mul_assoc, mul_assoc]

end WildcardLanguages
