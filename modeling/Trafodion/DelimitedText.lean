import Mathlib.Data.Int.Basic
import Mathlib.Data.List.Basic

/-!
# Delimited text and decimal numerals

Text is a list of characters. `tokens` splits at a delimiter and skips empty pieces, as
Java's `StringTokenizer` does. `valueOf` and `parseLong` are the decimal forms of a signed
number, without the range check of a fixed width.
-/
namespace DelimitedText

open List Nat

abbrev Text := List Char

section Tokens

variable {α : Type*} [DecidableEq α]

variable (sep : α)

def tokens (l : List α) : List (List α) := (l.splitOn sep).filter (· ≠ [])

@[simp] lemma tokens_nil : tokens sep [] = [] := rfl

lemma tokens_of_notMem {sep : α} {l : List α} (hl : sep ∉ l) (hne : l ≠ []) :
    tokens sep l = [l] := by
  rw [tokens, splitOn_eq_singleton hl]
  simp [hne]

lemma tokens_append_cons {sep : α} {l : List α} (hl : sep ∉ l) (hne : l ≠ [])
    (m : List α) : tokens sep (l ++ sep :: m) = l :: tokens sep m := by
  rw [tokens, splitOn_append_cons_self_of_not_mem hl]
  simp [tokens, hne]

lemma tokens_cons_self (m : List α) : tokens sep (sep :: m) = tokens sep m := by
  have h := splitOn_append_cons_self_of_not_mem (not_mem_nil (a := sep)) m
  rw [tokens, ← nil_append (sep :: m), h]
  simp [tokens]

lemma tokens_flatMap_cons {sep : α} {l : List (List α)} (hsep : ∀ x ∈ l, sep ∉ x)
    (hne : ∀ x ∈ l, x ≠ []) : tokens sep (l.flatMap (sep :: ·)) = l := by
  induction l with
  | nil => rfl
  | cons x l ih =>
    have ih' := ih (forall_mem_cons.1 hsep).2
      (forall_mem_cons.1 hne).2
    have hx := hsep x mem_cons_self
    have hx' := hne x mem_cons_self
    rw [flatMap_cons, cons_append, tokens_cons_self]
    cases l with
    | nil => simpa using tokens_of_notMem hx hx'
    | cons y l =>
      rw [flatMap_cons, cons_append, tokens_append_cons hx hx']
      rw [flatMap_cons, cons_append, tokens_cons_self] at ih'
      rw [ih']

end Tokens

variable (n : ℤ)

/-- `String.valueOf(long)`. -/
def valueOf : Text :=
  if n < 0 then '-' :: toDigits 10 n.natAbs else toDigits 10 n.natAbs

def parseDigits (l : Text) : Option ℕ :=
  if l ≠ [] ∧ l.all Char.isDigit then some (ofDigitChars 10 l 0) else none

/-- `Long.parseLong`, with `none` for the `NumberFormatException`. -/
def parseLong : Text → Option ℤ
  | '-' :: l => (parseDigits l).map fun n => -(n : ℤ)
  | '+' :: l => (parseDigits l).map fun n => (n : ℤ)
  | l => (parseDigits l).map fun n => (n : ℤ)

lemma parseDigits_toDigits (n : ℕ) : parseDigits (toDigits 10 n) = some n := by
  have hall : (toDigits 10 n).all Char.isDigit = true := by
    rw [all_eq_true]
    intro c hc
    exact isDigit_of_mem_toDigits (by decide) (by decide) hc
  rw [parseDigits, if_pos ⟨toDigits_ne_nil, hall⟩, ofDigitChars_ten_toDigits]

lemma isDigit_of_mem_valueOf {n : ℤ} {c : Char} (hc : c ∈ valueOf n) : c = '-' ∨ c.isDigit := by
  unfold valueOf at hc
  split_ifs at hc
  · rcases mem_cons.1 hc with rfl | hc
    · exact Or.inl rfl
    · exact Or.inr (isDigit_of_mem_toDigits (by decide) (by decide) hc)
  · exact Or.inr (isDigit_of_mem_toDigits (by decide) (by decide) hc)

lemma comma_notMem_valueOf : ',' ∉ valueOf n := by
  intro h
  rcases isDigit_of_mem_valueOf h with h | h <;> revert h <;> decide

lemma valueOf_ne_nil : valueOf n ≠ [] := by
  unfold valueOf
  split_ifs
  · exact cons_ne_nil _ _
  · exact toDigits_ne_nil

lemma parseLong_valueOf (n : ℕ) : parseLong (valueOf n) = some (n : ℤ) := by
  have hn : ¬ ((n : ℤ) < 0) := by omega
  rw [valueOf, if_neg hn, Int.natAbs_natCast]
  obtain ⟨c, l, hl⟩ := exists_cons_of_ne_nil (toDigits_ne_nil (n := n) (b := 10))
  have hc : c.isDigit := isDigit_of_mem_toDigits (by decide) (by decide)
    (hl ▸ mem_cons_self : c ∈ toDigits 10 n)
  have hparse := parseDigits_toDigits n
  rw [hl] at hparse ⊢
  have hminus : c ≠ '-' := by
    rintro rfl
    revert hc
    decide
  have hplus : c ≠ '+' := by
    rintro rfl
    revert hc
    decide
  unfold parseLong
  split
  · simp_all
  · simp_all
  · rw [hparse]
    rfl

end DelimitedText
