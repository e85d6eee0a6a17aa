import Mathlib.Data.Set.Basic

/-!
# Atomic commitment

A commit decision on a transaction is made in one place, and a transaction is refused when
some participant is told to abort it. Participants commit what is decided and abort what is
refused. As long as nothing is both decided and refused, no transaction has two outcomes.
-/
namespace AtomicCommit

@[ext] structure State (τ ρ : Type*) where
  decided : Set τ
  refused : Set τ
  committed : Set (ρ × τ)
  aborted : Set (ρ × τ)

variable {τ ρ : Type*}

/-- Nothing has been decided. -/
def State.initial : State τ ρ := ⟨∅, ∅, ∅, ∅⟩

inductive Step (s : State τ ρ) : State τ ρ → Prop
  | decide (new : Set τ) (h : ∀ t ∈ new, t ∉ s.refused) :
      Step s { s with decided := s.decided ∪ new }
  | refuse (new : Set τ) (h : ∀ t ∈ new, t ∉ s.decided) :
      Step s { s with refused := s.refused ∪ new }
  | commit (new : Set (ρ × τ)) (h : ∀ x ∈ new, x.2 ∈ s.decided) :
      Step s { s with committed := s.committed ∪ new }
  | abort (new : Set (ρ × τ)) (h : ∀ x ∈ new, x.2 ∈ s.refused) :
      Step s { s with aborted := s.aborted ∪ new }

structure Sound (s : State τ ρ) : Prop where
  exclusive : ∀ t ∈ s.decided, t ∉ s.refused
  committed : ∀ x ∈ s.committed, x.2 ∈ s.decided
  aborted : ∀ x ∈ s.aborted, x.2 ∈ s.refused

lemma Sound.initial : Sound (State.initial : State τ ρ) :=
  ⟨fun _ h => h.elim, fun _ h => h.elim, fun _ h => h.elim⟩

lemma Sound.step {s s' : State τ ρ} (hs : Sound s) (h : Step s s') : Sound s' := by
  cases h with
  | decide new hnew =>
    refine ⟨?_, fun x hx => .inl (hs.committed x hx), hs.aborted⟩
    rintro t (ht | ht)
    · exact hs.exclusive t ht
    · exact hnew t ht
  | refuse new hnew =>
    refine ⟨?_, hs.committed, fun x hx => .inl (hs.aborted x hx)⟩
    rintro t ht (href | href)
    · exact hs.exclusive t ht href
    · exact hnew t href ht
  | commit new hnew =>
    refine ⟨hs.exclusive, ?_, hs.aborted⟩
    rintro x (hx | hx)
    · exact hs.committed x hx
    · exact hnew x hx
  | abort new hnew =>
    refine ⟨hs.exclusive, hs.committed, ?_⟩
    rintro x (hx | hx)
    · exact hs.aborted x hx
    · exact hnew x hx

lemma Sound.agreement {s : State τ ρ} (h : Sound s) {p q : ρ} {t : τ}
    (hp : (p, t) ∈ s.committed) (hq : (q, t) ∈ s.aborted) : False :=
  h.exclusive t (h.committed _ hp) (h.aborted _ hq)

end AtomicCommit
