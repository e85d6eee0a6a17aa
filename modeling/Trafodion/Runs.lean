import Mathlib.Data.List.Basic
import Mathlib.Data.List.Induction

/-!
# Runs of a step function

A system is a step function on a state type, with everything its environment may
choose (interleaving, failures, clocks) made part of the event. A run is a list of
events. The rules below turn what one step preserves into what every run preserves,
with assumptions on the steps taken (`Guarded`) or on the events seen so far.
-/
namespace Runs

variable {σ ε : Type*}

def run (step : σ → ε → σ) (s : σ) (l : List ε) : σ := l.foldl step s

variable (step : σ → ε → σ)

variable {G : σ → ε → Prop} {I : σ → Prop} (s : σ)

@[simp] lemma run_nil : run step s [] = s := rfl

@[simp] lemma run_cons (e : ε) (l : List ε) :
    run step s (e :: l) = run step (step s e) l := rfl

lemma run_append (l m : List ε) :
    run step s (l ++ m) = run step (run step s l) m := List.foldl_append

lemma run_snoc (l : List ε) (e : ε) : run step s (l ++ [e]) = step (run step s l) e := by
  rw [run_append, run_cons, run_nil]

/-- Every step of the run meets the guard in the state it is taken from. -/
def Guarded (G : σ → ε → Prop) : σ → List ε → Prop
  | _, [] => True
  | s, e :: l => G s e ∧ Guarded G (step s e) l

instance Guarded.decidable (G : σ → ε → Prop) [∀ s e, Decidable (G s e)] :
    ∀ s l, Decidable (Guarded step G s l)
  | _, [] => inferInstanceAs (Decidable True)
  | s, e :: l =>
    have := Guarded.decidable G (step s e) l
    inferInstanceAs (Decidable (_ ∧ _))

variable {step}

lemma Guarded.append {s : σ} {l m : List ε} :
    Guarded step G s (l ++ m) ↔ Guarded step G s l ∧ Guarded step G (run step s l) m := by
  induction l generalizing s with
  | nil => simp [Guarded]
  | cons e l ih => simp [Guarded, ih, and_assoc]

/-- What each guarded step preserves holds at the end of every guarded run. -/
theorem Guarded.invariant (hstep : ∀ s e, I s → G s e → I (step s e)) {s : σ} {l : List ε}
    (hs : I s) (h : Guarded step G s l) : I (run step s l) := by
  induction l generalizing s with
  | nil => exact hs
  | cons e l ih => exact ih (hstep s e hs h.1) h.2

lemma Guarded.invariant_prefix (hstep : ∀ s e, I s → G s e → I (step s e)) {s : σ} {l p : List ε}
    (hs : I s) (h : Guarded step G s l) (hp : p <+: l) : I (run step s p) := by
  obtain ⟨m, rfl⟩ := hp
  exact Guarded.invariant hstep hs (Guarded.append.1 h).1

lemma run_invariant (hstep : ∀ s e, I s → I (step s e)) {s : σ}
    (hs : I s) (l : List ε) : I (run step s l) := by
  induction l generalizing s with
  | nil => exact hs
  | cons e l ih => exact ih (hstep s e hs)

/-- Induction along a run with the events seen so far in the invariant. `A` is an
assumption on event sequences that passes to prefixes. -/
theorem run_trace_invariant {A : List ε → Prop} {I : List ε → σ → Prop} {s : σ}
    (hA : ∀ p e, A (p ++ [e]) → A p) (hs : I [] s)
    (hstep : ∀ p e t, A (p ++ [e]) → I p t → I (p ++ [e]) (step t e)) {l : List ε}
    (hl : A l) : I l (run step s l) := by
  induction l using List.reverseRecOn with
  | nil => exact hs
  | append_singleton p e ih =>
    rw [run_snoc]
    exact hstep p e _ hl (ih (hA p e hl))

/-! ### Steps that may fail -/

universe u

lemma bind_eq_ok {δ : Type*} {α β : Type u} {x : Except δ α} {f : α → Except δ β} {b : β} :
    x >>= f = .ok b ↔ ∃ a, x = .ok a ∧ f a = .ok b := by
  cases x with
  | error e => simp [bind, Except.bind]
  | ok a => simp [bind, Except.bind]

/-- What every successful step of a fallible run keeps holds after the run. -/
theorem foldlM_invariant {δ α : Type*} {β : Type u} {f : β → α → Except δ β} {I : β → Prop}
    {l : List α} (hstep : ∀ b, ∀ a ∈ l, ∀ b', I b → f b a = .ok b' → I b') {b b' : β}
    (hb : I b) (h : l.foldlM f b = .ok b') : I b' := by
  induction l generalizing b with
  | nil =>
    cases h
    exact hb
  | cons a l ih =>
    rw [List.foldlM_cons, bind_eq_ok] at h
    obtain ⟨c, hc, hl⟩ := h
    have hIc : I c := hstep b a (List.mem_cons_self ..) c hb hc
    exact ih (fun b a ha => hstep b a (List.mem_cons_of_mem _ ha)) hIc hl

end Runs
