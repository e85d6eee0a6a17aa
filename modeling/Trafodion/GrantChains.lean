import Mathlib.Data.Set.Basic

/-!
# Chains of grants

Authority over something is handed on by grants. A grant rests on itself when it is a
`base` grant, and otherwise on a grant that authorises it and may be handed on
(`grantable`), which has to rest on something in its turn. Adding grants keeps every
chain; taking some away keeps the chains of all grants that none of them authorises.
-/
namespace GrantChains

variable {ρ : Type*} {base : ρ → Prop} {authorises : ρ → ρ → Prop} {S T : Set ρ}

/-- A chain of grants of `S` leads from `r` back to a base grant. -/
inductive Backed (base : ρ → Prop) (authorises : ρ → ρ → Prop) (S : Set ρ) : ρ → Prop
  | root {r : ρ} : base r → Backed base authorises S r
  | next {s r : ρ} : s ∈ S → authorises s r → Backed base authorises S s →
      Backed base authorises S r

lemma Backed.mono (h : S ⊆ T) {r : ρ} (hr : Backed base authorises S r) :
    Backed base authorises T r := by
  induction hr with
  | root hbase => exact .root hbase
  | next hs hauth _ ih => exact .next (h hs) hauth ih

/-- Grants that authorise no grant of `R` can be taken away without cutting a chain of a
grant of `R`. -/
theorem Backed.remove {R : Set ρ} (hR : S ⊆ R)
    (h : ∀ s ∈ S, s ∉ T → ∀ r ∈ R, ¬ base r → ¬ authorises s r) {r : ρ} (hr : r ∈ R)
    (hb : Backed base authorises S r) : Backed base authorises T r := by
  induction hb with
  | root hbase => exact .root hbase
  | @next s r hs hauth _ ih =>
    by_cases hbase : base r
    · exact .root hbase
    · have hsT : s ∈ T := by
        by_contra hsT
        exact h s hs hsT r hr hbase hauth
      exact .next hsT hauth (ih (hR hs))

lemma not_backed {r : ρ} (hbase : ¬ base r) (h : ∀ s ∈ S, ¬ authorises s r) :
    ¬ Backed base authorises S r := by
  rintro (hr | ⟨hs, hauth, -⟩)
  · exact hbase hr
  · exact h _ hs hauth

end GrantChains
