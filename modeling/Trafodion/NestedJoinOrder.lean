import Trafodion.NestedJoin

/-!
# The queues of a nested join

Each request under way has left rows that the right child works on, left entries that were not given
to it, and left entries that are still to come. The left up queue holds the first two of all requests
in order, and the right child's replies belong to the left rows given to it in order. Each step of
the three phases changes this for one request.
-/
namespace Trafodion.NestedJoin

open List Function

open Pipelines (stream)

variable {α β : Type}

structure Sent (α β : Type) where
  index : ℕ
  left : α
  rest : List (Item β)

structure Track (α β : Type) where
  sent : List (Sent α β)
  only : List (LeftEntry α)
  rest : Option (List (Item α))

namespace Track

variable (k : ℕ) (g : Track α β)

def handled : List (LeftEntry α) :=
  g.sent.map (fun s => ⟨s.index, k, some (.row s.left)⟩) ++ g.only

def replies : List (ℕ × List (Item β)) := g.sent.map fun s => (s.index, s.rest)

def coming : List (ℕ × List (Item α)) :=
  (g.rest.map fun is => (k, is)).toList

end Track

def Tcb.ids (t : Tcb α β) : List ℕ := range' t.head (t.phaseOne - t.head)

def Down.tagged {ι : Type} (d : Down ι) : ℕ × List ι := (d.parentIndex, d.pending)

def StepFits (s : LeftStep) (g : Track α β) : Prop :=
  match s with
  | .started => g.sent = [] ∧ g.only = [] ∧ g.rest.isSome
  | .notEmpty => g.rest.isSome
  | .empty => g.rest = none
  | .done => g.rest = none
  | .cancelled => g.sent = [] ∧ g.only = [] ∧ g.rest = none

structure Fits (k : ℕ) (p : PrivateState) (noMore : Bool) (g : Track α β) : Prop where
  leftMatches : p.leftMatches = g.sent.length
  leftOnly : p.leftOnlyRows = g.only.length
  own : ∀ e ∈ g.only, e.request = k
  step : StepFits p.leftStep g
  wanted : g.rest.isSome → noMore = false → g.only = []

structure Aligned (G : ℕ → Track α β) (t : Tcb α β) : Prop where
  head_le : t.head ≤ t.phaseOne
  phaseOne_le : t.phaseOne ≤ t.tail
  fits : ∀ k ∈ t.ids, Fits k (t.pstate k) (t.noMore k) (G k)
  order : ∀ k ∈ t.ids, ∀ x ∈ t.ids, k < x → (G k).rest.isSome → (G x).sent = [] ∧ (G x).only = []
  handled : t.handled = t.ids.flatMap fun k => (G k).handled k
  left : t.fresh.map (fun e => (e.request, e.reply)) ++ stream (t.leftDown.map Down.tagged) =
    stream (t.ids.flatMap fun k => (G k).coming k)
  right : t.rightUp ++ stream (t.rightDown.map Down.tagged) =
    stream (t.ids.flatMap fun k => (G k).replies)

variable {G : ℕ → Track α β} {t : Tcb α β}

/-! ### One request among the others -/

variable {k : ℕ}

lemma Tcb.mem_ids (h : t.head ≤ t.phaseOne) : k ∈ t.ids ↔ t.head ≤ k ∧ k < t.phaseOne := by
  unfold Tcb.ids
  rw [mem_range'_1]
  omega

lemma Tcb.nodup_ids : t.ids.Nodup := nodup_range'

lemma Tcb.ids_sorted : t.ids.Pairwise (· < ·) := pairwise_lt_range'

lemma flatMap_update {γ δ : Type} {a b ids : List ℕ} (hids : ids = a ++ k :: b)
    (hnd : ids.Nodup) (F : ℕ → γ → List δ) (G : ℕ → γ) (g : γ) :
    (ids.flatMap fun x => F x (update G k g x)) =
      (a.flatMap fun x => F x (G x)) ++ (F k g ++ b.flatMap fun x => F x (G x)) := by
  subst hids
  rw [nodup_append] at hnd
  obtain ⟨-, hb, hab⟩ := hnd
  have hka : ∀ x ∈ a, x ≠ k := fun x hx => hab x hx k mem_cons_self
  have hkb : ∀ x ∈ b, x ≠ k := by
    rintro x hx rfl
    exact (nodup_cons.1 hb).1 hx
  rw [flatMap_append, flatMap_cons, update_self]
  refine congrArg₂ _ (flatMap_congr fun x hx => ?_) (congrArg _ (flatMap_congr fun x hx => ?_))
  · rw [update_of_ne (hka x hx)]
  · rw [update_of_ne (hkb x hx)]

lemma flatMap_parts {γ δ : Type} {a b ids : List ℕ} (hids : ids = a ++ k :: b)
    (F : ℕ → γ → List δ) (G : ℕ → γ) : (ids.flatMap fun x => F x (G x)) =
      (a.flatMap fun x => F x (G x)) ++ (F k (G k) ++ b.flatMap fun x => F x (G x)) := by
  rw [hids, flatMap_append, flatMap_cons]

structure Coming (G : ℕ → Track α β) (ids a b : List ℕ) (k : ℕ) (is : List (Item α)) : Prop where
  ids : ids = a ++ k :: b
  rest : (G k).rest = some is
  before : ∀ x ∈ a, (G x).rest = none

variable {is : List (Item α)}

lemma coming_of_stream {ids : List ℕ} {m : List (ℕ × List (Item α))}
    (h : (ids.flatMap fun x => (G x).coming x) = (k, is) :: m) :
    ∃ a b, Coming G ids a b k is ∧ m = b.flatMap fun x => (G x).coming x := by
  induction ids with
  | nil => cases h
  | cons x ids ih =>
    rw [flatMap_cons] at h
    cases hrest : (G x).rest with
    | none =>
      rw [Track.coming, hrest] at h
      obtain ⟨a, b, hcoming, hm⟩ := ih h
      exact ⟨x :: a, b, ⟨by rw [hcoming.ids]; rfl, hcoming.rest,
        forall_mem_cons.2 ⟨hrest, hcoming.before⟩⟩, hm⟩
    | some js =>
      rw [Track.coming, hrest] at h
      cases h
      exact ⟨[], ids, ⟨rfl, hrest, by simp⟩, rfl⟩

lemma coming_none {a : List ℕ} (h : ∀ x ∈ a, (G x).rest = none) :
    (a.flatMap fun x => (G x).coming x) = [] :=
  flatMap_eq_nil_iff.2 fun x hx => by rw [Track.coming, h x hx]; rfl

lemma Aligned.after {a b : List ℕ} (h : Aligned G t) (hc : Coming G t.ids a b k is) :
    ∀ x ∈ b, (G x).sent = [] ∧ (G x).only = [] := by
  intro x hx
  have hk : k ∈ t.ids := by rw [hc.ids]; simp
  have hxids : x ∈ t.ids := by rw [hc.ids]; simp [hx]
  have hsort := t.ids_sorted
  rw [hc.ids, pairwise_append] at hsort
  have hlt : k < x := rel_of_pairwise_cons hsort.2.1 hx
  exact h.order k hk x hxids hlt (by rw [hc.rest]; rfl)

lemma Coming.mem {ids a b : List ℕ} (h : Coming G ids a b k is) : k ∈ ids := by
  rw [h.ids]
  simp

lemma Aligned.change {a b : List ℕ} (h : Aligned G t) (hparts : t.ids = a ++ k :: b)
    {g : Track α β} {u : Tcb α β} (hids : u.ids = t.ids)
    (hle : u.head ≤ u.phaseOne) (htail : u.phaseOne ≤ u.tail)
    (hoths : ∀ x, x ≠ k → u.pstate x = t.pstate x ∧ u.noMore x = t.noMore x)
    (hfits : Fits k (u.pstate k) (u.noMore k) g) (hrest : g.rest.isSome → (G k).rest.isSome)
    (hbefore : ∀ x ∈ t.ids, x < k → (G x).rest.isSome → g.sent = [] ∧ g.only = [])
    (hhand : u.handled = (a.flatMap fun x => (G x).handled x) ++
      (g.handled k ++ b.flatMap fun x => (G x).handled x))
    (hleft : u.fresh.map (fun e => (e.request, e.reply)) ++ stream (u.leftDown.map Down.tagged) =
      stream ((a.flatMap fun x => (G x).coming x) ++
        (g.coming k ++ b.flatMap fun x => (G x).coming x)))
    (hrt : u.rightUp ++ stream (u.rightDown.map Down.tagged) =
      stream ((a.flatMap fun x => (G x).replies) ++
        (g.replies ++ b.flatMap fun x => (G x).replies))) : Aligned (update G k g) u := by
  have hnd := t.nodup_ids
  refine ⟨hle, htail, fun x hx => ?_, fun x hx y hy hxy hsome => ?_, ?_, ?_, ?_⟩
  · rw [hids] at hx
    by_cases hxk : x = k
    · subst hxk
      rw [update_self]
      exact hfits
    · rw [update_of_ne hxk, (hoths x hxk).1, (hoths x hxk).2]
      exact h.fits x hx
  · rw [hids] at hx hy
    have hxsome : (G x).rest.isSome := by
      by_cases hxk : x = k
      · subst hxk
        rw [update_self] at hsome
        exact hrest hsome
      · rwa [update_of_ne hxk] at hsome
    by_cases hyk : y = k
    · subst hyk
      rw [update_self]
      exact hbefore x hx hxy hxsome
    · rw [update_of_ne hyk]
      exact h.order x hx y hy hxy hxsome
  · rw [hids, flatMap_update hparts hnd Track.handled G g, hhand]
  · rw [hids, flatMap_update hparts hnd Track.coming G g, hleft]
  · rw [hids, flatMap_update hparts hnd (fun _ => Track.replies) G g, hrt]

/-- **Phase two** takes one entry: what is under way changes for its request only. -/
theorem Aligned.handle {a b : List ℕ} {e : LeftEntry α} {es : List (LeftEntry α)} (h : Aligned G t)
    (hc : Coming G t.ids a b k is) {g : Track α β} {u : Tcb α β} (hids : u.ids = t.ids)
    (hle : u.head ≤ u.phaseOne) (htail : u.phaseOne ≤ u.tail)
    (hoths : ∀ x, x ≠ k → u.pstate x = t.pstate x ∧ u.noMore x = t.noMore x)
    (hfits : Fits k (u.pstate k) (u.noMore k) g) (hhand : u.handled = t.handled ++ [e])
    (hg : g.handled k = (G k).handled k ++ [e]) (hfr : u.fresh = es)
    (hleft : es.map (fun e => (e.request, e.reply)) ++ stream (u.leftDown.map Down.tagged) =
      stream (g.coming k ++ b.flatMap fun x => (G x).coming x))
    (hrt : u.rightUp ++ stream (u.rightDown.map Down.tagged) =
      stream ((t.ids.flatMap fun x => (G x).replies) ++ g.replies.drop (G k).replies.length))
    (hreplies : (G k).replies <+: g.replies) : Aligned (update G k g) u := by
  have haft := h.after hc
  have hemp : (b.flatMap fun x => (G x).handled x) = [] :=
    flatMap_eq_nil_iff.2 fun x hx => by
      rw [Track.handled, (haft x hx).1, (haft x hx).2]
      rfl
  have hnoreplies : (b.flatMap fun x => (G x).replies) = [] :=
    flatMap_eq_nil_iff.2 fun x hx => by
      rw [Track.replies, (haft x hx).1]
      rfl
  refine h.change hc.ids hids hle htail hoths hfits (fun _ => by rw [hc.rest]; rfl)
    (fun x hx hxk hrest => ?_) ?_ ?_ ?_
  · have hxa : x ∈ a := by
      have hsort := t.ids_sorted
      rw [hc.ids] at hx hsort
      obtain hx | hx := mem_append.1 hx
      · exact hx
      · exfalso
        obtain rfl | hx := mem_cons.1 hx
        · exact hxk.ne rfl
        · have := rel_of_pairwise_cons (pairwise_append.1 hsort).2.1 hx
          omega
    rw [hc.before x hxa] at hrest
    cases hrest
  · rw [hemp, hhand, h.handled, flatMap_parts hc.ids Track.handled G, hemp, hg]
    simp
  · rw [hfr, coming_none hc.before]
    exact hleft
  · obtain ⟨more, hmore⟩ := hreplies
    rw [← hmore, drop_left] at hrt
    rw [hrt, flatMap_parts hc.ids (fun _ => Track.replies) G, hnoreplies, ← hmore]
    simp

end Trafodion.NestedJoin
