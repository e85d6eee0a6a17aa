import Trafodion.NestedJoinOrder

/-!
# The phases of a nested join

What one request sent to the left child, one left entry taken by phase two and one right entry taken
by phase three do to the queues.
-/
namespace Trafodion.NestedJoin

open List Function NestedJoin.Down Tcb Track

open Pipelines (stream)

variable {α β : Type} {G : ℕ → Track α β} {t : Tcb α β}

/-! ### Cancelling -/

structure SameCounts (p q : PrivateState) : Prop where
  leftStep : p.leftStep = q.leftStep
  leftMatches : p.leftMatches = q.leftMatches
  leftOnlyRows : p.leftOnlyRows = q.leftOnlyRows
  outerMatched : p.outerMatched = q.outerMatched

lemma SameCounts.refl (p : PrivateState) : SameCounts p p := ⟨rfl, rfl, rfl, rfl⟩

lemma tagged_ite {ι : Type} (l : List (Down ι)) (c : Down ι → Prop) [DecidablePred c] :
    (l.map fun d => if c d then Tcb.Down.cancel d else d).map tagged = l.map tagged := by
  rw [map_map]
  refine map_congr_left fun d _ => ?_
  simp only [comp]
  split_ifs <;> rfl

structure Marked (k : ℕ) (u t : Tcb α β) : Prop where
  frame : ∃ ld rd p, u = { t with
    noMore := update t.noMore k true
    leftDown := ld
    rightDown := rd
    pstate := update t.pstate k p }
  counts : SameCounts (u.pstate k) (t.pstate k)
  left : u.leftDown.map tagged = t.leftDown.map tagged
  right : u.rightDown.map tagged = t.rightDown.map tagged

variable (g : Track α β) (k : ℕ)

lemma cancelParentRequest_marked (t : Tcb α β) : Marked k (t.cancelParentRequest k) t := by
  unfold cancelParentRequest
  split
  next =>
    refine ⟨⟨_, _, _, rfl⟩, ?_, tagged_ite _ _, tagged_ite _ _⟩
    simp only [cancelRight, cancelLeft, update_self]
    exact ⟨rfl, rfl, rfl, rfl⟩
  next =>
    refine ⟨⟨t.leftDown, _, _, rfl⟩, ?_, rfl, tagged_ite _ _⟩
    simp only [cancelRight, update_self]
    exact ⟨rfl, rfl, rfl, rfl⟩
  next =>
    refine ⟨⟨(t.cancelLeft k).leftDown, t.rightDown, t.pstate k, ?_⟩, .refl _, tagged_ite _ _, rfl⟩
    rw [update_eq_self]
    rfl
  next =>
    refine ⟨⟨t.leftDown, t.rightDown, t.pstate k, ?_⟩, .refl _, rfl, rfl⟩
    rw [update_eq_self]
  next =>
    refine ⟨⟨t.leftDown, t.rightDown, t.pstate k, ?_⟩, .refl _, rfl, rfl⟩
    rw [update_eq_self]

/-! ### Phase two -/

variable {e : LeftEntry α}

variable {es : List (LeftEntry α)} {i : Item α}

lemma Aligned.first_item (h : Aligned G t) (hfr : t.fresh = e :: es) (hrep : e.reply = some i) :
    ∃ a b is, Coming G t.ids a b e.request (i :: is) ∧
      es.map (fun e => (e.request, e.reply)) ++ stream (t.leftDown.map tagged) =
        stream ((e.request, is) :: b.flatMap fun x => (G x).coming x) := by
  have hleft := h.left
  rw [hfr, map_cons, hrep, cons_append] at hleft
  obtain ⟨is, m, hl, hq⟩ := Pipelines.stream_eq_item hleft
  obtain ⟨a, b, hc, rfl⟩ := coming_of_stream hl
  exact ⟨a, b, is, hc, hq⟩

lemma Aligned.first_end (h : Aligned G t)
    (hfr : t.fresh = e :: es) (hrep : e.reply = none) : ∃ a b, Coming G t.ids a b e.request [] ∧
      es.map (fun e => (e.request, e.reply)) ++ stream (t.leftDown.map tagged) =
        stream (b.flatMap fun x => (G x).coming x) := by
  have hleft := h.left
  rw [hfr, map_cons, hrep, cons_append] at hleft
  obtain ⟨m, hl, hq⟩ := Pipelines.stream_eq_end hleft
  obtain ⟨a, b, hc, rfl⟩ := coming_of_stream hl
  exact ⟨a, b, hc, hq⟩

def Track.keep (e : LeftEntry α) (rest : Option (List (Item α))) : Track α β :=
  { g with only := g.only ++ [e], rest := rest }

lemma Track.keep_handled (e : LeftEntry α) (rest : Option (List (Item α))) (k : ℕ) :
    (g.keep e rest).handled k = g.handled k ++ [e] :=
  (append_assoc _ _ _).symm

variable {es : List (LeftEntry α)}

lemma Aligned.keep {a b : List ℕ} {is : List (Item α)}
    {rest : Option (List (Item α))} (h : Aligned G t) (hc : Coming G t.ids a b e.request is)
    {u : Tcb α β} (hids : u.ids = t.ids) (hle : u.head ≤ u.phaseOne) (htail : u.phaseOne ≤ u.tail)
    (hoths : ∀ x, x ≠ e.request → u.pstate x = t.pstate x ∧ u.noMore x = t.noMore x)
    (hmatches : (u.pstate e.request).leftMatches = (t.pstate e.request).leftMatches)
    (honly : (u.pstate e.request).leftOnlyRows = (t.pstate e.request).leftOnlyRows + 1)
    (hstep : StepFits (u.pstate e.request).leftStep ((G e.request).keep e rest))
    (hwanted : rest.isSome → u.noMore e.request = true)
    (hhand : u.handled = t.handled ++ [e]) (hfr : u.fresh = es)
    (hleft : es.map (fun e => (e.request, e.reply)) ++ stream (u.leftDown.map tagged) =
      stream ((coming e.request (⟨[], [], rest⟩ : Track α β)) ++
        b.flatMap fun x => (G x).coming x))
    (hrt : u.rightUp ++ stream (u.rightDown.map tagged) =
      t.rightUp ++ stream (t.rightDown.map tagged)) :
    Aligned (update G e.request ((G e.request).keep e rest)) u := by
  have hfits := h.fits e.request hc.mem
  refine h.handle hc hids hle htail hoths ⟨?_, ?_, ?_, hstep, fun hrest hno => ?_⟩
    hhand ((G e.request).keep_handled e rest e.request) hfr hleft ?_ (prefix_refl _)
  · rw [hmatches, hfits.leftMatches]
    rfl
  · rw [honly, hfits.leftOnly]
    simp only [Track.keep, length_append, length_singleton]
  · exact forall_mem_append.2 ⟨hfits.own, forall_mem_singleton.2 rfl⟩
  · rw [hwanted hrest] at hno
    cases hno
  · rw [hrt, h.right]
    refine congrArg stream ?_
    exact ((congrArg _ (drop_length (l := (G e.request).replies))).trans (append_nil _)).symm

section
variable {k : ℕ} {p : PrivateState} {b : Bool} {g : Track α β} (h : Fits k p b g)
  {is : List (Item α)} (hrest : g.rest = some is)
include h hrest

lemma Fits.coming : p.leftStep = .started ∨ p.leftStep = .notEmpty := by
  have hstep := h.step
  cases hp : p.leftStep with
  | started => exact .inl rfl
  | notEmpty => exact .inr rfl
  | empty | done =>
    rw [hp, StepFits, hrest] at hstep
    cases hstep
  | cancelled =>
    rw [hp, StepFits, hrest] at hstep
    cases hstep.2.2

lemma Fits.first_step :
    (if p.leftStep = .started then LeftStep.notEmpty else p.leftStep) = .notEmpty := by
  split_ifs with hs
  · rfl
  · exact (h.coming hrest).resolve_left hs

end

lemma Aligned.skipLeft {i : Item α} (h : Aligned G t)
    (hfr : t.fresh = e :: es) (hrep : e.reply = some i) (hno : t.noMore e.request = true) :
    ∃ is, (G e.request).rest = some (i :: is) ∧
      Aligned (update G e.request ((G e.request).keep e (some is)))
        ((t.skipLeft e.request).pass e es) := by
  obtain ⟨a, b, is, hc, hleft⟩ := h.first_item hfr hrep
  have hfits := h.fits e.request hc.mem
  refine ⟨is, hc.rest, h.keep hc rfl h.head_le h.phaseOne_le (fun x hx => ⟨?_, rfl⟩) ?_ ?_ ?_
    (fun _ => hno) rfl rfl hleft rfl⟩
  · simp only [Tcb.pass, Tcb.skipLeft, Tcb.setState, update_of_ne hx]
  all_goals simp only [Tcb.pass, Tcb.skipLeft, Tcb.setState, update_self]
  · split_ifs <;> rfl
  · split_ifs <;> rfl
  · split_ifs with hs
    · rfl
    · rw [(hfits.coming hc.rest).resolve_left hs]
      rfl

lemma leftError_frame (t : Tcb α β) :
    ∃ ld rd p, t.leftError k = { t with
        noMore := update t.noMore k true
        leftDown := ld
        rightDown := rd
        pstate := update t.pstate k p } ∧
      ld.map tagged = t.leftDown.map tagged ∧
      rd.map tagged = t.rightDown.map tagged ∧
      p.leftStep = (if (t.pstate k).leftStep = .started then LeftStep.notEmpty
        else (t.pstate k).leftStep) ∧
      p.leftMatches = (t.pstate k).leftMatches ∧ p.leftOnlyRows = (t.pstate k).leftOnlyRows + 1 ∧
      p.outerMatched = (t.pstate k).outerMatched := by
  unfold leftError
  dsimp only
  generalize hp : ({ notEmpty (t.pstate k) t.rightTail with endRightIndex := t.rightTail } :
    PrivateState) = p
  obtain ⟨⟨ld, rd, q, hu⟩, hcnts, hleft, hrt⟩ := cancelParentRequest_marked k (t.setState k p)
  rw [hu] at hcnts hleft hrt ⊢
  simp only [setState, update_self, update_idem] at hcnts hleft hrt ⊢
  refine ⟨ld, rd, _, rfl, hleft, hrt, ?_⟩
  dsimp only
  rw [hcnts.leftStep, hcnts.leftMatches, hcnts.leftOnlyRows, hcnts.outerMatched, ← hp]
  simp only [notEmpty]
  split_ifs <;> exact ⟨rfl, rfl, rfl, rfl⟩

lemma Aligned.leftError {i : Item α} (h : Aligned G t)
    (hfr : t.fresh = e :: es) (hrep : e.reply = some i) :
    ∃ is, (G e.request).rest = some (i :: is) ∧
      Aligned (update G e.request ((G e.request).keep e (some is)))
        ((t.leftError e.request).pass e es) := by
  obtain ⟨a, b, is, hc, hleft⟩ := h.first_item hfr hrep
  have hfits := h.fits e.request hc.mem
  obtain ⟨ld, rd, p, hu, hld, hrd, hstep, hmatches, honly, -⟩ := leftError_frame e.request t
  rw [hu]
  refine ⟨is, hc.rest, h.keep hc rfl h.head_le h.phaseOne_le (fun x hx => ⟨?_, ?_⟩) ?_ ?_ ?_
    (fun _ => ?_) rfl rfl ?_ ?_⟩
  · exact update_of_ne hx _ _
  · exact update_of_ne hx _ _
  · exact (congrArg PrivateState.leftMatches (update_self ..)).trans hmatches
  · exact (congrArg PrivateState.leftOnlyRows (update_self ..)).trans honly
  · simp only [Tcb.pass, update_self]
    rw [hstep, hfits.first_step hc.rest]
    rfl
  · exact update_self _ _ _
  · exact (congrArg (fun l => _ ++ stream l) hld).trans hleft
  · exact congrArg (fun l => _ ++ stream l) hrd

lemma Aligned.leftEnd (h : Aligned G t)
    (hfr : t.fresh = e :: es) (hrep : e.reply = none) :
    (G e.request).rest = some [] ∧ (t.leftEnd e.request).fault = t.fault ∧
      Aligned (update G e.request ((G e.request).keep e none))
        ((t.leftEnd e.request).pass e es) := by
  obtain ⟨a, b, hc, hleft⟩ := h.first_end hfr hrep
  have hfits := h.fits e.request hc.mem
  refine ⟨hc.rest, ?_⟩
  rcases hfits.coming hc.rest with hs | hs
  all_goals
    simp only [Tcb.leftEnd, hs]
    refine ⟨rfl, h.keep hc rfl h.head_le h.phaseOne_le (fun x hx => ⟨?_, rfl⟩) ?_ ?_ ?_ (by simp) rfl rfl
      hleft rfl⟩
    · exact update_of_ne hx _ _
    · simp only [Tcb.pass, Tcb.setState, update_self]
    · simp only [Tcb.pass, Tcb.setState, update_self]
    · simp only [Tcb.pass, Tcb.setState, update_self]
      rfl

/-- What is under way for a request that phase one has just seen, if it is wanted or if it is not. -/
def Track.new (items : List (Item α)) : Bool → Track α β
  | true => ⟨[], [], none⟩
  | false => ⟨[], [], some items⟩

def Track.send (s : Sent α β) (rest : List (Item α)) : Track α β :=
  { g with sent := g.sent ++ [s], rest := some rest }

lemma Aligned.sendRight (j : Tdb α β) (c : Children α β) {l : α} (h : Aligned G t) (hfr : t.fresh = e :: es)
    (hrep : e.reply = some (.row l)) (hno : t.noMore e.request = false) :
    ∃ is, (G e.request).rest = some (.row l :: is) ∧
      (t.sendRight j c e.request e.index l).fault = t.fault ∧ Aligned (update G e.request
          ((G e.request).send ⟨e.index, l, Tcb.rightItems j c t.rightTail l⟩ is))
        ((t.sendRight j c e.request e.index l).pass e es) := by
  obtain ⟨a, b, is, hc, hleft⟩ := h.first_item hfr hrep
  have hfits := h.fits e.request hc.mem
  have honly : (G e.request).only = [] := hfits.wanted (by rw [hc.rest]; rfl) hno
  have hzero : (t.pstate e.request).leftOnlyRows = 0 := by rw [hfits.leftOnly, honly]; rfl
  refine ⟨is, hc.rest, ?_, ?_⟩
  · simp [Tcb.sendRight, Tcb.setState, hzero]
  have hsent : ((G e.request).send ⟨e.index, l, Tcb.rightItems j c t.rightTail l⟩ is).replies =
      (G e.request).replies ++ [(e.index, Tcb.rightItems j c t.rightTail l)] := by
    simp [Track.send, Track.replies]
  refine h.handle hc rfl h.head_le h.phaseOne_le (fun x hx => ⟨update_of_ne hx _ _, rfl⟩)
    ⟨?_, ?_, ?_, ?_, fun _ _ => honly⟩ rfl ?_ rfl hleft ?_ ⟨_, hsent.symm⟩
  · simp only [Tcb.pass, Tcb.sendRight, Tcb.setState, update_self, Track.send,
      length_append, length_singleton, ← hfits.leftMatches, Tcb.notEmpty]
    split_ifs <;> rfl
  · simp only [Tcb.pass, Tcb.sendRight, Tcb.setState, update_self, Track.send, honly,
      length_nil, Tcb.notEmpty]
    split_ifs <;> exact hzero
  · intro x hx
    rw [Track.send, honly] at hx
    cases hx
  · simp only [Tcb.pass, Tcb.sendRight, Tcb.setState, update_self, Tcb.notEmpty]
    split_ifs with hs
    · rfl
    · rw [(hfits.coming hc.rest).resolve_left hs]
      rfl
  · have he : e = ⟨e.index, e.request, some (.row l)⟩ := by rw [← hrep]
    simp only [Track.handled, Track.send, honly, append_nil, map_append, map_cons, map_nil]
    rw [← he]
  · simp only [Tcb.pass, Tcb.sendRight, Tcb.setState]
    rw [hsent, drop_left, map_append, Pipelines.stream_append, Pipelines.stream_append,
      ← h.right, append_assoc]
    rfl

end Trafodion.NestedJoin
