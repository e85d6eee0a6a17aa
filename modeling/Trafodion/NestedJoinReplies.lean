import Trafodion.NestedJoinPhases

/-!
# Phase one, phase three and the children of a nested join

What a new request, a reply of the right child that is used, a left entry that is dropped, the end of
a request and arriving entries do to the queues.
-/
namespace Trafodion.NestedJoin

open List Function Pipelines Tcb Track NestedJoin.Down

variable {α β : Type} {G : ℕ → Track α β} {t : Tcb α β}

/-- The same queues: what differs is what was sent to the parent, marks of cancelled requests, and
whether a row matched. -/
structure Alike (u t : Tcb α β) : Prop where
  head : u.head = t.head
  phaseOne : u.phaseOne = t.phaseOne
  tail : u.tail = t.tail
  leftStep : ∀ k, (u.pstate k).leftStep = (t.pstate k).leftStep
  leftMatches : ∀ k, (u.pstate k).leftMatches = (t.pstate k).leftMatches
  leftOnlyRows : ∀ k, (u.pstate k).leftOnlyRows = (t.pstate k).leftOnlyRows
  noMore : ∀ k, t.noMore k = true → u.noMore k = true
  handled : u.handled = t.handled
  fresh : u.fresh = t.fresh
  rightUp : u.rightUp = t.rightUp
  left : u.leftDown.map tagged = t.leftDown.map tagged
  right : u.rightDown.map tagged = t.rightDown.map tagged

lemma Alike.refl (t : Tcb α β) : Alike t t :=
  ⟨rfl, rfl, rfl, fun _ => rfl, fun _ => rfl, fun _ => rfl, fun _ h => h, rfl, rfl, rfl, rfl, rfl⟩

lemma Alike.trans {s u : Tcb α β} (h : Alike s u) (h' : Alike u t) : Alike s t :=
  ⟨h.head.trans h'.head, h.phaseOne.trans h'.phaseOne, h.tail.trans h'.tail,
    fun k => (h.leftStep k).trans (h'.leftStep k), fun k => (h.leftMatches k).trans (h'.leftMatches k),
    fun k => (h.leftOnlyRows k).trans (h'.leftOnlyRows k), fun k hk => h.noMore k (h'.noMore k hk),
    h.handled.trans h'.handled, h.fresh.trans h'.fresh, h.rightUp.trans h'.rightUp,
    h.left.trans h'.left, h.right.trans h'.right⟩

variable {u : Tcb α β}

lemma Alike.ids (h : Alike u t) : u.ids = t.ids := by
  unfold Tcb.ids
  rw [h.head, h.phaseOne]

lemma Marked.alike {k : ℕ} (h : Marked k u t) : Alike u t := by
  obtain ⟨⟨ld, rd, p, rfl⟩, hcnts, hleft, hrt⟩ := h
  dsimp only at hcnts
  rw [update_self] at hcnts
  have hst : ∀ x, SameCounts (update t.pstate k p x) (t.pstate x) := by
    intro x
    by_cases hx : x = k
    · subst hx
      rw [update_self]
      exact hcnts
    · rw [update_of_ne hx]
      exact .refl _
  refine ⟨rfl, rfl, rfl, fun x => (hst x).leftStep, fun x => (hst x).leftMatches,
    fun x => (hst x).leftOnlyRows, fun x hx => ?_, rfl, rfl, rfl, hleft, hrt⟩
  by_cases hxk : x = k
  · subst hxk
    exact update_self _ _ _
  · exact (update_of_ne hxk _ _).trans hx

lemma Fits.alike {k : ℕ} {p q : PrivateState} {b c : Bool} {g : Track α β} (h : Fits k p b g)
    (hstep : q.leftStep = p.leftStep) (hmatches : q.leftMatches = p.leftMatches)
    (honly : q.leftOnlyRows = p.leftOnlyRows) (hno : b = true → c = true) : Fits k q c g :=
  ⟨hmatches.trans h.leftMatches, honly.trans h.leftOnly, h.own, hstep ▸ h.step, fun hrest hc =>
    h.wanted hrest (by
      cases b with
      | false => rfl
      | true => rw [hno rfl] at hc; cases hc)⟩

lemma Aligned.alike (h : Aligned G t) (hu : Alike u t) : Aligned G u := by
  have hids := hu.ids
  refine ⟨by rw [hu.head, hu.phaseOne]; exact h.head_le, by rw [hu.phaseOne, hu.tail]; exact h.phaseOne_le,
    fun k hk => ?_, ?_, ?_, ?_, ?_⟩
  · rw [hids] at hk
    exact (h.fits k hk).alike (hu.leftStep k) (hu.leftMatches k) (hu.leftOnlyRows k) (hu.noMore k)
  · rw [hids]
    exact h.order
  · rw [hids, hu.handled]
    exact h.handled
  · rw [hids, hu.fresh, hu.left]
    exact h.left
  · rw [hids, hu.rightUp, hu.right]
    exact h.right

/-! ### Phase one -/

lemma ids_succ (hle : t.head ≤ t.phaseOne) (hhead : u.head = t.head)
    (hone : u.phaseOne = t.phaseOne + 1) : u.ids = t.ids ++ t.phaseOne :: [] := by
  unfold ids
  rw [hhead, hone, show t.phaseOne + 1 - t.head = (t.phaseOne - t.head) + 1 by omega, range'_concat]
  congr 2
  omega

lemma Aligned.add {p : PrivateState} {rest : Option (List (Item α))}
    (h : Aligned G t) (hhead : u.head = t.head) (hone : u.phaseOne = t.phaseOne + 1)
    (htail : u.phaseOne ≤ u.tail) (hst : u.pstate = update t.pstate t.phaseOne p)
    (hno : u.noMore = t.noMore) (hhand : u.handled = t.handled) (hfr : u.fresh = t.fresh)
    (hrightUp : u.rightUp = t.rightUp) (hrightDown : u.rightDown = t.rightDown)
    (hleft : stream (u.leftDown.map tagged) = stream (t.leftDown.map tagged) ++
      stream (coming t.phaseOne (⟨[], [], rest⟩ : Track α β)))
    (hfits : Fits t.phaseOne p (t.noMore t.phaseOne) (⟨[], [], rest⟩ : Track α β)) :
    Aligned (update G t.phaseOne ⟨[], [], rest⟩) u := by
  have hids := ids_succ h.head_le hhead hone
  have hnd : (t.ids ++ t.phaseOne :: []).Nodup := hids ▸ u.nodup_ids
  have hold : ∀ x ∈ t.ids, x < t.phaseOne := fun x hx => ((mem_ids h.head_le).1 hx).2
  have hin : ∀ x ∈ u.ids, x ∈ t.ids ∨ x = t.phaseOne := by
    intro x hx
    rw [hids] at hx
    simpa using hx
  refine ⟨by rw [hhead, hone]; exact h.head_le.trans (Nat.le_succ _), htail, fun x hx => ?_,
    fun x hx y hy hxy hrest => ?_, ?_, ?_, ?_⟩
  · rw [hst, hno]
    obtain hx | rfl := hin x hx
    · rw [update_of_ne (hold x hx).ne, update_of_ne (hold x hx).ne]
      exact h.fits x hx
    · rw [update_self, update_self]
      exact hfits
  · obtain hy | rfl := hin y hy
    · have hylt := hold y hy
      have hx' := (hin x hx).resolve_right (by omega)
      rw [update_of_ne (hold x hx').ne] at hrest
      rw [update_of_ne hylt.ne]
      exact h.order x hx' y hy hxy hrest
    · rw [update_self]
      exact ⟨rfl, rfl⟩
  · rw [hids, flatMap_update rfl hnd Track.handled, hhand, h.handled]
    simp [Track.handled]
  · rw [hids, flatMap_update rfl hnd coming, hfr, hleft, ← append_assoc, h.left, ← stream_append]
    simp
  · rw [hids, flatMap_update rfl hnd (fun _ => replies), hrightUp, hrightDown, h.right]
    simp [replies]

lemma Aligned.sendLeft (c : Children α β) (h : Aligned G t) (hlt : t.phaseOne < t.tail) :
    Aligned (update G t.phaseOne (.new (c.left t.phaseOne) (t.noMore t.phaseOne)))
      (t.sendLeft c) := by
  unfold Tcb.sendLeft
  cases hno : t.noMore t.phaseOne with
  | true =>
    exact h.add rfl rfl hlt rfl rfl rfl rfl rfl rfl (append_nil _).symm
      ⟨rfl, rfl, by simp, ⟨rfl, rfl, rfl⟩, fun hrest => by cases hrest⟩
  | false =>
    refine h.add rfl rfl hlt rfl rfl rfl rfl rfl rfl ?_
      ⟨rfl, rfl, by simp, ⟨rfl, rfl, rfl⟩, fun _ _ => rfl⟩
    simp only [Bool.false_eq_true, if_false]
    rw [map_append, stream_append]
    rfl

/-! ### Phase three -/

lemma ids_head (h : t.head < t.phaseOne) :
    t.ids = [] ++ t.head :: range' (t.head + 1) (t.phaseOne - (t.head + 1)) := by
  unfold ids
  rw [show t.phaseOne - t.head = (t.phaseOne - (t.head + 1)) + 1 by omega, range'_succ]
  rfl

section
variable (h : Aligned G t) (hlt : t.head < t.phaseOne)
include h hlt

lemma Aligned.advance {g : Track α β} (hids : u.ids = t.ids) (hle : u.head ≤ u.phaseOne)
    (htail : u.phaseOne ≤ u.tail)
    (hoths : ∀ x, x ≠ t.head → u.pstate x = t.pstate x ∧ u.noMore x = t.noMore x)
    (hfits : Fits t.head (u.pstate t.head) (u.noMore t.head) g) (hrest : g.rest = (G t.head).rest)
    (hhand : ∀ m, t.handled = (G t.head).handled t.head ++ m → u.handled = g.handled t.head ++ m)
    (hfr : u.fresh = t.fresh) (hleftDown : u.leftDown = t.leftDown)
    (hrt : ∀ m, t.rightUp ++ stream (t.rightDown.map tagged) = stream ((G t.head).replies ++ m) →
        u.rightUp ++ stream (u.rightDown.map tagged) = stream (g.replies ++ m)) :
    Aligned (update G t.head g) u := by
  have hparts := ids_head hlt
  refine h.change hparts hids hle htail hoths hfits (fun hsome => hrest ▸ hsome)
    (fun x hx hxk => ?_) (hhand _ ?_) ?_ (hrt _ ?_)
  · have := ((mem_ids h.head_le).1 hx).1
    omega
  · rw [h.handled, flatMap_parts hparts Track.handled]
    rfl
  · have hsame : g.coming t.head = (G t.head).coming t.head := by
      rw [coming, coming, hrest]
    rw [hfr, hleftDown, hsame, ← flatMap_parts hparts coming]
    exact h.left
  · rw [h.right, flatMap_parts hparts (fun _ => replies)]
    rfl

lemma Aligned.head_mem : t.head ∈ t.ids :=
  (mem_ids h.head_le).2 ⟨le_rfl, hlt⟩

/-- The first left row given to the right child is at the head of the left queue. -/
theorem Aligned.first_sent (hmatches : (t.pstate t.head).leftMatches ≠ 0) :
    ∃ s ss m, (G t.head).sent = s :: ss ∧
      t.handled = ⟨s.index, t.head, some (.row s.left)⟩ :: m := by
  have hfits := h.fits t.head (h.head_mem hlt)
  rw [hfits.leftMatches] at hmatches
  obtain ⟨s, ss, hsent⟩ := exists_cons_of_length_pos (Nat.pos_of_ne_zero hmatches)
  refine ⟨s, ss, ?_, hsent, ?_⟩
  · exact ss.map (fun s => ⟨s.index, t.head, some (.row s.left)⟩) ++ (G t.head).only ++
      (range' (t.head + 1) (t.phaseOne - (t.head + 1))).flatMap fun x => (G x).handled x
  · rw [h.handled, flatMap_parts (ids_head hlt) Track.handled, Track.handled, hsent]
    rfl

end

variable {s : Sent α β}

variable {i : ℕ} {es : List (ℕ × Option (Item β))} {ss : List (Sent α β)}

section
variable (h : Aligned G t) (hlt : t.head < t.phaseOne) (hsent : (G t.head).sent = s :: ss)
include h hlt hsent

lemma Aligned.right_head :
    ∃ m, t.rightUp ++ stream (t.rightDown.map tagged) = stream ((s.index, s.rest) :: m) := by
  refine ⟨ss.map (fun s => (s.index, s.rest)) ++
    (range' (t.head + 1) (t.phaseOne - (t.head + 1))).flatMap fun x => (G x).replies, ?_⟩
  rw [h.right, flatMap_parts (ids_head hlt) (fun _ => replies), replies, hsent]
  rfl

lemma Aligned.right_item {x : Item β} (hup : t.rightUp = (i, some x) :: es) :
    i = s.index ∧ ∃ xs, s.rest = x :: xs := by
  obtain ⟨m, hm⟩ := h.right_head hlt hsent
  rw [hup] at hm
  obtain ⟨xs, m', heq, -⟩ := stream_eq_item hm
  obtain ⟨hs, -⟩ := cons_eq_cons.1 heq
  obtain ⟨hindex, hrest⟩ := Prod.ext_iff.1 hs
  exact ⟨hindex.symm, xs, hrest⟩

lemma Aligned.right_end (hup : t.rightUp = (i, none) :: es) : i = s.index ∧ s.rest = [] := by
  obtain ⟨m, hm⟩ := h.right_head hlt hsent
  rw [hup] at hm
  obtain ⟨m', heq, -⟩ := stream_eq_end hm
  obtain ⟨hs, -⟩ := cons_eq_cons.1 heq
  obtain ⟨hindex, hrest⟩ := Prod.ext_iff.1 hs
  exact ⟨hindex.symm, hrest⟩

end

/-- The step of a request allows that less is at the right child or in the queue, unless it had not
begun. -/
theorem StepFits.fewer {p : LeftStep} {g g' : Track α β} (h : StepFits p g)
    (hbegun : g.sent ≠ [] ∨ g.only ≠ []) (hrest : g'.rest = g.rest) : StepFits p g' := by
  cases p with
  | started => exact (hbegun.elim (fun hne => hne h.1) fun hne => hne h.2.1).elim
  | notEmpty => exact (congrArg Option.isSome hrest).trans h
  | empty => exact hrest.trans h
  | done => exact hrest.trans h
  | cancelled => exact (hbegun.elim (fun hne => hne h.1) fun hne => hne h.2.1).elim

section
variable (h : Aligned G t) (hlt : t.head < t.phaseOne)
include h hlt

lemma Aligned.takeItem
    (hsent : (G t.head).sent = s :: ss) {x : Item β} {xs : List (Item β)} (hrest : s.rest = x :: xs)
    (hup : t.rightUp = (i, some x) :: es) :
    Aligned (update G t.head { G t.head with sent := { s with rest := xs } :: ss })
      { t with rightUp := es } := by
  have hfits := h.fits t.head (h.head_mem hlt)
  refine h.advance hlt rfl h.head_le h.phaseOne_le (fun _ _ => ⟨rfl, rfl⟩) ⟨?_, hfits.leftOnly, hfits.own, ?_,
    hfits.wanted⟩ rfl (fun m hm => ?_) rfl rfl (fun m hm => ?_)
  · rw [hfits.leftMatches, hsent]
    rfl
  · exact hfits.step.fewer (.inl (by rw [hsent]; exact cons_ne_nil _ _)) rfl
  · refine hm.trans (congrArg (· ++ m) ?_)
    rw [Track.handled, hsent]
    rfl
  · rw [hup, replies, hsent, map_cons, cons_append, cons_append, hrest, stream_item] at hm
    exact (cons_eq_cons.1 hm).2

lemma Aligned.finishLeft
    {ss : List (Sent α β)} (hsent : (G t.head).sent = s :: ss) {i : ℕ} (hrest : s.rest = [])
    {es : List (ℕ × Option (Item β))} (hup : t.rightUp = (i, none) :: es) :
    Aligned (update G t.head { G t.head with sent := ss })
      { t.finishLeft with rightUp := es } := by
  have hfits := h.fits t.head (h.head_mem hlt)
  refine h.advance hlt rfl h.head_le h.phaseOne_le (fun x hx => ⟨update_of_ne hx _ _, rfl⟩)
    ⟨?_, ?_, hfits.own, ?_, hfits.wanted⟩ rfl (fun m hm => ?_) rfl rfl (fun m hm => ?_)
  · simp only [Tcb.finishLeft, Tcb.setState, update_self]
    rw [hfits.leftMatches, hsent]
    rfl
  · simp only [Tcb.finishLeft, Tcb.setState, update_self]
    exact hfits.leftOnly
  · simp only [Tcb.finishLeft, Tcb.setState, update_self]
    exact hfits.step.fewer (.inl (by rw [hsent]; exact cons_ne_nil _ _)) rfl
  · simp only [Tcb.finishLeft, Tcb.setState]
    rw [hm, Track.handled, hsent]
    rfl
  · rw [hup, Track.replies, hsent, map_cons, cons_append, cons_append, hrest,
      Pipelines.stream_end] at hm
    exact (cons_eq_cons.1 hm).2

lemma Aligned.dropLeftOnly
    (hsent : (G t.head).sent = []) {e : LeftEntry α} {es : List (LeftEntry α)}
    (honly : (G t.head).only = e :: es) :
    Aligned (update G t.head { G t.head with only := es }) t.dropLeftOnly := by
  have hfits := h.fits t.head (h.head_mem hlt)
  refine h.advance hlt rfl h.head_le h.phaseOne_le (fun x hx => ⟨update_of_ne hx _ _, rfl⟩)
    ⟨?_, ?_, fun x hx => hfits.own x ?_, ?_, fun hrest hno => ?_⟩ rfl (fun m hm => ?_) rfl rfl
    (fun m hm => hm)
  · simp only [Tcb.dropLeftOnly, Tcb.setState, update_self]
    exact hfits.leftMatches
  · simp only [Tcb.dropLeftOnly, Tcb.setState, update_self]
    rw [hfits.leftOnly, honly]
    rfl
  · rw [honly]
    exact mem_cons_of_mem _ hx
  · simp only [Tcb.dropLeftOnly, Tcb.setState, update_self]
    exact hfits.step.fewer (.inr (by rw [honly]; exact cons_ne_nil _ _)) rfl
  · have := hfits.wanted hrest hno
    rw [honly] at this
    cases this
  · simp only [Tcb.dropLeftOnly, Tcb.setState]
    rw [hm, Track.handled, hsent, honly]
    rfl

lemma Aligned.endRequest (hsent : (G t.head).sent = []) (honly : (G t.head).only = [])
    (hrest : (G t.head).rest = none) (n : ℕ) : Aligned G (t.endRequest n) := by
  have hids : t.ids = t.head :: (t.endRequest n).ids := ids_head hlt
  have hmem : ∀ x ∈ (t.endRequest n).ids, x ∈ t.ids := fun x hx => hids ▸ mem_cons_of_mem _ hx
  refine ⟨hlt, h.phaseOne_le, fun x hx => h.fits x (hmem x hx),
    fun x hx y hy => h.order x (hmem x hx) y (hmem y hy), h.handled.trans ?_, h.left.trans ?_,
    h.right.trans ?_⟩
  · rw [hids, flatMap_cons, Track.handled, hsent, honly]
    rfl
  · rw [hids, flatMap_cons, coming, hrest]
    rfl
  · rw [hids, flatMap_cons, replies, hsent]
    rfl

end

end Trafodion.NestedJoin
