import Trafodion.NestedJoinRefines

/-!
# The events of a nested join

Phase three for a whole request, entries that arrive, and what the parent does.
-/
namespace Trafodion.NestedJoin

open List Function NestedJoin Pipelines Tcb Track Option

variable {α β : Type} {j : Tdb α β} {c : Children α β} {G : ℕ → Track α β} {t : Tcb α β}

/-! ### Left entries that were not given to the right child -/

lemma dropLeftOnly_view (t : Tcb α β) (G : ℕ → Track α β) (g : Track α β) :
    t.dropLeftOnly.view (update G t.head g) = (t.view G).setTrack t.head g := by
  simp only [view, View.setTrack, dropLeftOnly, setState]
  rw [matched_same]
  rfl

lemma dropLeftOnly_keeps (t : Tcb α β) : Keeps t.dropLeftOnly t :=
  ⟨rfl, rfl, by simp only [dropLeftOnly, setState, update_self]⟩

lemma Good.dropLeftOnly (h : Good G t) (hlt : t.head < t.phaseOne)
    (hsent : (G t.head).sent = []) {e : LeftEntry α} {es : List (LeftEntry α)}
    (honly : (G t.head).only = e :: es) :
    Good (update G t.head { G t.head with only := es }) t.dropLeftOnly :=
  ⟨h.aligned.dropLeftOnly hlt hsent honly, h.noFault, h.marks.left, h.marks.right⟩

lemma Good.leftOnlyLoop :
    ∀ (n u : ℕ) {G : ℕ → Track α β} {t : Tcb α β}, Good G t → t.head < t.phaseOne →
      (G t.head).sent = [] → n = (G t.head).only.length → u = t.up.length →
      ∃ G', Looped j c G G' t (Tcb.leftOnlyLoop n u t).1 (n ≠ 0 ∧ t.free ≠ 0) ∧
        ∀ u', (Tcb.leftOnlyLoop n u t).2 = some u' →
          u' = (Tcb.leftOnlyLoop n u t).1.up.length ∧
          (G' (Tcb.leftOnlyLoop n u t).1.head).sent = [] ∧
          (G' (Tcb.leftOnlyLoop n u t).1.head).only = []
  | 0, u, G, t, h, _, hsent, hn, hu => by
    refine ⟨G, ⟨h, .refl t, .refl, fun hbusy => (hbusy.1 rfl).elim⟩, fun u' hu' => ?_⟩
    cases hu'
    exact ⟨hu, hsent, length_eq_zero_iff.1 hn.symm⟩
  | n + 1, u, G, t, h, hlt, hsent, hn, hu => by
    obtain ⟨e, es, honly⟩ := exists_cons_of_length_pos (l := (G t.head).only) (by omega)
    have hown := (h.aligned.fits t.head (h.aligned.head_mem hlt)).own e (by rw [honly]; simp)
    have hcnt : n = es.length := by
      rw [honly] at hn
      exact Nat.succ.inj hn
    have hhand : ∃ m, t.handled = e :: m := by
      rw [h.aligned.handled, flatMap_parts (ids_head hlt) Track.handled, Track.handled, hsent, honly]
      exact ⟨_, rfl⟩
    have hdrop := Move.dropLeft (j := j) (c := c) (v := t.view G) hlt hsent honly
    have hnext : ∀ s : Tcb α β, Good G s → Alike s t → s.view G = (t.view G).put (errorOf e) →
        ∃ G', Looped j c G G' t (Tcb.leftOnlyLoop n s.up.length s.dropLeftOnly).1
            (n + 1 ≠ 0 ∧ t.free ≠ 0) ∧
          ∀ u', (Tcb.leftOnlyLoop n s.up.length s.dropLeftOnly).2 = some u' →
            u' = (Tcb.leftOnlyLoop n s.up.length s.dropLeftOnly).1.up.length ∧
            (G' (Tcb.leftOnlyLoop n s.up.length s.dropLeftOnly).1.head).sent = [] ∧
            (G' (Tcb.leftOnlyLoop n s.up.length s.dropLeftOnly).1.head).only = [] := by
      intro s hs hsame hview
      have hlt' : s.head < s.phaseOne := by
        rw [hsame.head, hsame.phaseOne]
        exact hlt
      have hgood := hs.dropLeftOnly hlt' (by rw [hsame.head]; exact hsent)
        (by rw [hsame.head]; exact honly)
      have hmove : Move j c (t.view G) (s.dropLeftOnly.view
          (update G s.head { G s.head with only := es })) := by
        rw [dropLeftOnly_view, hview, hsame.head]
        exact hdrop
      obtain ⟨G₂, hloop, hptr⟩ := Good.leftOnlyLoop n s.up.length hgood hlt'
        (by simp only [Tcb.dropLeftOnly, Tcb.setState, update_self]; rw [hsame.head]; exact hsent)
        (by simp only [Tcb.dropLeftOnly, Tcb.setState, update_self]; exact hcnt) rfl
      exact ⟨G₂, ⟨hloop.good, hloop.keeps.trans ((dropLeftOnly_keeps s).trans hsame.keeps),
        .head (.inl hmove) hloop.moves, fun _ => hloop.moves.rank_le.trans_lt hmove.rank_lt⟩, hptr⟩
    obtain ⟨m, hm⟩ := hhand
    unfold Tcb.leftOnlyLoop
    simp only [hm]
    rw [if_pos hown]
    by_cases herror : Tcb.isError e.reply = true
    · rw [if_pos herror]
      by_cases hfree : t.free = 0
      · rw [if_pos hfree]
        exact ⟨G, ⟨h, .refl t, .refl, fun hbusy => (hbusy.2 hfree).elim⟩, fun _ hnone => by cases hnone⟩
      · rw [if_neg hfree]
        refine hnext _ (h.putEntry u _) (putEntry_alike u _ t) ?_
        rw [putEntry_view hu, errorOf, if_pos herror]
    · rw [if_neg herror, hu]
      refine hnext t h (.refl t) ?_
      rw [errorOf, if_neg herror]
      simp [View.put, Tcb.view]

/-! ### Requests -/

section
variable (h : Good G t) (hlt : t.head < t.phaseOne)
include h hlt

lemma Good.endRequest (hsent : (G t.head).sent = [])
    (honly : (G t.head).only = []) (hrest : (G t.head).rest = none) {u : ℕ} (hu : u = t.up.length) :
    Good G (t.endRequest u) ∧ Move j c (t.view G) ((t.endRequest u).view G) := by
  refine ⟨⟨h.aligned.endRequest hlt hsent honly hrest u, h.noFault, h.marks.left, h.marks.right⟩, ?_⟩
  have hmove := Move.endRequest (j := j) (c := c) (v := t.view G) hlt hsent honly hrest
  rw [← putEntry_view hu] at hmove
  exact hmove

lemma Good.rest_none (hstrt : (t.pstate t.head).leftStep ≠ .started)
    (hnotEmpty : (t.pstate t.head).leftStep ≠ .notEmpty) : (G t.head).rest = none := by
  have hfits := h.aligned.fits t.head (h.aligned.head_mem hlt)
  cases hrest : (G t.head).rest with
  | none => rfl
  | some is =>
    obtain hs | hs := hfits.coming hrest
    · exact (hstrt hs).elim
    · exact (hnotEmpty hs).elim

lemma Good.step_of_rest (hrest : (G t.head).rest = none) :
    (t.pstate t.head).leftStep ≠ .started ∧ (t.pstate t.head).leftStep ≠ .notEmpty := by
  have hstep := (h.aligned.fits t.head (h.aligned.head_mem hlt)).step
  constructor
  · intro hs
    rw [hs, StepFits, hrest] at hstep
    cases hstep.2.2
  · intro hs
    rw [hs, StepFits, hrest] at hstep
    cases hstep

structure Headed (j : Tdb α β) (c : Children α β) (G G' : ℕ → Track α β) (t : Tcb α β)
    (r : Tcb α β × Bool) (busy : Prop) : Prop where
  good : Good G' r.1
  moves : Moves j c (t.view G) (r.1.view G')
  ended : r.2 = true → r.1.head = t.head + 1 ∧ r.1.phaseOne = t.phaseOne
  drops : busy → (r.1.view G').rank < (t.view G).rank

lemma Good.afterRight (hstrt : (t.pstate t.head).leftStep ≠ .started)
    (hmatches : (t.pstate t.head).leftMatches = 0) {u : ℕ} (hu : u = t.up.length) :
    ∃ G', Headed j c G G' t (t.afterRight u) ((G t.head).rest = none ∧ t.free ≠ 0) := by
  have hfits := h.aligned.fits t.head (h.aligned.head_mem hlt)
  have hsent : (G t.head).sent = [] :=
    length_eq_zero_iff.1 (hfits.leftMatches.symm.trans hmatches)
  obtain ⟨G', hloop, hptr⟩ := h.leftOnlyLoop (j := j) (c := c) _ u hlt hsent hfits.leftOnly hu
  -- without entries to drop the loop does nothing
  have hidle : (t.pstate t.head).leftOnlyRows = 0 →
      Tcb.leftOnlyLoop (t.pstate t.head).leftOnlyRows u t = (t, some u) := by
    intro hzero
    rw [hzero]
    rfl
  unfold Tcb.afterRight
  rcases hres : Tcb.leftOnlyLoop (t.pstate t.head).leftOnlyRows u t with ⟨s, _ | u'⟩
  · rw [hres] at hloop hidle
    refine ⟨G', hloop.good, hloop.moves, fun hfls => (Bool.false_ne_true hfls).elim, fun hbusy => ?_⟩
    exact hloop.drops ⟨fun hzero => Option.some_ne_none u (congrArg Prod.snd (hidle hzero)).symm, hbusy.2⟩
  · rw [hres] at hloop hptr hidle
    obtain ⟨hu', hsent', honly'⟩ := hptr u' rfl
    have hkeeps := hloop.keeps
    dsimp only at hkeeps hu' hsent' honly' ⊢
    split_ifs with hwait
    · refine ⟨G', hloop.good, hloop.moves, fun hfls => (Bool.false_ne_true hfls).elim, fun hbusy => ?_⟩
      refine hloop.drops ⟨fun hzero => ?_, hbusy.2⟩
      have hs : s = t := (Prod.ext_iff.1 (hidle hzero)).1
      rw [hs] at hwait
      exact hwait.elim (h.step_of_rest hlt hbusy.1).2 hbusy.2
    · have hlt' : s.head < s.phaseOne := by
        rw [hkeeps.head, hkeeps.phaseOne]
        exact hlt
      have hrest : (G' s.head).rest = none :=
        hloop.good.rest_none hlt' (by rw [hkeeps.leftStep]; exact hstrt) fun hs => hwait (.inl hs)
      obtain ⟨hgood, hmove⟩ := hloop.good.endRequest (j := j) (c := c) hlt' hsent' honly' hrest hu'
      refine ⟨G', hgood, hloop.moves.tail (.inl hmove), fun _ => ⟨?_, hkeeps.phaseOne⟩, fun _ => ?_⟩
      · exact congrArg (· + 1) hkeeps.head
      · exact hmove.rank_lt.trans_le hloop.moves.rank_le

end

lemma rightLoop_idle {refused : ℕ → Bool} {es : List (ℕ × Option (Item β))} {u : ℕ}
    (h : (t.pstate t.head).leftMatches = 0) : rightLoop j refused es u t = (t, some u) := by
  cases es with
  | nil => rfl
  | cons e es =>
    unfold rightLoop
    rw [if_pos h]

structure HeadBusy (G : ℕ → Track α β) (t : Tcb α β) : Prop where
  rest : (G t.head).rest = none
  free : t.free ≠ 0
  arrived : (t.pstate t.head).leftMatches ≠ 0 → t.rightUp ≠ []

lemma Good.headRequest (hj : j.Reports) (h : Good G t) (refused : ℕ → Bool)
    (hlt : t.head < t.phaseOne) :
    ∃ G', Headed j c G G' t (t.headRequest j refused) (HeadBusy G t ∧ refused 0 = false) := by
  unfold Tcb.headRequest
  split_ifs with hstrt
  · exact ⟨G, h, .refl, fun hfls => (Bool.false_ne_true hfls).elim,
      fun hbusy => ((h.step_of_rest hlt hbusy.1.rest).1 hstrt).elim⟩
  by_cases hzero : (t.pstate t.head).leftMatches = 0
  · rw [rightLoop_idle hzero]
    dsimp only
    rw [if_neg (not_not_intro hzero)]
    obtain ⟨G', haft⟩ := h.afterRight (j := j) (c := c) hlt hstrt hzero rfl
    exact ⟨G', haft.good, haft.moves, haft.ended,
      fun hbusy => haft.drops ⟨hbusy.1.rest, hbusy.1.free⟩⟩
  · obtain ⟨G₁, hloop, hptr⟩ := h.rightLoop (c := c) hj t.rightUp refused t.up.length rfl hlt
      fun _ => rfl
    have hbusy : HeadBusy G t ∧ refused 0 = false →
        ((Tcb.rightLoop j refused t.rightUp t.up.length t).1.view G₁).rank < (t.view G).rank :=
      fun hbusy => hloop.drops ⟨hzero, hbusy.1.arrived hzero, hbusy.1.free, hbusy.2⟩
    rcases hres : Tcb.rightLoop j refused t.rightUp t.up.length t with ⟨s, _ | u⟩
    · rw [hres] at hloop hbusy
      exact ⟨G₁, hloop.good, hloop.moves, fun hfls => (Bool.false_ne_true hfls).elim, hbusy⟩
    · rw [hres] at hloop hptr hbusy
      have hkeeps := hloop.keeps
      have hgood := hloop.good
      have hmov := hloop.moves
      dsimp only at hkeeps hgood hmov hptr hbusy ⊢
      split_ifs with hmore
      · exact ⟨G₁, hgood, hmov, fun hfls => (Bool.false_ne_true hfls).elim, hbusy⟩
      · have hnone := not_not.1 hmore
        obtain ⟨G₂, haft⟩ := hgood.afterRight (j := j) (c := c)
          (by rw [hkeeps.head, hkeeps.phaseOne]; exact hlt) (by rw [hkeeps.leftStep]; exact hstrt)
          hnone (hptr u rfl hnone)
        refine ⟨G₂, haft.good, hmov.trans haft.moves, fun htrue => ?_,
          fun hb => haft.moves.rank_le.trans_lt (hbusy hb)⟩
        obtain ⟨hhead, hone⟩ := haft.ended htrue
        exact ⟨by rw [hhead, hkeeps.head], hone.trans hkeeps.phaseOne⟩

lemma Good.phase3Loop (hj : j.Reports) (refused : ℕ → ℕ → Bool) :
    ∀ (n : ℕ) {G : ℕ → Track α β} {t : Tcb α β}, Good G t → n ≤ t.phaseOne - t.head →
      ∃ G', Good G' (phase3Loop j refused n t) ∧
        Moves j c (t.view G) ((phase3Loop j refused n t).view G') ∧
        (HeadBusy G t ∧ (∀ m i, refused m i = false) ∧ n ≠ 0 →
          ((phase3Loop j refused n t).view G').rank < (t.view G).rank)
  | 0, G, t, h, _ => ⟨G, h, .refl, fun hbusy => (hbusy.2.2 rfl).elim⟩
  | n + 1, G, t, h, hn => by
    obtain ⟨G₁, hhead⟩ := h.headRequest (c := c) hj (refused n) (by omega)
    unfold Tcb.phase3Loop
    rcases hres : t.headRequest j (refused n) with ⟨s, _ | _⟩
    · rw [hres] at hhead
      exact ⟨G₁, hhead.good, hhead.moves, fun hbusy => hhead.drops ⟨hbusy.1, hbusy.2.1 _ _⟩⟩
    · rw [hres] at hhead
      obtain ⟨hsucc, hone⟩ := hhead.ended rfl
      obtain ⟨G₂, hgood, hmov, -⟩ := Good.phase3Loop hj refused n hhead.good
        (by dsimp only; rw [hsucc, hone]; omega)
      exact ⟨G₂, hgood, hhead.moves.trans hmov,
        fun hbusy => hmov.rank_le.trans_lt (hhead.drops ⟨hbusy.1, hbusy.2.1 _ _⟩)⟩

/-! ### Entries that arrive -/

variable {ids : List ℕ} {k : ℕ}

lemma coming_at {is : List (Item α)} {a m : List (ℕ × List (Item α))}
    (h : (ids.flatMap fun x => (G x).coming x) = a ++ (k, is) :: m) :
    ∃ b b', ids = b ++ k :: b' ∧ (G k).rest = some is ∧ a = (b.flatMap fun x => (G x).coming x) ∧
      m = b'.flatMap fun x => (G x).coming x := by
  induction ids generalizing a with
  | nil => cases a <;> cases h
  | cons x ids ih =>
    rw [flatMap_cons] at h
    cases hrest : (G x).rest with
    | none =>
      rw [coming_nil hrest] at h
      obtain ⟨b, b', rfl, hk, rfl, rfl⟩ := ih h
      refine ⟨x :: b, b', rfl, hk, ?_, rfl⟩
      rw [flatMap_cons, coming_nil hrest]
      rfl
    | some js =>
      have hx : (G x).coming x = [(x, js)] := by
        rw [coming, hrest]
        rfl
      rw [hx] at h
      cases a with
      | nil =>
        cases h
        exact ⟨[], ids, rfl, hrest, rfl, rfl⟩
      | cons y a =>
        obtain ⟨rfl, htail⟩ := cons_eq_cons.1 h
        obtain ⟨b, b', rfl, hk, rfl, rfl⟩ := ih htail
        refine ⟨x :: b, b', rfl, hk, ?_, rfl⟩
        rw [flatMap_cons, hx]
        rfl

lemma replies_at {i : ℕ} {is : List (Item β)} {a m : List (ℕ × List (Item β))}
    (h : (ids.flatMap fun x => (G x).replies) = a ++ (i, is) :: m) :
    ∃ b k b' ss s ss', ids = b ++ k :: b' ∧ (G k).sent = ss ++ s :: ss' ∧ s.index = i ∧ s.rest = is ∧
      a = (b.flatMap fun x => (G x).replies) ++ ss.map (fun s => (s.index, s.rest)) ∧
      m = ss'.map (fun s => (s.index, s.rest)) ++ b'.flatMap fun x => (G x).replies := by
  induction ids generalizing a with
  | nil => cases a <;> cases h
  | cons x ids ih =>
    rw [flatMap_cons] at h
    obtain ⟨a', ha, hm⟩ | ⟨c', hx, hc⟩ := append_eq_append_iff.1 h
    · obtain ⟨b, k, b', ss, s, ss', rfl, hsent, hi, his, rfl, rfl⟩ := ih hm
      refine ⟨x :: b, k, b', ss, s, ss', rfl, hsent, hi, his, ?_, rfl⟩
      rw [ha, flatMap_cons, append_assoc]
    · cases c' with
      | nil =>
        obtain ⟨b, k, b', ss, s, ss', rfl, hsent, hi, his, hnil, rfl⟩ := ih (a := []) hc.symm
        refine ⟨x :: b, k, b', ss, s, ss', rfl, hsent, hi, his, ?_, rfl⟩
        rw [append_nil] at hx
        rw [flatMap_cons, append_assoc, ← hnil, append_nil, hx]
      | cons y c' =>
        obtain ⟨rfl, hm⟩ := cons_eq_cons.1 hc
        rw [replies] at hx
        obtain ⟨ss, rest, hsent, hss, hrest⟩ := map_eq_append_iff.1 hx
        obtain ⟨s, ss', rfl, hs, hss'⟩ := map_eq_cons_iff.1 hrest
        obtain ⟨hi, his⟩ := Prod.ext_iff.1 hs
        refine ⟨[], x, ids, ss, s, ss', rfl, hsent, hi, his, hss.symm, ?_⟩
        rw [hm, hss']
        rfl

/-- What is under way for one request is replaced by something with as many entries. -/
theorem Aligned.replace (h : Aligned G t) {a b : List ℕ} (hparts : t.ids = a ++ k :: b)
    {g : Track α β} {u : Tcb α β} (hids : u.ids = t.ids) (hle : u.head ≤ u.phaseOne)
    (htail : u.phaseOne ≤ u.tail) (hst : u.pstate = t.pstate) (hno : u.noMore = t.noMore)
    (hhand : u.handled = t.handled) (hsent : g.sent.length = (G k).sent.length)
    (honly : g.only = (G k).only) (hrest : g.rest.isSome = (G k).rest.isSome)
    (hg : g.handled k = (G k).handled k)
    (hleft : u.fresh.map (fun e => (e.request, e.reply)) ++ stream (u.leftDown.map Down.tagged) =
      stream ((a.flatMap fun x => (G x).coming x) ++
        (g.coming k ++ b.flatMap fun x => (G x).coming x)))
    (hrt : u.rightUp ++ stream (u.rightDown.map Down.tagged) =
      stream ((a.flatMap fun x => (G x).replies) ++
        (g.replies ++ b.flatMap fun x => (G x).replies))) : Aligned (update G k g) u := by
  have hnil : g.sent = [] ↔ (G k).sent = [] := by
    rw [← length_eq_zero_iff, hsent, length_eq_zero_iff]
  have hnone : g.rest = none ↔ (G k).rest = none := by
    rw [← not_isSome_iff_eq_none, hrest, not_isSome_iff_eq_none]
  have hstep : ∀ p, StepFits p (G k) → StepFits p g := by
    intro p hp
    cases p with
    | started => exact ⟨hnil.2 hp.1, honly.trans hp.2.1, hrest.trans hp.2.2⟩
    | notEmpty => exact hrest.trans hp
    | empty => exact hnone.2 hp
    | done => exact hnone.2 hp
    | cancelled => exact ⟨hnil.2 hp.1, honly.trans hp.2.1, hnone.2 hp.2.2⟩
  have hk : k ∈ t.ids := by simp [hparts]
  have hfits := h.fits k hk
  refine h.change hparts hids hle htail (fun x _ => ⟨by rw [hst], by rw [hno]⟩) ?_
    (fun hsome => hrest ▸ hsome) (fun x hx hxk hsome => ?_) ?_ hleft hrt
  · rw [hst, hno]
    exact ⟨hfits.leftMatches.trans hsent.symm, hfits.leftOnly.trans (congrArg _ honly.symm),
      by rw [honly]; exact hfits.own, hstep _ hfits.step,
      fun hsome => by rw [honly]; exact hfits.wanted (hrest ▸ hsome)⟩
  · have hord := h.order x hx k hk hxk hsome
    exact ⟨hnil.2 hord.1, honly.trans hord.2⟩
  · rw [hhand, h.handled, hg, ← flatMap_parts hparts Track.handled]

variable {ι : Type} (early : Bool) (d : Down ι)

lemma Down.reply_cases : (∀ m, stream (d.tagged :: m) =
      (d.parentIndex, (d.reply early).1) :: stream ((d.reply early).2.toList.map Down.tagged ++ m)) ∨
    d.cancelled = true ∧ d.pending ≠ [] ∧ d.reply early = (none, none) := by
  obtain ⟨index, parentIndex, pending, cancelled⟩ := d
  cases pending with
  | nil => exact .inl fun m => stream_end _ _
  | cons i is =>
    by_cases hcut : (early && cancelled) = true
    · rw [Bool.and_eq_true] at hcut
      refine .inr ⟨hcut.2, cons_ne_nil _ _, ?_⟩
      simp [Down.reply, hcut.1, hcut.2]
    · refine .inl fun m => ?_
      simp only [Down.reply, if_neg hcut]
      exact stream_item _ _ _ _

lemma Down.reply_marks :
    ∀ x ∈ (d.reply early).2, x.cancelled = d.cancelled ∧ (d.pending = [] → x.pending = []) := by
  intro x hx
  unfold Down.reply at hx
  split at hx
  next => cases hx
  next i is hpend =>
    split_ifs at hx
    · cases hx
    · obtain rfl := some.inj hx
      exact ⟨rfl, fun hnil => by rw [hpend] at hnil; cases hnil⟩

section Arrive

variable {early : Bool} {size : Sizes}

lemma Good.deliverLeft {d : Down (Item α)} {ds : List (Down (Item α))} (h : Good G t)
    (hdown : t.leftDown = d :: ds) : ∃ G', Good G' (step j c size t (.deliverLeft early)) ∧
      Move j c (t.view G) ((step j c size t (.deliverLeft early)).view G') := by
  have hleft := h.aligned.left
  have hmarks := h.marks
  simp only [step, hdown, nextReply]
  obtain hnorm | ⟨hcanc, hpend, hcut⟩ := d.reply_cases early
  · refine ⟨G, ⟨{ h.aligned with left := ?_ }, h.noFault, fun hall => ?_, hmarks.right⟩, ?_⟩
    · rw [hdown, map_cons, hnorm] at hleft
      rw [map_append, map_append, append_assoc]
      exact hleft
    · have hmem := hmarks.left hall
      rw [hdown, forall_mem_cons] at hmem
      refine forall_mem_append.2 ⟨fun x hx => ?_, hmem.2⟩
      exact (d.reply_marks early x (mem_toList.1 hx)).1.trans hmem.1
    · refine .arrive (v := t.view G) ?_
      simp only [view]
      rw [hdown, map_cons, hnorm, map_append]
      simp
  · rw [hcut]
    have hno : ∃ x, t.noMore x = true := by
      by_contra hnone
      have hfls := hmarks.left (fun k => Bool.eq_false_iff.2 fun hk => hnone ⟨k, hk⟩) d
        (by rw [hdown]; exact mem_cons_self)
      rw [hfls] at hcanc
      cases hcanc
    rw [hdown, map_cons] at hleft
    obtain ⟨a, is, hcoming, hfr⟩ := stream_split hleft
    obtain ⟨b, b', hids, hrest, rfl, hb'⟩ := coming_at hcoming
    have hmem : d.parentIndex ∈ t.ids := by
      rw [hids]
      simp
    refine ⟨_, ⟨h.aligned.replace hids (g := { G d.parentIndex with rest := some is }) rfl
      h.aligned.head_le h.aligned.phaseOne_le rfl rfl rfl rfl rfl (by rw [hrest]; rfl) rfl ?_ ?_, h.noFault, fun hall x hx => ?_,
      hmarks.right⟩, ?_⟩
    · rw [map_append, hfr, stream_append]
      simp only [coming, map_some, toList_some, cons_append, nil_append,
        stream_cons, append_assoc, map_cons, map_nil, toList_none]
      rw [hb']
      rfl
    · rw [h.aligned.right, flatMap_parts hids (fun _ => replies)]
      rfl
    · exact hmarks.left hall x (by rw [hdown]; exact mem_cons_of_mem _ hx)
    · refine .cutLeft (v := t.view G) hmem ?_ hno hrest
      simp only [view, toList_none, nil_append]
      rw [hdown, map_cons, stream_cons]
      simp
      omega

lemma Good.deliverRight {d : Down (Item β)} {ds : List (Down (Item β))} (h : Good G t)
    (hdown : t.rightDown = d :: ds) : ∃ G', Good G' (step j c size t (.deliverRight early)) ∧
      Move j c (t.view G) ((step j c size t (.deliverRight early)).view G') := by
  have hrt := h.aligned.right
  have hmarks := h.marks
  simp only [step, hdown, nextReply]
  obtain hnorm | ⟨hcanc, hpend, hcut⟩ := d.reply_cases early
  · refine ⟨G, ⟨{ h.aligned with right := ?_ }, h.noFault, hmarks.left, fun hall => ?_⟩, ?_⟩
    · rw [hdown, map_cons, hnorm] at hrt
      rw [map_append, append_assoc]
      exact hrt
    · have hmem := hmarks.right hall
      rw [hdown, forall_mem_cons] at hmem
      refine forall_mem_append.2 ⟨fun x hx hcanc => ?_, hmem.2⟩
      obtain ⟨hsame, hnil⟩ := d.reply_marks early x (mem_toList.1 hx)
      exact hnil (hmem.1 (hsame ▸ hcanc))
    · refine .arrive (v := t.view G) ?_
      simp only [view]
      rw [hdown, map_cons, hnorm, map_append]
      simp
  · rw [hcut]
    have hno : ∃ x, t.noMore x = true := by
      by_contra hnone
      exact hpend (hmarks.right (fun k => Bool.eq_false_iff.2 fun hk => hnone ⟨k, hk⟩) d
        (by rw [hdown]; exact mem_cons_self) hcanc)
    rw [hdown, map_cons] at hrt
    obtain ⟨a, is, hreplies, hup⟩ := stream_split hrt
    obtain ⟨b, k, b', ss, s, ss', hids, hsent, hindex, hrest, rfl, hb'⟩ := replies_at hreplies
    have hmem : k ∈ t.ids := by
      rw [hids]
      simp
    refine ⟨_, ⟨h.aligned.replace hids
      (g := { G k with sent := ss ++ { s with rest := is } :: ss' }) rfl
      h.aligned.head_le h.aligned.phaseOne_le rfl rfl rfl ?_ rfl rfl ?_ ?_ ?_, h.noFault, hmarks.left, fun hall x hx => ?_⟩, ?_⟩
    · rw [hsent]
      simp
    · rw [Track.handled, Track.handled, hsent]
      simp
    · rw [h.aligned.left, flatMap_parts hids coming]
      rfl
    · rw [hup]
      simp only [replies, map_append, map_cons, stream_append,
        stream_cons, append_assoc, cons_append, nil_append,
        toList_none]
      rw [hb', hindex, stream_append]
      rfl
    · exact hmarks.right hall x (by rw [hdown]; exact mem_cons_of_mem _ hx)
    · refine .cutRight (v := t.view G) hmem ?_ hno hsent hrest
      simp only [view, toList_none, nil_append]
      rw [hdown, map_cons, stream_cons]
      simp
      omega

end Arrive

/-! ### Events -/

lemma cancelParentRequest_again {k : ℕ} (h : t.noMore k = true) :
    (t.cancelParentRequest k).view G = t.view G := by
  rw [cancelParentRequest_view]
  simp only [View.cancel, view]
  rw [← h, update_eq_self]

lemma Good.workCancel (h : Good G t) : Good G t.workCancel ∧ t.workCancel.view G = t.view G := by
  refine foldlRecOn (motive := fun s => Good G s ∧ s.view G = t.view G) _ _ ⟨h, rfl⟩
    fun s hs k _ => ?_
  split_ifs with hno
  · exact ⟨hs.1.cancelParentRequest k, (cancelParentRequest_again hno).trans hs.2⟩
  · exact hs

def Effect (j : Tdb α β) (c : Children α β) (v w : View α β) : Event → Prop
  | .parentSends => w = v ∨ w = { v with tail := v.tail + 1 }
  | .parentCancels k => w = v ∨ w = v.cancel k
  | _ => Moves j c v w

lemma Good.step (hj : j.Reports) (h : Good G t) (size : Sizes) (e : Event) :
    ∃ G', Good G' (step j c size t e) ∧
      Effect j c (t.view G) ((NestedJoin.step j c size t e).view G') e := by
  have halign := h.aligned
  cases e with
  | parentSends =>
    simp only [NestedJoin.step]
    split_ifs
    · exact ⟨G, ⟨{ halign with phaseOne_le := halign.phaseOne_le.trans (Nat.le_succ _) }, h.noFault,
        h.marks.left, h.marks.right⟩, .inr rfl⟩
    · exact ⟨G, h, .inl rfl⟩
  | parentCancels k =>
    simp only [NestedJoin.step]
    split_ifs
    · refine ⟨G, ⟨halign.alike ⟨rfl, rfl, rfl, fun _ => rfl, fun _ => rfl, fun _ => rfl,
        fun x hx => ?_, rfl, rfl, rfl, rfl, rfl⟩, h.noFault,
        .cancelled (update_self k _ _)⟩, .inr rfl⟩
      by_cases hxk : x = k
      · subst hxk
        exact update_self _ _ _
      · exact (update_of_ne hxk _ _).trans hx
    · exact ⟨G, h, .inl rfl⟩
  | parentTakes =>
    simp only [NestedJoin.step]
    split_ifs
    · exact ⟨G, ⟨{ halign with }, h.noFault, h.marks.left, h.marks.right⟩, .refl⟩
    · exact ⟨G, h, .refl⟩
  | deliverLeft early =>
    cases hdown : t.leftDown with
    | nil =>
      simp only [NestedJoin.step, hdown, nextReply]
      exact ⟨G, h, .refl⟩
    | cons d ds =>
      obtain ⟨G', hgood, hmove⟩ := h.deliverLeft hdown
      exact ⟨G', hgood, .single (.inl hmove)⟩
  | deliverRight early =>
    cases hdown : t.rightDown with
    | nil =>
      simp only [NestedJoin.step, hdown, nextReply]
      exact ⟨G, h, .refl⟩
    | cons d ds =>
      obtain ⟨G', hgood, hmove⟩ := h.deliverRight hdown
      exact ⟨G', hgood, .single (.inl hmove)⟩
  | workPhase1 => exact h.phase1Loop j c size.left _ le_rfl
  | workPhase2 => exact h.phase2Loop hj size.right _ rfl
  | workPhase3 refused =>
    obtain ⟨G', hgood, hmov, -⟩ := h.phase3Loop hj refused _ le_rfl
    exact ⟨G', hgood, hmov⟩
  | workCancel =>
    obtain ⟨hgood, hview⟩ := h.workCancel
    refine ⟨G, hgood, ?_⟩
    simp only [NestedJoin.step]
    rw [hview]
    exact .refl

end Trafodion.NestedJoin
