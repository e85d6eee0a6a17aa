import Trafodion.MergeJoinSteps
import Trafodion.SplitTopWork

/-!
# A merge join answers its request

A pass through the loop keeps the phases or ends the request, so does a call, and so do the children
and the parent; and as long as the request is not answered, a round in which entries arrive, the
parent takes one and the operator works uses something up.
-/
namespace Trafodion.MergeJoin
open SplitTop (Entry)

variable {α β κ : Type} [LinearOrder κ]
variable {j : Tdb α β κ} {out : List (α × Option β)} {t : Tcb α β}

section Passes
variable {J : List (α × Option β)}

lemma Child.Feeds.drain {c : Child α} {xs : List α} (h : c.Feeds xs) :
    (∃ ys, ({ c with queue := c.queue.dropWhile Tcb.isRow } : Child α).Feeds ys) ∧
    (c.queue.dropWhile Tcb.isRow = [] ∨ ∃ q, c.queue.dropWhile Tcb.isRow = .noData :: q) := by
  obtain ⟨queue, pending, requested, cancelled⟩ := c
  induction queue generalizing xs with
  | nil => exact ⟨⟨xs, h⟩, .inl rfl⟩
  | cons e q ih =>
    cases e with
    | row x =>
      obtain ⟨ys, -, hys⟩ := h.row rfl
      exact ih hys
    | noData => exact ⟨⟨xs, h⟩, .inr ⟨q, rfl⟩⟩

section
variable (h : Live j J out t)
include h

lemma Live.cancel (hstep : t.step = .cancel) : Live j J out t.cancel.1 := by
  have hph := h.phase
  simp only [Phase, hstep] at hph
  obtain ⟨hover, ⟨ls, hleft⟩, rs, hrt⟩ := hph
  have hasked := h.asked (by simp [NotStarted, hstep])
  obtain ⟨hleft, hl⟩ := hleft.drain
  obtain ⟨hrt, hr⟩ := hrt.drain
  unfold Tcb.cancel
  dsimp only
  split_ifs with hwait
  · refine { h with cancelled := fun _ => .inl hstep, asked := fun _ => hasked, phase := ?_ }
    simp only [Phase, hstep]
    exact ⟨hover, hleft, hrt⟩
  · rw [not_or] at hwait
    exact ⟨h.down, h.noFault, h.up, h.count, h.within, fun _ => .inr rfl, fun _ => hasked,
      hover, hl.resolve_left hwait.1, hr.resolve_left hwait.2⟩

lemma Live.rewindOverflow (hstep : t.step = .rewindOverflow) :
    Live j J out { t with tspace := t.tspace.rewind, step := t.postIoStep.step } := by
  have hbase := h.base (by simp [hstep]) (by simp [NotStarted, hstep])
  have hph := h.phase
  refine Base.live { hbase with } ?_
  cases hio : t.postIoStep with
  | getLeft =>
    simp only [Phase, hstep, hio] at hph
    obtain ⟨ls, rs, hat⟩ := hph
    exact ⟨ls, rs, { hat with }, fun _ => rfl⟩
  | returnSavedDupRows =>
    simp only [Phase, hstep, hio] at hph
    obtain ⟨l, ls, rs, hat⟩ := hph
    exact ⟨l, ls, rs, { hat with }, fun _ => rfl⟩

lemma Live.start (hstep : t.step = .empty) : Live j J out t.start := by
  have hph := h.phase
  simp only [Phase, hstep] at hph
  obtain ⟨ls, rs, hat⟩ := hph
  have hsav : t.saved = [] := by
    rw [Tcb.saved_eq_nil, hat.dupPool, hat.tspace]
    exact ⟨rfl, rfl⟩
  refine ⟨h.down, h.noFault, h.up, h.count, h.within, fun hc => ?_, fun _ => ⟨rfl, rfl⟩, ls, rs,
    ⟨{ hat.feeds with }, hat.matched, hat.look, ?_, ?_, ?_⟩, fun _ => ?_⟩
  · have hcan := h.cancelled hc
    rw [hstep] at hcan
    simp at hcan
  · exact hat.dupPool ▸ rfl
  · exact hsav.symm ▸ Group.nil ls rs
  · exact (congrArg (fun ds => out ++ j.join ls (ds ++ rs)) hsav).trans hat.todo
  · exact hat.tspace ▸ rfl

/-- What has been sent is part of the join, and the children still have entries. -/
theorem Live.feeds (hdone : t.step ≠ .done) (hnever : t.step ≠ .doneNeverStarted) :
    out <+: J ∧ (∃ ls, t.left.Feeds ls) ∧ ∃ rs, t.right.Feeds rs := by
  have hfeeds {ls rs rest} (htodo : out ++ rest = J) (hat : Feeds j t.left t.right ls rs) :
      out <+: J ∧ (∃ ls, t.left.Feeds ls) ∧ ∃ rs, t.right.Feeds rs :=
    ⟨⟨_, htodo⟩, ⟨ls, hat.left⟩, rs, hat.right⟩
  have hph := h.phase
  unfold Phase at hph
  split at hph
  case h_1 =>
    obtain ⟨-, ls, rs, hat⟩ := hph
    exact hfeeds hat.todo hat.feeds
  case h_2 =>
    obtain ⟨ls, rs, hat⟩ := hph
    exact hfeeds hat.todo hat.feeds
  case h_3 =>
    obtain ⟨ls, rs, hat, -⟩ := hph
    exact hfeeds hat.todo hat.feeds
  case h_8 =>
    split at hph
    · obtain ⟨ls, rs, hat⟩ := hph
      exact hfeeds hat.todo hat.feeds
    · obtain ⟨l, ls, rs, hat⟩ := hph
      exact hfeeds hat.todo hat.feeds
  case h_5 | h_9 =>
    obtain ⟨l, ls, rs, hat, -⟩ := hph
    exact hfeeds hat.todo hat.feeds
  case h_4 | h_6 | h_7 | h_10 | h_11 =>
    obtain ⟨l, ls, rs, hat⟩ := hph
    exact hfeeds hat.todo hat.feeds
  next => exact ⟨hph.1.sent, hph.2⟩
  next hs => exact absurd hs hdone
  next hs => exact absurd hs hnever

end

omit [LinearOrder κ] in
lemma Tcb.enough_iff : t.enough j = true ↔ ∃ n, j.request = .getN n ∧ n ≤ t.matchCount := by
  unfold Tcb.enough
  split
  next hreq => simp [hreq]
  next n hreq => simp [hreq]

/-- After the test at the top, either the request ends or there is room for a row. -/
theorem Live.checkLimit (h : Live j J out t) : Live j J out (t.checkLimit j) ∧
    ((t.checkLimit j).step = .cancel ∨ (t.checkLimit j).step = .done ∨
      (t.checkLimit j).step = .doneNeverStarted ∨ ∀ n, j.request = .getN n → out.length < n) := by
  unfold Tcb.checkLimit
  by_cases hlimit : t.step ≠ .cancel ∧ t.step ≠ .done ∧ t.step ≠ .doneNeverStarted ∧
      t.enough j = true
  · rw [if_pos hlimit]
    obtain ⟨hcan, hdone, hnever, henough⟩ := hlimit
    obtain ⟨n, hn, hle⟩ := Tcb.enough_iff.1 henough
    rw [h.count] at hle
    obtain ⟨hsent, hleft, hrt⟩ := h.feeds hdone hnever
    by_cases hst0 : t.step = .uninitialized ∨ t.step = .empty
    · rw [if_pos hst0]
      refine ⟨⟨h.down, h.noFault, h.up, h.count, h.within, fun hc => ?_,
        fun hs => absurd (.inr (.inr rfl)) hs, hsent, .inr ⟨n, hn, hle⟩⟩, .inr (.inr (.inl rfl))⟩
      exact absurd (h.cancelled hc) (by rcases hst0 with hs | hs <;> simp [hs])
    · rw [if_neg hst0]
      have hasked := h.asked (by
        rintro (hs | hs | hs)
        · exact hst0 (.inl hs)
        · exact hst0 (.inr hs)
        · exact hnever hs)
      exact ⟨⟨h.down, h.noFault, h.up, h.count, h.within, fun _ => .inl rfl, fun _ => hasked,
        ⟨hsent, .inr ⟨n, hn, hle⟩⟩, hleft, hrt⟩, .inl rfl⟩
  · rw [if_neg hlimit]
    refine ⟨h, ?_⟩
    by_contra hnot
    simp only [not_or, not_forall, not_lt] at hnot
    obtain ⟨hcan, hdone, hnever, n, hn, hle⟩ := hnot
    exact hlimit ⟨hcan, hdone, hnever, Tcb.enough_iff.2 ⟨n, hn, h.count ▸ hle⟩⟩

end Passes

variable (j) in
structure Finished (ls : List α) (rs : List β) (t : Tcb α β) : Prop where
  down : t.down = false
  noFault : t.fault = false
  up : t.up = (j.answer ls rs).map some ++ [none]

variable (j) in
def Sound (ls : List α) (rs : List β) (t : Tcb α β) : Prop :=
  (∃ out, Live j (j.join ls rs) out t) ∨ Finished j ls rs t

variable {ls : List α} {rs : List β}

lemma Over.answer (h : Over j (j.join ls rs) out)
    (hwithin : ∀ n, j.request = .getN n → out.length ≤ n) : out = j.answer ls rs := by
  unfold Tdb.answer
  split
  next hreq =>
    obtain heq | ⟨n, hn, -⟩ := h.enough
    · exact heq
    · rw [hreq] at hn
      cases hn
  next n hreq =>
    obtain heq | ⟨n', hn, hle⟩ := h.enough
    · rw [← heq, List.take_of_length_le (hwithin n hreq)]
    · rw [hreq] at hn
      cases hn
      have hlen : out.length = n := le_antisymm (hwithin n hreq) hle
      rw [← hlen]
      exact List.prefix_iff_eq_take.1 h.sent

lemma Live.stop (h : Live j (j.join ls rs) out t)
    (hstep : t.step = .done ∨ t.step = .doneNeverStarted) : Finished j ls rs t.stop.1 := by
  have hover : Over j (j.join ls rs) out := by
    have hph := h.phase
    rcases hstep with hs | hs
    · simp only [Phase, hs] at hph
      exact hph.1
    · simpa only [Phase, hs] using hph
  exact ⟨rfl, h.noFault, by rw [← hover.answer h.within, ← h.up]; rfl⟩

lemma Sound.whenFree {f : Tcb α β → Tcb α β × Bool} (h : Sound j ls rs t)
    (hf : Sound j ls rs (f t).1) : Sound j ls rs (t.whenFree f).1 := by
  unfold Tcb.whenFree
  split_ifs
  · exact h
  · exact hf

/-- **One pass** keeps the phases or ends the request. -/
theorem Live.pass (h : Live j (j.join ls rs) out t) (refused : Bool) :
    Sound j ls rs (t.pass j refused).1 := by
  obtain ⟨hlive, hlimit⟩ := h.checkLimit
  unfold Tcb.pass
  generalize t.checkLimit j = t at hlive hlimit
  have hroom : t.step ≠ .cancel → t.step ≠ .done → t.step ≠ .doneNeverStarted →
      ∀ n, j.request = .getN n → out.length < n := by
    intro h1 h2 h3
    exact ((hlimit.resolve_left h1).resolve_left h2).resolve_left h3
  have hsnd : Sound j ls rs t := .inl ⟨out, hlive⟩
  unfold Tcb.doStep
  split
  next hs =>
    have hph := hlive.phase
    simp only [Phase, hs] at hph
    obtain ⟨hnil, ls', rs', hat⟩ := hph
    subst hnil
    exact .inl ⟨[], hlive.down, hlive.noFault, hlive.up, rfl, hlive.within,
      fun hc => absurd (hlive.cancelled hc) (by simp [hs]), fun hn => absurd (.inr (.inl rfl)) hn,
      ls', rs', hat.feeds, rfl, hat.look, hat.dupPool, hat.tspace, hat.todo⟩
  next hs => exact .inl ⟨out, hlive.start hs⟩
  next hs => exact .inl ⟨out, hlive.getLeft hs⟩
  next hs => exact .inl ⟨out, hlive.getRight hs⟩
  next hs =>
    exact hsnd.whenFree (.inl (hlive.returnOneRow hs
      (hroom (by simp [hs]) (by simp [hs]) (by simp [hs])) refused))
  next hs => exact .inl ⟨out, hlive.saveDupRight (.inl hs) refused⟩
  next hs => exact .inl ⟨out, hlive.saveDupRight (.inr hs) refused⟩
  next hs => exact .inl ⟨out, hlive.rewindOverflow hs⟩
  next hs =>
    exact hsnd.whenFree (.inl (hlive.returnSavedDupRows hs
      (hroom (by simp [hs]) (by simp [hs]) (by simp [hs]))))
  next hs =>
    exact hsnd.whenFree (.inl (hlive.returnOverflowRows hs
      (hroom (by simp [hs]) (by simp [hs]) (by simp [hs])) refused))
  next hs =>
    exact hsnd.whenFree (.inl (hlive.finishLeft hs
      (hroom (by simp [hs]) (by simp [hs]) (by simp [hs]))))
  next hs => exact .inl ⟨out, hlive.cancel hs⟩
  next hs => exact hsnd.whenFree (.inr (hlive.stop (.inl hs)))
  next hs => exact hsnd.whenFree (.inr (hlive.stop (.inr hs)))

lemma Sound.live (h : Sound j ls rs t) (hdown : t.down = true) :
    ∃ out, Live j (j.join ls rs) out t := by
  obtain hlive | hfin := h
  · exact hlive
  · rw [hfin.down] at hdown
    cases hdown

lemma Sound.work (h : Sound j ls rs t) (refused : ℕ → Bool) :
    Sound j ls rs (t.work j refused) := by
  fun_induction Tcb.work j refused t with
  | case1 refused t hdown hgo ih =>
    obtain ⟨out, hlive⟩ := h.live hdown
    exact ih (hlive.pass (refused 0))
  | case2 refused t hdown hgo =>
    obtain ⟨out, hlive⟩ := h.live hdown
    exact hlive.pass (refused 0)
  | case3 => exact h

/-! ### Children and parent -/

structure Extends (c d : Child α) : Prop where
  queue : ∃ e, d.queue = c.queue ++ e
  all : d.queue ++ d.pending = c.queue ++ c.pending
  requested : d.requested = c.requested
  cancelled : d.cancelled = c.cancelled

lemma Extends.refl (c : Child α) : Extends c c := ⟨⟨[], (List.append_nil _).symm⟩, rfl, rfl, rfl⟩

lemma Child.deliver_extends (c : Child α) : Extends c c.deliver := by
  unfold Child.deliver
  split
  next => exact .refl c
  next e rest hpend =>
    split_ifs
    · exact ⟨⟨[e], rfl⟩, by simp [hpend], rfl, rfl⟩
    · exact .refl c

variable {c d : Child α}

lemma Extends.feeds {xs : List α} (h : Extends c d) (hc : c.Feeds xs) : d.Feeds xs :=
  h.all.trans hc

lemma Extends.head {x : Entry α} (h : Extends c d) (hc : ∃ q, c.queue = x :: q) :
    ∃ q, d.queue = x :: q := by
  obtain ⟨e, he⟩ := h.queue
  obtain ⟨q, hq⟩ := hc
  exact ⟨q ++ e, by rw [he, hq]; rfl⟩

lemma Extends.two {x y : Entry α} {q : List (Entry α)} (h : Extends c d)
    (hc : c.queue = x :: y :: q) : ∃ q, d.queue = x :: y :: q := by
  obtain ⟨e, he⟩ := h.queue
  exact ⟨q ++ e, by rw [he, hc]; rfl⟩

section Arrivals
variable {J : List (α × Option β)} {left : Child α} {right : Child β} {free : ℕ} {l : α}

abbrev Tcb.feed (t : Tcb α β) (left : Child α) (right : Child β) (free : ℕ) : Tcb α β :=
  { t with left := left, right := right, free := free }

omit [LinearOrder κ] in
lemma NoRepeat.extend (h : NoRepeat j t l) (hl : Extends t.left left) :
    NoRepeat j (t.feed left right free) l := by
  obtain ⟨hla, x, q, hq, hne⟩ | ⟨hla, q, hq⟩ := h
  · obtain ⟨q', hq'⟩ := hl.two hq
    exact .inl ⟨hla, x, q', hq', hne⟩
  · obtain ⟨q', hq'⟩ := hl.two hq
    exact .inr ⟨hla, q', hq'⟩

omit [LinearOrder κ] in
lemma MayRepeat.extend (h : MayRepeat j t l) (hl : Extends t.left left) :
    MayRepeat j (t.feed left right free) l := by
  obtain hla | ⟨hla, x, q, hq, heq⟩ := h
  · exact .inl hla
  · obtain ⟨q', hq'⟩ := hl.two hq
    exact .inr ⟨hla, x, q', hq', heq⟩

variable {xs : List α} {ys : List β}

lemma Feeds.extend (h : Feeds j t.left t.right xs ys)
    (hl : Extends t.left left) (hr : Extends t.right right) : Feeds j left right xs ys :=
  ⟨hl.feeds h.left, hr.feeds h.right, h.sortedLeft, h.sortedRight⟩

omit [LinearOrder κ] in
lemma Extends.row {c d : Child β} {k : κ} (h : Extends c d)
    (hc : ∃ r q, c.queue = .row r :: q ∧ j.rightKey r = k) :
    ∃ r q, d.queue = .row r :: q ∧ j.rightKey r = k := by
  obtain ⟨r, q, hq, hkey⟩ := hc
  obtain ⟨q', hq'⟩ := h.head ⟨q, hq⟩
  exact ⟨r, q', hq', hkey⟩

section
variable (hl : Extends t.left left) (hr : Extends t.right right)
include hl hr

lemma AtRight.extend (h : AtRight j J out t l xs ys) :
    AtRight j J out (t.feed left right free) l xs ys :=
  ⟨h.feeds.extend hl hr, hl.head h.head, h.saved, h.look.imp id fun hno => hno.extend hl, h.todo⟩

lemma Saving.extend (h : Saving j J out t l xs ys) :
    Saving j J out (t.feed left right free) l xs ys :=
  ⟨h.feeds.extend hl hr, hl.head h.head, h.matched, h.look.extend hl, h.same, h.above,
    fun hs => hr.row (h.known hs), h.first, h.prev, h.order, h.todo⟩

lemma Replaying.extend {ys ms : List β} (h : Replaying j J out t l xs ys ms) :
    Replaying j J out (t.feed left right free) l xs ys ms :=
  ⟨h.feeds.extend hl hr, hl.head h.head, h.look.extend hl, h.open_, h.nonempty, h.same, h.above,
    h.todo⟩

lemma Ending.extend (h : Ending j J out t l xs ys) :
    Ending j J out (t.feed left right free) l xs ys := by
  refine ⟨h.feeds.extend hl hr, hl.head h.head, h.group, ?_, h.todo⟩
  obtain hla | ⟨hno, hnone⟩ | ⟨hla, hne, hsame, x, q, hx, hkey⟩ := h.look
  · exact .inl hla
  · exact .inr (.inl ⟨hno.extend hl, hnone⟩)
  · obtain ⟨q', hq'⟩ := hl.two hx
    exact .inr (.inr ⟨hla, hne, hsame, x, q', hq', hkey⟩)

lemma AtLeft.extend (h : AtLeft j J out t xs ys) :
    AtLeft j J out (t.feed left right free) xs ys :=
  ⟨h.feeds.extend hl hr, h.matched, h.look, h.dups, h.group, h.todo⟩

lemma Fresh.extend (h : Fresh j J out t xs ys) :
    Fresh j J out (t.feed left right free) xs ys :=
  ⟨h.feeds.extend hl hr, h.matched, h.look, h.dupPool, h.tspace, h.todo⟩

lemma Phase.extend (h : Phase j J out t) :
    Phase j J out (t.feed left right free) := by
  unfold Phase at h ⊢
  dsimp only
  split at h
  case h_1 =>
    obtain ⟨hnil, xs, ys, hat⟩ := h
    exact ⟨hnil, xs, ys, hat.extend hl hr⟩
  case h_2 =>
    obtain ⟨xs, ys, hat⟩ := h
    exact ⟨xs, ys, hat.extend hl hr⟩
  case h_3 =>
    obtain ⟨xs, ys, hat, hts⟩ := h
    exact ⟨xs, ys, hat.extend hl hr, hts⟩
  case h_5 =>
    obtain ⟨l, xs, ys, hat, hno, hrow⟩ := h
    exact ⟨l, xs, ys, hat.extend hl hr, hno.extend hl, hr.row hrow⟩
  case h_8 =>
    split at h
    · obtain ⟨xs, ys, hat⟩ := h
      exact ⟨xs, ys, hat.extend hl hr⟩
    · obtain ⟨l, xs, ys, hat⟩ := h
      exact ⟨l, xs, ys, hat.extend hl hr⟩
  case h_9 =>
    obtain ⟨l, xs, ys, hat, hts⟩ := h
    exact ⟨l, xs, ys, hat.extend hl hr, hts⟩
  case h_4 | h_6 | h_7 | h_10 | h_11 =>
    obtain ⟨l, xs, ys, hat⟩ := h
    exact ⟨l, xs, ys, hat.extend hl hr⟩
  next =>
    obtain ⟨hover, ⟨xs, hxs⟩, ys, hys⟩ := h
    exact ⟨hover, ⟨xs, hl.feeds hxs⟩, ys, hr.feeds hys⟩
  next =>
    obtain ⟨hover, hleft, hrt⟩ := h
    exact ⟨hover, hl.head hleft, hr.head hrt⟩
  next => exact h

lemma Live.extend (h : Live j J out t) :
    Live j J out (t.feed left right free) :=
  { h with
    cancelled := fun hc => h.cancelled (by rwa [hl.cancelled, hr.cancelled] at hc)
    asked := fun hn => by rw [hl.requested, hr.requested]; exact h.asked hn
    phase := h.phase.extend hl hr }

end

lemma Child.Feeds.giveUp {c : Child α} (h : c.Feeds xs) : ∃ ys, c.giveUp.Feeds ys := by
  unfold Child.giveUp
  split_ifs with hgive
  · obtain ⟨ys, hys⟩ := SplitTop.rows_before_end h hgive.2
    exact ⟨ys, by rw [Child.Feeds, hys]⟩
  · exact ⟨xs, h⟩

end Arrivals

end Trafodion.MergeJoin
