import Trafodion.MergeJoinRun

/-!
# Every run of a merge join

Children that end early, the rounds in which the request is answered, and the theorem about all
runs.
-/
namespace Trafodion.MergeJoin

open List MergeJoin Runs Tcb

attribute [local simp] NotStarted

variable {α β κ : Type}

def MayGiveUp (c d : Child α) : Prop := d = c ∨ d = c.giveUp

variable {c d : Child α}

lemma MayGiveUp.frame (h : MayGiveUp c d) : ∃ p, d = { c with pending := p } := by
  obtain rfl | rfl := h
  · exact ⟨d.pending, rfl⟩
  · unfold Child.giveUp
    split_ifs
    · exact ⟨_, rfl⟩
    · exact ⟨c.pending, rfl⟩

lemma MayGiveUp.feeds {xs : List α} (h : MayGiveUp c d) (hc : c.Feeds xs) : ∃ ys, d.Feeds ys := by
  obtain rfl | rfl := h
  · exact ⟨xs, hc⟩
  · exact hc.giveUp

lemma MayGiveUp.eq (h : MayGiveUp c d) (hc : c.cancelled ≠ true) : d = c := by
  obtain rfl | rfl := h
  · rfl
  · exact if_neg fun hgive => hc hgive.1

namespace Tcb

/-! ### A pass that returns -/

def Keeps (s t : Tcb α β) : Prop :=
  s.entries < t.entries ∨ s.entries = t.entries ∧ s.rank ≤ t.rank

lemma Keeps.refl (t : Tcb α β) : t.Keeps t := .inr ⟨rfl, le_rfl⟩

lemma Drops.keeps {s t : Tcb α β} (h : s.Drops t) : s.Keeps t := by
  unfold Drops Keeps at *
  omega

lemma Keeps.trans {s t u : Tcb α β} (h : s.Keeps t) (h' : t.Keeps u) : s.Keeps u := by
  unfold Keeps at *
  omega

lemma Keeps.drops {s t u : Tcb α β} (h : s.Keeps t) (h' : t.Drops u) : s.Drops u := by
  unfold Keeps Drops at *
  omega

variable {t : Tcb α β}

lemma cancel_returns (hstep : t.step = .cancel) (hret : t.cancel.2 = false) : t.cancel.1.Keeps t ∧
      (t.left.queue ≠ [] → t.right.queue ≠ [] → t.cancel.1.Drops t) := by
  have hleft := (dropWhile_suffix (l := t.left.queue) isRow).length_le
  have hrt := (dropWhile_suffix (l := t.right.queue) isRow).length_le
  unfold cancel at hret ⊢
  dsimp only at hret ⊢
  split_ifs at hret ⊢ with hwait
  refine ⟨?_, fun hl hr => .inl ?_⟩
  · unfold Keeps
    simp only [entries, rank, hstep]
    omega
  · have hl' := length_pos_iff.2 hl
    have hr' := length_pos_iff.2 hr
    rcases hwait with hnil | hnil
    · rw [hnil] at hleft
      simp only [entries, hnil, length_nil]
      omega
    · rw [hnil] at hrt
      simp only [entries, hnil, length_nil]
      omega

variable [LinearOrder κ]

variable (refused : Bool)

/-- A pass that returns without ending the request has changed nothing, or found something missing. -/
def Waits (s t : Tcb α β) : Prop :=
  s = t ∧ (t.left.queue = [] ∨ t.right.queue = [] ∨ refused = true ∨ t.free = 0) ∨
  s = { t with fault := true }

variable {j : Tdb α β κ}

lemma getLeft_returns (hret : (t.getLeft j).2 = false) : Waits refused (t.getLeft j).1 t := by
  unfold getLeft at hret ⊢
  split at hret
  next hq => exact .inl ⟨rfl, .inl hq⟩
  next => cases hret
  next =>
    split_ifs at hret ⊢
    split at hret
    next => exact .inr rfl
    next => split_ifs at hret

lemma getRight_returns (hret : (t.getRight j).2 = false) : Waits refused (t.getRight j).1 t := by
  unfold getRight at hret ⊢
  split at hret
  next hq => exact .inl ⟨rfl, .inr (.inl hq)⟩
  next => split_ifs at hret
  next =>
    split at hret
    next => split_ifs at hret
    next => exact .inr rfl

variable {refused : Bool}

lemma saveDupRight_returns
    (hret : (t.saveDupRight j refused).2 = false) : Waits refused (t.saveDupRight j refused).1 t := by
  unfold saveDupRight at hret ⊢
  split at hret
  next hq => exact .inl ⟨rfl, .inr (.inl hq)⟩
  next => cases hret
  next =>
    split at hret
    next => exact .inr rfl
    next => split_ifs at hret
    next => cases hret

section

omit [LinearOrder κ]

lemma returnOneRow_returns
    (hret : (t.returnOneRow j refused).2 = false) : Waits refused (t.returnOneRow j refused).1 t := by
  unfold returnOneRow at hret ⊢
  split at hret
  next =>
    split at hret
    next =>
      split_ifs at hret ⊢ with hsemi href
      exact .inl ⟨rfl, .inr (.inr (.inl href))⟩
    next => exact .inr rfl
  next => exact .inr rfl

lemma returnSavedDupRows_returns (refused : Bool)
    (hret : (t.returnSavedDupRows j).2 = false) : Waits refused (t.returnSavedDupRows j).1 t := by
  unfold returnSavedDupRows at hret ⊢
  split at hret
  next =>
    split at hret
    next => split_ifs at hret
    next => exact .inr rfl
  next => cases hret

lemma returnOverflowRows_returns (hret : (t.returnOverflowRows j refused).2 = false) :
    Waits refused (t.returnOverflowRows j refused).1 t := by
  unfold returnOverflowRows at hret ⊢
  split at hret
  next =>
    by_cases href : refused = true
    · rw [if_pos href]
      exact .inl ⟨rfl, .inr (.inr (.inl href))⟩
    · rw [if_neg href] at hret ⊢
      split at hret
      next => split_ifs at hret
      next => exact .inr rfl
  next => cases hret

lemma finishLeft_returns (refused : Bool)
    (hret : (t.finishLeft j).2 = false) : Waits refused (t.finishLeft j).1 t := by
  unfold finishLeft at hret ⊢
  split at hret
  next => cases hret
  next => exact .inr rfl

end

lemma Waits.whenFree {f : Tcb α β → Tcb α β × Bool}
    (hf : (f t).2 = false → Waits refused (f t).1 t) (hret : (t.whenFree f).2 = false) :
    Waits refused (t.whenFree f).1 t := by
  unfold Tcb.whenFree at hret ⊢
  split_ifs at hret ⊢ with hfree
  · exact .inl ⟨rfl, .inr (.inr (.inr hfree))⟩
  · exact hf hret

lemma doStep_returns (hret : (t.doStep j refused).2 = false) :
    (t.doStep j refused).1.down = false ∨ Waits refused (t.doStep j refused).1 t ∧ ¬NotStarted t.step ∨
      t.free = 0 ∧ (t.doStep j refused).1 = t ∨
      (t.doStep j refused).1 = t.cancel.1 ∧ t.step = .cancel ∧ t.cancel.2 = false := by
  unfold doStep at hret ⊢
  split at hret
  next => cases hret
  next => cases hret
  next hs => exact .inr (.inl ⟨getLeft_returns refused hret, by simp [hs]⟩)
  next hs => exact .inr (.inl ⟨getRight_returns refused hret, by simp [hs]⟩)
  next hs => exact .inr (.inl ⟨.whenFree returnOneRow_returns hret, by simp [hs]⟩)
  next hs => exact .inr (.inl ⟨saveDupRight_returns hret, by simp [hs]⟩)
  next hs => exact .inr (.inl ⟨saveDupRight_returns hret, by simp [hs]⟩)
  next => cases hret
  next hs =>
    exact .inr (.inl ⟨.whenFree (returnSavedDupRows_returns refused) hret, by simp [hs]⟩)
  next hs => exact .inr (.inl ⟨.whenFree returnOverflowRows_returns hret, by simp [hs]⟩)
  next hs => exact .inr (.inl ⟨.whenFree (finishLeft_returns refused) hret, by simp [hs]⟩)
  next hs => exact .inr (.inr (.inr ⟨rfl, hs, hret⟩))
  next =>
    unfold whenFree
    split_ifs with hfree
    · exact .inr (.inr (.inl ⟨hfree, rfl⟩))
    · exact .inl rfl
  next =>
    unfold whenFree
    split_ifs with hfree
    · exact .inr (.inr (.inl ⟨hfree, rfl⟩))
    · exact .inl rfl

lemma doStep_keeps (j : Tdb α β κ) (refused : Bool) (t : Tcb α β) :
    (t.doStep j refused).1.down = false ∨ (t.doStep j refused).1.Keeps t := by
  cases hgo : (t.doStep j refused).2 with
  | true => exact .inr (doStep_drops j refused hgo).keeps
  | false =>
    obtain hdown | ⟨⟨heq, -⟩ | heq, -⟩ | ⟨-, heq⟩ | ⟨heq, hs, hret⟩ := doStep_returns hgo
    · exact .inl hdown
    · rw [heq]
      exact .inr (.refl t)
    · rw [heq]
      exact .inr (.inr ⟨rfl, le_rfl⟩)
    · rw [heq]
      exact .inr (.refl t)
    · rw [heq]
      exact .inr (cancel_returns hs hret).1

lemma pass_keeps (j : Tdb α β κ) (refused : Bool) (t : Tcb α β) :
    (t.pass j refused).1.down = false ∨ (t.pass j refused).1.Keeps t := by
  have hlimit : (t.checkLimit j).Keeps t := by
    obtain heq | hdrops := t.checkLimit_drops j
    · rw [heq]
      exact .refl t
    · exact hdrops.keeps
  exact (doStep_keeps j refused (t.checkLimit j)).imp id fun h => h.trans hlimit

lemma work_keeps (j : Tdb α β κ) (refused : ℕ → Bool) (t : Tcb α β) :
    (t.work j refused).down = false ∨ (t.work j refused).Keeps t := by
  fun_induction work j refused t with
  | case1 refused t hdown hgo ih =>
    exact ih.imp id fun h => h.trans (pass_drops j (refused 0) hgo).keeps
  | case2 refused t hdown hgo => exact pass_keeps j (refused 0) t
  | case3 => exact .inr (.refl _)

end Tcb

section Events
variable [LinearOrder κ] {j : Tdb α β κ} {out : List (α × Option β)} {t : Tcb α β}
variable {J : List (α × Option β)}

lemma Live.giveUp (h : Live j J out t) {left : Child α} {right : Child β}
    (hl : MayGiveUp t.left left) (hr : MayGiveUp t.right right) :
    Live j J out { t with left := left, right := right } := by
  by_cases hcanc : t.left.cancelled = true ∨ t.right.cancelled = true
  · have hstep := h.cancelled hcanc
    obtain ⟨p, hp⟩ := hl.frame
    obtain ⟨q, hq⟩ := hr.frame
    have hph := h.phase
    refine { h with cancelled := fun _ => hstep, asked := fun hn => ?_, phase := ?_ }
    · rw [hp, hq]
      exact h.asked hn
    · rcases hstep with hs | hs
      · simp only [Phase, hs] at hph ⊢
        obtain ⟨hover, ⟨xs, hxs⟩, ys, hys⟩ := hph
        exact ⟨hover, hl.feeds hxs, hr.feeds hys⟩
      · simp only [Phase, hs, hp, hq] at hph ⊢
        exact hph
  · rw [not_or] at hcanc
    rw [hl.eq hcanc.1, hr.eq hcanc.2]
    exact h

variable {ls : List α} {rs : List β}

lemma Sound.around (h : Sound j ls rs t) {left : Child α} {right : Child β} {free : ℕ}
    (hlive : ∀ out, Live j (j.join ls rs) out t →
      Live j (j.join ls rs) out { t with left := left, right := right, free := free }) :
    Sound j ls rs { t with left := left, right := right, free := free } := by
  obtain ⟨out, h⟩ | h := h
  · exact .inl ⟨out, hlive out h⟩
  · exact .inr ⟨h.down, h.noFault, h.up⟩

lemma Sound.step (h : Sound j ls rs t) (size : ℕ) (e : Event) :
    Sound j ls rs (step j size t e) := by
  cases e with
  | deliverLeft => exact h.around fun out hlive => hlive.extend t.left.deliver_extends (.refl _)
  | deliverRight => exact h.around fun out hlive => hlive.extend (.refl _) t.right.deliver_extends
  | giveUpLeft => exact h.around fun out hlive => hlive.giveUp (.inr rfl) (.inl rfl)
  | giveUpRight => exact h.around fun out hlive => hlive.giveUp (.inl rfl) (.inr rfl)
  | parentTakes =>
    simp only [MergeJoin.step]
    split_ifs
    · exact h.around fun out hlive => hlive.extend (.refl _) (.refl _)
    · exact h
  | work refused => exact h.work refused

lemma Sound.initial (hls : ls.Pairwise fun x y => j.leftKey x ≤ j.leftKey y)
    (hrs : rs.Pairwise fun x y => j.rightKey x ≤ j.rightKey y) (size : ℕ) :
    Sound j ls rs (initial ls rs size) :=
  .inl ⟨[], rfl, rfl, rfl, rfl, fun _ _ => Nat.zero_le _, by simp [MergeJoin.initial, Child.ofRows],
    fun hn => absurd (.inl rfl) hn, rfl, ls, rs, ⟨rfl, rfl, hls, hrs⟩, rfl, rfl, rfl, rfl, rfl⟩

/-! ### Rounds -/

lemma Sound.noFault (h : Sound j ls rs t) : t.fault = false := by
  obtain ⟨out, hlive⟩ | hfin := h
  · exact hlive.noFault
  · exact hfin.noFault

section
variable (h : Live j (j.join ls rs) out t)
include h

section
variable (hfree : t.free ≠ 0)
  (hqueues : ¬NotStarted t.step → t.left.queue ≠ [] ∧ t.right.queue ≠ [])
include hfree hqueues

/-- With entries in both queues, room for the parent and tuples from the pool, a pass uses something
up. -/
theorem Live.pass_drops : (t.pass j false).1.down = false ∨ (t.pass j false).1.Drops t := by
  have hsnd := h.pass false
  obtain heq | hdrops := t.checkLimit_drops j
  · unfold Tcb.pass at hsnd ⊢
    rw [heq] at hsnd ⊢
    cases hgo : (t.doStep j false).2 with
    | true => exact .inr (Tcb.doStep_drops j false hgo)
    | false =>
      obtain hdown | ⟨⟨-, hwait⟩ | hfault, hst0⟩ | ⟨hfull, -⟩ | ⟨hcan, hs, hret⟩ :=
        Tcb.doStep_returns hgo
      · exact .inl hdown
      · obtain ⟨hl, hr⟩ := hqueues hst0
        simp [hl, hr, hfree] at hwait
      · have hno := hsnd.noFault
        rw [hfault] at hno
        cases hno
      · exact absurd hfull hfree
      · obtain ⟨hl, hr⟩ := hqueues (by simp [hs])
        rw [hcan]
        exact .inr ((Tcb.cancel_returns hs hret).2 hl hr)
  · exact (doStep_keeps j false (t.checkLimit j)).imp id fun hkeeps => hkeeps.drops hdrops

lemma Live.work_drops :
    (t.work j fun _ => false).down = false ∨ (t.work j fun _ => false).Drops t := by
  rw [work, if_pos h.down]
  split_ifs with hgo
  · obtain hdown | hkeeps := work_keeps j (fun _ => false) (t.pass j false).1
    · exact .inl hdown
    · exact .inr (hkeeps.drops (Tcb.pass_drops j false hgo))
  · exact h.pass_drops hfree hqueues

end

lemma Live.sent : out <+: j.answer ls rs := by
  have hjoin : out <+: j.join ls rs := by
    by_cases hdone : t.step = .done ∨ t.step = .doneNeverStarted
    · have hph := h.phase
      rcases hdone with hs | hs
      · simp only [Phase, hs] at hph
        exact hph.1.sent
      · simp only [Phase, hs] at hph
        exact hph.sent
    · rw [not_or] at hdone
      exact (h.feeds hdone.1 hdone.2).1
  unfold Tdb.answer
  split
  next => exact hjoin
  next n hreq => exact prefix_take_iff.2 ⟨hjoin, h.within n hreq⟩

end

def round : List Event := [.deliverLeft, .deliverRight, .parentTakes, .work fun _ => false]

def rounds (n : ℕ) : List Event := (replicate n round).flatten

lemma Child.deliver_queue {c : Child α} {xs : List α} (h : c.Feeds xs) (hasked : c.requested = true) :
    c.deliver.queue ≠ [] := by
  unfold Child.deliver
  split
  next hpend =>
    intro hnil
    exact h.nonempty hnil hpend
  next =>
    rw [if_pos hasked]
    exact append_ne_nil_of_right_ne_nil _ (cons_ne_nil _ _)

lemma Child.deliver_length (c : Child α) :
    c.deliver.queue.length + c.deliver.pending.length = c.queue.length + c.pending.length := by
  rw [← length_append, c.deliver_extends.all, length_append]

/-- **A round** ends the request or uses something up. -/
theorem Live.round_drops (h : Live j (j.join ls rs) out t) {size : ℕ} (hsize : 0 < size) :
    (run (step j size) t round).down = false ∨ (run (step j size) t round).Drops t := by
  have hlive : ∀ free, Live j (j.join ls rs) out
      { t with left := t.left.deliver, right := t.right.deliver, free := free } :=
    fun free => h.extend t.left.deliver_extends t.right.deliver_extends
  obtain ⟨free, hfree, hround⟩ : ∃ free, free ≠ 0 ∧
      run (step j size) t round = work j (fun _ => false)
        { t with left := t.left.deliver, right := t.right.deliver, free := free } := by
    simp only [round, run_cons, run_nil, step]
    split_ifs with hroom
    · exact ⟨_, Nat.succ_ne_zero _, rfl⟩
    · exact ⟨t.free, by omega, rfl⟩
  have hents : entries { t with left := t.left.deliver, right := t.right.deliver, free := free }
      = t.entries := by
    unfold entries
    dsimp only
    rw [t.left.deliver_length, t.right.deliver_length]
  rw [hround]
  refine ((hlive free).work_drops hfree fun hst0 => ?_).imp id fun hdrops => ?_
  · have hasked := h.asked hst0
    by_cases hdone : t.step = .done
    · have hph := h.phase
      simp only [Phase, hdone] at hph
      obtain ⟨q, hq⟩ := t.left.deliver_extends.head hph.2.1
      obtain ⟨q', hq'⟩ := t.right.deliver_extends.head hph.2.2
      exact ⟨by rw [hq]; exact cons_ne_nil _ _, by rw [hq']; exact cons_ne_nil _ _⟩
    · obtain ⟨-, ⟨xs, hxs⟩, ys, hys⟩ := h.feeds hdone fun hnever => hst0 (.inr (.inr hnever))
      exact ⟨Child.deliver_queue hxs hasked.1, Child.deliver_queue hys hasked.2⟩
  · unfold Tcb.Drops at hdrops ⊢
    rw [hents] at hdrops
    exact hdrops

lemma Sound.run (h : Sound j ls rs t) (size : ℕ) (l : List Event) :
    Sound j ls rs (Runs.run (MergeJoin.step j size) t l) :=
  Runs.run_invariant (fun _ e hs => hs.step size e) h l

lemma Sound.rounds {t : Tcb α β} (h : Sound j ls rs t) {size : ℕ} (hsize : 0 < size) :
    ∃ n, Finished j ls rs (Runs.run (MergeJoin.step j size) t (rounds n)) := by
  obtain ⟨out, hlive⟩ | hfin := h
  · have hsnd : Sound j ls rs (Runs.run (MergeJoin.step j size) t round) :=
      Sound.run (.inl ⟨out, hlive⟩) size round
    have hmore : ∃ n, Finished j ls rs (Runs.run (MergeJoin.step j size)
        (Runs.run (MergeJoin.step j size) t round) (MergeJoin.rounds n)) := by
      obtain hdown | hdrops := hlive.round_drops hsize
      · obtain ⟨out', hlive'⟩ | hfin := hsnd
        · rw [hlive'.down] at hdown
          cases hdown
        · exact ⟨0, hfin⟩
      · exact Sound.rounds hsnd hsize
    obtain ⟨n, hn⟩ := hmore
    refine ⟨n + 1, ?_⟩
    rw [MergeJoin.rounds, replicate_succ, flatten_cons, Runs.run_append]
    exact hn
  · exact ⟨0, hfin⟩
termination_by (t.entries, t.rank)
decreasing_by exact hdrops.lex

end Events

/-- **Merge join.** In every run nothing missing is used, what was sent is a beginning of the rows of
the join that were asked for, in order, or all of them and the end of data; and in every state
reached, some number of rounds completes the answer. -/
theorem merge_join_answers [LinearOrder κ] (j : Tdb α β κ) (ls : List α)
    (hls : ls.Pairwise fun x y => j.leftKey x ≤ j.leftKey y) (rs : List β)
    (hrs : rs.Pairwise fun x y => j.rightKey x ≤ j.rightKey y) (size : ℕ) (hsize : 0 < size)
    (l : List Event) :
    let t := run (step j size) (initial ls rs size) l
    t.fault = false ∧
    ((∃ sent, sent <+: j.answer ls rs ∧ t.up = sent.map some) ∨
      t.up = (j.answer ls rs).map some ++ [none]) ∧
    ∃ n, (run (step j size) t (rounds n)).up = (j.answer ls rs).map some ++ [none] := by
  intro t
  have h : Sound j ls rs t := (Sound.initial hls hrs size).run size l
  refine ⟨h.noFault, ?_, ?_⟩
  · obtain ⟨out, hlive⟩ | hfinished := h
    · exact .inl ⟨out, hlive.sent, hlive.up⟩
    · exact .inr hfinished.up
  · obtain ⟨n, hn⟩ := h.rounds hsize
    exact ⟨n, hn.up⟩

def leftJoin : Tdb ℕ ℕ ℕ where
  kind := .left
  leftKey := id
  rightKey := id
  preJoinExpr := none
  postJoinExpr := fun _ _ => true
  parallel := false
  request := .getN 3

/-- The repeated left row is joined with both right rows each time, as far as rows are asked for. -/
theorem leftJoin_answered : ∃ n, (run (step leftJoin 1)
        (run (step leftJoin 1) (initial [1, 2, 2] [2, 2] 1)
          [.work fun _ => false, .deliverLeft, .deliverRight, .work fun _ => true]) (rounds n)).up =
      [some (1, none), some (2, some 2), some (2, some 2), none] :=
  (merge_join_answers leftJoin [1, 2, 2] (by simp [leftJoin]) [2, 2] (by simp [leftJoin]) 1
    Nat.zero_lt_one
    [.work fun _ => false, .deliverLeft, .deliverRight, .work fun _ => true]).2.2

end Trafodion.MergeJoin
