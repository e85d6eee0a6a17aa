import Trafodion.MergeJoinRows

/-!
# The phases of a merge join

For each step of the operator, what its queues, its saved rows and its look-ahead say about the rows
that are still to be sent. One lemma for each step shows which phase follows.
-/
namespace Trafodion.MergeJoin

open List Tcb Tdb

open SplitTop (Entry)

variable {α β κ : Type} [LinearOrder κ]

variable (j : Tdb α β κ) (t : Tcb α β)

def Tcb.saved : List β := t.dupPool.rows ++ t.tspace.rows

def Child.Feeds (c : Child α) (xs : List α) : Prop := c.queue ++ c.pending = xs.map .row ++ [.noData]

structure Feeds (j : Tdb α β κ) (left : Child α) (right : Child β) (ls : List α) (rs : List β) :
    Prop where
  left : left.Feeds ls
  right : right.Feeds rs
  sortedLeft : ls.Pairwise fun x y => j.leftKey x ≤ j.leftKey y
  sortedRight : rs.Pairwise fun x y => j.rightKey x ≤ j.rightKey y

structure Group (j : Tdb α β κ) (ds : List β) (ls : List α) (rs : List β) : Prop where
  same : ∀ d ∈ ds, ∀ e ∈ ds, j.rightKey d = j.rightKey e
  right : ∀ d ∈ ds, ∀ r ∈ rs, j.rightKey d < j.rightKey r
  left : ∀ d ∈ ds, ∀ l ∈ ls, j.rightKey d ≤ j.leftKey l

def NoRepeat (l : α) : Prop :=
  t.lookAheadState = .different ∧
    (∃ x q, t.left.queue = .row l :: .row x :: q ∧ j.leftKey x ≠ j.leftKey l) ∨
  t.lookAheadState = .noData ∧ ∃ q, t.left.queue = .row l :: .noData :: q

def MayRepeat (l : α) : Prop :=
  t.lookAheadState = .unchecked ∨
  t.lookAheadState = .duplicate ∧
    ∃ x q, t.left.queue = .row l :: .row x :: q ∧ j.leftKey x = j.leftKey l

section Phases
variable (j : Tdb α β κ) (J : List (α × Option β)) (out : List (α × Option β)) (t : Tcb α β)

structure AtLeft (ls : List α) (rs : List β) : Prop where
  feeds : Feeds j t.left t.right ls rs
  matched : t.outerMatched = false
  look : t.lookAheadState = .unchecked
  dups : t.dupPool.rest = t.dupPool.rows
  group : Group j t.saved ls rs
  todo : out ++ j.join ls (t.saved ++ rs) = J

structure AtRight (l : α) (ls : List α) (rs : List β) : Prop where
  feeds : Feeds j t.left t.right (l :: ls) rs
  head : ∃ q, t.left.queue = .row l :: q
  saved : t.saved = []
  look : t.lookAheadState = .unchecked ∧ t.outerMatched = false ∨ NoRepeat j t l
  todo : out ++ (j.rowRest l t.outerMatched (j.matching l rs) ++ j.join ls rs) = J

structure Saving (l : α) (ls : List α) (rs : List β) : Prop where
  feeds : Feeds j t.left t.right (l :: ls) rs
  head : ∃ q, t.left.queue = .row l :: q
  matched : t.outerMatched = false
  look : MayRepeat j t l
  same : ∀ d ∈ t.saved, j.rightKey d = j.leftKey l
  above : ∀ r ∈ rs, j.leftKey l ≤ j.rightKey r
  known : t.savedRetCode = true → ∃ r q, t.right.queue = .row r :: q ∧ j.rightKey r = j.leftKey l
  first : t.saveFirstDupAtp = true → t.savedRetCode = true ∧ t.saved = []
  prev : t.saveFirstDupAtp = false → ∃ p ∈ t.saved, t.prevRight = some p
  order : t.step = .saveDupRight → t.tspace.rows = []
  todo : out ++ j.join (l :: ls) (t.saved ++ rs) = J

/-- The saved rows are joined with the left row; `ms` are those still to be joined. -/
structure Replaying (l : α) (ls : List α) (rs : List β) (ms : List β) : Prop where
  feeds : Feeds j t.left t.right (l :: ls) rs
  head : ∃ q, t.left.queue = .row l :: q
  look : MayRepeat j t l
  open_ : j.isSemiJoin = true → t.outerMatched = false
  nonempty : t.saved ≠ []
  same : ∀ d ∈ t.saved, j.rightKey d = j.leftKey l
  above : ∀ r ∈ rs, j.leftKey l < j.rightKey r
  todo : out ++ (j.rowRest l t.outerMatched ms ++ j.join ls (t.saved ++ rs)) = J

structure Ending (l : α) (ls : List α) (rs : List β) : Prop where
  feeds : Feeds j t.left t.right (l :: ls) rs
  head : ∃ q, t.left.queue = .row l :: q
  group : Group j t.saved ls rs
  look : t.lookAheadState = .unchecked ∨ NoRepeat j t l ∧ t.saved = [] ∨
    t.lookAheadState = .duplicate ∧ t.saved ≠ [] ∧ (∀ d ∈ t.saved, j.rightKey d = j.leftKey l) ∧
      ∃ x q, t.left.queue = .row l :: .row x :: q ∧ j.leftKey x = j.leftKey l
  todo : out ++ (j.unmatched t.outerMatched l ++ j.join ls (t.saved ++ rs)) = J

structure Over : Prop where
  sent : out <+: J
  enough : out = J ∨ ∃ n, j.request = .getN n ∧ n ≤ out.length

structure Fresh (ls : List α) (rs : List β) : Prop where
  feeds : Feeds j t.left t.right ls rs
  matched : t.outerMatched = false
  look : t.lookAheadState = .unchecked
  dupPool : t.dupPool = .discard
  tspace : t.tspace = .discard
  todo : out ++ j.join ls rs = J

def Phase : Prop :=
  match t.step with
  | .uninitialized => out = [] ∧ ∃ ls rs, Fresh j J out t ls rs
  | .empty => ∃ ls rs, Fresh j J out t ls rs
  | .getLeft => ∃ ls rs, AtLeft j J out t ls rs ∧
      (t.tspace.rows ≠ [] → t.tspace.rest = t.tspace.rows)
  | .getRight => ∃ l ls rs, AtRight j J out t l ls rs
  | .returnOneRow => ∃ l ls rs, AtRight j J out t l ls rs ∧ NoRepeat j t l ∧
      ∃ r q, t.right.queue = .row r :: q ∧ j.rightKey r = j.leftKey l
  | .saveDupRight => ∃ l ls rs, Saving j J out t l ls rs
  | .saveDupRightTspace => ∃ l ls rs, Saving j J out t l ls rs
  | .rewindOverflow =>
    match t.postIoStep with
    | .getLeft => ∃ ls rs, AtLeft j J out t ls rs
    | .returnSavedDupRows =>
      ∃ l ls rs, Replaying j J out t l ls rs (t.dupPool.rest ++ t.tspace.rows)
  | .returnSavedDupRows =>
    ∃ l ls rs, Replaying j J out t l ls rs (t.dupPool.rest ++ t.tspace.rows) ∧
      (t.tspace.rows ≠ [] → t.tspace.rest = t.tspace.rows)
  | .returnOverflowRows => ∃ l ls rs, Replaying j J out t l ls rs t.tspace.rest
  | .finishLeft => ∃ l ls rs, Ending j J out t l ls rs
  | .cancel => Over j J out ∧ (∃ ls, t.left.Feeds ls) ∧ ∃ rs, t.right.Feeds rs
  | .done => Over j J out ∧ (∃ q, t.left.queue = .noData :: q) ∧ ∃ q, t.right.queue = .noData :: q
  | .doneNeverStarted => Over j J out

def NotStarted (s : MjStep) : Prop := s = .uninitialized ∨ s = .empty ∨ s = .doneNeverStarted

/-- A request under way that has sent `out`. -/
structure Live : Prop where
  down : t.down = true
  noFault : t.fault = false
  up : t.up = out.map some
  count : t.matchCount = out.length
  within : ∀ n, j.request = .getN n → out.length ≤ n
  cancelled : t.left.cancelled = true ∨ t.right.cancelled = true → t.step = .cancel ∨ t.step = .done
  asked : ¬NotStarted t.step → t.left.requested = true ∧ t.right.requested = true
  phase : Phase j J out t

end Phases

variable {j : Tdb α β κ} {J out : List (α × Option β)} {t : Tcb α β} {c : Child α} {xs : List α}

lemma Child.Feeds.nonempty (h : c.Feeds xs) (hq : c.queue = []) : c.pending ≠ [] := by
  intro hp
  rw [Child.Feeds, hq, hp] at h
  simp at h

variable {q : List (Entry α)}

lemma Child.Feeds.tail {x : α} {e : Entry α} (h : c.Feeds (x :: xs)) (hq : c.queue = e :: q) :
    e = .row x ∧ ({ c with queue := q } : Child α).Feeds xs := by
  rw [Child.Feeds, hq] at h
  simpa [Child.Feeds] using h

lemma Child.Feeds.ended (h : c.Feeds xs) (hq : c.queue = .noData :: q) : xs = [] := by
  cases xs with
  | nil => rfl
  | cons x xs => cases (h.tail hq).1

lemma Child.Feeds.row {x : α} (h : c.Feeds xs) (hq : c.queue = .row x :: q) :
    ∃ ys, xs = x :: ys ∧ ({ c with queue := q } : Child α).Feeds ys := by
  cases xs with
  | nil =>
    rw [Child.Feeds, hq] at h
    simp at h
  | cons y ys =>
    obtain ⟨heq, htail⟩ := h.tail hq
    cases heq
    exact ⟨ys, rfl, htail⟩

structure Base (j : Tdb α β κ) (out : List (α × Option β)) (t : Tcb α β) : Prop where
  down : t.down = true
  noFault : t.fault = false
  up : t.up = out.map some
  count : t.matchCount = out.length
  within : ∀ n, j.request = .getN n → out.length ≤ n
  fresh : ¬(t.left.cancelled = true ∨ t.right.cancelled = true)
  asked : t.left.requested = true ∧ t.right.requested = true

open Base

lemma Live.base (h : Live j J out t) (hcan : ¬(t.step = .cancel ∨ t.step = .done))
    (hst0 : ¬NotStarted t.step) : Base j out t :=
  ⟨h.down, h.noFault, h.up, h.count, h.within, fun hc => hcan (h.cancelled hc), h.asked hst0⟩

lemma Base.live (h : Base j out t) (hph : Phase j J out t) : Live j J out t :=
  ⟨h.down, h.noFault, h.up, h.count, h.within, fun hc => absurd hc h.fresh, fun _ => h.asked, hph⟩

lemma Child.Feeds.ite (h : c.Feeds xs) (b : Bool) : (if b then c else c.cancel).Feeds xs := by
  split_ifs
  · exact h
  · exact h

lemma Child.requested_ite (c : Child α) (b : Bool) :
    (if b then c else c.cancel).requested = c.requested := by
  split_ifs <;> rfl

omit [LinearOrder κ] in
lemma Base.send {more : List (α × Option β)} (h : Base j out t)
    (hroom : ∀ n, j.request = .getN n → out.length < n) (hmore : more.length ≤ 1) {u : Tcb α β}
    (hdown : u.down = t.down) (hfault : u.fault = t.fault)
    (hcanc : u.left.cancelled = t.left.cancelled ∧ u.right.cancelled = t.right.cancelled)
    (hasked : u.left.requested = t.left.requested ∧ u.right.requested = t.right.requested)
    (hup : u.up = (out ++ more).map some) (hcnt : u.matchCount = (out ++ more).length) :
    Base j (out ++ more) u := by
  refine ⟨hdown.trans h.down, hfault.trans h.noFault, hup, hcnt, fun n hn => ?_, ?_, ?_⟩
  · have := hroom n hn
    rw [length_append]
    omega
  · rw [hcanc.1, hcanc.2]
    exact h.fresh
  · rw [hasked.1, hasked.2]
    exact h.asked

lemma Tcb.saved_eq_nil : t.saved = [] ↔ t.dupPool.rows = [] ∧ t.tspace.rows = [] :=
  append_eq_nil_iff

lemma Tcb.noSavedDups_iff : t.noSavedDups = true ↔ t.saved = [] := by
  simp [noSavedDups, saved_eq_nil]

lemma Group.nil (ls : List α) (rs : List β) : Group j [] ls rs :=
  ⟨by simp, by simp, by simp⟩

variable {l : α}

lemma matching_saved {ds rs : List β} (hds : ∀ d ∈ ds, j.rightKey d = j.leftKey l)
    (hrs : ∀ r ∈ rs, j.leftKey l < j.rightKey r) : j.matching l (ds ++ rs) = ds := by
  rw [matching_append, matching_all hds, matching_nil fun r hr => (hrs r hr).ne',
    append_nil]

lemma Tcb.currentDup_eq (hdups : t.dupPool.rest = t.dupPool.rows)
    (htsp : t.tspace.rows ≠ [] → t.tspace.rest = t.tspace.rows) (hsav : t.saved ≠ []) :
    t.currentDup = t.saved.head? := by
  unfold currentDup
  unfold saved at hsav ⊢
  by_cases hrows : t.dupPool.rows = []
  · rw [hrows, nil_append] at hsav
    rw [if_pos hrows, hrows, nil_append, htsp hsav]
  · rw [if_neg hrows, hdups, head?_append_of_ne_nil _ hrows]

variable {ls : List α}

lemma Replaying.of_eq {rs ms ms' : List β}
    (h : Replaying j J out t l ls rs ms) (hms : ms = ms') : Replaying j J out t l ls rs ms' := hms ▸ h

lemma Base.replay {rs : List β} (hbase : Base j out t)
    (h : Replaying j J out t l ls rs t.saved) : Live j J out (t.rewindTo .returnSavedDupRows) := by
  unfold rewindTo
  split_ifs with htsp
  · refine live { hbase with } ?_
    exact ⟨l, ls, rs, { h with }, fun hne => absurd htsp hne⟩
  · refine live { hbase with } ?_
    exact ⟨l, ls, rs, h.feeds, h.head, h.look, h.open_, h.nonempty, h.same, h.above, h.todo⟩

/-! ### Left rows -/

lemma Base.cancelRight (h : Base j out t) {ls : List α} {rs ds : List β} {lq : List (Entry α)}
    (hfeeds : Feeds j t.left t.right ls rs) (hq : t.left.queue = .noData :: lq)
    (htodo : out ++ j.join ls ds = J) : Live j J out { t with
      step := .cancel
      right := if j.parallel then t.right else t.right.cancel } := by
  rw [hfeeds.left.ended hq] at htodo
  have hout : out = J := by simpa [join] using htodo
  exact ⟨h.down, h.noFault, h.up, h.count, h.within, fun _ => .inl rfl,
    fun _ => ⟨h.asked.1, (t.right.requested_ite _).trans h.asked.2⟩,
    ⟨⟨hout ▸ prefix_refl _, .inl hout⟩, ⟨_, hfeeds.left⟩, _, hfeeds.right.ite _⟩⟩

lemma Live.getLeft (h : Live j J out t) (hstep : t.step = .getLeft) :
    Live j J out (t.getLeft j).1 := by
  have hph := h.phase
  simp only [Phase, hstep] at hph
  obtain ⟨ls, rs, hat, htsp⟩ := hph
  have hbase := h.base (by simp [hstep]) (by simp [NotStarted, hstep])
  unfold Tcb.getLeft
  split
  next => exact h
  next hq => exact hbase.cancelRight hat.feeds hq hat.todo
  next l lq hq =>
    obtain ⟨ls', rfl, -⟩ := hat.feeds.left.row hq
    have htodo := hat.todo
    rw [join_cons] at htodo
    split_ifs with hnone
    · rw [noSavedDups_iff] at hnone
      rw [hnone, nil_append, ← hat.matched] at htodo
      exact live { hbase with }
        ⟨l, ls', rs, hat.feeds, ⟨lq, hq⟩, hnone, .inl ⟨hat.look, hat.matched⟩, htodo⟩
    · rw [noSavedDups_iff] at hnone
      obtain ⟨d, ds, hsav⟩ := exists_cons_of_ne_nil hnone
      rw [currentDup_eq hat.dups htsp hnone, hsav, head?_cons]
      dsimp only
      have hd : d ∈ t.saved := by simp [hsav]
      split_ifs with hkey
      · have hsame : ∀ e ∈ t.saved, j.rightKey e = j.leftKey l := fun e he =>
          (hat.group.same e he d hd).trans hkey.symm
        have habv : ∀ r ∈ rs, j.leftKey l < j.rightKey r := fun r hr =>
          hkey ▸ hat.group.right d hd r hr
        have hms : t.dupPool.rest ++ t.tspace.rows = t.saved := by rw [hat.dups]; rfl
        rw [matching_saved hsame habv, ← hat.matched] at htodo
        have hreplay : Replaying j J out { t with step := .returnSavedDupRows } l ls' rs t.saved :=
          ⟨hat.feeds, ⟨lq, hq⟩, .inl hat.look, fun _ => hat.matched, hnone, hsame, habv, htodo⟩
        exact live { hbase with } ⟨l, ls', rs, hreplay.of_eq hms.symm, htsp⟩
      · have hlt : j.rightKey d < j.leftKey l :=
          lt_of_le_of_ne (hat.group.left d hd l mem_cons_self) (Ne.symm hkey)
        have hne : ∀ x ∈ l :: ls', ∀ e ∈ t.saved, j.rightKey e ≠ j.leftKey x := by
          intro x hx e he
          rw [hat.group.same e he d hd]
          obtain rfl | hx := mem_cons.1 hx
          · exact hlt.ne
          · exact (lt_of_lt_of_le hlt (rel_of_pairwise_cons hat.feeds.sortedLeft hx)).ne
        have hjoin := hat.todo
        rw [join_append_left hne, join_cons, ← hat.matched] at hjoin
        exact live { hbase with }
          ⟨l, ls', rs, hat.feeds, ⟨lq, hq⟩, rfl, .inl ⟨hat.look, hat.matched⟩, hjoin⟩

/-! ### Right rows -/

lemma NoRepeat.below {rs : List β} (h : NoRepeat j t l)
    (hfeeds : Feeds j t.left t.right (l :: ls) rs) : ∀ x ∈ ls, j.leftKey l < j.leftKey x := by
  intro x hx
  obtain ⟨-, y, q, hq, hne⟩ | ⟨-, q, hq⟩ := h
  · obtain ⟨-, htail⟩ := hfeeds.left.tail hq
    obtain ⟨ls', rfl, -⟩ := htail.row rfl
    have hle := rel_of_pairwise_cons hfeeds.sortedLeft (mem_cons_self (a := y) (l := ls'))
    have hlt : j.leftKey l < j.leftKey y := lt_of_le_of_ne hle (Ne.symm hne)
    obtain rfl | hx := mem_cons.1 hx
    · exact hlt
    · exact lt_of_lt_of_le hlt (rel_of_pairwise_cons (pairwise_cons.1 hfeeds.sortedLeft).2 hx)
  · obtain ⟨-, htail⟩ := hfeeds.left.tail hq
    rw [htail.ended rfl] at hx
    cases hx

lemma lookAhead_spec {lq : List (Entry α)} {r : β} (hq : t.left.queue = .row l :: lq)
    (hkey : j.leftKey l = j.rightKey r)
    (hlook : t.lookAheadState = .unchecked ∧ t.outerMatched = false ∨ NoRepeat j t l) :
    ∃ la, t.lookAhead j lq.head? r = la ∧
      ((la = .duplicate ∨ la = .unchecked) ∧ t.outerMatched = false ∧
          MayRepeat j { t with lookAheadState := la } l ∨
        ¬(la = .duplicate ∨ la = .unchecked) ∧ NoRepeat j { t with lookAheadState := la } l) := by
  unfold lookAhead
  obtain ⟨hunchecked, hmat⟩ | hno := hlook
  · rw [if_pos hunchecked]
    cases lq with
    | nil => exact ⟨.unchecked, rfl, .inl ⟨.inr rfl, hmat, .inl rfl⟩⟩
    | cons e q =>
      cases e with
      | row x =>
        by_cases hx : j.leftKey x = j.rightKey r
        · exact ⟨.duplicate, if_pos hx, .inl ⟨.inl rfl, hmat,
            .inr ⟨rfl, x, q, hq, hx.trans hkey.symm⟩⟩⟩
        · exact ⟨.different, if_neg hx, .inr ⟨by simp,
            .inl ⟨rfl, x, q, hq, fun h => hx (h.trans hkey)⟩⟩⟩
      | noData => exact ⟨.noData, rfl, .inr ⟨by simp, .inr ⟨rfl, q, hq⟩⟩⟩
  · have hst : t.lookAheadState = .different ∨ t.lookAheadState = .noData :=
      hno.imp And.left And.left
    refine ⟨t.lookAheadState, if_neg ?_, .inr ⟨?_, hno⟩⟩
    · rcases hst with h | h <;> simp [h]
    · rcases hst with h | h <;> simp [h]

lemma Live.getRight (h : Live j J out t) (hstep : t.step = .getRight) :
    Live j J out (t.getRight j).1 := by
  have hph := h.phase
  simp only [Phase, hstep] at hph
  obtain ⟨l, ls, rs, hat⟩ := hph
  have hbase := h.base (by simp [hstep]) (by simp [NotStarted, hstep])
  have hsav := hat.saved
  have hending : j.matching l rs = [] → Live j J out { t with step := .finishLeft } := by
    intro hnone
    refine live { hbase with } ?_
    refine ⟨l, ls, rs, hat.feeds, hat.head, ?_, ?_, ?_⟩
    · exact hsav.symm ▸ Group.nil ls rs
    · exact hat.look.elim (fun hl => .inl hl.1) fun hno => .inr (.inl ⟨hno, hsav⟩)
    · have htodo := hat.todo
      rw [hnone] at htodo
      exact (congrArg (fun ds => out ++ (j.unmatched t.outerMatched l ++ j.join ls (ds ++ rs)))
        hsav).trans htodo
  unfold Tcb.getRight
  split
  next => exact h
  next hr =>
    have hnil := hat.feeds.right.ended hr
    by_cases hkind : j.kind = .left ∨ j.kind = .anti
    · rw [if_pos hkind]
      exact hending (by rw [hnil]; rfl)
    · rw [if_neg hkind]
      have htodo := hat.todo
      rw [hnil, join_nil_right hkind] at htodo
      have hout : out = J := by simpa [matching, rowRest, unmatched, hkind] using htodo
      exact ⟨h.down, h.noFault, h.up, h.count, h.within, fun _ => .inl rfl,
      fun _ => ⟨(t.left.requested_ite _).trans hbase.asked.1, hbase.asked.2⟩,
        ⟨⟨hout ▸ prefix_refl _, .inl hout⟩, ⟨_, hat.feeds.left.ite _⟩, _, hat.feeds.right⟩⟩
  next r rq hr =>
    obtain ⟨rs', rfl, hrt⟩ := hat.feeds.right.row hr
    have hsort := pairwise_cons.1 hat.feeds.sortedRight
    obtain ⟨lq, hq⟩ := hat.head
    simp only [hq]
    by_cases heq : j.leftKey l = j.rightKey r
    · rw [if_pos heq]
      obtain ⟨la, hla, hspec⟩ := lookAhead_spec hq heq hat.look
      unfold matchRight
      rw [hla]
      obtain ⟨hrep, hspec⟩ | ⟨hrep, hspec⟩ := hspec
      · rw [if_pos hrep]
        refine live { hbase with } ?_
        have htodo := hat.todo
        rw [hspec.1, ← join_cons] at htodo
        refine ⟨l, ls, r :: rs', hat.feeds, ⟨lq, hq⟩, hspec.1, hspec.2, fun d hd => ?_, fun x hx => ?_,
          fun _ => ⟨r, rq, hr, heq.symm⟩, fun _ => ⟨rfl, hsav⟩, fun hfls => ?_,
          fun _ => (saved_eq_nil.1 hsav).2, ?_⟩
        · have hnil : d ∈ t.saved := hd
          rw [hsav] at hnil
          cases hnil
        · obtain rfl | hx := mem_cons.1 hx
          · exact heq.le
          · exact heq.le.trans (hsort.1 x hx)
        · cases hfls
        · exact (congrArg (fun ds => out ++ j.join (l :: ls) (ds ++ r :: rs')) hsav).trans htodo
      · rw [if_neg hrep]
        refine live { hbase with } ?_
        exact ⟨l, ls, r :: rs', ⟨hat.feeds, ⟨lq, hq⟩, hsav, .inr hspec, hat.todo⟩, hspec,
          r, rq, hr, heq.symm⟩
    · rw [if_neg heq]
      by_cases hlt : j.leftKey l < j.rightKey r
      · rw [if_pos hlt]
        exact hending (matching_nil (forall_mem_cons.2
          ⟨hlt.ne', fun x hx => (lt_of_lt_of_le hlt (hsort.1 x hx)).ne'⟩))
      · rw [if_neg hlt]
        have hgt : j.rightKey r < j.leftKey l := lt_of_le_of_ne (not_lt.1 hlt) (Ne.symm heq)
        refine live { hbase with } ?_
        have htodo := hat.todo
        rw [matching_cons_ne hgt.ne, join_cons_right fun x hx =>
          (lt_of_lt_of_le hgt (rel_of_pairwise_cons hat.feeds.sortedLeft hx)).ne] at htodo
        simp only [Phase, hstep]
        exact ⟨l, ls, rs', ⟨hat.feeds.left, hrt, hat.feeds.sortedLeft, hsort.2⟩, ⟨lq, hq⟩,
          hsav, hat.look, htodo⟩

end Trafodion.MergeJoin
