import Trafodion.MergeJoinPhases

/-!
# Returning rows in a merge join

The steps that return rows, save right rows or end the request, and from them one pass through the
loop: it keeps the phases, and sends no row beyond those of the join or those asked for.
-/
namespace Trafodion.MergeJoin

open List Base Tcb Tdb

open SplitTop (Entry)

attribute [local simp] NotStarted Saved.insert prevRight

variable {α β κ : Type} [LinearOrder κ]
variable {j : Tdb α β κ} {J out : List (α × Option β)} {t : Tcb α β}

lemma Live.returnOneRow (h : Live j J out t) (hstep : t.step = .returnOneRow)
    (hroom : ∀ n, j.request = .getN n → out.length < n) (refused : Bool) :
    ∃ out', Live j J out' (t.returnOneRow j refused).1 := by
  have hph := h.phase
  simp only [Phase, hstep] at hph
  obtain ⟨l, ls, rs, hat, hno, r, rq, hr, hkey⟩ := hph
  have hbase := h.base (by simp [hstep]) (by simp [hstep])
  obtain ⟨lq, hq⟩ := hat.head
  obtain ⟨rs', rfl, hrt⟩ := hat.feeds.right.row hr
  have hfeeds : Feeds j t.left { t.right with queue := rq } (l :: ls) rs' :=
    ⟨hat.feeds.left, hrt, hat.feeds.sortedLeft, (pairwise_cons.1 hat.feeds.sortedRight).2⟩
  have htodo := hat.todo
  -- the left row is not repeated, so no later left row matches this right row
  rw [matching_cons_eq hkey, join_cons_right fun x hx => by
    rw [hkey]
    exact (hno.below hat.feeds x hx).ne] at htodo
  simp only [Tcb.returnOneRow, hq, hr]
  by_cases hsemi : j.isSemiJoin = true ∧ t.outerMatched = true
  · rw [if_pos hsemi]
    rw [hsemi.2, rowRest_semi hsemi.1] at htodo
    refine ⟨out, live { hbase with } ?_⟩
    refine ⟨l, ls, rs', hfeeds, ⟨lq, hq⟩, hat.saved, .inr hno, ?_⟩
    rw [hsemi.2, rowRest_semi hsemi.1]
    exact htodo
  · rw [if_neg hsemi]
    by_cases href : refused = true
    · rw [if_pos href]
      exact ⟨out, h⟩
    · rw [if_neg href]
      obtain ⟨m, c, u, f, hrow⟩ := t.returnRow_frame j l r
      have heq := t.returnRow_eq j l r h.up h.count
      rw [hrow] at heq ⊢
      rw [rowRest, if_neg hsemi, append_assoc, ← append_assoc] at htodo
      refine ⟨out ++ j.returned l r, live (hbase.send hroom (j.length_returned_le l r) rfl rfl
        ⟨rfl, rfl⟩ ⟨rfl, rfl⟩ heq.1 heq.2.1) ?_⟩
      refine ⟨l, ls, rs', hfeeds, ⟨lq, hq⟩, hat.saved, .inr hno, ?_⟩
      exact (congrArg (fun m => out ++ j.returned l r ++ (j.rowRest l m _ ++ _)) heq.2.2).trans htodo

/-! ### Saving right rows -/

variable {ls : List α} {rs : List β} {l : α}

lemma Saving.nonempty (h : Saving j J out t l ls rs)
    (hsav : t.savedRetCode = false) : t.saved ≠ [] := by
  have hfst : t.saveFirstDupAtp = false := by
    by_contra hne
    rw [Bool.not_eq_false] at hne
    rw [(h.first hne).1] at hsav
    cases hsav
  obtain ⟨p, hp, -⟩ := h.prev hfst
  exact ne_nil_of_mem hp

lemma Saving.replaying (h : Saving j J out t l ls rs)
    (hne : t.saved ≠ []) (habv : ∀ r ∈ rs, j.leftKey l < j.rightKey r) :
    Replaying j J out t l ls rs t.saved := by
  refine ⟨h.feeds, h.head, h.look, fun _ => h.matched, hne, h.same, habv, ?_⟩
  have htodo := h.todo
  rw [join_cons, matching_saved h.same habv] at htodo
  rw [h.matched]
  exact htodo

variable (r : β) (rq : List (Entry β))

lemma saved_saveRow {place : SavedIn} (hord : place = .dupAtp → t.tspace.rows = []) :
    (t.saveRow r rq place).saved = t.saved ++ [r] := by
  cases place with
  | dupAtp => simp [saved, saveRow, hord rfl]
  | tspaceAtp => simp [saved, saveRow]

lemma prevRight_saveRow (place : SavedIn)
    (hprev : t.saveFirstDupAtp = false → ∃ p ∈ t.saved, t.prevRight = some p) :
    ∃ p, (p ∈ t.saved ∨ p = r) ∧ (t.saveRow r rq place).prevRight = some p := by
  by_cases hfst : t.saveFirstDupAtp = true
  · refine ⟨r, .inr rfl, ?_⟩
    cases place <;> simp [saveRow, hfst]
  · rw [Bool.not_eq_true] at hfst
    obtain ⟨p, hp, hsome⟩ := hprev hfst
    unfold prevRight at hsome
    split at hsome
    next => cases hsome
    next hat =>
      cases place with
      | dupAtp => exact ⟨r, .inr rfl, by simp [saveRow, hfst, hat]⟩
      | tspaceAtp =>
        exact ⟨p, .inl hp, by simp [saveRow, hfst, hat, hsome]⟩
    next hat =>
      cases place with
      | dupAtp => exact ⟨p, .inl hp, by simp [saveRow, hfst, hat, hsome]⟩
      | tspaceAtp =>
        exact ⟨r, .inr rfl, by simp [saveRow, hfst, hat]⟩

lemma Saving.saveRow {r : β} {rq : List (Entry β)}
    (place : SavedIn) (h : Saving j J out t l ls (r :: rs)) (hr : t.right.queue = .row r :: rq)
    (hkey : j.rightKey r = j.leftKey l) (hord : place = .dupAtp → t.tspace.rows = [])
    (hplace : place = .tspaceAtp → t.step ≠ .saveDupRight) :
    Saving j J out (t.saveRow r rq place) l ls rs := by
  have hsav := saved_saveRow (t := t) r rq hord
  have hsort := pairwise_cons.1 h.feeds.sortedRight
  refine ⟨⟨h.feeds.left, (h.feeds.right.tail hr).2, h.feeds.sortedLeft, hsort.2⟩, h.head, h.matched,
    h.look, ?_, fun x hx => hkey.symm.le.trans (hsort.1 x hx), by simp [Tcb.saveRow],
    by simp [Tcb.saveRow], fun _ => ?_, fun hdup => ?_, ?_⟩
  · rw [hsav]
    exact forall_mem_append.2 ⟨h.same, forall_mem_singleton.2 hkey⟩
  · obtain ⟨p, hp, hsome⟩ := prevRight_saveRow r rq place h.prev
    refine ⟨p, ?_, hsome⟩
    rw [hsav]
    exact mem_append.2 (hp.imp id fun hp => mem_singleton.2 hp)
  · cases place with
    | dupAtp => simpa [Tcb.saveRow] using hord rfl
    | tspaceAtp => exact absurd hdup (hplace rfl)
  · rw [hsav, append_assoc]
    exact h.todo

lemma Saving.isDup {r : β} {rq : List (Entry β)}
    (h : Saving j J out t l ls rs) (hr : t.right.queue = .row r :: rq) :
    t.isDup j r = some (decide (j.rightKey r = j.leftKey l)) := by
  unfold Tcb.isDup
  by_cases hsav : t.savedRetCode = true
  · obtain ⟨r', q, hr', hkey⟩ := h.known hsav
    rw [hr] at hr'
    cases hr'
    rw [if_pos hsav, decide_eq_true hkey]
  · rw [if_neg hsav]
    have hfst : t.saveFirstDupAtp = false := by
      by_contra hne
      rw [Bool.not_eq_false] at hne
      exact hsav (h.first hne).1
    obtain ⟨p, hp, hsome⟩ := h.prev hfst
    rw [hsome, Option.map_some, h.same p hp]

lemma Saving.unsaved (h : Saving j J out t l ls rs)
    (hne : ∀ r q, t.right.queue = .row r :: q → j.rightKey r ≠ j.leftKey l) : t.saved ≠ [] := by
  refine h.nonempty (Bool.eq_false_of_not_eq_true fun hret => ?_)
  obtain ⟨r, q, hrow, hkey⟩ := h.known hret
  exact hne r q hrow hkey

lemma Live.saveDupRight (h : Live j J out t)
    (hstep : t.step = .saveDupRight ∨ t.step = .saveDupRightTspace) (refused : Bool) :
    Live j J out (t.saveDupRight j refused).1 := by
  obtain ⟨l, ls, rs, hat⟩ : ∃ l ls rs, Saving j J out t l ls rs := by
    have hph := h.phase
    rcases hstep with hs | hs <;> simpa only [Phase, hs] using hph
  have hbase := h.base (by rcases hstep with hs | hs <;> simp [hs])
    (by rcases hstep with hs | hs <;> simp [hs])
  have hsaving : ∀ {u : Tcb α β}, u.step = t.step → Base j out u →
      (∃ l ls rs, Saving j J out u l ls rs) → Live j J out u := by
    intro u hu hub hus
    refine hub.live ?_
    rcases hstep with hs | hs <;> simpa only [Phase, hu, hs] using hus
  unfold Tcb.saveDupRight
  split
  next => exact h
  next hr =>
    have hnil := hat.feeds.right.ended hr
    have hreplay := hat.replaying (hat.unsaved (by simp [hr])) (by simp [hnil])
    exact replay { hbase with } { hreplay with }
  next r rq hr =>
    obtain ⟨rs', rfl, hrt⟩ := hat.feeds.right.row hr
    have hsort := pairwise_cons.1 hat.feeds.sortedRight
    rw [hat.isDup hr]
    by_cases hkey : j.rightKey r = j.leftKey l
    · rw [decide_eq_true hkey]
      dsimp only
      by_cases hsave : j.isSemiJoin = false ∨ j.preJoinExpr.isSome = true ∨ t.noSavedDups = true
      · rw [if_pos hsave]
        by_cases htsp : t.step = .saveDupRightTspace
        · rw [if_pos htsp]
          have hnext := hat.saveRow .tspaceAtp hr hkey (by simp) (by simp [htsp])
          exact hsaving rfl { hbase with } ⟨l, ls, rs', hnext⟩
        · rw [if_neg htsp]
          have hdup : t.step = .saveDupRight := hstep.resolve_right htsp
          by_cases href : refused = true
          · rw [if_pos href]
            refine live { hbase with } ?_
            exact ⟨l, ls, r :: rs', hat.feeds, hat.head, hat.matched, hat.look, hat.same, hat.above,
              fun _ => ⟨r, rq, hr, hkey⟩, fun hfst => ⟨rfl, (hat.first hfst).2⟩, hat.prev,
              by simp, hat.todo⟩
          · rw [if_neg href]
            have hnext := hat.saveRow .dupAtp hr hkey (fun _ => hat.order hdup) (by simp)
            exact hsaving rfl { hbase with } ⟨l, ls, rs', hnext⟩
      · rw [if_neg hsave]
        -- a semi or anti join without predicate that has its one row
        push Not at hsave
        obtain ⟨hkind, hpre, hne⟩ := hsave
        have hne' : t.saved ≠ [] := fun hnil => hne (noSavedDups_iff.2 hnil)
        obtain ⟨d, hd⟩ := exists_mem_of_ne_nil _ hne'
        have htodo := hat.todo
        rw [join_skip (by simpa using hkind) (by simpa using hpre) hd ((hat.same d hd).trans hkey.symm)] at htodo
        refine hsaving rfl { hbase with }
          ⟨l, ls, rs', ⟨hat.feeds.left, hrt, hat.feeds.sortedLeft, hsort.2⟩, hat.head,
            hat.matched, hat.look, hat.same, (forall_mem_cons.1 hat.above).2,
            by simp, fun hfst => absurd (hat.first hfst).2 hne', hat.prev, hat.order, htodo⟩
    · rw [decide_eq_false hkey]
      have hlt : j.leftKey l < j.rightKey r :=
        lt_of_le_of_ne (hat.above r mem_cons_self) (Ne.symm hkey)
      exact hbase.replay (hat.replaying (hat.unsaved (by simpa [hr])) (forall_mem_cons.2
        ⟨hlt, fun x hx => lt_of_lt_of_le hlt (hsort.1 x hx)⟩))

/-! ### Joining saved rows -/

lemma Replaying.ending {rs ms : List β} {out' : List (α × Option β)} {m : Bool} {c : ℕ}
    {u : List (Option (α × Option β))} {f : ℕ} {s : MjStep} (h : Replaying j J out t l ls rs ms)
    (htodo : out' ++ (j.unmatched m l ++ j.join ls (t.saved ++ rs)) = J) : Ending j J out'
      { t with outerMatched := m, matchCount := c, up := u, free := f, step := s } l ls rs := by
  refine ⟨h.feeds, h.head, ?_, ?_, htodo⟩
  · exact ⟨fun d hd e he => (h.same d hd).trans (h.same e he).symm,
      fun d hd r hr => (h.same d hd).symm ▸ h.above r hr,
      fun d hd x hx => (h.same d hd).symm ▸ rel_of_pairwise_cons h.feeds.sortedLeft hx⟩
  · exact h.look.imp id fun hdup => .inr ⟨hdup.1, h.nonempty, h.same, hdup.2⟩

lemma Replaying.returnRow {rs ms : List β} {r : β}
    (h : Replaying j J out t l ls rs (r :: ms)) (hbase : Base j out t)
    (hroom : ∀ n, j.request = .getN n → out.length < n) :
    ∃ m c u f, t.returnRow j l r =
        { t with outerMatched := m, matchCount := c, up := u, free := f } ∧
      Base j (out ++ j.returned l r)
        { t with outerMatched := m, matchCount := c, up := u, free := f } ∧
      out ++ j.returned l r ++ (j.rowRest l m ms ++ j.join ls (t.saved ++ rs)) = J := by
  obtain ⟨m, c, u, f, hrow⟩ := t.returnRow_frame j l r
  have heq := t.returnRow_eq j l r hbase.up hbase.count
  rw [hrow] at heq
  refine ⟨m, c, u, f, hrow, hbase.send hroom (j.length_returned_le l r) rfl rfl ⟨rfl, rfl⟩
    ⟨rfl, rfl⟩ heq.1 heq.2.1, ?_⟩
  have hsemi : ¬(j.isSemiJoin = true ∧ t.outerMatched = true) := by
    rintro ⟨hkind, hm⟩
    rw [h.open_ hkind] at hm
    cases hm
  have htodo := h.todo
  rw [rowRest, if_neg hsemi, append_assoc, ← append_assoc] at htodo
  exact (congrArg (fun m => out ++ j.returned l r ++ (j.rowRest l m _ ++ _)) heq.2.2).trans htodo

lemma Live.returnSavedDupRows (h : Live j J out t) (hstep : t.step = .returnSavedDupRows)
    (hroom : ∀ n, j.request = .getN n → out.length < n) :
    ∃ out', Live j J out' (t.returnSavedDupRows j).1 := by
  have hph := h.phase
  simp only [Phase, hstep] at hph
  obtain ⟨l, ls, rs, hat, htsp⟩ := hph
  have hbase := h.base (by simp [hstep]) (by simp [hstep])
  obtain ⟨lq, hq⟩ := hat.head
  unfold Tcb.returnSavedDupRows
  split
  next r rest hrest =>
    rw [hrest] at hat
    obtain ⟨m, c, u, f, hrow, hsent, htodo⟩ := hat.returnRow hbase hroom
    simp only [hq, hrow]
    split_ifs with hsemi
    · obtain ⟨hkind, rfl⟩ := hsemi
      refine ⟨_, live { hsent with } ?_⟩
      rw [rowRest_semi hkind] at htodo
      exact ⟨l, ls, rs, hat.ending htodo⟩
    · refine ⟨_, live { hsent with } ?_⟩
      simp only [Phase, hstep]
      refine ⟨l, ls, rs, { hat with open_ := fun hkind => ?_, todo := ?_ }, htsp⟩
      · rw [← Bool.not_eq_true]
        exact fun hm => hsemi ⟨hkind, hm⟩
      · simp only [Saved.advance, hrest, tail_cons]
        exact htodo
  next hrest =>
    rw [hrest, nil_append] at hat
    refine ⟨out, live { hbase with } ?_⟩
    by_cases hrows : t.tspace.rows = []
    · simp only [Phase, if_pos hrows]
      rw [hrows] at hat
      exact ⟨l, ls, rs, hat.ending hat.todo⟩
    · simp only [Phase, if_neg hrows]
      rw [← htsp hrows] at hat
      exact ⟨l, ls, rs, { hat with }⟩

lemma Live.returnOverflowRows (h : Live j J out t) (hstep : t.step = .returnOverflowRows)
    (hroom : ∀ n, j.request = .getN n → out.length < n) (refused : Bool) :
    ∃ out', Live j J out' (t.returnOverflowRows j refused).1 := by
  have hph := h.phase
  simp only [Phase, hstep] at hph
  obtain ⟨l, ls, rs, hat⟩ := hph
  have hbase := h.base (by simp [hstep]) (by simp [hstep])
  obtain ⟨lq, hq⟩ := hat.head
  unfold Tcb.returnOverflowRows
  split
  next r rest hrest =>
    by_cases href : refused = true
    · rw [if_pos href]
      exact ⟨out, h⟩
    rw [if_neg href]
    rw [hrest] at hat
    obtain ⟨m, c, u, f, hrow, hsent, htodo⟩ := hat.returnRow hbase hroom
    simp only [hq, hrow]
    by_cases hsemi : j.isSemiJoin = true ∧ m = true
    · rw [if_pos hsemi]
      obtain ⟨hkind, rfl⟩ := hsemi
      refine ⟨_, live { hsent with } ?_⟩
      rw [rowRest_semi hkind] at htodo
      exact ⟨l, ls, rs, hat.ending htodo⟩
    · rw [if_neg hsemi]
      refine ⟨_, live { hsent with } ?_⟩
      by_cases hlast : rest = []
      · simp only [Phase, if_pos hlast]
        rw [hlast] at htodo
        exact ⟨l, ls, rs, { hat.ending (c := c) (u := u) (f := f) (s := .finishLeft) htodo with }⟩
      · simp only [Phase, if_neg hlast]
        refine ⟨l, ls, rs, { hat with open_ := fun hkind => ?_, todo := ?_ }⟩
        · rw [← Bool.not_eq_true]
          exact fun hm => hsemi ⟨hkind, hm⟩
        · simp only [Saved.advance, hrest, tail_cons]
          exact htodo
  next hrest =>
    rw [hrest] at hat
    exact ⟨out, live { hbase with } ⟨l, ls, rs, hat.ending hat.todo⟩⟩

/-! ### The end of a left row -/

lemma Base.atLeft (hbase : Base j out t)
    (hfeeds : Feeds j t.left t.right ls rs) (hmat : t.outerMatched = false)
    (hgroup : Group j t.saved ls rs) (htodo : out ++ j.join ls (t.saved ++ rs) = J) :
    Live j J out { t.rewindTo .getLeft with lookAheadState := .unchecked } := by
  unfold rewindTo
  split_ifs with htsp
  · exact live { hbase with }
      ⟨ls, rs, ⟨hfeeds, hmat, rfl, rfl, hgroup, htodo⟩, fun hne => absurd htsp hne⟩
  · exact live { hbase with } ⟨ls, rs, hfeeds, hmat, rfl, rfl, hgroup, htodo⟩

lemma rewindTo_look (s : PostIoStep) (la : LookAhead) :
    { t.rewindTo s with lookAheadState := la } =
      ({ t with lookAheadState := la } : Tcb α β).rewindTo s := by
  unfold rewindTo
  split_ifs <;> rfl

lemma Ending.next {lq : List (Entry α)}
    (h : Ending j J out t l ls rs) (hq : t.left.queue = .row l :: lq) {out' : List (α × Option β)}
    {u : Tcb α β} (hleft : u.left = { t.left with queue := lq }) (hrt : u.right = t.right)
    (hlook : u.lookAheadState = t.lookAheadState) (hsav : u.saved = t.saved)
    (hmat : u.outerMatched = false) (hbase : Base j out' u)
    (htodo : out' ++ j.join ls (t.saved ++ rs) = J) :
    Live j J out' { u.nextLeft j with lookAheadState := .unchecked } := by
  have hfeeds : Feeds j u.left u.right ls rs := by
    rw [hleft, hrt]
    exact ⟨(h.feeds.left.tail hq).2, h.feeds.right, (pairwise_cons.1 h.feeds.sortedLeft).2,
      h.feeds.sortedRight⟩
  unfold nextLeft
  obtain hla | ⟨hno, hnone⟩ | ⟨hla, hne, hsame, x, q, hx, hkey⟩ := h.look
  · rw [hlook, hla]
    exact hbase.atLeft hfeeds hmat (hsav ▸ h.group) (hsav ▸ htodo)
  · obtain ⟨hla, x, q, hx, -⟩ | ⟨hla, q, hx⟩ := hno
    · rw [hlook, hla]
      rw [hq] at hx
      cases hx
      obtain ⟨ls', rfl, -⟩ := hfeeds.left.row (by rw [hleft])
      rw [hnone, nil_append, join_cons, ← hmat] at htodo
      exact live { hbase with }
        ⟨x, ls', rs, hfeeds, ⟨q, by rw [hleft]⟩, hsav.trans hnone, .inl ⟨rfl, hmat⟩, htodo⟩
    · rw [hlook, hla]
      rw [hq] at hx
      cases hx
      have hend : Base j out' { u with lookAheadState := .unchecked } := { hbase with }
      exact hend.cancelRight hfeeds (by rw [hleft]) htodo
  · rw [hlook, hla]
    rw [hq] at hx
    cases hx
    obtain ⟨ls', rfl, -⟩ := hfeeds.left.row (by rw [hleft])
    obtain ⟨d, hd⟩ := exists_mem_of_ne_nil _ hne
    have hsame' : ∀ d ∈ t.saved, j.rightKey d = j.leftKey x := fun d hd => (hsame d hd).trans hkey.symm
    have habv : ∀ r ∈ rs, j.leftKey x < j.rightKey r := fun r hr =>
      (hsame' d hd) ▸ h.group.right d hd r hr
    rw [join_cons, matching_saved hsame' habv, ← hmat, ← hsav] at htodo
    dsimp only
    rw [rewindTo_look]
    have hreplay : Replaying j J out' { u with lookAheadState := .unchecked } x ls' rs u.saved :=
      ⟨hfeeds, ⟨q, by rw [hleft]⟩, .inl rfl, fun _ => hmat, fun hnil => hne (hsav ▸ hnil),
        fun d hd => hsame' d (hsav ▸ hd), habv, htodo⟩
    exact replay { hbase with } hreplay

lemma Live.finishLeft (h : Live j J out t) (hstep : t.step = .finishLeft)
    (hroom : ∀ n, j.request = .getN n → out.length < n) :
    ∃ out', Live j J out' (t.finishLeft j).1 := by
  have hph := h.phase
  simp only [Phase, hstep] at hph
  obtain ⟨l, ls, rs, hat⟩ := hph
  have hbase := h.base (by simp [hstep]) (by simp [hstep])
  obtain ⟨lq, hq⟩ := hat.head
  obtain ⟨c, u, f, hrow⟩ := t.returnUnmatched_frame j l
  have heq := t.returnUnmatched_eq j l h.up h.count
  rw [hrow] at heq
  have htodo := hat.todo
  rw [← append_assoc] at htodo
  simp only [Tcb.finishLeft, hq, hrow]
  exact ⟨_, hat.next hq rfl rfl rfl rfl rfl (hbase.send hroom (j.length_unmatched_le _ l) rfl rfl
    ⟨rfl, rfl⟩ ⟨rfl, rfl⟩ heq.1 heq.2) htodo⟩

end Trafodion.MergeJoin
