import Trafodion.NestedJoinMoves
import Trafodion.NestedJoinReplies

/-!
# The work procedures of a nested join make moves

Each event is a sequence of moves, if errors of the expressions are reported where they occur. The
pointer to the entry that phase three fills is the tail of the queue whenever it is used.
-/
namespace Trafodion.NestedJoin

open Function Tcb View

open Pipelines (stream)

variable {α β : Type} {j : Tdb α β} {c : Children α β} {G : ℕ → Track α β} {t : Tcb α β}

structure Tdb.Reports (j : Tdb α β) : Prop where
  before : ∀ l, j.beforePred l ≠ .error
  extended : j.kind = .left ∨ j.kind = .anti → ∀ l, j.afterPred l none ≠ .error

def Tcb.view (t : Tcb α β) (G : ℕ → Track α β) : View α β where
  head := t.head
  phaseOne := t.phaseOne
  tail := t.tail
  noMore := t.noMore
  matched := fun k => (t.pstate k).outerMatched
  track := G
  up := t.up
  raised := t.raised
  due := (stream (t.leftDown.map Down.tagged)).length + (stream (t.rightDown.map Down.tagged)).length

/-- Nothing is marked as cancelled but what belongs to a cancelled request, or has nothing left. -/
structure Marks (t : Tcb α β) : Prop where
  left : (∀ k, t.noMore k = false) → ∀ d ∈ t.leftDown, d.cancelled = false
  right : (∀ k, t.noMore k = false) → ∀ d ∈ t.rightDown, d.cancelled = true → d.pending = []

structure Good (G : ℕ → Track α β) (t : Tcb α β) : Prop where
  aligned : Aligned G t
  noFault : t.fault = false
  marks : Marks t

lemma Marks.cancelled {k : ℕ} (h : t.noMore k = true) : Marks t :=
  ⟨fun hall => (Bool.false_ne_true ((hall k).symm.trans h)).elim,
    fun hall => (Bool.false_ne_true ((hall k).symm.trans h)).elim⟩

lemma matched_update (f : ℕ → PrivateState) (k : ℕ) (p : PrivateState) :
    (fun x => (update f k p x).outerMatched) =
      update (fun x => (f x).outerMatched) k p.outerMatched := by
  funext x
  by_cases hx : x = k
  · subst hx
    rw [update_self, update_self]
  · rw [update_of_ne hx, update_of_ne hx]

lemma matched_same {f : ℕ → PrivateState} {k : ℕ} {p : PrivateState}
    (h : p.outerMatched = (f k).outerMatched) :
    (fun x => (update f k p x).outerMatched) = fun x => (f x).outerMatched := by
  rw [matched_update, h]
  exact update_eq_self k fun x => (f x).outerMatched

variable (k : ℕ)

lemma cancelParentRequest_view (t : Tcb α β) (G : ℕ → Track α β) :
    (t.cancelParentRequest k).view G = (t.view G).cancel k := by
  obtain ⟨⟨ld, rd, p, hu⟩, hcnts, hleft, hrt⟩ := cancelParentRequest_marked k t
  rw [hu] at hcnts hleft hrt ⊢
  dsimp only at hcnts hleft hrt
  rw [update_self] at hcnts
  simp only [view, cancel]
  rw [matched_same hcnts.outerMatched, hleft, hrt]

lemma cancelParentRequest_marks (t : Tcb α β) : Marks (t.cancelParentRequest k) := by
  obtain ⟨⟨ld, rd, p, hu⟩, -, -, -⟩ := cancelParentRequest_marked k t
  rw [hu]
  exact .cancelled (update_self k _ _)

lemma cancelParentRequest_fault (t : Tcb α β) : (t.cancelParentRequest k).fault = t.fault := by
  obtain ⟨⟨ld, rd, p, hu⟩, -, -, -⟩ := cancelParentRequest_marked k t
  rw [hu]

lemma Good.cancelParentRequest (h : Good G t) (k : ℕ) : Good G (t.cancelParentRequest k) :=
  ⟨h.aligned.alike (cancelParentRequest_marked k t).alike,
    (cancelParentRequest_fault k t).trans h.noFault, cancelParentRequest_marks k t⟩

/-! ### Phase one -/

lemma Move.to {u v w : View α β} (h : Move j c u v) (hv : v = w) : Move j c u w := hv ▸ h

lemma Good.sendLeft (j : Tdb α β) (c : Children α β) (h : Good G t) (hlt : t.phaseOne < t.tail) :
    ∃ G', Good G' (t.sendLeft c) ∧ Move j c (t.view G) ((t.sendLeft c).view G') := by
  refine ⟨_, ⟨h.aligned.sendLeft c hlt, ?_, ?_⟩, ?_⟩
  · unfold Tcb.sendLeft
    split_ifs <;> exact h.noFault
  · unfold Tcb.sendLeft
    split_ifs with hno
    · exact .cancelled hno
    · exact ⟨fun hall => List.forall_mem_append.2 ⟨h.marks.left hall,
        List.forall_mem_singleton.2 rfl⟩, h.marks.right⟩
  · have hmove := Move.sendLeft (j := j) (c := c) (v := t.view G) (((t.sendLeft c).view G).due) hlt
    refine hmove.to ?_
    unfold Tcb.sendLeft
    split_ifs <;> simp only [Tcb.view, View.setTrack, Tcb.setState, matched_update]

lemma Good.phase1Loop (j : Tdb α β) (c : Children α β) (leftSize : ℕ) :
    ∀ (n : ℕ) {G : ℕ → Track α β} {t : Tcb α β}, Good G t → n ≤ t.tail - t.phaseOne →
      ∃ G', Good G' (Tcb.phase1Loop c leftSize n t) ∧
        Moves j c (t.view G) ((Tcb.phase1Loop c leftSize n t).view G')
  | 0, G, _, h, _ => ⟨G, h, .refl⟩
  | n + 1, G, t, h, hn => by
    unfold Tcb.phase1Loop
    split_ifs with hfull
    · exact ⟨G, h, .refl⟩
    · obtain ⟨G₁, h₁, hmove⟩ := h.sendLeft j c (by omega)
      have hcnt : n ≤ (t.sendLeft c).tail - (t.sendLeft c).phaseOne := by
        unfold Tcb.sendLeft Tcb.setState
        split_ifs <;> dsimp only <;> omega
      obtain ⟨G₂, h₂, hmov⟩ := Good.phase1Loop j c leftSize n h₁ hcnt
      exact ⟨G₂, h₂, .head (.inl hmove) hmov⟩

/-! ### Phase two -/

lemma leftError_view (t : Tcb α β) (G : ℕ → Track α β) :
    (t.leftError k).view G = (t.view G).cancel k := by
  obtain ⟨ld, rd, p, hu, hld, hrd, -, -, -, hmat⟩ := leftError_frame k t
  rw [hu]
  simp only [view, cancel]
  rw [matched_same hmat, hld, hrd]

variable {e : LeftEntry α}

lemma mem_ids_of_rest (h : Aligned G t) {es : List (LeftEntry α)}
    (hfr : t.fresh = e :: es) : e.request ∈ t.ids := by
  cases hrep : e.reply with
  | none =>
    obtain ⟨a, b, hc, -⟩ := h.first_end hfr hrep
    exact hc.mem
  | some i =>
    obtain ⟨a, b, is, hc, -⟩ := h.first_item hfr hrep
    exact hc.mem

section
variable (h : Good G t) {es : List (LeftEntry α)}
include h

lemma Good.skipLeft {i : Item α}
    (hfr : t.fresh = e :: es) (hrep : e.reply = some i) (hno : t.noMore e.request = true) :
    ∃ G', Good G' ((t.skipLeft e.request).pass e es) ∧
      Move j c (t.view G) (((t.skipLeft e.request).pass e es).view G') := by
  obtain ⟨is, hrest, halign⟩ := h.aligned.skipLeft hfr hrep hno
  refine ⟨_, ⟨halign, h.noFault, .cancelled hno⟩, ?_⟩
  have hmove := Move.keepLeft (j := j) (c := c) (v := t.view G) (e := e)
    (mem_ids_of_rest h.aligned hfr) hrest (.inl hno)
  refine hmove.to ?_
  have hcan : update t.noMore e.request true = t.noMore := by
    rw [← hno]
    exact update_eq_self _ _
  simp only [Tcb.view, View.setTrack, View.cancel, Tcb.pass, Tcb.skipLeft, Tcb.setState]
  rw [hcan, matched_same]
  split_ifs <;> rfl

lemma Good.leftError (hfr : t.fresh = e :: es) (hrep : e.reply = some .error) :
    ∃ G', Good G' ((t.leftError e.request).pass e es) ∧
      Move j c (t.view G) (((t.leftError e.request).pass e es).view G') := by
  obtain ⟨is, hrest, halign⟩ := h.aligned.leftError hfr hrep
  obtain ⟨ld, rd, p, hu, -⟩ := leftError_frame e.request t
  refine ⟨_, ⟨halign, ?_, ?_⟩, ?_⟩
  · rw [hu]
    exact h.noFault
  · rw [hu]
    exact .cancelled (update_self e.request _ _)
  · have hmove := Move.keepLeft (j := j) (c := c) (v := t.view G) (e := e)
      (mem_ids_of_rest h.aligned hfr) hrest (.inr rfl)
    refine hmove.to ?_
    exact (leftError_view e.request t _).symm

lemma Good.sendRight {l : α}
    (hfr : t.fresh = e :: es) (hrep : e.reply = some (.row l)) (hno : t.noMore e.request = false) :
    ∃ G', Good G' ((t.sendRight j c e.request e.index l).pass e es) ∧
      Move j c (t.view G) (((t.sendRight j c e.request e.index l).pass e es).view G') := by
  obtain ⟨is, hrest, hfault, halign⟩ := h.aligned.sendRight j c hfr hrep hno
  refine ⟨_, ⟨halign, hfault.trans h.noFault, h.marks.left, fun hall d hd hcanc => ?_⟩, ?_⟩
  · obtain hd | hd := List.mem_append.1 hd
    · exact h.marks.right hall d hd hcanc
    · rw [List.mem_singleton.1 hd] at hcanc ⊢
      rw [Tcb.rightItems, if_neg (by simpa using hcanc)]
  · have hmove := Move.sendRight (j := j) (c := c) (v := t.view G) (i := e.index)
      (n := t.rightTail) (((t.sendRight j c e.request e.index l).view G).due)
      (mem_ids_of_rest h.aligned hfr) hrest hno
    refine hmove.to ?_
    simp only [Tcb.view, View.setTrack, Tcb.pass, Tcb.sendRight, Tcb.setState]
    rw [matched_same]
    simp only [Tcb.notEmpty]
    split_ifs <;> rfl

lemma Good.leftEnd (hfr : t.fresh = e :: es) (hrep : e.reply = none) :
    ∃ G', Good G' ((t.leftEnd e.request).pass e es) ∧
      Move j c (t.view G) (((t.leftEnd e.request).pass e es).view G') := by
  obtain ⟨hrest, hfault, halign⟩ := h.aligned.leftEnd hfr hrep
  have hmem := mem_ids_of_rest h.aligned hfr
  have hstep := (h.aligned.fits e.request hmem).coming hrest
  have hmove := Move.endLeft (j := j) (c := c) (v := t.view G) (e := e) hmem hrest hrep
  have hfrm : ∃ p, t.leftEnd e.request = t.setState e.request p ∧
      p.outerMatched = (t.pstate e.request).outerMatched := by
    obtain hs | hs := hstep
    all_goals
      simp only [Tcb.leftEnd, hs]
      exact ⟨_, rfl, rfl⟩
  obtain ⟨p, hp, hmat⟩ := hfrm
  refine ⟨_, ⟨halign, hfault.trans h.noFault, ?_⟩, ?_⟩
  · rw [hp]
    exact ⟨h.marks.left, h.marks.right⟩
  · refine hmove.to ?_
    rw [hp]
    simp only [Tcb.view, View.setTrack, Tcb.pass, Tcb.setState]
    rw [matched_same hmat]

end

variable {s u : Tcb α β}

lemma Good.leftReply (hj : j.Reports) (h : Good G t) {size : ℕ}
    {es : List (LeftEntry α)} (hfr : t.fresh = e :: es)
    (hs : t.leftReply j c size e = some s) :
    ∃ G', Good G' (s.pass e es) ∧ Move j c (t.view G) ((s.pass e es).view G') := by
  unfold Tcb.leftReply at hs
  cases hrep : e.reply with
  | none =>
    rw [hrep] at hs
    cases hs
    exact h.leftEnd hfr hrep
  | some i =>
    cases i with
    | row l =>
      rw [hrep] at hs
      dsimp only at hs
      by_cases hno : t.noMore e.request = true
      · rw [if_pos hno] at hs
        cases hs
        exact h.skipLeft hfr hrep hno
      · rw [if_neg hno, if_neg (hj.before l)] at hs
        by_cases hfull : size ≤ t.rightDown.length
        · rw [if_pos hfull] at hs
          cases hs
        · rw [if_neg hfull] at hs
          cases hs
          exact h.sendRight hfr hrep (Bool.eq_false_iff.2 hno)
    | error =>
      rw [hrep] at hs
      by_cases hno : t.noMore e.request = true
      · rw [if_pos hno] at hs
        cases hs
        exact h.skipLeft hfr hrep hno
      · rw [if_neg hno] at hs
        cases hs
        exact h.leftError hfr hrep

lemma Good.phase2Loop (hj : j.Reports) (size : ℕ) :
    ∀ (es : List (LeftEntry α)) {G : ℕ → Track α β} {t : Tcb α β}, Good G t → t.fresh = es →
      ∃ G', Good G' (phase2Loop j c size es t) ∧
        Moves j c (t.view G) ((phase2Loop j c size es t).view G')
  | [], G, _, h, _ => ⟨G, h, .refl⟩
  | e :: es, G, t, h, hfr => by
    unfold Tcb.phase2Loop
    cases hs : t.leftReply j c size e with
    | none => exact ⟨G, h, .refl⟩
    | some s =>
      obtain ⟨G₁, h₁, hmove⟩ := h.leftReply hj hfr hs
      obtain ⟨G₂, h₂, hmov⟩ := Good.phase2Loop hj size es h₁ rfl
      exact ⟨G₂, h₂, .head (.inl hmove) hmov⟩

/-! ### Phase three -/

lemma setMatched_alike (b : Bool) (t : Tcb α β) : Alike (t.setMatched b) t := by
  have hst : ∀ k, SameCounts
      { (update t.pstate t.head { t.pstate t.head with outerMatched := b } k) with
        outerMatched := (t.pstate k).outerMatched } (t.pstate k) := by
    intro k
    by_cases hk : k = t.head
    · subst hk
      rw [update_self]
      exact ⟨rfl, rfl, rfl, rfl⟩
    · rw [update_of_ne hk]
      exact ⟨rfl, rfl, rfl, rfl⟩
  exact ⟨rfl, rfl, rfl, fun k => (hst k).leftStep, fun k => (hst k).leftMatches,
    fun k => (hst k).leftOnlyRows, fun _ h => h, rfl, rfl, rfl, rfl, rfl⟩

lemma setMatched_view (t : Tcb α β) (G : ℕ → Track α β) :
    (t.setMatched true).view G = (t.view G).setMatched := by
  simp only [Tcb.view, Tcb.setMatched, Tcb.setState, View.setMatched, matched_update]

lemma Good.setMatched (h : Good G t) : Good G (t.setMatched true) :=
  ⟨h.aligned.alike (setMatched_alike true t), h.noFault, h.marks.left, h.marks.right⟩

lemma putEntry_alike (u : ℕ) (e : UpEntry α β) (t : Tcb α β) : Alike (t.putEntry u e) t :=
  ⟨rfl, rfl, rfl, fun _ => rfl, fun _ => rfl, fun _ => rfl, fun _ h => h, rfl, rfl, rfl, rfl, rfl⟩

lemma putEntry_view {u : ℕ} (hu : u = t.up.length) (s : UpStatus α β) (G : ℕ → Track α β) :
    (t.putEntry u ⟨t.head, s⟩).view G = (t.view G).put [s] := by
  simp only [view, putEntry, put, if_pos hu]
  rfl

lemma Good.putEntry (h : Good G t) (u : ℕ) (e : UpEntry α β) : Good G (t.putEntry u e) :=
  ⟨h.aligned.alike (putEntry_alike u e t), h.noFault, h.marks.left, h.marks.right⟩

lemma cancelParentRequest_up (t : Tcb α β) : (t.cancelParentRequest k).up = t.up :=
  congrArg View.up (cancelParentRequest_view k t fun _ => ⟨[], [], none⟩)

lemma handleErrorsFromEval_view (t : Tcb α β) (G : ℕ → Track α β) :
    (t.handleErrorsFromEval t.up.length).view G =
      { ((t.view G).put [.sqlError]).cancel t.head with raised := t.raised ++ [t.head] } := by
  have hcan := cancelParentRequest_view t.head t G
  have hup := cancelParentRequest_up t.head t
  have hview : ∀ s : Tcb α β, s.up = t.up →
      (putEntry t.up.length ⟨t.head, .sqlError⟩ { s with raised := t.raised ++ [t.head] }).view G =
        { s.view G with
          up := t.up ++ [some ⟨t.head, .sqlError⟩]
          raised := t.raised ++ [t.head] } := by
    intro s hs
    simp only [view, putEntry, hs, if_pos]
  unfold handleErrorsFromEval
  rw [hview _ hup, hcan]
  rfl

lemma handleErrorsFromEval_alike (u : ℕ) (t : Tcb α β) : Alike (t.handleErrorsFromEval u) t := by
  have hmark := (cancelParentRequest_marked t.head t).alike
  exact { hmark with }

lemma Good.handleErrorsFromEval (h : Good G t) (u : ℕ) : Good G (t.handleErrorsFromEval u) := by
  have hcan := h.cancelParentRequest t.head
  exact ⟨h.aligned.alike (handleErrorsFromEval_alike u t), hcan.noFault, hcan.marks.left,
    hcan.marks.right⟩

structure Keeps (s t : Tcb α β) : Prop where
  head : s.head = t.head
  phaseOne : s.phaseOne = t.phaseOne
  leftStep : (s.pstate s.head).leftStep = (t.pstate t.head).leftStep

lemma Keeps.refl (t : Tcb α β) : Keeps t t := ⟨rfl, rfl, rfl⟩

lemma Keeps.trans (h : Keeps s u) (h' : Keeps u t) : Keeps s t :=
  ⟨h.head.trans h'.head, h.phaseOne.trans h'.phaseOne, h.leftStep.trans h'.leftStep⟩

lemma Alike.keeps (h : Alike u t) : Keeps u t :=
  ⟨h.head, h.phaseOne, by rw [h.head]; exact h.leftStep t.head⟩

/-- What is left when an entry of the right child was looked at: the entry stays if there was no room
for what it leads to. -/
def RightDone (j : Tdb α β) (c : Children α β) (G : ℕ → Track α β) (t : Tcb α β)
    (es : List (ℕ × Option (Item β))) : Tcb α β × Option ℕ → Prop
  | (s, none) => Good G s ∧ Keeps s t ∧ Moves j c (t.view G) (s.view G)
  | (s, some u) => ∃ G', Good G' { s with rightUp := es } ∧ Keeps s t ∧
      Move j c (t.view G) (({ s with rightUp := es } : Tcb α β).view G') ∧
      ((s.pstate s.head).leftMatches = 0 → u = s.up.length)

section Item

variable {s : Sent α β} {ss : List (Sent α β)} {x : Item β} {xs : List (Item β)} {i : ℕ}
  {es : List (ℕ × Option (Item β))}

lemma Good.leftMatches_ne (h : Good G t) (hfst : (t.view G).First s ss) :
    (t.pstate t.head).leftMatches ≠ 0 := by
  rw [(h.aligned.fits t.head (h.aligned.head_mem hfst.lt)).leftMatches]
  have hsent : (G t.head).sent = s :: ss := hfst.sent
  rw [hsent]
  exact Nat.succ_ne_zero _

lemma Good.use (h : Good G t) (hfst : (t.view G).First s ss) (hrest : s.rest = x :: xs)
    (hup : t.rightUp = (i, some x) :: es) (hu : Alike u t) (hgood : Good G u)
    {n : ℕ} (hmove : Move j c (t.view G)
      ((u.view G).setTrack t.head { G t.head with sent := { s with rest := xs } :: ss })) :
    RightDone j c G t es (u, some n) := by
  have hlt : u.head < u.phaseOne := by
    rw [hu.head, hu.phaseOne]
    exact hfst.lt
  have hsent : (G u.head).sent = s :: ss := by
    rw [hu.head]
    exact hfst.sent
  have hne := h.leftMatches_ne hfst
  refine ⟨_, ⟨hgood.aligned.takeItem hlt hsent hrest (hu.rightUp.trans hup), hgood.noFault,
    hgood.marks.left, hgood.marks.right⟩, hu.keeps, ?_, fun hzero => ?_⟩
  · have hset : ({ u with rightUp := es } : Tcb α β).view
        (update G u.head { G u.head with sent := { s with rest := xs } :: ss }) =
        (u.view G).setTrack u.head { G u.head with sent := { s with rest := xs } :: ss } := rfl
    rw [hset, hu.head]
    exact hmove
  · rw [hu.head, hu.leftMatches] at hzero
    exact (hne hzero).elim

variable {r : β}

section
variable (h : Good G t) (hfst : (t.view G).First s ss) (hrest : s.rest = .row r :: xs)
  (hup : t.rightUp = (i, some (.row r)) :: es)
include h hfst hrest hup

omit hup in
/-- There was no room for what a matching row leads to. -/
theorem Good.full : RightDone j c G t es (t.setMatched true, none) := by
  refine ⟨h.setMatched, (setMatched_alike true t).keeps, ?_⟩
  rw [setMatched_view]
  exact .single (.inr (.setMatched hfst hrest))

lemma Good.evalError (hfail : j.afterPred s.left (rightPart j r) = .error ∨
      ∃ f, j.ljExpr = some f ∧ f s.left r = .error) :
    RightDone j c G t es (t.setMatched true).evalError := by
  unfold Tcb.evalError
  split_ifs with hfree
  · exact h.full hfst hrest
  · refine h.use hfst hrest hup ((handleErrorsFromEval_alike _ _).trans (setMatched_alike true t))
      (h.setMatched.handleErrorsFromEval _) ?_
    rw [handleErrorsFromEval_view, setMatched_view]
    exact .evalError hfst hrest hfail

lemma Good.returnRow (hbef : j.beforePred s.left = .yes) :
    RightDone j c G t es ((t.setMatched true).returnRow j s.left r) := by
  have hjoin := Move.joinRow (j := j) (c := c) hfst hrest hbef
  have hskip (hnone : j.joined s.left r = []) {n : ℕ} :
      RightDone j c G t es (t.setMatched true, some n) := by
    refine h.use hfst hrest hup (setMatched_alike true t) h.setMatched ?_
    rw [setMatched_view]
    rw [hnone] at hjoin
    refine hjoin.to ?_
    simp [View.put, View.setMatched, View.next, View.setTrack, Tcb.view]
  unfold Tcb.returnRow
  cases haft : j.afterPred s.left (Tcb.rightPart j r) with
  | error => exact h.evalError hfst hrest hup (.inl haft)
  | no => exact hskip (by simp [Tdb.joined, haft])
  | yes =>
    split_ifs with hanti hfree
    · exact hskip (by simp [Tdb.joined, hanti])
    · exact h.full hfst hrest
    · refine h.use hfst hrest hup ((putEntry_alike _ _ _).trans (setMatched_alike true t))
        (h.setMatched.putEntry _ _) ?_
      rw [putEntry_view rfl, setMatched_view]
      have hone : j.joined s.left r = [(s.left, Tcb.rightPart j r)] := by
        simp [Tdb.joined, haft, hanti]
      rw [hone] at hjoin
      exact hjoin

end

lemma Good.rightRow (hj : j.Reports) (h : Good G t) (refused : Bool)
    (hfst : (t.view G).First s ss) (hrest : s.rest = .row r :: xs)
    (hup : t.rightUp = (i, some (.row r)) :: es) :
    RightDone j c G t es (t.rightRow j refused s.left r) := by
  unfold Tcb.rightRow
  cases hbef : j.beforePred s.left with
  | error => exact (hj.before _ hbef).elim
  | no =>
    exact h.use hfst hrest hup (.refl t) h (.skipItem hfst hrest (.inr hbef))
  | yes =>
    dsimp only
    split
    next => exact h.returnRow hfst hrest hup hbef
    next f hf =>
      split_ifs with href hfail
      · exact h.full hfst hrest
      · exact h.evalError hfst hrest hup (.inr ⟨f, hf, hfail⟩)
      · exact h.returnRow hfst hrest hup hbef

lemma Good.rightError (h : Good G t) (hfst : (t.view G).First s ss)
    (hrest : s.rest = .error :: xs) (hup : t.rightUp = (i, some .error) :: es) :
    RightDone j c G t es t.rightError := by
  unfold Tcb.rightError
  split_ifs with hfree
  · exact ⟨h, .refl t, .refl⟩
  · refine h.use hfst hrest hup
      ((cancelParentRequest_marked _ _).alike.trans (putEntry_alike _ _ t))
      ((h.putEntry _ _).cancelParentRequest _) ?_
    rw [cancelParentRequest_view, putEntry_view rfl]
    exact .childError hfst hrest

lemma RightDone.finishLeft (hfst : (t.view G).First s ss) (hrest : s.rest = [])
    (hup : t.rightUp = (i, none) :: es) (hu : Alike u t) (hgood : Good G u)
    (hmove : Move j c (t.view G) ((u.view G).finished ss)) {n : ℕ} (hn : n = u.up.length) :
    RightDone j c G t es (u.finishLeft, some n) := by
  have hlt : u.head < u.phaseOne := by
    rw [hu.head, hu.phaseOne]
    exact hfst.lt
  have hsent : (G u.head).sent = s :: ss := by
    rw [hu.head]
    exact hfst.sent
  refine ⟨_, ⟨hgood.aligned.finishLeft hlt hsent hrest (hu.rightUp.trans hup), hgood.noFault,
    hgood.marks.left, hgood.marks.right⟩, ⟨hu.head, hu.phaseOne, ?_⟩, ?_, fun _ => hn⟩
  · simp only [Tcb.finishLeft, Tcb.setState, update_self]
    rw [hu.head]
    exact hu.leftStep t.head
  · refine hmove.to ?_
    simp only [Tcb.view, View.finished, View.setTrack, Tcb.finishLeft, Tcb.setState, matched_update]

lemma Good.rightEnd (hj : j.Reports) (h : Good G t) (hfst : (t.view G).First s ss)
    (hrest : s.rest = []) (hup : t.rightUp = (i, none) :: es) :
    RightDone j c G t es (t.rightEnd j s.left) := by
  unfold Tcb.rightEnd
  split_ifs with hext
  · have hextend := Move.nullExtend (j := j) (c := c) hfst hrest hext
    unfold Tcb.nullExtend
    split_ifs with hfree
    · exact ⟨h, .refl t, .refl⟩
    · cases haft : j.afterPred s.left none with
      | error => exact (hj.extended hext.1 _ haft).elim
      | no =>
        refine RightDone.finishLeft hfst hrest hup (.refl t) h ?_ rfl
        have hnone : j.extended s.left = [] := by simp [Tdb.extended, haft]
        rw [hnone] at hextend
        refine hextend.to ?_
        simp [View.put, View.finished, View.setTrack, Tcb.view]
      | yes =>
        refine RightDone.finishLeft hfst hrest hup (putEntry_alike _ _ t) (h.putEntry _ _) ?_ ?_
        · rw [putEntry_view rfl]
          have hone : j.extended s.left = [(s.left, none)] := by simp [Tdb.extended, haft]
          rw [hone] at hextend
          exact hextend
        · simp [Tcb.putEntry]
  · exact RightDone.finishLeft hfst hrest hup (.refl t) h (.endRight hfst hrest hext) rfl

end Item

lemma Good.rightReply (hj : j.Reports) (h : Good G t) (refused : Bool) (hlt : t.head < t.phaseOne)
    (hmatches : (t.pstate t.head).leftMatches ≠ 0) {e : ℕ × Option (Item β)}
    {es : List (ℕ × Option (Item β))} (hup : t.rightUp = e :: es) :
    RightDone j c G t es (t.rightReply j refused e) := by
  obtain ⟨s, ss, m, hsent, hhand⟩ := h.aligned.first_sent hlt hmatches
  have hfst : (t.view G).First s ss := ⟨hlt, hsent⟩
  obtain ⟨i, reply⟩ := e
  unfold Tcb.rightReply
  simp only [hhand]
  cases reply with
  | none =>
    obtain ⟨hindex, hrest⟩ := h.aligned.right_end hlt hsent hup
    rw [if_pos hindex]
    exact h.rightEnd hj hfst hrest hup
  | some x =>
    obtain ⟨hindex, xs, hrest⟩ := h.aligned.right_item hlt hsent hup
    rw [if_pos hindex]
    by_cases hno : t.noMore t.head = true
    · simp only [hno, if_true]
      exact h.use hfst hrest hup (.refl t) h (.skipItem hfst hrest (.inl hno))
    · simp only [if_neg hno]
      cases x with
      | row r => exact h.rightRow hj refused hfst hrest hup
      | error => exact h.rightError hfst hrest hup

lemma evalError_some (h : t.free ≠ 0) : t.evalError.2 ≠ none := by
  unfold evalError
  rw [if_neg h]
  exact Option.some_ne_none _

lemma returnRow_some (j : Tdb α β) (l : α) (r : β) (h : t.free ≠ 0) :
    (t.returnRow j l r).2 ≠ none := by
  unfold returnRow
  split
  next => exact evalError_some h
  next => exact Option.some_ne_none _
  next =>
    split_ifs
    · exact Option.some_ne_none _
    · exact Option.some_ne_none _

lemma rightRow_some (j : Tdb α β) (l : α) (r : β) (h : t.free ≠ 0) :
    (t.rightRow j false l r).2 ≠ none := by
  have hmat : (t.setMatched true).free ≠ 0 := h
  unfold rightRow
  split
  next => exact evalError_some h
  next => exact Option.some_ne_none _
  next =>
    split
    next => exact returnRow_some j l r hmat
    next =>
      rw [if_neg Bool.false_ne_true]
      split_ifs
      · exact evalError_some hmat
      · exact returnRow_some j l r hmat

lemma rightEnd_some (j : Tdb α β) (l : α) (h : t.free ≠ 0) : (t.rightEnd j l).2 ≠ none := by
  unfold rightEnd nullExtend
  split_ifs
  · cases j.afterPred l none <;> exact Option.some_ne_none _
  · exact Option.some_ne_none _

lemma Good.rightReply_some (h : Good G t) (hlt : t.head < t.phaseOne)
    (hmatches : (t.pstate t.head).leftMatches ≠ 0) {e : ℕ × Option (Item β)}
    {es : List (ℕ × Option (Item β))} (hup : t.rightUp = e :: es) (hfree : t.free ≠ 0) :
    (t.rightReply j false e).2 ≠ none := by
  obtain ⟨s, ss, m, hsent, hhand⟩ := h.aligned.first_sent hlt hmatches
  obtain ⟨i, reply⟩ := e
  unfold Tcb.rightReply
  simp only [hhand]
  cases reply with
  | none =>
    rw [if_pos (h.aligned.right_end hlt hsent hup).1]
    exact rightEnd_some j s.left hfree
  | some x =>
    rw [if_pos (h.aligned.right_item hlt hsent hup).1]
    split_ifs
    · exact Option.some_ne_none _
    · cases x with
      | row r => exact rightRow_some j s.left r hfree
      | error =>
        rw [Tcb.rightError, if_neg hfree]
        exact Option.some_ne_none _

structure Looped (j : Tdb α β) (c : Children α β) (G G' : ℕ → Track α β) (t s : Tcb α β)
    (busy : Prop) : Prop where
  good : Good G' s
  keeps : Keeps s t
  moves : Moves j c (t.view G) (s.view G')
  drops : busy → (s.view G').rank < (t.view G).rank

lemma Good.rightLoop (hj : j.Reports) :
    ∀ (es : List (ℕ × Option (Item β))) (refused : ℕ → Bool) (u : ℕ) {G : ℕ → Track α β}
      {t : Tcb α β}, Good G t → t.rightUp = es → t.head < t.phaseOne →
      ((t.pstate t.head).leftMatches = 0 → u = t.up.length) →
      ∃ G', Looped j c G G' t (rightLoop j refused es u t).1
          ((t.pstate t.head).leftMatches ≠ 0 ∧ es ≠ [] ∧ t.free ≠ 0 ∧ refused 0 = false) ∧
        ∀ u', (rightLoop j refused es u t).2 = some u' →
          ((rightLoop j refused es u t).1.pstate
            (rightLoop j refused es u t).1.head).leftMatches = 0 →
            u' = (rightLoop j refused es u t).1.up.length
  | [], refused, u, G, t, h, _, _, hu => by
    refine ⟨G, ⟨h, .refl t, .refl, fun hbusy => (hbusy.2.1 rfl).elim⟩, fun u' hu' hzero => ?_⟩
    cases hu'
    exact hu hzero
  | e :: es, refused, u, G, t, h, hup, hlt, hu => by
    unfold Tcb.rightLoop
    split_ifs with hzero
    · refine ⟨G, ⟨h, .refl t, .refl, fun hbusy => (hbusy.1 hzero).elim⟩, fun u' hu' hzero => ?_⟩
      cases hu'
      exact hu hzero
    · have hdone := h.rightReply (c := c) hj (refused 0) hlt hzero hup
      have hsome := fun hfree => h.rightReply_some (j := j) hlt hzero hup hfree
      rcases hres : t.rightReply j (refused 0) e with ⟨s, _ | v⟩
      · rw [hres] at hdone
        obtain ⟨hgood, hkeeps, hmov⟩ := hdone
        refine ⟨G, ⟨hgood, hkeeps, hmov, fun hbusy => ?_⟩, fun _ hnone => by cases hnone⟩
        rw [hbusy.2.2.2] at hres
        exact (hsome hbusy.2.2.1 (congrArg Prod.snd hres)).elim
      · rw [hres] at hdone
        obtain ⟨G₁, hgood, hkeeps, hmove, hptr⟩ := hdone
        have hlt' : s.head < s.phaseOne := by
          rw [hkeeps.head, hkeeps.phaseOne]
          exact hlt
        obtain ⟨G₂, hloop, hptr₂⟩ :=
          Good.rightLoop hj es (fun n => refused (n + 1)) v hgood rfl hlt' hptr
        exact ⟨G₂, ⟨hloop.good, hloop.keeps.trans ⟨hkeeps.head, hkeeps.phaseOne, hkeeps.leftStep⟩,
          .head (.inl hmove) hloop.moves, fun _ => hloop.moves.rank_le.trans_lt hmove.rank_lt⟩, hptr₂⟩

end Trafodion.NestedJoin
