import Trafodion.NestedJoinBlocks
import Trafodion.NestedJoinEvents

/-!
# Every request to a nested join is answered once

In every run the parent is sent one block of entries for each request, and as long as there are
requests a round of all work procedures makes at least one move.
-/
namespace Trafodion.NestedJoin

open List NestedJoin Runs Tcb

variable {α β : Type} {j : Tdb α β} {c : Children α β} {G : ℕ → Track α β} {t : Tcb α β} {size : Sizes}

/-! ### Rounds -/

def round : List Event :=
  [.parentTakes, .deliverLeft false, .deliverRight false, .workPhase1, .workPhase2,
    .workPhase3 fun _ _ => false]

def rounds (n : ℕ) : List Event := (replicate n round).flatten

structure Sizes.Positive (size : Sizes) : Prop where
  parentUp : 0 < size.parentUp
  left : 0 < size.left
  right : 0 < size.right

def Reaches (j : Tdb α β) (c : Children α β) (G : ℕ → Track α β) (t s : Tcb α β) : Prop :=
  ∃ G', Good G' s ∧ Moves j c (t.view G) (s.view G')

def Drops (j : Tdb α β) (c : Children α β) (G : ℕ → Track α β) (t s : Tcb α β) : Prop :=
  ∃ G', Good G' s ∧ Moves j c (t.view G) (s.view G') ∧ (s.view G').rank < (t.view G).rank

def Event.inner : Event → Bool
  | .parentSends => false
  | .parentCancels _ => false
  | _ => true

variable {v w : View α β} {e : Event}

lemma Effect.moves (h : Effect j c v w e) (he : e.inner = true) : Moves j c v w := by
  cases e with
  | parentSends => cases he
  | parentCancels k => cases he
  | _ => exact h

lemma Good.reaches (hj : j.Reports) (h : Good G t) (size : Sizes) {l : List Event}
    (hl : ∀ e ∈ l, e.inner = true) : Reaches j c G t (Runs.run (NestedJoin.step j c size) t l) := by
  induction l generalizing t G with
  | nil => exact ⟨G, h, .refl⟩
  | cons e l ih =>
    obtain ⟨G₁, h₁, heff⟩ := h.step (c := c) hj size e
    obtain ⟨G₂, h₂, hmov⟩ := ih h₁ (forall_mem_cons.1 hl).2
    exact ⟨G₂, h₂, (heff.moves (hl e mem_cons_self)).trans hmov⟩

lemma Drops.run (hj : j.Reports) {s : Tcb α β} (h : Drops j c G t s) (size : Sizes)
    {l : List Event} (hl : ∀ e ∈ l, e.inner = true) : Drops j c G t (run (step j c size) s l) := by
  obtain ⟨G₁, h₁, hmov, hlt⟩ := h
  obtain ⟨G₂, h₂, hmov₂⟩ := h₁.reaches (c := c) hj size hl
  exact ⟨G₂, h₂, hmov.trans hmov₂, hmov₂.rank_le.trans_lt hlt⟩

lemma Drops.of_move {s : Tcb α β} (h : ∃ G', Good G' s ∧ Move j c (t.view G) (s.view G')) :
    Drops j c G t s := by
  obtain ⟨G', hgood, hmove⟩ := h
  exact ⟨G', hgood, .single (.inl hmove), hmove.rank_lt⟩

lemma Good.workPhase1_drops (h : Good G t) (hlt : t.phaseOne < t.tail)
    (hroom : t.leftDown.length < size.left) :
    Drops j c G t (NestedJoin.step j c size t .workPhase1) := by
  obtain ⟨n, hn⟩ : ∃ n, t.tail - t.phaseOne = n + 1 := ⟨t.tail - t.phaseOne - 1, by omega⟩
  simp only [NestedJoin.step, Tcb.workPhase1, hn, Tcb.phase1Loop]
  rw [if_neg (by omega)]
  obtain ⟨G₁, h₁, hmove⟩ := h.sendLeft j c hlt
  have hcnt : n ≤ (t.sendLeft c).tail - (t.sendLeft c).phaseOne := by
    unfold Tcb.sendLeft Tcb.setState
    split_ifs <;> dsimp only <;> omega
  obtain ⟨G₂, h₂, hmov⟩ := h₁.phase1Loop j c size.left n hcnt
  exact ⟨G₂, h₂, .head (.inl hmove) hmov, hmov.rank_le.trans_lt hmove.rank_lt⟩

lemma leftReply_some {e : LeftEntry α} {rightSize : ℕ} (h : t.rightDown.length < rightSize) :
    ∃ s, t.leftReply j c rightSize e = some s := by
  unfold leftReply
  split
  next => exact ⟨_, rfl⟩
  next =>
    split_ifs
    · exact ⟨_, rfl⟩
    · omega
    · exact ⟨_, rfl⟩
    · exact ⟨_, rfl⟩
  next =>
    split_ifs
    · exact ⟨_, rfl⟩
    · exact ⟨_, rfl⟩

lemma Good.workPhase2_drops (hj : j.Reports) (h : Good G t) (hfr : t.fresh ≠ [])
    (hroom : t.rightDown.length < size.right) :
    Drops j c G t (NestedJoin.step j c size t .workPhase2) := by
  obtain ⟨e, es, hes⟩ := exists_cons_of_ne_nil hfr
  obtain ⟨s, hs⟩ := leftReply_some (j := j) (c := c) (e := e) hroom
  simp only [NestedJoin.step, Tcb.workPhase2, hes, Tcb.phase2Loop, hs]
  obtain ⟨G₁, h₁, hmove⟩ := h.leftReply hj hes hs
  obtain ⟨G₂, h₂, hmov⟩ := h₁.phase2Loop (c := c) hj size.right es rfl
  exact ⟨G₂, h₂, .head (.inl hmove) hmov, hmov.rank_le.trans_lt hmove.rank_lt⟩

/-- When everything sent has arrived and was looked at, the request at the head can be served. -/
theorem Good.headBusy (h : Good G t) (hlt : t.head < t.phaseOne) (hleft : t.leftDown = [])
    (hrt : t.rightDown = []) (hfr : t.fresh = []) (hfree : t.free ≠ 0) : HeadBusy G t := by
  refine ⟨?_, hfree, fun hmatches hup => ?_⟩
  · have hnil := h.aligned.left
    rw [hleft, hfr, flatMap_parts (ids_head hlt) Track.coming] at hnil
    have hcoming := Pipelines.stream_injective (l := []) hnil
    rw [flatMap_nil, nil_append] at hcoming
    cases hrest : (G t.head).rest with
    | none => rfl
    | some is =>
      rw [Track.coming, hrest] at hcoming
      cases hcoming
  · obtain ⟨s, ss, -, hsent, -⟩ := h.aligned.first_sent hlt hmatches
    obtain ⟨m, hm⟩ := h.aligned.right_head hlt hsent
    rw [hup, hrt] at hm
    cases Pipelines.stream_injective (l := []) hm

lemma Good.workPhase3_drops (hj : j.Reports) (h : Good G t) (size : Sizes) (hlt : t.head < t.phaseOne)
    (hleft : t.leftDown = []) (hrt : t.rightDown = []) (hfr : t.fresh = []) (hfree : t.free ≠ 0) :
    Drops j c G t (NestedJoin.step j c size t (.workPhase3 fun _ _ => false)) := by
  obtain ⟨G', hgood, hmov, hdrops⟩ := h.phase3Loop (c := c) hj (fun _ _ => false) _ le_rfl
  exact ⟨G', hgood, hmov, hdrops ⟨h.headBusy hlt hleft hrt hfr hfree, fun _ _ => rfl, by omega⟩⟩

lemma Good.parentTakes (h : Good G t) (hsize : size.Positive) :
    ∃ s, NestedJoin.step j c size t .parentTakes = s ∧ s.free ≠ 0 ∧ Good G s ∧ s.view G = t.view G := by
  have halign := h.aligned
  have hparent := hsize.parentUp
  simp only [NestedJoin.step]
  split_ifs
  · exact ⟨_, rfl, Nat.succ_ne_zero _, ⟨{ halign with }, h.noFault, h.marks.left,
      h.marks.right⟩, rfl⟩
  · exact ⟨t, rfl, by omega, h, rfl⟩

/-- **A round** makes a move, if there are requests. -/
theorem Good.round_drops (hj : j.Reports) (hsize : size.Positive) (h : Good G t)
    (hlt : t.head < t.tail) : Drops j c G t (Runs.run (NestedJoin.step j c size) t round) := by
  obtain ⟨s, hs, hfree, hgood, hview⟩ := h.parentTakes (j := j) (c := c) hsize
  have hrest : Drops j c G s (Runs.run (NestedJoin.step j c size) s
      [.deliverLeft false, .deliverRight false, .workPhase1, .workPhase2,
        .workPhase3 fun _ _ => false]) := by
    have hlt' : s.head < s.tail := by
      have hhead : s.head = t.head := congrArg View.head hview
      have htail : s.tail = t.tail := congrArg View.tail hview
      omega
    have hle := hgood.aligned.phaseOne_le
    have hleftSize := hsize.left
    have hrightSize := hsize.right
    rw [Runs.run_cons]
    cases hleft : s.leftDown with
    | cons d ds =>
      exact (Drops.of_move (hgood.deliverLeft hleft)).run hj size (by simp [Event.inner])
    | nil =>
      have hidle : NestedJoin.step j c size s (.deliverLeft false) = s := by
        simp only [NestedJoin.step, hleft, nextReply]
      rw [hidle, Runs.run_cons]
      cases hrt : s.rightDown with
      | cons d ds =>
        exact (Drops.of_move (hgood.deliverRight hrt)).run hj size (by simp [Event.inner])
      | nil =>
        have hidle : NestedJoin.step j c size s (.deliverRight false) = s := by
          simp only [NestedJoin.step, hrt, nextReply]
        rw [hidle, Runs.run_cons]
        by_cases hone : s.phaseOne < s.tail
        · exact (hgood.workPhase1_drops hone (by rw [hleft]; exact hleftSize)).run hj size
            (by simp [Event.inner])
        · have hidle : NestedJoin.step j c size s .workPhase1 = s := by
            simp only [NestedJoin.step, Tcb.workPhase1, show s.tail - s.phaseOne = 0 by omega,
              Tcb.phase1Loop]
          rw [hidle, Runs.run_cons]
          by_cases hfr : s.fresh = []
          · have hidle : NestedJoin.step j c size s .workPhase2 = s := by
              simp only [NestedJoin.step, Tcb.workPhase2, hfr, Tcb.phase2Loop]
            rw [hidle, Runs.run_cons]
            exact hgood.workPhase3_drops hj size (by omega) hleft hrt hfr hfree
          · exact (hgood.workPhase2_drops hj hfr (by rw [hrt]; exact hrightSize)).run hj size
              (by simp [Event.inner])
  rw [round, Runs.run_cons, hs]
  obtain ⟨G', hgood', hmov, hrank⟩ := hrest
  rw [hview] at hmov hrank
  exact ⟨G', hgood', hmov, hrank⟩

lemma Good.rounds (hj : j.Reports) (hsize : size.Positive) {G : ℕ → Track α β} {t : Tcb α β}
    (h : Good G t) : ∃ n G', Good G' (Runs.run (NestedJoin.step j c size) t (rounds n)) ∧
      Moves j c (t.view G) ((Runs.run (NestedJoin.step j c size) t (NestedJoin.rounds n)).view G') ∧
      (Runs.run (NestedJoin.step j c size) t (NestedJoin.rounds n)).head = t.tail := by
  by_cases hlt : t.head < t.tail
  · obtain ⟨G₁, h₁, hmov, hrank⟩ := h.round_drops (c := c) hj hsize hlt
    have htail : (Runs.run (NestedJoin.step j c size) t round).tail = t.tail := hmov.tail_eq
    obtain ⟨n, G₂, h₂, hmov₂, hhead⟩ := Good.rounds hj hsize h₁
    refine ⟨n + 1, G₂, ?_⟩
    rw [NestedJoin.rounds, replicate_succ, flatten_cons, Runs.run_append]
    exact ⟨h₂, hmov.trans hmov₂, hhead.trans htail⟩
  · have hle := h.aligned.head_le.trans h.aligned.phaseOne_le
    exact ⟨0, G, h, .refl, hle.antisymm (Nat.le_of_not_lt hlt)⟩
termination_by (t.view G).rank
decreasing_by exact hrank

/-! ### Runs -/

def Sound (t : Tcb α β) : Prop := ∃ G block, Good G t ∧ Answered block (t.view G)

lemma Answered.effect {block : ℕ → List (UpStatus α β)} (h : Answered block v)
    (heff : Effect j c v w e) : ∃ block', Answered block' w := by
  cases e with
  | parentSends =>
    obtain rfl | rfl := heff
    · exact ⟨block, h⟩
    · exact ⟨block, h.same rfl rfl rfl id⟩
  | parentCancels k =>
    obtain rfl | rfl := heff
    · exact ⟨block, h⟩
    · exact ⟨block, h.same rfl rfl rfl id⟩
  | _ => exact h.moves heff

lemma Effect.up_prefix {v w : View α β} {e : Event} (h : Effect j c v w e) : v.up <+: w.up := by
  cases e with
  | parentSends => obtain rfl | rfl := h <;> exact prefix_refl _
  | parentCancels k => obtain rfl | rfl := h <;> exact prefix_refl _
  | _ => exact Moves.up_prefix h

section
variable (hj : j.Reports) (h : Sound t) (size : Sizes)
include hj h

lemma Sound.step (e : Event) : Sound (step j c size t e) ∧ t.up <+: (step j c size t e).up := by
  obtain ⟨G, block, hgood, hans⟩ := h
  obtain ⟨G', hgood', heff⟩ := hgood.step (c := c) hj size e
  obtain ⟨block', hans'⟩ := hans.effect heff
  exact ⟨⟨G', block', hgood', hans'⟩, heff.up_prefix⟩

lemma Sound.run (l : List Event) : Sound (Runs.run (NestedJoin.step j c size) t l) :=
  Runs.run_invariant (fun _ e hs => (hs.step hj size e).1) h l

lemma Sound.up_prefix (l : List Event) :
    t.up <+: (Runs.run (NestedJoin.step j c size) t l).up := by
  induction l generalizing t with
  | nil => exact prefix_refl _
  | cons e l ih =>
    obtain ⟨hsnd, hprefix⟩ := h.step (c := c) hj size e
    exact hprefix.trans (ih hsnd)

end

lemma Good.initial (size : Sizes) : Good (fun _ => ⟨[], [], none⟩) (initial size : Tcb α β) :=
  ⟨⟨le_rfl, le_rfl, fun _ hk => absurd hk (not_mem_nil), fun _ hk => absurd hk (not_mem_nil),
    rfl, rfl, rfl⟩, rfl, fun _ _ hd => absurd hd (not_mem_nil),
    fun _ _ hd => absurd hd (not_mem_nil)⟩

lemma Sound.initial (size : Sizes) : Sound (initial size : Tcb α β) :=
  ⟨_, fun _ => [], Good.initial size, fun _ => not_mem_nil, rfl, fun _ _ => rfl, fun _ => rfl,
    fun _ => le_rfl⟩

/-- **Nested join, the answers.** If errors occur only where they are reported (`α` may be the type of
the left rows that occur), then in every run no assertion fails; what was sent is one block for each
request that was ended, in order, with one end of data each, and a part of the block of the request
at the head; each error of an expression has an error entry in its request's block; what was sent
stays as it is; and in every state reached, some number of rounds answers all requests. -/
theorem nested_join_answers_once (j : Tdb α β) (hbefore : ∀ l, j.beforePred l ≠ .error)
    (hextended : j.kind = .left ∨ j.kind = .anti → ∀ l, j.afterPred l none ≠ .error)
    (c : Children α β) (size : Sizes) (hsize : size.Positive) (l : List Event) :
    let t := Runs.run (step j c size) (initial size) l
    t.fault = false ∧
    (∃ block : ℕ → List (UpStatus α β), (∀ k, .noData ∉ block k) ∧
      t.up = (sentUp block t.head).map some ∧
      ∀ k, t.raised.count k ≤ (block k).countP UpStatus.isError) ∧
    (∀ m, t.up <+: (Runs.run (step j c size) (initial size) (l ++ m)).up) ∧
    ∃ n, ∃ block : ℕ → List (UpStatus α β), (∀ k, .noData ∉ block k) ∧
      (Runs.run (step j c size) t (rounds n)).up =
        ((range t.tail).flatMap fun k => answer k (block k)).map some := by
  intro t
  have hj : j.Reports := ⟨hbefore, hextended⟩
  have hsound : Sound t := (Sound.initial size).run hj size l
  obtain ⟨G, block, hgood, hanswered⟩ := id hsound
  refine ⟨hgood.noFault, ⟨block, hanswered.noEnd, hanswered.up, hanswered.raised⟩, fun m => ?_, ?_⟩
  · rw [Runs.run_append]
    exact hsound.up_prefix hj size m
  · obtain ⟨n, G', hgood', hmoves, hhead⟩ := hgood.rounds (c := c) hj hsize
    obtain ⟨block', hanswered'⟩ := hanswered.moves hmoves
    have htail : (Runs.run (step j c size) t (rounds n)).tail = t.tail := hmoves.tail_eq
    refine ⟨n, block', hanswered'.noEnd, ?_⟩
    have hidle : block' t.tail = [] := by
      have := hanswered'.idle
      simp only [Tcb.view] at this
      rw [hhead] at this
      exact this (hgood'.aligned.phaseOne_le.trans htail.le)
    have hup : (Runs.run (step j c size) t (rounds n)).up =
        (sentUp block' (Runs.run (step j c size) t (rounds n)).head).map some := hanswered'.up
    rw [hup, hhead, sentUp, hidle, map_nil, append_nil]

def failingPairs : Tdb ℕ ℕ where
  kind := .left
  beforePred := fun _ => .yes
  ljExpr := some fun _ _ => .error
  afterPred := fun _ _ => .yes

def twoRows : Children ℕ ℕ where
  left := fun _ => [.row 1, .row 2]
  right := fun _ l => if l = 1 then [.row 5] else []

/-- Two requests, the second of which is cancelled before it is sent to the left child. -/
theorem failingPairs_answered : ∃ n, ∃ block : ℕ → List (UpStatus ℕ ℕ), (∀ k, .noData ∉ block k) ∧
      (run (step failingPairs twoRows ⟨2, 2, 1, 1⟩)
        (run (step failingPairs twoRows ⟨2, 2, 1, 1⟩) (initial ⟨2, 2, 1, 1⟩)
          [.parentSends, .parentSends, .parentCancels 1])
        (rounds n)).up = ((range 2).flatMap fun k => answer k (block k)).map some :=
  (nested_join_answers_once failingPairs (fun _ => by simp [failingPairs])
    (fun _ _ => by simp [failingPairs]) twoRows ⟨2, 2, 1, 1⟩ ⟨by simp, by simp, by simp⟩
    [.parentSends, .parentSends, .parentCancels 1]).2.2.2

def failingBefore : Tdb ℕ ℕ where
  kind := .inner
  beforePred := fun _ => .error
  ljExpr := none
  afterPred := fun _ _ => .yes

def failingExtended : Tdb ℕ ℕ where
  kind := .left
  beforePred := fun _ => .yes
  ljExpr := none
  afterPred := fun _ r => if r = none then .error else .yes

def oneRow : Children ℕ ℕ where
  left := fun _ => [.row 1]
  right := fun _ _ => []

/-- The first error is not reported at all: the left entry is dropped as a row that is not wanted.
The second is reported in an entry that the end of data overwrites, after which an entry is sent
that was not filled. -/
theorem nested_join_loses_errors : (run (step failingBefore oneRow ⟨4, 4, 4, 4⟩) (initial ⟨4, 4, 4, 4⟩)
      ([.parentSends, .workPhase1, .deliverLeft false, .workPhase2, .deliverLeft false, .workPhase2,
        .workPhase3 fun _ _ => false])).raised = [0] ∧
    (run (step failingBefore oneRow ⟨4, 4, 4, 4⟩) (initial ⟨4, 4, 4, 4⟩)
      ([.parentSends, .workPhase1, .deliverLeft false, .workPhase2, .deliverLeft false, .workPhase2,
        .workPhase3 fun _ _ => false])).up = [some ⟨0, .noData⟩] ∧
    (run (step failingExtended oneRow ⟨4, 4, 4, 4⟩) (initial ⟨4, 4, 4, 4⟩)
      ([.parentSends, .workPhase1, .deliverLeft false, .workPhase2, .deliverLeft false, .workPhase2,
        .deliverRight false, .workPhase3 fun _ _ => false])).up = [some ⟨0, .noData⟩, none] := by
  decide

end Trafodion.NestedJoin
