import Trafodion.SplitTopMerge
import Trafodion.SplitTopRing

/-!
# Split-top hands every row to its parent

Whatever the children deliver and the parent takes between the calls of `workUp`, the rows sent
are first in order, and the end of data is sent once, when every child has ended. A call for
which all entries have arrived and the parent has room leaves fewer entries or ends the request.
-/
namespace Trafodion.SplitTop

open List Function Runs SplitTop Tcb

variable {α κ : Type} [LinearOrder κ]

/-! ### The request does not end in the loops -/

variable {t : Tcb α κ} {req : Request}

section

omit [LinearOrder κ]

lemma takeEntry_state (ch : ℕ) (h : t.state ≠ .finished) :
    (t.takeEntry req ch).1.state ≠ .finished := by
  unfold takeEntry
  match (t.queues ch).head? with
  | none => exact h
  | some .noData => exact h
  | some (.row r) =>
    unfold takeRow
    cases req with
    | getAll => exact h
    | getN n =>
      dsimp only
      split_ifs
      · exact h
      · exact fun hfls => by cases hfls
      · exact fun hfls => by cases hfls
      · exact h

lemma takeEntries_state (ch more idx : ℕ)
    (h : t.state ≠ .finished) : (takeEntries req ch more idx t).1.state ≠ .finished := by
  induction more generalizing t idx with
  | zero =>
    rw [takeEntries]
    dsimp only
    split_ifs <;> exact takeEntry_state ch h
  | succ more ih =>
    rw [takeEntries]
    dsimp only
    split_ifs
    · exact takeEntry_state ch h
    · exact takeEntry_state ch h
    · exact ih (idx + 1) (takeEntry_state ch h)

lemma readyPass_state (ch cnt : ℕ) (ring : List (ℕ × ℕ))
    (h : t.state ≠ .finished) : (t.readyPass req ch cnt ring).1.state ≠ .finished := by
  unfold readyPass
  dsimp only
  split_ifs <;> exact takeEntries_state _ _ _ h

lemma readyLoop_state (fuel : ℕ) (ring : List (ℕ × ℕ))
    (h : t.state ≠ .finished) : (readyLoop req fuel t ring).state ≠ .finished := by
  induction fuel generalizing t ring with
  | zero => exact h
  | succ fuel ih =>
    match ring with
    | [] => exact h
    | (ch, entryCnt) :: ring =>
      rw [readyLoop]
      split_ifs
      · exact h
      · exact ih _ (readyPass_state ch entryCnt ring h)

end

lemma findNextReadyChild_state (key : α → κ) (h : t.state ≠ .finished) :
    (t.findNextReadyChild key).1.state ≠ .finished := by
  have hst0 : t.startMerge.state ≠ .finished := by
    unfold startMerge
    split_ifs
    · exact fun hfls => by cases hfls
    · exact h
  unfold findNextReadyChild
  split_ifs
  · unfold findAny
    match t.startMerge.findAnyChild with
    | some ch => exact hst0
    | none => exact hst0
  · unfold findMerged
    match mergeChildren key t.startMerge.queues t.startMerge.unmergedChildren
      t.startMerge.mergeSequence t.startMerge.unmergedChildren with
    | (seq, unmerged, some ch) => exact hst0
    | ([], unmerged, none) => exact hst0
    | (x :: rest, unmerged, none) =>
      unfold chooseFirst
      dsimp only
      split_ifs
      · exact hst0
      · exact hst0

lemma mergeLoop_state {key : α → κ} (fuel : ℕ)
    (h : t.state ≠ .finished) : (mergeLoop key req fuel t).state ≠ .finished := by
  induction fuel generalizing t with
  | zero => exact h
  | succ fuel ih =>
    have hfind := findNextReadyChild_state key h
    rw [mergeLoop]
    split_ifs
    · exact h
    · rcases hres : t.findNextReadyChild key with ⟨t', found⟩
      rw [hres] at hfind
      cases found with
      | none => exact hfind
      | some ch => exact ih (takeEntry_state ch hfind)

lemma upLoop_state {mergeKey : Option (α → κ)}
    (h : t.state ≠ .finished) : (t.upLoop mergeKey req).state ≠ .finished := by
  cases mergeKey with
  | none => exact readyLoop_state _ _ h
  | some key => exact mergeLoop_state _ h

/-! ### One call -/

section Work

variable {active : List ℕ} {rows : ℕ → List α} {mergeKey : Option (α → κ)} {req : Request}
  {t : Tcb α κ} {pending : ℕ → List (Entry α)}

structure Sound (active : List ℕ) (rows : ℕ → List α) (mergeKey : Option (α → κ))
    (req : Request) (t : Tcb α κ) (pending : ℕ → List (Entry α)) : Prop where
  good : Good active rows mergeKey req t pending
  merge : ∀ key ∈ mergeKey, MergeData key t

lemma Good.endRequest (h : Good active rows mergeKey req t pending)
    (hst : t.state ≠ .finished) : Good active rows mergeKey req t.endRequest pending := by
  have hup := h.up
  rw [if_neg hst, append_nil] at hup
  unfold Tcb.endRequest
  split_ifs with hact hfull
  · refine { h with up := ?_, wanted := ?_, done := fun _ => hact }
    · simpa using hup
    · exact h.wanted.imp (fun hopen => ⟨by simp, hopen.count, hopen.few, hopen.left⟩)
        fun hfill => ⟨.inr (.inl rfl), hfill.count⟩
  · have hsent : sentRows (t.up ++ [none]) = sentRows t.up := sentRows_snoc_none _
    refine { h with up := ?_, first := ?_, wanted := ?_, done := fun _ => hact }
    · simp only [insertUp, hsent, if_true]
      rw [← hup]
    · simpa only [insertUp, hsent] using h.first
    · refine h.wanted.imp (fun hopen => ⟨by simp, ?_, hopen.few, ?_⟩)
        fun hfill => ⟨.inr (.inr rfl), ?_⟩
      · simpa only [insertUp, hsent] using hopen.count
      · simpa only [insertUp, hsent] using hopen.left
      · simpa only [insertUp, hsent] using hfill.count
  · exact h

lemma endRequest_merging {key : α → κ} (h : MergeData key t) : MergeData key t.endRequest := by
  unfold endRequest
  split_ifs
  · exact fun hmerg => by cases hmerg
  · exact fun hmerg => by cases hmerg
  · exact h

def Tcb.left (t : Tcb α κ) : ℕ := t.queued + if t.state = .finished then 0 else 1

omit [LinearOrder κ] in
lemma endRequest_left (t : Tcb α κ) : t.endRequest.left ≤ t.queued + 1 := by
  have hqd : t.endRequest.queued = t.queued := by
    unfold endRequest
    split_ifs <;> rfl
  unfold left
  rw [hqd]
  split_ifs <;> omega

section
variable (h : Sound active rows mergeKey req t pending)
include h

section
variable (hsort : ∀ key ∈ mergeKey, ∀ ch ∈ active, (rows ch).Pairwise fun x y => key x ≤ key y)
include hsort

lemma Sound.upLoop : Sound active rows mergeKey req (t.upLoop mergeKey req) pending := by
  cases mergeKey with
  | none =>
    exact ⟨(h.good.readyLoop _ (.inr h.good.readyChildren)).1, by simp⟩
  | some key =>
    obtain ⟨hgood, hdata, -⟩ :=
      h.good.mergeLoop (t.queued + 1) (h.merge key rfl) (hsort key rfl)
    exact ⟨hgood, fun key' hkey' => by cases hkey'; exact hdata⟩

lemma Sound.upLoop_lt (hfree : t.free ≠ 0) (hall : ∀ ch ∈ t.activeChildren, t.queues ch ≠ [])
    (hact : t.activeChildren ≠ []) : (t.upLoop mergeKey req).queued < t.queued := by
  unfold Tcb.upLoop
  cases mergeKey with
  | none =>
    have hring := h.good.readyChildren
    match hready : t.readyChildren with
    | [] =>
      obtain ⟨ch, hch⟩ := exists_mem_of_ne_nil _ hact
      have hmem : (ch, (t.queues ch).length) ∈ t.readyChildren :=
        mem_filter.2 ⟨mem_map_of_mem hch,
          by simpa using length_pos_iff.2 (hall ch hch)⟩
      rw [hready] at hmem
      cases hmem
    | (ch, entryCnt) :: ring =>
      rw [hready] at hring
      obtain ⟨hgood, hlt, hring'⟩ := h.good.readyPass hring
      rw [readyLoop, if_neg hfree]
      exact lt_of_le_of_lt (hgood.readyLoop _ hring').2 hlt
  | some key =>
    exact h.good.mergeLoop_lt _ (h.merge key rfl) (hsort key rfl) hfree hall hact

lemma Sound.upLoop_idle (hact : t.activeChildren = []) :
    (t.upLoop mergeKey req).activeChildren = [] ∧ (t.upLoop mergeKey req).free = t.free := by
  unfold Tcb.upLoop
  cases mergeKey with
  | none =>
    have hready : t.readyChildren = [] := by simp [readyChildren, hact]
    rw [hready]
    exact ⟨hact, rfl⟩
  | some key =>
    dsimp only
    rw [mergeLoop]
    split_ifs with hfull
    · exact ⟨hact, rfl⟩
    · have hfd := h.good.findNextReadyChild (hsort key rfl) (h.merge key rfl)
      rcases hres : t.findNextReadyChild key with ⟨t', found⟩
      rw [hres] at hfd
      cases found with
      | none => exact ⟨hfd.same.1.trans hact, hfd.same.2.2⟩
      | some ch =>
        have hmem := (hfd.next ch rfl).mem
        rw [show t'.activeChildren = [] from hfd.same.1.trans hact] at hmem
        cases hmem

lemma Sound.workUp : Sound active rows mergeKey req (t.workUp mergeKey req) pending := by
  unfold Tcb.workUp
  split_ifs with hfin
  · exact h
  · have hloop := h.upLoop hsort
    exact ⟨hloop.good.endRequest (upLoop_state hfin),
      fun key hkey => endRequest_merging (hloop.merge key hkey)⟩

lemma Sound.workUp_lt (hpend : ∀ ch, pending ch = []) (hfree : t.free ≠ 0) (hfin : t.state ≠ .finished) :
    (t.workUp mergeKey req).left < t.left := by
  have hleft : t.left = t.queued + 1 := by rw [left, if_neg hfin]
  unfold Tcb.workUp
  rw [if_neg hfin, hleft]
  by_cases hact : t.activeChildren = []
  · obtain ⟨hact', hfree'⟩ := h.upLoop_idle hsort hact
    have hend : (t.upLoop mergeKey req).endRequest.left = 0 := by
      unfold endRequest
      rw [if_pos hact', if_neg (by rwa [hfree'])]
      simp [left, queued, insertUp, hact']
    omega
  · have hall : ∀ ch ∈ t.activeChildren, t.queues ch ≠ [] := by
      intro ch hch hnil
      obtain ⟨rs, hrs⟩ := h.good.live ch hch
      rw [hnil, hpend ch] at hrs
      simp at hrs
    have hlt := h.upLoop_lt hsort hfree hall hact
    have hle := endRequest_left (t.upLoop mergeKey req)
    omega

end

end

/-! ### Children and parent -/

lemma Sound.deliver (h : Sound active rows mergeKey req t pending) {ch : ℕ} {e : Entry α}
    {rest : List (Entry α)} (hpend : pending ch = e :: rest) :
    Sound active rows mergeKey req { t with queues := update t.queues ch (t.queues ch ++ [e]) }
      (update pending ch rest) := by
  have hcat : ∀ c, update t.queues ch (t.queues ch ++ [e]) c ++
      update pending ch rest c = t.queues c ++ pending c := by
    intro c
    by_cases hc : c = ch
    · subst hc
      simp [hpend]
    · rw [update_of_ne hc, update_of_ne hc]
  have hact : ch ∈ t.activeChildren := by
    by_contra hnot
    rw [(h.good.ended ch hnot).2] at hpend
    cases hpend
  have hgood := h.good
  refine ⟨{ hgood with live := fun c hc => ?_, ended := fun c hc => ?_, wanted := ?_ },
    fun key hkey hmerg => ?_⟩
  · rw [hcat]
    exact hgood.live c hc
  · have hne : c ≠ ch := by
      rintro rfl
      exact hc hact
    dsimp only
    rw [update_of_ne hne, update_of_ne hne]
    exact hgood.ended c hc
  · refine hgood.wanted.imp (fun hopen => ⟨hopen.state, hopen.count, hopen.few, fun c hc => ?_⟩)
      fun hfill => ⟨hfill.state, hfill.count⟩
    rw [hcat]
    exact hopen.left c hc
  · obtain ⟨hmgd, hperm⟩ := h.merge key hkey hmerg
    refine ⟨⟨hmgd.sorted, fun x hx => ?_⟩, hperm⟩
    obtain ⟨r, q, hq, hk⟩ := hmgd.heads x hx
    by_cases hx' : x.1 = ch
    · refine ⟨r, q ++ [e], ?_, hk⟩
      dsimp only
      rw [hx'] at hq ⊢
      rw [update_self, hq]
      rfl
    · exact ⟨r, q, (update_of_ne hx' _ _).trans hq, hk⟩

lemma rows_before_end {q p : List (Entry α)} {rs : List α}
    (h : q ++ p = rs.map Entry.row ++ [.noData]) (hp : p ≠ []) :
    ∃ rs' : List α, q = rs'.map Entry.row := by
  induction q generalizing rs with
  | nil => exact ⟨[], rfl⟩
  | cons e q ih =>
    cases rs with
    | nil =>
      obtain ⟨-, hnil⟩ : e = .noData ∧ q ++ p = [] := by simpa using h
      exact absurd (append_eq_nil_iff.1 hnil).2 hp
    | cons r rs =>
      obtain ⟨rfl, htail⟩ : e = .row r ∧ q ++ p = rs.map Entry.row ++ [.noData] := by
        simpa using h
      obtain ⟨rs', rfl⟩ := ih htail
      exact ⟨r :: rs', rfl⟩

lemma Sound.giveUp (h : Sound active rows mergeKey req t pending) {ch : ℕ}
    (hst : t.state = .cancelling) (hpend : pending ch ≠ []) :
    Sound active rows mergeKey req t (update pending ch [.noData]) := by
  have hgood := h.good
  have hact : ch ∈ t.activeChildren := by
    by_contra hnot
    exact hpend (hgood.ended ch hnot).2
  refine ⟨{ hgood with live := fun c hc => ?_, ended := fun c hc => ?_, wanted := ?_ }, h.merge⟩
  · by_cases hne : c = ch
    · subst hne
      obtain ⟨rs, hrs⟩ := hgood.live c hc
      obtain ⟨rs', hrs'⟩ := rows_before_end hrs hpend
      exact ⟨rs', by rw [update_self, hrs']⟩
    · rw [update_of_ne hne]
      exact hgood.live c hc
  · have hne : c ≠ ch := by
      rintro rfl
      exact hc hact
    rw [update_of_ne hne]
    exact hgood.ended c hc
  · obtain hopen | hfill := hgood.wanted
    · exact absurd hst hopen.state
    · exact .inr hfill

lemma Sound.setFree (h : Sound active rows mergeKey req t pending) (free : ℕ) :
    Sound active rows mergeKey req { t with free := free } pending :=
  ⟨⟨h.good.sub, h.good.desc, h.good.live, h.good.ended, h.good.emptyRead, h.good.up, h.good.first,
    h.good.wanted.imp (fun hopen => { hopen with })
      fun hfill => ⟨hfill.state, hfill.count⟩, h.good.done⟩, h.merge⟩

lemma Sound.start (hact : active.Pairwise (· > ·)) (size : ℕ) (seq : List (ℕ × κ))
    (unmerged : List ℕ) :
    Sound active rows mergeKey req (SplitTop.start active rows size seq unmerged).tcb
      (SplitTop.start active rows size seq unmerged).pending := by
  refine ⟨⟨fun _ hc => hc, hact, fun c hc => ⟨rows c, ?_⟩, fun c hc => ⟨rfl, if_neg hc⟩, rfl, rfl,
    First.nil, .inl ⟨by simp [SplitTop.start], rfl, ?_, fun c hc => ?_⟩,
      by simp [SplitTop.start]⟩, fun key _ hmerg => ?_⟩
  · exact if_pos hc
  · intro n _
    exact lt_of_lt_of_le Nat.zero_lt_one (le_max_right n 1)
  · have hp : (SplitTop.start active rows size seq unmerged).pending c =
        (rows c).map .row ++ [.noData] := if_pos hc
    rw [hp]
    exact rowsOf_ending (rows c)
  · cases hmerg

section
variable {s : Node α κ} (h : Sound active rows mergeKey req s.tcb s.pending)
  (hsort : ∀ key ∈ mergeKey, ∀ ch ∈ active, (rows ch).Pairwise fun x y => key x ≤ key y)
include h hsort

/-- **One step** of children, parent or node. -/
theorem Sound.step (size : ℕ) (e : Event) :
    Sound active rows mergeKey req (SplitTop.step mergeKey req size s e).tcb
      (SplitTop.step mergeKey req size s e).pending := by
  cases e with
  | deliver ch =>
    simp only [SplitTop.step]
    split
    next => exact h
    next e rest hpend => exact h.deliver hpend
  | giveUp ch =>
    simp only [SplitTop.step]
    split_ifs with hgive
    · exact h.giveUp hgive.1 hgive.2
    · exact h
  | parentTakes =>
    simp only [SplitTop.step]
    split_ifs
    · exact h.setFree _
    · exact h
  | workUp => exact h.workUp hsort

/-! ### Rounds -/

def rounds (n : ℕ) : List Event := (replicate n [Event.parentTakes, Event.workUp]).flatten

lemma Sound.rounds {size : ℕ} (hsize : 0 < size) (hpend : ∀ ch, s.pending ch = []) :
    ∃ n, (Runs.run (SplitTop.step mergeKey req size) s (SplitTop.rounds n)).tcb.state =
      .finished := by
  -- by induction on what is left to do
  induction hleft : s.tcb.left using Nat.strong_induction_on generalizing s with
  | _ left ih =>
    subst hleft
    by_cases hfin : s.tcb.state = .finished
    · exact ⟨0, hfin⟩
    have htk : ∃ free, free ≠ 0 ∧ SplitTop.step mergeKey req size s .parentTakes =
        { s with tcb := { s.tcb with free := free } } := by
      simp only [SplitTop.step]
      split_ifs with hroom
      · exact ⟨_, Nat.succ_ne_zero _, rfl⟩
      · exact ⟨s.tcb.free, by omega, rfl⟩
    obtain ⟨free, hfree, htk⟩ := htk
    have hsnd := (h.setFree free).workUp hsort
    have hlt := (h.setFree free).workUp_lt hsort hpend hfree hfin
    obtain ⟨n, hn⟩ := ih _ hlt (s := { s with tcb := _ }) hsnd hpend rfl
    refine ⟨n + 1, ?_⟩
    rw [SplitTop.rounds, replicate_succ, flatten_cons, Runs.run_append, Runs.run_cons,
      Runs.run_cons, Runs.run_nil, htk]
    exact hn

end

end Work

def Complete (active : List ℕ) (rows : ℕ → List α) (sent : List (ℕ × α)) : Request → Prop
  | .getAll => ∀ ch ∈ active, fromChild ch sent = rows ch
  | .getN n => sent.length = n ∨ sent.length ≤ n ∧ ∀ ch ∈ active, fromChild ch sent = rows ch

lemma Good.complete {active : List ℕ} {rows : ℕ → List α} {mergeKey : Option (α → κ)}
    {pending : ℕ → List (Entry α)}
    (h : Good active rows mergeKey req t pending) (hfin : t.state = .finished) :
    (∀ ch, t.queues ch = [] ∧ pending ch = []) ∧ Complete active rows (sentRows t.up) req := by
  have hact := h.done (.inr hfin)
  have hend : ∀ ch, t.queues ch = [] ∧ pending ch = [] :=
    fun ch => h.ended ch (by simp [hact])
  refine ⟨hend, ?_⟩
  obtain hopen | hfill := h.wanted
  · have hall : ∀ ch ∈ active, fromChild ch (sentRows t.up) = rows ch := by
      intro ch hch
      have hleft := hopen.left ch hch
      rw [(hend ch).1, (hend ch).2] at hleft
      obtain ⟨tail, htail⟩ := h.first.inOrder ch
      rw [← htail, drop_left] at hleft
      rw [← htail, ← hleft]
      exact (append_nil _).symm
    cases req with
    | getAll => exact hall
    | getN n =>
      have hfew := hopen.few n rfl
      rw [hopen.count] at hfew
      exact .inr ⟨by omega, hall⟩
  · obtain ⟨n, rfl, hlen, -⟩ := hfill.count
    exact .inl hlen

end Trafodion.SplitTop
