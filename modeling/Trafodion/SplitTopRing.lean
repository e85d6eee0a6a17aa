import Trafodion.SplitTopOrder

/-!
# The ring of ready children

Without a merge expression any order of the children will do. The ring holds only children that
are active and have as many entries as it counts, so that no turn reads an empty queue.
-/
namespace Trafodion.SplitTop

open List Function

variable {α κ : Type}

variable [LinearOrder κ] {active : List ℕ} {rows : ℕ → List α} {req : Request} {t : Tcb α κ}
  {pending : ℕ → List (Entry α)}

omit [LinearOrder κ] in
structure RingOk (t : Tcb α κ) (ring : List (ℕ × ℕ)) : Prop where
  nodup : (ring.map Prod.fst).Nodup
  ready : ∀ x ∈ ring, x.1 ∈ t.activeChildren ∧ 0 < x.2 ∧ x.2 ≤ (t.queues x.1).length

structure Turn (active : List ℕ) (rows : ℕ → List α) (req : Request) (t : Tcb α κ)
    (pending : ℕ → List (Entry α)) (ch limit iterIdx : ℕ) (res : Tcb α κ × ℕ × Bool) : Prop where
  good : Good active rows (none : Option (α → κ)) req res.1 pending
  queued : res.1.queued < t.queued
  others : ∀ c, c ≠ ch → res.1.queues c = t.queues c
  active : res.1.activeChildren = if res.2.2 then t.activeChildren.erase ch else t.activeChildren
  taken : ∃ n, n ≤ limit ∧ (t.queues ch).length = (res.1.queues ch).length + n ∧
    (res.1.free = 0 ∨ res.2.1 = iterIdx + n)

variable {ch limit idx : ℕ} {t' : Tcb α κ}

lemma Turn.cons {res : Tcb α κ × ℕ × Bool}
    (htook : Took t ch t' false) (hqd : t'.queued < t.queued) (hne : t.queues ch ≠ [])
    (h : Turn active rows req t' pending ch limit (idx + 1) res) :
    Turn active rows req t pending ch (limit + 1) idx res := by
  have hpos : 0 < (t.queues ch).length := length_pos_iff.2 hne
  refine ⟨h.good, h.queued.trans hqd, fun c hc => ?_, ?_, ?_⟩
  · rw [h.others c hc, htook.queues, update_of_ne hc]
  · rw [h.active, htook.active]
    rfl
  · obtain ⟨n, hn, hlen, hidx⟩ := h.taken
    refine ⟨n + 1, by omega, ?_, hidx.imp_right fun heq => by omega⟩
    rw [htook.queues, update_self, length_tail] at hlen
    omega

lemma Turn.single {ended : Bool} {i : ℕ}
    (hgood : Good active rows (none : Option (α → κ)) req t' pending) (htook : Took t ch t' ended)
    (hqd : t'.queued < t.queued) (hne : t.queues ch ≠ []) (hlimit : 1 ≤ limit)
    (hidx : t'.free = 0 ∨ i = idx + 1) :
    Turn active rows req t pending ch limit idx (t', i, ended) := by
  have hpos : 0 < (t.queues ch).length := length_pos_iff.2 hne
  refine ⟨hgood, hqd, fun c hc => ?_, htook.active, 1, hlimit, ?_, hidx⟩
  · rw [htook.queues, update_of_ne hc]
  · rw [htook.queues, update_self, length_tail]
    omega

section
variable (h : Good active rows (none : Option (α → κ)) req t pending)
include h

lemma Good.takeEntries {ch : ℕ}
    (hch : ch ∈ t.activeChildren) (more idx : ℕ) (hmore : more < (t.queues ch).length) :
    Turn active rows req t pending ch (more + 1) idx (Tcb.takeEntries req ch more idx t) := by
  induction more generalizing t idx
  -- one entry is taken in both cases, and it may end the turn
  all_goals
    have hne : t.queues ch ≠ [] := length_pos_iff.1 (by omega)
    obtain ⟨hgood, htook, hstop⟩ := h.takeEntry hch hne (by simp [Least])
    have hqd := htook.queued_lt h.nodup hch hne
    rw [Tcb.takeEntries]
    dsimp only
    split_ifs with hfull hlast
    · exact Turn.single hgood htook hqd hne (by omega) (.inl hfull)
    · exact Turn.single hgood htook hqd hne (by omega) (.inr rfl)
  · exact Turn.single hgood htook hqd hne (by omega) (.inr rfl)
  next more ih =>
    have hend : (t.takeEntry req ch).2.2 = false := by
      by_contra hend
      exact hlast (hstop (by simpa using hend))
    rw [hend] at htook
    refine Turn.cons htook hqd hne (ih hgood ?_ (idx + 1) ?_)
    · rw [htook.active]
      exact hch
    · rw [htook.queues, update_self, length_tail]
      omega

lemma Good.readyPass
    {ch entryCnt : ℕ} {ring : List (ℕ × ℕ)} (hring : RingOk t ((ch, entryCnt) :: ring)) :
    Good active rows (none : Option (α → κ)) req (t.readyPass req ch entryCnt ring).1 pending ∧
      (t.readyPass req ch entryCnt ring).1.queued < t.queued ∧
      ((t.readyPass req ch entryCnt ring).1.free = 0 ∨
        RingOk (t.readyPass req ch entryCnt ring).1 (t.readyPass req ch entryCnt ring).2) := by
  obtain ⟨hch, hpos, hle⟩ := hring.ready _ mem_cons_self
  dsimp only at hch hpos hle
  obtain ⟨hnot, hnd⟩ := nodup_cons.1 hring.nodup
  have hlimit : (if 3 < entryCnt then 3 else entryCnt) - 1 < (t.queues ch).length := by
    split_ifs <;> omega
  have hturn := h.takeEntries hch _ 1 hlimit
  obtain ⟨n, hn, hlen, hidx⟩ := hturn.taken
  have hcnt : n ≤ entryCnt := by
    split_ifs at hn <;> omega
  unfold Tcb.readyPass
  dsimp only
  generalize Tcb.takeEntries req ch _ 1 t = res at *
  obtain ⟨t', iterIdx, ended⟩ := res
  dsimp only at hlen hidx ⊢
  -- the other children of the ring are as before
  have hoths : ∀ x ∈ ring, x.1 ∈ t'.activeChildren ∧ 0 < x.2 ∧
      x.2 ≤ (t'.queues x.1).length := by
    intro x hx
    obtain ⟨hact, hpos', hle'⟩ := hring.ready x (mem_cons_of_mem _ hx)
    have hne : x.1 ≠ ch := by
      intro heq
      have hmem : x.1 ∈ ring.map Prod.fst := mem_map_of_mem hx
      rw [heq] at hmem
      exact hnot hmem
    have hqueue : t'.queues x.1 = t.queues x.1 := hturn.others _ hne
    refine ⟨?_, hpos', by rwa [hqueue]⟩
    rw [show t'.activeChildren = _ from hturn.active]
    split_ifs
    · exact (mem_erase_of_ne hne).2 hact
    · exact hact
  split_ifs with hdone
  · exact ⟨hturn.good, hturn.queued, .inr ⟨hnd, hoths⟩⟩
  · push Not at hdone
    refine ⟨hturn.good, hturn.queued, hidx.imp_right fun hiter => ⟨?_, ?_⟩⟩
    · rw [map_append, map_singleton]
      exact nodup_append.2 ⟨hnd, nodup_singleton _, by
        rintro x hx y hy rfl
        rw [mem_singleton] at hy
        exact hnot (hy ▸ hx)⟩
    · refine forall_mem_append.2 ⟨hoths, forall_mem_singleton.2
        ⟨?_, Nat.pos_of_ne_zero hdone.2, ?_⟩⟩
      · rw [show t'.activeChildren = _ from hturn.active, if_neg hdone.1]
        exact hch
      · dsimp only
        omega

end

lemma Good.readyLoop (fuel : ℕ) (h : Good active rows (none : Option (α → κ)) req t pending)
    {ring : List (ℕ × ℕ)} (hring : t.free = 0 ∨ RingOk t ring) :
    Good active rows (none : Option (α → κ)) req (Tcb.readyLoop req fuel t ring) pending ∧
      (Tcb.readyLoop req fuel t ring).queued ≤ t.queued := by
  induction fuel generalizing t ring with
  | zero => exact ⟨h, le_rfl⟩
  | succ fuel ih =>
    match ring with
    | [] => exact ⟨h, le_rfl⟩
    | (ch, entryCnt) :: ring =>
      rw [Tcb.readyLoop]
      split_ifs with hfull
      · exact ⟨h, le_rfl⟩
      · obtain ⟨hgood, hqd, hring'⟩ := h.readyPass (hring.resolve_left hfull)
        obtain ⟨hgood', hqd'⟩ := ih hgood hring'
        exact ⟨hgood', hqd'.trans hqd.le⟩

lemma Good.readyChildren (h : Good active rows (none : Option (α → κ)) req t pending) :
    RingOk t t.readyChildren := by
  have hmap : ∀ l : List ℕ, ((l.map fun ch => (ch, (t.queues ch).length)).filter
      (0 < ·.2)).map Prod.fst = l.filter fun ch => 0 < (t.queues ch).length := by
    intro l
    rw [filter_map, map_map]
    exact map_id _
  refine ⟨?_, fun x hx => ?_⟩
  · rw [Tcb.readyChildren, hmap]
    exact h.nodup.filter _
  · obtain ⟨hmem, hpos⟩ := mem_filter.1 hx
    obtain ⟨ch, hch, rfl⟩ := mem_map.1 hmem
    exact ⟨hch, by simpa using hpos, le_rfl⟩

end Trafodion.SplitTop
