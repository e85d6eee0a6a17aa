import Mathlib.Algebra.BigOperators.Group.List.Basic
import Trafodion.SplitTop

/-!
# What a split-top node hands to its parent

The rows sent to the parent are, child by child, the first rows of that child, and with a merge
expression they are in order and not above any row that is left. One entry taken from a child
keeps this if it is a least one; the ring and the merge sequence only decide which child is next.
-/
namespace Trafodion.SplitTop

open List Function Entry Tcb

variable {α κ : Type}

/-! ### Rows of a child -/

variable (up : List (Option (ℕ × α)))

def sentRows : List (ℕ × α) := up.filterMap id

variable (ch : ℕ) (l : List (ℕ × α))

def fromChild : List α := (l.filter (·.1 = ch)).map Prod.snd

def Entry.row? : Entry α → Option α
  | .row r => some r
  | .noData => none

def rowsOf (l : List (Entry α)) : List α := l.filterMap row?

@[simp] lemma sentRows_snoc_some (x : ℕ × α) :
    sentRows (up ++ [some x]) = sentRows up ++ [x] := by
  simp [sentRows]

@[simp] lemma sentRows_snoc_none : sentRows (up ++ [none]) = sentRows up := by
  simp [sentRows]

lemma fromChild_snoc_self (r : α) : fromChild ch (l ++ [(ch, r)]) = fromChild ch l ++ [r] := by
  simp [fromChild]

lemma fromChild_snoc_of_ne {ch ch' : ℕ} (h : ch' ≠ ch) (l : List (ℕ × α)) (r : α) :
    fromChild ch (l ++ [(ch', r)]) = fromChild ch l := by
  simp [fromChild, h]

lemma rowsOf_ending (rs : List α) : rowsOf (rs.map row ++ [.noData]) = rs := by
  have hrow : row? ∘ row = (some : α → Option α) := rfl
  simp [rowsOf, filterMap_append, filterMap_map, hrow, row?]

section Order

variable [LinearOrder κ] (active : List ℕ) (rows : ℕ → List α) (mergeKey : Option (α → κ))

/-- The rows that are first in the order of each child and, with a merge expression, in the
order of the keys. -/
structure First (l : List (ℕ × α)) : Prop where
  mem : ∀ x ∈ l, x.1 ∈ active
  inOrder : ∀ ch, fromChild ch l <+: rows ch
  sorted : ∀ key ∈ mergeKey, l.Pairwise fun x y => key x.2 ≤ key y.2
  below : ∀ key ∈ mergeKey, ∀ x ∈ l, ∀ ch ∈ active,
    ∀ y ∈ (rows ch).drop (fromChild ch l).length, key x.2 ≤ key y

variable {active rows mergeKey}

lemma First.nil : First active rows mergeKey [] :=
  { mem := by simp
    inOrder := fun ch => by simp [fromChild]
    sorted := by simp
    below := by simp }

lemma First.snoc {l : List (ℕ × α)} (h : First active rows mergeKey l) {ch : ℕ} {r : α}
    {rest : List α} (hch : ch ∈ active) (hnext : (rows ch).drop (fromChild ch l).length = r :: rest)
    (hleast : ∀ key ∈ mergeKey, ∀ ch' ∈ active,
      ∀ y ∈ (rows ch').drop (fromChild ch' l).length, key r ≤ key y) :
    First active rows mergeKey (l ++ [(ch, r)]) := by
  have hdrop : ∀ ch', ∀ y ∈ (rows ch').drop (fromChild ch' (l ++ [(ch, r)])).length,
      y ∈ (rows ch').drop (fromChild ch' l).length := by
    intro ch' y hy
    by_cases heq : ch = ch'
    · subst heq
      rw [fromChild_snoc_self, length_append, ← drop_drop, hnext] at hy
      rw [hnext]
      exact mem_cons_of_mem r hy
    · rwa [fromChild_snoc_of_ne heq] at hy
  refine ⟨forall_mem_append.2 ⟨h.mem, forall_mem_singleton.2 hch⟩, fun ch' => ?_,
    fun key hkey => ?_, fun key hkey => ?_⟩
  · by_cases heq : ch = ch'
    · subst heq
      rw [fromChild_snoc_self]
      obtain ⟨tail, htail⟩ := h.inOrder ch
      have hrest : tail = r :: rest := by
        rw [← htail, drop_left] at hnext
        exact hnext
      exact ⟨rest, by rw [← htail, hrest, append_assoc]; rfl⟩
    · rw [fromChild_snoc_of_ne heq]
      exact h.inOrder ch'
  · refine pairwise_append.2 ⟨h.sorted key hkey, pairwise_singleton _ _, ?_⟩
    refine fun x hx => forall_mem_singleton.2 ?_
    exact h.below key hkey x hx ch hch r (by rw [hnext]; exact mem_cons_self)
  · refine forall_mem_append.2 ⟨fun x hx ch' hch' y hy => ?_, forall_mem_singleton.2 ?_⟩
    · exact h.below key hkey x hx ch' hch' y (hdrop ch' y hy)
    · exact fun ch' hch' y hy => hleast key hkey ch' hch' y (hdrop ch' y hy)

end Order

/-! ### The invariant -/

section Invariant

variable [LinearOrder κ] (active : List ℕ) (rows : ℕ → List α) (mergeKey : Option (α → κ))
  (req : Request)

structure Open (t : Tcb α κ) (pending : ℕ → List (Entry α)) : Prop where
  state : t.state ≠ .cancelling
  count : t.matchCountForGetN = (sentRows t.up).length
  few : ∀ n, req = .getN n → t.matchCountForGetN < max n 1
  left : ∀ ch ∈ active, rowsOf (t.queues ch ++ pending ch) =
    (rows ch).drop (fromChild ch (sentRows t.up)).length

structure Filled (t : Tcb α κ) : Prop where
  state : t.state = .cancelling ∨ t.state = .endOfData ∨ t.state = .finished
  count : ∃ n, req = .getN n ∧ (sentRows t.up).length = n ∧ n ≤ t.matchCountForGetN

structure Good (t : Tcb α κ) (pending : ℕ → List (Entry α)) : Prop where
  sub : ∀ ch ∈ t.activeChildren, ch ∈ active
  desc : t.activeChildren.Pairwise (· > ·)
  live : ∀ ch ∈ t.activeChildren, ∃ rs : List α,
    t.queues ch ++ pending ch = rs.map row ++ [.noData]
  ended : ∀ ch, ch ∉ t.activeChildren → t.queues ch = [] ∧ pending ch = []
  emptyRead : t.emptyRead = false
  up : t.up = (sentRows t.up).map some ++ if t.state = .finished then [none] else []
  first : First active rows mergeKey (sentRows t.up)
  wanted : Open active rows req t pending ∨ Filled req t
  done : t.state = .endOfData ∨ t.state = .finished → t.activeChildren = []

variable {active rows mergeKey req} {t : Tcb α κ} {pending : ℕ → List (Entry α)}

lemma Good.nodup (h : Good active rows mergeKey req t pending) : t.activeChildren.Nodup :=
  h.desc.imp fun hgt => ne_of_gt hgt

variable {ch : ℕ} {r : α}

variable {t' : Tcb α κ} {q : List (Entry α)}

section
variable (h : Good active rows mergeKey req t pending) (hch : ch ∈ t.activeChildren)
include h hch

lemma Good.live_tail (hq : t.queues ch = .row r :: q) :
    ∃ rs : List α, q ++ pending ch = rs.map row ++ [.noData] := by
  obtain ⟨rs, hrs⟩ := h.live ch hch
  rw [hq] at hrs
  cases rs with
  | nil => cases hrs
  | cons r' rs =>
    refine ⟨rs, ?_⟩
    simp only [cons_append, map_cons, cons.injEq] at hrs
    exact hrs.2

lemma Good.state_of_active : t.state ≠ .endOfData ∧ t.state ≠ .finished := by
  constructor
  · intro hst
    rw [h.done (.inl hst)] at hch
    cases hch
  · intro hst
    rw [h.done (.inr hst)] at hch
    cases hch

end

omit [LinearOrder κ] in
lemma removeHead_queues (t : Tcb α κ) (ch ch' : ℕ) :
    (t.removeHead ch).queues ch' = if ch' = ch then (t.queues ch).tail else t.queues ch' := by
  simp [removeHead, update_apply]

/-- Removing the head row of a child, when what was sent is known to be right. -/
theorem Good.removeRow (h : Good active rows mergeKey req t pending) (hch : ch ∈ t.activeChildren)
    (hq : t.queues ch = .row r :: q) (hact : t'.activeChildren = t.activeChildren)
    (hqueues : t'.queues = t.queues) (hemp : t'.emptyRead = t.emptyRead)
    (hst : t'.state = t.state ∨ t'.state = .cancelling) (hup : t'.up = (sentRows t'.up).map some)
    (hfst : First active rows mergeKey (sentRows t'.up))
    (hwanted : Open active rows req (t'.removeHead ch) pending ∨ Filled req t') :
    Good active rows mergeKey req (t'.removeHead ch) pending := by
  have hnot := h.state_of_active hch
  have hnot' : t'.state ≠ .endOfData ∧ t'.state ≠ .finished := by
    obtain hst | hst := hst <;> rw [hst]
    · exact hnot
    · exact ⟨by decide, by decide⟩
  refine ⟨?_, ?_, fun ch' hch' => ?_, fun ch' hch' => ?_, ?_, ?_, hfst, ?_, ?_⟩
  · rw [show (t'.removeHead ch).activeChildren = t.activeChildren from hact]
    exact h.sub
  · rw [show (t'.removeHead ch).activeChildren = t.activeChildren from hact]
    exact h.desc
  · rw [removeHead_queues, hqueues]
    rw [show (t'.removeHead ch).activeChildren = t.activeChildren from hact] at hch'
    split_ifs with heq
    · subst heq
      rw [hq]
      exact h.live_tail hch' hq
    · exact h.live ch' hch'
  · rw [show (t'.removeHead ch).activeChildren = t.activeChildren from hact] at hch'
    have hne : ch' ≠ ch := by
      rintro rfl
      exact hch' hch
    rw [removeHead_queues, hqueues, if_neg hne]
    exact h.ended ch' hch'
  · exact hemp.trans h.emptyRead
  · rw [if_neg (show (t'.removeHead ch).state ≠ .finished from hnot'.2), append_nil]
    exact hup
  · exact hwanted.imp_right fun hfill => ⟨hfill.state, hfill.count⟩
  · rintro (hend | hend)
    · exact absurd hend hnot'.1
    · exact absurd hend hnot'.2

def Least (active : List ℕ) (mergeKey : Option (α → κ)) (t : Tcb α κ)
    (pending : ℕ → List (Entry α)) (r : α) : Prop :=
  ∀ key ∈ mergeKey, ∀ ch ∈ active, ∀ y ∈ rowsOf (t.queues ch ++ pending ch), key r ≤ key y

omit [LinearOrder κ] in
lemma Open.next (hopen : Open active rows req t pending) (hch : ch ∈ active)
    (hq : t.queues ch = .row r :: q) :
    (rows ch).drop (fromChild ch (sentRows t.up)).length = r :: rowsOf (q ++ pending ch) := by
  rw [← hopen.left ch hch, hq]
  rfl

lemma Good.sent (h : Good active rows mergeKey req t pending)
    (hopen : Open active rows req t pending) (hch : ch ∈ t.activeChildren)
    (hq : t.queues ch = .row r :: q) (hleast : Least active mergeKey t pending r) :
    First active rows mergeKey (sentRows t.up ++ [(ch, r)]) := by
  refine h.first.snoc (h.sub ch hch) (hopen.next (h.sub ch hch) hq) fun key hkey ch' hch' y hy => ?_
  rw [← hopen.left ch' hch'] at hy
  exact hleast key hkey ch' hch' y hy

omit [LinearOrder κ] in
lemma Open.left_after (hopen : Open active rows req t pending) (hch : ch ∈ active)
    (hq : t.queues ch = .row r :: q) (hqueues : t'.queues = t.queues)
    (hup : sentRows t'.up = sentRows t.up ++ [(ch, r)]) :
    ∀ ch' ∈ active, rowsOf ((t'.removeHead ch).queues ch' ++ pending ch') =
      (rows ch').drop (fromChild ch' (sentRows t'.up)).length := by
  intro ch' hch'
  rw [removeHead_queues, hqueues, hup]
  split_ifs with heq
  · subst heq
    rw [fromChild_snoc_self, length_append, ← drop_drop, hopen.next hch hq, hq]
    rfl
  · rw [fromChild_snoc_of_ne (Ne.symm heq)]
    exact hopen.left ch' hch'

section
variable (h : Good active rows mergeKey req t pending) (hch : ch ∈ t.activeChildren)
include h hch

lemma Good.takeRow {q : List (Entry α)} (hq : t.queues ch = .row r :: q)
    (hleast : Open active rows req t pending → Least active mergeKey t pending r) :
    Good active rows mergeKey req (t.takeRow req ch r).1 pending := by
  have hnot := h.state_of_active hch
  have hup : t.up = (sentRows t.up).map some := by
    have hup := h.up
    rwa [if_neg hnot.2, append_nil] at hup
  have hup' : t.up ++ [some (ch, r)] = (sentRows (t.up ++ [some (ch, r)])).map some := by
    rw [sentRows_snoc_some, map_append, ← hup]
    rfl
  have hfst (hopen : Open active rows req t pending) :
      First active rows mergeKey (sentRows (t.up ++ [some (ch, r)])) := by
    rw [sentRows_snoc_some]
    exact h.sent hopen hch hq (hleast hopen)
  unfold Tcb.takeRow
  cases req with
  | getAll =>
    have hopen : Open active rows .getAll t pending := by
      obtain hopen | hfill := h.wanted
      · exact hopen
      · obtain ⟨n, hn, -⟩ := hfill.count
        cases hn
    refine h.removeRow hch hq rfl rfl rfl (.inl rfl) hup' (hfst hopen)
      (.inl ⟨hopen.state, ?_, ?_, ?_⟩)
    · simp [removeHead, insertUp, hopen.count]
    · intro n hn
      cases hn
    · exact hopen.left_after (h.sub ch hch) hq rfl (sentRows_snoc_some _ _)
  | getN n =>
    have hopened (hcan : t.state ≠ .cancelling) : Open active rows (.getN n) t pending :=
      h.wanted.resolve_right fun hfill =>
        hcan (hfill.state.resolve_right (by simp [hnot]))
    dsimp only
    split_ifs with hn hcan hlast
    · -- enough rows were sent before
      have hfill : Filled (.getN n) t := h.wanted.resolve_left fun hopen => hopen.state hcan
      obtain ⟨m, hm, hlen, hle⟩ := hfill.count
      exact h.removeRow hch hq rfl rfl rfl (.inl rfl) hup h.first
        (.inr ⟨hfill.state, m, hm, hlen, Nat.le_succ_of_le hle⟩)
    · -- the last row that is needed
      have hopen := hopened hcan
      refine h.removeRow hch hq rfl rfl rfl (.inr rfl) hup' (hfst hopen)
        (.inr ⟨.inl rfl, n, rfl, ?_, hn⟩)
      · rw [insertUp, sentRows_snoc_some, length_append, ← hopen.count]
        exact hlast
    · -- no row is needed at all
      have hopen := hopened hcan
      have hfew := hopen.few n rfl
      have hcnt := hopen.count
      have hnone : (sentRows t.up).length = n := by omega
      exact h.removeRow hch hq rfl rfl rfl (.inr rfl) hup h.first
        (.inr ⟨.inl rfl, n, rfl, hnone, hn⟩)
    · have hopen : Open active rows (.getN n) t pending := by
        obtain hopen | hfill := h.wanted
        · exact hopen
        · obtain ⟨m, hm, -, hle⟩ := hfill.count
          cases hm
          exact absurd (Nat.le_succ_of_le hle) hn
      refine h.removeRow hch hq rfl rfl rfl (.inl rfl) hup' (hfst hopen)
        (.inl ⟨hopen.state, ?_, ?_, ?_⟩)
      · simp [removeHead, insertUp, hopen.count]
      · rintro m hm
        cases hm
        exact lt_of_lt_of_le (not_le.1 hn) (le_max_left _ _)
      · exact hopen.left_after (h.sub ch hch) hq rfl (sentRows_snoc_some _ _)

lemma Good.takeEnd (hq : t.queues ch = .noData :: q) : Good active rows mergeKey req
      { t.removeHead ch with activeChildren := t.activeChildren.erase ch } pending := by
  have hnot := h.state_of_active hch
  obtain ⟨rs, hrs⟩ := h.live ch hch
  have hlast : q = [] ∧ pending ch = [] := by
    rw [hq] at hrs
    cases rs with
    | nil => simpa using hrs
    | cons r rs => cases hrs
  have hrows : ∀ ch', rowsOf ((t.removeHead ch).queues ch' ++ pending ch') =
      rowsOf (t.queues ch' ++ pending ch') := by
    intro ch'
    rw [removeHead_queues]
    split_ifs with heq
    · subst heq
      rw [hq]
      rfl
    · rfl
  refine ⟨fun ch' hch' => h.sub ch' (mem_of_mem_erase hch'), h.desc.sublist erase_sublist,
    fun ch' hch' => ?_, fun ch' hch' => ?_, h.emptyRead, h.up, h.first, ?_, ?_⟩
  · have hne : ch' ≠ ch := fun heq => h.nodup.not_mem_erase (heq ▸ hch')
    rw [removeHead_queues, if_neg hne]
    exact h.live ch' (mem_of_mem_erase hch')
  · rw [removeHead_queues]
    split_ifs with heq
    · subst heq
      rw [hq]
      exact hlast
    · refine h.ended ch' fun hmem => hch' ?_
      exact (mem_erase_of_ne heq).2 hmem
  · refine h.wanted.imp (fun hopen => ⟨hopen.state, hopen.count, hopen.few, fun ch' hch' => ?_⟩)
      fun hfill => ⟨hfill.state, hfill.count⟩
    exact (hrows ch').trans (hopen.left ch' hch')
  · rintro (hend | hend)
    · exact absurd hend hnot.1
    · exact absurd hend hnot.2

end

/-! ### One entry -/

omit [LinearOrder κ] in
structure Took (t : Tcb α κ) (ch : ℕ) (t' : Tcb α κ) (ended : Bool) : Prop where
  queues : t'.queues = update t.queues ch (t.queues ch).tail
  active : t'.activeChildren = if ended then t.activeChildren.erase ch else t.activeChildren
  mergeSequence : t'.mergeSequence = t.mergeSequence
  unmerged : t'.unmergedChildren = t.unmergedChildren
  state : t'.state = t.state ∨ t'.state = .cancelling
  last : ended = true ↔ (t.queues ch).head? = some .noData

omit [LinearOrder κ] in
lemma takeRow_took (req : Request) (hq : t.queues ch = .row r :: q) :
    Took t ch (t.takeRow req ch r).1 false := by
  have hlast : false = true ↔ (t.queues ch).head? = some .noData := by simp [hq]
  unfold takeRow
  cases req with
  | getAll => exact ⟨rfl, rfl, rfl, rfl, .inl rfl, hlast⟩
  | getN n =>
    dsimp only
    split_ifs
    · exact ⟨rfl, rfl, rfl, rfl, .inl rfl, hlast⟩
    · exact ⟨rfl, rfl, rfl, rfl, .inr rfl, hlast⟩
    · exact ⟨rfl, rfl, rfl, rfl, .inr rfl, hlast⟩
    · exact ⟨rfl, rfl, rfl, rfl, .inl rfl, hlast⟩

/-- **One entry** of a child that has one. -/
theorem Good.takeEntry (h : Good active rows mergeKey req t pending)
    (hch : ch ∈ t.activeChildren) (hne : t.queues ch ≠ [])
    (hleast : ∀ r q, t.queues ch = .row r :: q → Open active rows req t pending →
      Least active mergeKey t pending r) :
    Good active rows mergeKey req (t.takeEntry req ch).1 pending ∧
      Took t ch (t.takeEntry req ch).1 (t.takeEntry req ch).2.2 ∧
      ((t.takeEntry req ch).2.2 = true → (t.takeEntry req ch).2.1 = true) := by
  unfold Tcb.takeEntry
  match hq : t.queues ch with
  | [] => exact absurd hq hne
  | .row r :: q =>
    exact ⟨h.takeRow hch hq (hleast r q hq), takeRow_took req hq, by simp⟩
  | .noData :: q =>
    exact ⟨h.takeEnd hch hq, ⟨by simp [removeHead, hq], rfl, rfl, rfl, .inl rfl, by simp [hq]⟩,
      fun _ => rfl⟩

omit [LinearOrder κ] in
lemma Took.queued_lt {ended : Bool} (h : Took t ch t' ended)
    (hnd : t.activeChildren.Nodup) (hch : ch ∈ t.activeChildren) (hne : t.queues ch ≠ []) :
    t'.queued < t.queued := by
  have hpos : 0 < (t.queues ch).length := length_pos_iff.2 hne
  have hrest : (t.activeChildren.erase ch).map (fun c => (t'.queues c).length) =
      (t.activeChildren.erase ch).map fun c => (t.queues c).length := by
    refine map_congr_left fun c hc => ?_
    have hcne : c ≠ ch := fun heq => hnd.not_mem_erase (heq ▸ hc)
    rw [h.queues, update_of_ne hcne]
  have hold := sum_map_erase (fun c => (t.queues c).length) hch
  have hnew := sum_map_erase (fun c => (t'.queues c).length) hch
  have htail : (t'.queues ch).length = (t.queues ch).length - 1 := by
    rw [h.queues, update_self, length_tail]
  unfold queued
  rw [h.active]
  split_ifs
  · rw [hrest]
    omega
  · rw [hrest] at hnew
    omega

end Invariant

end Trafodion.SplitTop
