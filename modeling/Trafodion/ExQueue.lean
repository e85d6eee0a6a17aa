import Mathlib.Algebra.Order.Group.Nat
import Mathlib.Data.Nat.ModEq
import Trafodion.Runs

/-!
# The queues of the executor

`ex_queue` is a circular array of a power of two of entries. The indexes run on modulo 2³², and an entry is found by
masking its index; `resize` copies every entry, used or not, to the place that its index has in the new array.
-/
namespace Trafodion.ExQueue

open Function List Runs

/-- `queue_index` -/
def indexes : ℕ := 2 ^ 32

structure Queue (α : Type*) where
  queue : ℕ → α
  size : ℕ
  head : ℕ
  tail : ℕ

/-- Which allocations of a `resize` succeed; `finalAlloc` is that of the ATPs and pstates for the new entries. -/
structure Memory where
  newQueue : Bool
  atps : Bool
  pstates : Bool
  finalAlloc : Bool

namespace Queue

variable {α : Type*}

variable {k : ℕ} (q : Queue α) (i : ℕ)

def slot : ℕ := i &&& (q.size - 1)

def getLength : ℕ := (q.tail + indexes - q.head) % indexes

def isFull : Bool := q.getLength = q.size - 1

def isEmpty : Bool := q.head = q.tail

def isVacant : Bool :=
  if q.head ≤ q.tail then ¬ (q.head ≤ i ∧ i < q.tail) else ¬ (q.head ≤ i ∨ i < q.tail)

def getQueueEntry : α := q.queue (q.slot i)

def getHeadEntry : α := q.getQueueEntry q.head

/-- The entry is filled in at the tail before `insert` is called. -/
def insert (a : α) : Queue α :=
  { q with queue := update q.queue (q.slot q.tail) a, tail := (q.tail + 1) % indexes }

def removeHead : Queue α := { q with head := (q.head + 1) % indexes }

/-- `while (p2 < newSize && p2 != 0) p2 = p2 << 1`, which 32 rounds bring to an end. -/
def roundUp (newSize : ℕ) : ℕ → ℕ → ℕ
  | 0, p2 => p2
  | rounds + 1, p2 => if p2 < newSize ∧ p2 ≠ 0 then roundUp newSize rounds (2 * p2 % indexes) else p2

/-- The loop that copies the entries from the head on, `n` of them. -/
def copied (q : Queue α) (newSize : ℕ) (initial : α) : ℕ → ℕ → α
  | 0 => fun _ => initial
  | n + 1 =>
    let qi := (q.head + n) % indexes
    update (copied q newSize initial n) (qi &&& (newSize - 1)) (q.getQueueEntry qi)

def resize (initial : α) (newSize : ℕ) (memory : Memory) : Queue α :=
  let newSize := roundUp newSize 32 q.size
  if newSize ≤ q.size then q
  else if memory.newQueue && memory.atps && memory.pstates && memory.finalAlloc then
    { q with queue := q.copied newSize initial q.size, size := newSize }
  else q

/-- The queue holds the entries of a list, from its head on. -/
structure Holds (q : Queue α) (l : List α) : Prop where
  size : ∃ k < 32, q.size = 2 ^ k
  head : q.head < indexes
  tail : q.tail = (q.head + l.length) % indexes
  room : l.length < q.size
  entries : ∀ j < l.length, l[j]? = some (q.queue ((q.head + j) % q.size))

variable {q : Queue α} {l : List α} {a : α}

lemma Holds.size_dvd (h : q.Holds l) : q.size ∣ indexes := by
  obtain ⟨k, hk, hsize⟩ := h.size
  rw [hsize]
  exact pow_dvd_pow 2 hk.le

lemma Holds.size_lt (h : q.Holds l) : q.size < indexes := by
  obtain ⟨k, hk, hsize⟩ := h.size
  rw [hsize]
  exact Nat.pow_lt_pow_right (by decide) hk

lemma slot_eq_mod (hsize : q.size = 2 ^ k) (i : ℕ) : q.slot i = i % q.size := by
  rw [slot, hsize, Nat.and_two_pow_sub_one_eq_mod]

lemma Holds.getQueueEntry (h : q.Holds l) (i : ℕ) :
    q.getQueueEntry (i % indexes) = q.queue (i % q.size) := by
  obtain ⟨k, -, hsize⟩ := h.size
  rw [Queue.getQueueEntry, slot_eq_mod hsize, Nat.mod_mod_of_dvd _ h.size_dvd]

lemma Holds.getLength (h : q.Holds l) : q.getLength = l.length := by
  have hsize := h.size_lt
  obtain ⟨-, hhead, htail, hroom, -⟩ := h
  unfold Queue.getLength indexes at *
  omega

lemma Holds.exists_of_occupied (h : q.Holds l) {i : ℕ} (hi : i < indexes) (hocc : q.isVacant i = false) :
    ∃ j < l.length, i = (q.head + j) % indexes := by
  have hsize := h.size_lt
  obtain ⟨-, hhead, htail, hroom, -⟩ := h
  refine ⟨(i + indexes - q.head) % indexes, ?_, ?_⟩
  · unfold isVacant at hocc
    unfold indexes at *
    split at hocc <;> simp at hocc <;> omega
  · unfold indexes at *
    omega

lemma place_inj {n i j : ℕ} (head : ℕ) (hi : i < n) (hj : j < n) (h : (head + i) % n = (head + j) % n) : i = j :=
  Nat.ModEq.eq_of_lt_of_lt (Nat.ModEq.add_left_cancel' head h) hi hj

lemma Holds.insert (h : q.Holds l) (hfull : q.isFull = false) (a : α) : (q.insert a).Holds (l ++ [a]) := by
  obtain ⟨k, -, hsize⟩ := h.size
  have hslot : q.slot q.tail = (q.head + l.length) % q.size := by
    rw [slot_eq_mod hsize, h.tail, Nat.mod_mod_of_dvd _ h.size_dvd]
  have hroom := h.room
  have hlength := h.getLength
  refine ⟨h.size, h.head, ?_, ?_, ?_⟩
  · simp [Queue.insert, h.tail, add_assoc]
  · simp only [isFull, hlength, decide_eq_false_iff_not] at hfull
    simp only [Queue.insert, length_append, length_singleton]
    omega
  · intro j hj
    rw [length_append, length_singleton] at hj
    simp only [Queue.insert, hslot]
    rcases Nat.lt_succ_iff_lt_or_eq.1 hj with hj | rfl
    · have hne : (q.head + j) % q.size ≠ (q.head + l.length) % q.size := fun heq =>
        hj.ne (place_inj q.head (hj.trans hroom) hroom heq)
      rw [update_of_ne hne, getElem?_append_left hj, h.entries j hj]
    · simp

lemma Holds.removeHead (h : q.Holds (a :: l)) : q.getHeadEntry = a ∧ q.removeHead.Holds l := by
  have hentry (j : ℕ) (hj : j < l.length + 1) := h.entries j hj
  have hroom := h.room
  rw [length_cons] at hroom
  refine ⟨?_, h.size, Nat.mod_lt _ (by decide), ?_, Nat.lt_of_succ_lt hroom, fun j hj => ?_⟩
  · have hfirst := h.getQueueEntry q.head
    rw [Nat.mod_eq_of_lt h.head] at hfirst
    rw [getHeadEntry, hfirst]
    simpa [eq_comm] using hentry 0 (by omega)
  · simp [Queue.removeHead, h.tail, add_assoc, add_comm 1]
  · have hnext := hentry (j + 1) (by omega)
    rw [getElem?_cons_succ] at hnext
    have hplace : ((q.head + 1) % indexes + j) % q.size = (q.head + (j + 1)) % q.size := by
      rw [Nat.add_mod, Nat.mod_mod_of_dvd _ h.size_dvd, ← Nat.add_mod, add_assoc, add_comm 1]
    rw [hnext, Queue.removeHead, hplace]

lemma roundUp_zero (newSize rounds : ℕ) : roundUp newSize rounds 0 = 0 := by
  cases rounds <;> simp [roundUp]

lemma roundUp_pow (newSize rounds : ℕ) (hk : k < 32) :
    roundUp newSize rounds (2 ^ k) = 0 ∨ ∃ k' < 32, roundUp newSize rounds (2 ^ k) = 2 ^ k' := by
  induction rounds generalizing k with
  | zero => exact .inr ⟨k, hk, rfl⟩
  | succ rounds ih =>
    rw [roundUp]
    split
    · rcases Nat.lt_or_ge (k + 1) 32 with hlt | hge
      · have hdouble : 2 * 2 ^ k % indexes = 2 ^ (k + 1) := by
          rw [← pow_succ']
          exact Nat.mod_eq_of_lt (Nat.pow_lt_pow_right (by decide) hlt)
        rw [hdouble]
        exact ih hlt
      · obtain rfl : k = 31 := by omega
        exact .inl (roundUp_zero newSize rounds)
    · exact .inr ⟨k, hk, rfl⟩

lemma copied_get (h : q.Holds l) (hk : k < 32) (initial : α) {n j : ℕ} (hn : n ≤ 2 ^ k)
    (hj : j < n) :
    q.copied (2 ^ k) initial n ((q.head + j) % 2 ^ k) = q.queue ((q.head + j) % q.size) := by
  induction n with
  | zero => exact absurd hj (Nat.not_lt_zero j)
  | succ n ih =>
    have hplace : (q.head + n) % indexes % 2 ^ k = (q.head + n) % 2 ^ k :=
      Nat.mod_mod_of_dvd _ (pow_dvd_pow 2 hk.le)
    simp only [copied, Nat.and_two_pow_sub_one_eq_mod, hplace, h.getQueueEntry]
    rcases Nat.lt_succ_iff_lt_or_eq.1 hj with hj | rfl
    · have hne : (q.head + j) % 2 ^ k ≠ (q.head + n) % 2 ^ k := fun heq =>
        hj.ne (place_inj q.head (by omega) (by omega) heq)
      rw [update_of_ne hne, ih (by omega) hj]
    · rw [update_self]

lemma Holds.resize (h : q.Holds l) (initial : α) (newSize : ℕ) (memory : Memory) :
    (q.resize initial newSize memory).Holds l := by
  obtain ⟨k, hk, hsize⟩ := h.size
  unfold Queue.resize
  dsimp only
  split
  · exact h
  · rename_i hgrows
    split
    · obtain ⟨k', hlt, hnew⟩ : ∃ k' < 32, roundUp newSize 32 q.size = 2 ^ k' := by
        rw [hsize] at hgrows ⊢
        exact (roundUp_pow newSize 32 hk).resolve_left fun hzero => hgrows (by rw [hzero]; exact Nat.zero_le _)
      have hroom := h.room
      refine ⟨⟨k', hlt, hnew⟩, h.head, h.tail, by dsimp only; omega, fun j hj => ?_⟩
      dsimp only
      rw [hnew, copied_get h hlt initial (by omega) (hj.trans hroom), h.entries j hj]
    · exact h

lemma Holds.getQueueEntry_resize (h : q.Holds l) (initial : α) (newSize : ℕ) (memory : Memory) {i : ℕ}
    (hi : i < indexes) (hocc : q.isVacant i = false) :
    (q.resize initial newSize memory).getQueueEntry i = q.getQueueEntry i := by
  have h' := h.resize initial newSize memory
  have hhead : (q.resize initial newSize memory).head = q.head := by
    unfold Queue.resize
    dsimp only
    split_ifs <;> rfl
  obtain ⟨j, hj, rfl⟩ := h.exists_of_occupied hi hocc
  have hsome := (h'.entries j hj).symm.trans (h.entries j hj)
  rw [hhead] at hsome
  rw [h'.getQueueEntry, h.getQueueEntry]
  exact Option.some_inj.1 hsome

end Queue

/-- A queue with the entries that were inserted and those that have left it. -/
structure State (α : Type*) where
  queue : Queue α
  inserted : List α := []
  left : List α := []

inductive Call (α : Type*)
  | insert (a : α)
  | removeHead
  | resize (newSize : ℕ) (memory : Memory)

section
variable {α : Type*}

variable (initial : α) (s : State α)

def step : Call α → State α
  | .insert a => { s with queue := s.queue.insert a, inserted := s.inserted ++ [a] }
  | .removeHead => { s with queue := s.queue.removeHead, left := s.left ++ [s.queue.getHeadEntry] }
  | .resize newSize memory => { s with queue := s.queue.resize initial newSize memory }

def permitted : Call α → Bool
  | .insert _ => !s.queue.isFull
  | .removeHead => !s.queue.isEmpty
  | .resize _ _ => true

def Tracks : Prop := ∃ held, s.inserted = s.left ++ held ∧ s.queue.Holds held

lemma Tracks.step {initial : α} {s : State α} (h : Tracks s) (call : Call α) (hcall : permitted s call = true) :
    Tracks (step initial s call) := by
  obtain ⟨held, hinserted, hholds⟩ := h
  cases call with
  | insert a =>
    refine ⟨held ++ [a], ?_, hholds.insert (by simpa [permitted] using hcall) a⟩
    simp [ExQueue.step, hinserted]
  | removeHead =>
    cases held with
    | nil =>
      have hempty := hholds.tail
      rw [length_nil, add_zero, Nat.mod_eq_of_lt hholds.head] at hempty
      simp [permitted, Queue.isEmpty, hempty] at hcall
    | cons a held =>
      refine ⟨held, ?_, hholds.removeHead.2⟩
      simp [ExQueue.step, hinserted, hholds.removeHead.1]
  | resize newSize memory => exact ⟨held, hinserted, hholds.resize initial newSize memory⟩

/-- The entries that have left are the first inserted, the others are at their indexes and leave an entry free, and a
resize changes none of them. -/
def Fifo : Prop :=
  (∃ held, s.inserted = s.left ++ held ∧ s.queue.getLength = held.length ∧ ∀ j < held.length,
    held[j]? = some (s.queue.getQueueEntry ((s.queue.head + j) % indexes))) ∧
  s.queue.getLength ≤ s.queue.size - 1 ∧
  ∀ newSize memory, ∀ i < indexes, s.queue.isVacant i = false →
    (s.queue.resize initial newSize memory).getQueueEntry i = s.queue.getQueueEntry i

lemma Tracks.fifo {s : State α} (h : Tracks s) (initial : α) : Fifo initial s := by
  obtain ⟨held, hinserted, hholds⟩ := h
  refine ⟨⟨held, hinserted, hholds.getLength, fun j hj => ?_⟩, ?_, fun newSize memory i hi hocc =>
    hholds.getQueueEntry_resize initial newSize memory hi hocc⟩
  · rw [hholds.getQueueEntry]
    exact hholds.entries j hj
  · rw [hholds.getLength]
    exact Nat.le_sub_one_of_lt hholds.room

end

/-- **The queue** through wrap-around and resizing, from every index on. -/
theorem queue_fifo {α : Type*} (initial : α) (queue : ℕ → α) {start k : ℕ} (hstart : start < indexes) (hk : k < 32)
    (calls : List (Call α))
    (h : Guarded (step initial) (fun s call => permitted s call = true) ⟨⟨queue, 2 ^ k, start, start⟩, [], []⟩ calls) :
    Fifo initial (run (step initial) ⟨⟨queue, 2 ^ k, start, start⟩, [], []⟩ calls) := by
  refine (h.invariant (I := Tracks) (fun _ call htracks => htracks.step call) ?_).fifo initial
  refine ⟨[], rfl, ⟨k, hk, rfl⟩, hstart, ?_, Nat.two_pow_pos k, by simp⟩
  simp [Nat.mod_eq_of_lt hstart]

/-- An index that wraps around, and a resize of the full queue. -/
theorem fifo_across_the_wrap :
    Fifo 0 (run (step 0) ⟨⟨fun _ => 0, 2 ^ 1, 4294967295, 4294967295⟩, [], []⟩
      [.insert 7, .resize 3 ⟨true, true, true, true⟩, .insert 8, .insert 9, .removeHead]) :=
  queue_fifo 0 (fun _ => 0) (by decide) (by decide) _ (by decide)

end Trafodion.ExQueue
