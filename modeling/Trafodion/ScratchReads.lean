import Trafodion.ScratchRuns

/-!
# Reading runs back

A `SortMergeNode` reads the blocks of a run ahead, in batches that use at most two buffers. The
run directory tells where its blocks begin and end, and the header of a block whether to go on.
Reads complete at any time; a read that does not wait may find its block not there yet.
-/
namespace Trafodion.Scratch

open List ByteStrings

inductive BufferState
  | reading
  | readComplete
  | beingConsumed
  deriving DecidableEq

/-- A buffer for a block. A read that is queued or in progress has state `reading`. -/
structure SortMergeBuffer where
  blockNum : ℕ
  state : BufferState

def SortMergeBuffer.complete (blockNum : ℕ) (b : SortMergeBuffer) : SortMergeBuffer :=
  if b.blockNum = blockNum ∧ b.state = .reading then { b with state := .readComplete } else b

structure Layout where
  recSize : ℕ
  varyingSize : Bool
  sortMergeBlocksPerBuffer : ℕ

/-- The length of the record at the beginning of `data`: from its first four bytes if it has its
own. -/
def Layout.actRecLen (lay : Layout) (data : List Byte) : ℕ :=
  if lay.varyingSize then Nat.ofDigits 256 ((data.take 4).map BitVec.toNat) else lay.recSize

structure SortMergeNode where
  nextIOBlockNum : ℕ
  endBlockNum : ℕ
  blockHead : ScrBlockHeader
  numRecsRead : ℕ
  /-- The bytes from `nextReadPosition_` on. -/
  nextRead : List Byte
  readQ : List SortMergeBuffer
  /-- The buffers of the pool that are left to this node. -/
  freeBuffers : ℕ

inductive RetCode
  | success (rec : List Byte)
  | endOfRun
  | ioNotComplete
  | failure
  deriving DecidableEq

namespace SortMergeNode

variable (lay : Layout) (n : SortMergeNode)

def numOutStandingIO : ℕ := n.readQ.countP (·.state = .reading)

/-- The loop of `initiateSortMergeNodeRead`. There is no result if the pool has no buffer. -/
def queueReads : ℕ → SortMergeNode → Option SortMergeNode
  | 0, n => some n
  | count + 1, n =>
    if n.nextIOBlockNum ≤ n.endBlockNum then
      if n.freeBuffers = 0 then none
      else queueReads count { n with
        nextIOBlockNum := n.nextIOBlockNum + 1
        readQ := n.readQ ++ [⟨n.nextIOBlockNum, .reading⟩]
        freeBuffers := n.freeBuffers - 1 }
    else some n

def initiateSortMergeNodeRead : Option SortMergeNode :=
  if n.nextIOBlockNum > n.endBlockNum then some n
  else if n.numOutStandingIO > 0 then some n
  else if n.readQ.length > lay.sortMergeBlocksPerBuffer then some n
  else queueReads lay.sortMergeBlocksPerBuffer n

def release : SortMergeNode :=
  match n.readQ with
  | ⟨_, .beingConsumed⟩ :: readQ => { n with readQ := readQ, freeBuffers := n.freeBuffers + 1 }
  | _ => n

def startBlock (block : ScratchBlock) (b : SortMergeBuffer)
    (readQ : List SortMergeBuffer) (n : SortMergeNode) : RetCode × SortMergeNode :=
  let actRecLen := lay.actRecLen block.data
  let n := { n with
    blockHead := block.head
    nextRead := block.data.drop actRecLen
    numRecsRead := 1
    readQ := { b with state := .beingConsumed } :: readQ }
  match n.initiateSortMergeNodeRead lay with
  | some n => (.success (block.data.take actRecLen), n)
  | none => (.failure, n)

def readSortMergeNode (file : ℕ → ScratchBlock) (waited : Bool)
    (n : SortMergeNode) : RetCode × SortMergeNode :=
  if n.numRecsRead = n.blockHead.numRecs then
    if n.blockHead.nextBlockNum = -1 then (.endOfRun, n)
    else
      let n := n.release
      match n.readQ with
      | [] => (.failure, n)
      | b :: readQ =>
        match b.state with
        | .reading =>
          if waited then n.startBlock lay (file b.blockNum) b readQ else (.ioNotComplete, n)
        | .readComplete => n.startBlock lay (file b.blockNum) b readQ
        | .beingConsumed => (.failure, n)
  else
    let actRecLen := lay.actRecLen n.nextRead
    (.success (n.nextRead.take actRecLen), { n with
      nextRead := n.nextRead.drop actRecLen
      numRecsRead := n.numRecsRead + 1 })

def complete (blockNum : ℕ) (n : SortMergeNode) : SortMergeNode :=
  { n with readQ := n.readQ.map (SortMergeBuffer.complete blockNum) }

end SortMergeNode

/-- `RunDirectory::mapRunNumberToFirstSBN`; there is no number for `EOF`. -/
def mapRunNumberToFirstSBN (dir : List ℕ) (runNumber : ℕ) : Option ℕ :=
  if runNumber > dir.length then none else dir[runNumber - 1]?

def SortScratchSpace.sortMergeNode (lay : Layout) (s : SortScratchSpace) (run freeBuffers : ℕ) :
    Option SortMergeNode :=
  (mapRunNumberToFirstSBN s.runDirectory run).bind fun beginBlockNum =>
    SortMergeNode.initiateSortMergeNodeRead lay
      { nextIOBlockNum := beginBlockNum
        endBlockNum := match mapRunNumberToFirstSBN s.runDirectory (run + 1) with
          | some first => first - 1
          | none => s.totalNumOfScrBlocks - 1
        blockHead := ⟨0, 0, 0, 0, 0⟩
        numRecsRead := 0
        nextRead := []
        readQ := []
        freeBuffers := freeBuffers }

inductive Event
  | complete (blockNum : ℕ)
  | read (waited : Bool)
  deriving DecidableEq

def SortMergeNode.reads (lay : Layout) (file : ℕ → ScratchBlock) :
    List Event → SortMergeNode → List RetCode
  | [], _ => []
  | .complete blockNum :: events, n => reads lay file events (n.complete blockNum)
  | .read waited :: events, n =>
    let (code, n) := n.readSortMergeNode lay file waited
    code :: reads lay file events n

/-! ### The read queue -/

/-- The queue of a node: at most one block being consumed, and then the blocks from `next` up to
the next one to be read. -/
structure Queue (n : SortMergeNode) (used q : List SortMergeBuffer) (next pool : ℕ) : Prop where
  readQ_eq : n.readQ = used ++ q
  used_length : used.length ≤ 1
  used_state : ∀ b ∈ used, b.state = .beingConsumed
  q_state : ∀ b ∈ q, b.state ≠ .beingConsumed
  q_blocks : q.map SortMergeBuffer.blockNum = range' next (n.nextIOBlockNum - next)
  next_le : next ≤ n.nextIOBlockNum
  buffers : n.freeBuffers + n.readQ.length = pool

variable {lay : Layout} {n : SortMergeNode} {used q : List SortMergeBuffer} {next pool : ℕ}

lemma Queue.length_eq (h : Queue n used q next pool) : q.length = n.nextIOBlockNum - next := by
  have hlen := congrArg length h.q_blocks
  simpa using hlen

def SameBlock (n n' : SortMergeNode) : Prop :=
  n'.endBlockNum = n.endBlockNum ∧ n'.blockHead = n.blockHead ∧ n'.numRecsRead = n.numRecsRead ∧
    n'.nextRead = n.nextRead

lemma Queue.queueReads (count : ℕ) (h : Queue n used q next pool)
    (hfree : count ≤ n.freeBuffers) :
    ∃ n' q', n.queueReads count = some n' ∧ SameBlock n n' ∧ Queue n' used q' next pool ∧
      n.nextIOBlockNum ≤ n'.nextIOBlockNum ∧
      (1 ≤ count → n.nextIOBlockNum ≤ n.endBlockNum → n.nextIOBlockNum < n'.nextIOBlockNum) := by
  induction count generalizing n q with
  | zero => exact ⟨n, q, rfl, ⟨rfl, rfl, rfl, rfl⟩, h, le_rfl, by omega⟩
  | succ count ih =>
    rw [SortMergeNode.queueReads]
    split_ifs with hend hnone
    · omega
    · have hnext := h.next_le
      have hstep : Queue { n with
          nextIOBlockNum := n.nextIOBlockNum + 1
          readQ := n.readQ ++ [⟨n.nextIOBlockNum, .reading⟩]
          freeBuffers := n.freeBuffers - 1 } used (q ++ [⟨n.nextIOBlockNum, .reading⟩]) next
          pool := by
        refine ⟨by simp [h.readQ_eq], h.used_length, h.used_state, ?_, ?_, by simp; omega, ?_⟩
        · exact forall_mem_append.2 ⟨h.q_state, forall_mem_singleton.2 nofun⟩
        · simp only
          rw [map_append, h.q_blocks,
            show n.nextIOBlockNum + 1 - next = n.nextIOBlockNum - next + 1 by omega,
            range'_concat]
          simp
          omega
        · have hbuf := h.buffers
          simp only [length_append, length_singleton]
          omega
      obtain ⟨n', q', hqueue, hsame, h', hle, -⟩ := ih hstep (by simp; omega)
      exact ⟨n', q', hqueue, hsame, h', by simp at hle; omega, fun _ _ => by simp at hle; omega⟩
    · exact ⟨n, q, rfl, ⟨rfl, rfl, rfl, rfl⟩, h, le_rfl, fun _ hle => (hend hle).elim⟩

/-- There are buffers for the next batch, and the next block of the run is in the queue. -/
theorem Queue.initiate (h : Queue n used q next pool) (hbpb : 1 ≤ lay.sortMergeBlocksPerBuffer)
    (hpool : 2 * lay.sortMergeBlocksPerBuffer ≤ pool) :
    ∃ n' q', n.initiateSortMergeNodeRead lay = some n' ∧ SameBlock n n' ∧
      Queue n' used q' next pool ∧ (next ≤ n.endBlockNum → next < n'.nextIOBlockNum) := by
  have hlen := h.length_eq
  have hnext := h.next_le
  have hused := h.used_length
  have hreadQ := congrArg length h.readQ_eq
  rw [length_append] at hreadQ
  unfold SortMergeNode.initiateSortMergeNodeRead
  split_ifs with hend hout hfull
  · exact ⟨n, q, rfl, ⟨rfl, rfl, rfl, rfl⟩, h, fun _ => by omega⟩
  · refine ⟨n, q, rfl, ⟨rfl, rfl, rfl, rfl⟩, h, fun _ => ?_⟩
    -- a block that is being consumed has been read, so the outstanding read is behind it
    obtain ⟨b, hb, hst⟩ := countP_pos_iff.1 hout
    rw [h.readQ_eq] at hb
    rcases mem_append.1 hb with hb | hb
    · rw [h.used_state b hb] at hst
      cases hst
    · have := length_pos_of_mem hb
      omega
  · exact ⟨n, q, rfl, ⟨rfl, rfl, rfl, rfl⟩, h, fun _ => by omega⟩
  · have hbuf := h.buffers
    obtain ⟨n', q', hqueue, hsame, h', hle, hlt⟩ :=
      h.queueReads lay.sortMergeBlocksPerBuffer (by omega)
    refine ⟨n', q', hqueue, hsame, h', fun _ => ?_⟩
    have := hlt hbpb (by omega)
    omega

lemma Queue.release (h : Queue n used q next pool) : Queue n.release [] q next pool := by
  have hreadQ := h.readQ_eq
  have hbuf := h.buffers
  match used with
  | [] =>
    have heq : n.release = n := by
      unfold SortMergeNode.release
      split
      · next num tail hhead =>
        have hmem : ⟨num, .beingConsumed⟩ ∈ q := by
          rw [← nil_append q, ← hreadQ, hhead]
          exact mem_cons_self
        exact (h.q_state _ hmem rfl).elim
      · rfl
    rw [heq]
    exact h
  | ⟨num, state⟩ :: used =>
    obtain rfl : state = .beingConsumed := h.used_state _ mem_cons_self
    obtain rfl : used = [] := by
      have := h.used_length
      rw [length_cons] at this
      exact eq_nil_of_length_eq_zero (by omega)
    have heq : n.release = { n with readQ := q, freeBuffers := n.freeBuffers + 1 } := by
      simp [SortMergeNode.release, hreadQ]
    rw [heq]
    refine ⟨rfl, Nat.zero_le 1, by simp, h.q_state, h.q_blocks, h.next_le, ?_⟩
    rw [hreadQ] at hbuf
    simp only [singleton_append, length_cons] at hbuf
    simp only
    omega

lemma SortMergeNode.release_same (n : SortMergeNode) :
    SameBlock n n.release ∧ n.release.nextIOBlockNum = n.nextIOBlockNum := by
  unfold release
  split <;> exact ⟨⟨rfl, rfl, rfl, rfl⟩, rfl⟩

variable (num : ℕ) (b : SortMergeBuffer)

@[simp]
lemma SortMergeBuffer.blockNum_complete : (b.complete num).blockNum = b.blockNum := by
  unfold complete
  split_ifs <;> rfl

lemma SortMergeBuffer.complete_state :
    (b.complete num).state = .beingConsumed ↔ b.state = .beingConsumed := by
  unfold complete
  split_ifs with h
  · simp [h.2]
  · rfl

lemma Queue.complete (h : Queue n used q next pool) (num : ℕ) :
    Queue (n.complete num) (used.map (SortMergeBuffer.complete num))
      (q.map (SortMergeBuffer.complete num)) next pool := by
  refine ⟨?_, ?_, ?_, ?_, ?_, h.next_le, ?_⟩
  · simp [SortMergeNode.complete, h.readQ_eq]
  · simpa using h.used_length
  · exact forall_mem_map.2 fun b hb => (b.complete_state num).2 (h.used_state b hb)
  · exact forall_mem_map.2 fun b hb hst => h.q_state b hb ((b.complete_state num).1 hst)
  · rw [map_map]
    exact (map_congr_left fun b _ => b.blockNum_complete num).trans h.q_blocks
  · simpa [SortMergeNode.complete] using h.buffers

/-! ### Reading a run -/

def OwnLength (lay : Layout) (rec : List Byte) : Prop :=
  if lay.varyingSize then
    4 ≤ rec.length ∧ Nat.ofDigits 256 ((rec.take 4).map BitVec.toNat) = rec.length
  else rec.length = lay.recSize

lemma OwnLength.actRecLen_append {rec : List Byte} (h : OwnLength lay rec) (bytes : List Byte) :
    lay.actRecLen (rec ++ bytes) = rec.length := by
  unfold OwnLength at h
  unfold Layout.actRecLen
  split_ifs at h ⊢
  · rw [take_append_of_le_length h.1]
    exact h.2
  · exact h.symm

section chains
variable {file : ℕ → ScratchBlock} {first : ℕ} {recs : List (List Byte)}
  {blocks : List (List (List Byte))}

lemma Chain.holds (h : Chain file first (recs :: blocks)) :
    Holds (file first) recs blocks.isEmpty := by
  cases blocks with
  | nil => exact h
  | cons recs' blocks => exact h.1

lemma Chain.tail (h : Chain file first (recs :: blocks)) (hne : blocks ≠ []) :
    Chain file (first + 1) blocks := by
  cases blocks with
  | nil => exact (hne rfl).elim
  | cons recs' blocks => exact h.2

end chains

/-- The state of a node: the records `cur` are left in its block, and the blocks `rest` follow
from `next` on. -/
structure Reading (lay : Layout) (file : ℕ → ScratchBlock) (pool : ℕ) (n : SortMergeNode)
    (cur : List (List Byte)) (rest : List (List (List Byte))) (next : ℕ) : Prop where
  count : n.numRecsRead + cur.length = n.blockHead.numRecs
  data : ∃ bytes, n.nextRead = cur.flatten ++ bytes
  last : n.blockHead.nextBlockNum = -1 ↔ rest = []
  queue : ∃ used q, Queue n used q next pool
  chain : rest ≠ [] → Chain file next rest ∧ next < n.nextIOBlockNum ∧
    next + rest.length ≤ n.endBlockNum + 1
  sized : ∀ rec ∈ cur ++ rest.flatten, OwnLength lay rec

section reading
variable {file : ℕ → ScratchBlock} {cur : List (List Byte)} {rest : List (List (List Byte))}

lemma Reading.of_same {n' : SortMergeNode} (h : Reading lay file pool n cur rest next)
    (hsame : SameBlock n n') (hnext : n'.nextIOBlockNum = n.nextIOBlockNum)
    (hqueue : ∃ used q, Queue n' used q next pool) : Reading lay file pool n' cur rest next := by
  obtain ⟨hend, hhead, hread, hdata⟩ := hsame
  refine ⟨?_, ?_, ?_, hqueue, ?_, h.sized⟩
  · rw [hread, hhead]
    exact h.count
  · rw [hdata]
    exact h.data
  · rw [hhead]
    exact h.last
  · rw [hend, hnext]
    exact h.chain

lemma Reading.complete (h : Reading lay file pool n cur rest next) (num : ℕ) :
    Reading lay file pool (n.complete num) cur rest next := by
  obtain ⟨used, q, hqueue⟩ := h.queue
  exact h.of_same ⟨rfl, rfl, rfl, rfl⟩ rfl ⟨_, _, hqueue.complete num⟩

lemma Reading.read_cons {rec : List Byte} (h : Reading lay file pool n (rec :: cur) rest next)
    (waited : Bool) : ∃ n', n.readSortMergeNode lay file waited = (.success rec, n') ∧
      Reading lay file pool n' cur rest next := by
  have hcnt := h.count
  rw [length_cons] at hcnt
  obtain ⟨bytes, hdata⟩ := h.data
  rw [flatten_cons, append_assoc] at hdata
  have hlen : lay.actRecLen n.nextRead = rec.length := by
    rw [hdata]
    exact (h.sized rec mem_cons_self).actRecLen_append _
  have hread : n.readSortMergeNode lay file waited = (.success rec, { n with
      nextRead := cur.flatten ++ bytes
      numRecsRead := n.numRecsRead + 1 }) := by
    unfold SortMergeNode.readSortMergeNode
    rw [if_neg (by omega)]
    simp only [hlen]
    rw [hdata, take_left, drop_left]
  obtain ⟨used, q, hqueue⟩ := h.queue
  refine ⟨_, hread, ⟨?_, ⟨bytes, rfl⟩, h.last, ⟨used, q, ?_⟩, h.chain,
    (forall_mem_cons.1 h.sized).2⟩⟩
  · simp only
    omega
  · exact { hqueue with }

section
variable (h : Reading lay file pool n [] rest next) (hne : rest ≠ [])
  (hbpb : 1 ≤ lay.sortMergeBlocksPerBuffer) (hpool : 2 * lay.sortMergeBlocksPerBuffer ≤ pool)
include h hne hbpb hpool

lemma Reading.startBlock {b : SortMergeBuffer} (hqueue : Queue n [] (b :: q) next pool) :
    ∃ rec cur' rest' n', rest.flatten = rec :: (cur' ++ rest'.flatten) ∧
      n.startBlock lay (file b.blockNum) b q = (.success rec, n') ∧
      Reading lay file pool n' cur' rest' (next + 1) := by
  obtain ⟨recs, rest', rfl⟩ := List.exists_cons_of_ne_nil hne
  obtain ⟨hchain, hlt, hend⟩ := h.chain hne
  have hholds := hchain.holds
  obtain ⟨rec, cur', rfl⟩ := List.exists_cons_of_ne_nil hholds.ne_nil
  obtain ⟨bytes, hdata⟩ := hholds.data_eq
  rw [List.flatten_cons, List.append_assoc] at hdata
  -- the block at the head of the queue is the next one of the run
  have hblocks := hqueue.q_blocks
  rw [show n.nextIOBlockNum - next = n.nextIOBlockNum - (next + 1) + 1 by omega, List.map_cons,
    List.range'_succ, List.cons.injEq] at hblocks
  obtain ⟨hnum, hblocks⟩ := hblocks
  have hlen : lay.actRecLen (file next).data = rec.length := by
    rw [hdata]
    exact (h.sized rec (by simp)).actRecLen_append _
  have hst0 : Queue { n with
      blockHead := (file next).head
      nextRead := (file next).data.drop rec.length
      numRecsRead := 1
      readQ := { b with state := .beingConsumed } :: q }
      [{ b with state := .beingConsumed }] q (next + 1) pool := by
    refine ⟨rfl, le_rfl, by simp, (List.forall_mem_cons.1 hqueue.q_state).2,
      hblocks, hlt, ?_⟩
    have hbuf := hqueue.buffers
    rw [hqueue.readQ_eq] at hbuf
    simpa using hbuf
  obtain ⟨n', q', hinit, hsame, hqueue', hnext⟩ := hst0.initiate hbpb hpool
  refine ⟨rec, cur', rest', n', by simp, ?_, ?_⟩
  · rw [SortMergeNode.startBlock, hnum, hlen]
    simp only [hnum] at hinit
    simp only [hinit]
    rw [hdata, List.take_left]
  · obtain ⟨hend', hhead', hread', hdata'⟩ := hsame
    refine ⟨?_, ⟨bytes, ?_⟩, ?_, ⟨_, q', hqueue'⟩, fun hne' => ⟨hchain.tail hne', hnext ?_, ?_⟩,
      fun r hr => h.sized r ?_⟩
    · rw [hread', hhead']
      simp only [hholds.numRecs_eq, List.length_cons]
      omega
    · rw [hdata']
      simp only [hdata, List.drop_left]
    · rw [hhead']
      simp only [hholds.nextBlockNum_eq, List.isEmpty_iff]
    · have := List.length_pos_of_ne_nil hne'
      rw [List.length_cons] at hend
      simp only
      omega
    · rw [hend']
      rw [List.length_cons] at hend
      simp only
      omega
    · simpa using Or.inr hr

lemma Reading.read_nil (waited : Bool) :
    (∃ n', n.readSortMergeNode lay file waited = (.ioNotComplete, n') ∧ waited = false ∧
      Reading lay file pool n' [] rest next) ∨
    ∃ rec cur' rest' n', rest.flatten = rec :: (cur' ++ rest'.flatten) ∧
      n.readSortMergeNode lay file waited = (.success rec, n') ∧
      Reading lay file pool n' cur' rest' (next + 1) := by
  have hcnt : n.numRecsRead = n.blockHead.numRecs := h.count
  obtain ⟨used, q, hqueue⟩ := h.queue
  have hrelease := hqueue.release
  have hrel := h.of_same n.release_same.1 n.release_same.2 ⟨[], q, hrelease⟩
  unfold SortMergeNode.readSortMergeNode
  rw [if_pos hcnt, if_neg fun hlast => hne (h.last.1 hlast)]
  have hreadQ : n.release.readQ = q := hrelease.readQ_eq
  cases q with
  | nil =>
    -- the next block of the run has been queued
    have hlen := hqueue.length_eq
    have hlt := (h.chain hne).2.1
    rw [length_nil] at hlen
    omega
  | cons b q =>
    simp only [hreadQ]
    cases hst : b.state with
    | beingConsumed => exact (hrelease.q_state b mem_cons_self hst).elim
    | readComplete => exact .inr (hrel.startBlock hne hbpb hpool hrelease)
    | reading =>
      cases waited with
      | false => exact .inl ⟨_, rfl, rfl, hrel⟩
      | true => exact .inr (hrel.startBlock hne hbpb hpool hrelease)

end

/-- What `k` reads of the records give that do not find a read incomplete. -/
def results : List (List Byte) → ℕ → List RetCode
  | _, 0 => []
  | [], k + 1 => .endOfRun :: results [] k
  | rec :: recs, k + 1 => .success rec :: results recs k

section
variable (h : Reading lay file pool n cur rest next) (hbpb : 1 ≤ lay.sortMergeBlocksPerBuffer)
  (hpool : 2 * lay.sortMergeBlocksPerBuffer ≤ pool)
include h hbpb hpool

/-- A read gives out the next record or the end of the run, or finds its block not read. -/
theorem Reading.read
    (waited : Bool) : ∃ code n' cur' rest' next', n.readSortMergeNode lay file waited = (code, n') ∧
      Reading lay file pool n' cur' rest' next' ∧
      (code = .ioNotComplete ∧ waited = false ∧ cur' ++ rest'.flatten = cur ++ rest.flatten ∨
        code ≠ .ioNotComplete ∧ ∀ k, results (cur ++ rest.flatten) (k + 1) =
          code :: results (cur' ++ rest'.flatten) k) := by
  cases cur with
  | cons rec cur =>
    obtain ⟨n', hread, h'⟩ := h.read_cons waited
    exact ⟨_, n', cur, rest, next, hread, h', .inr ⟨nofun, fun _ => rfl⟩⟩
  | nil =>
    by_cases hne : rest = []
    · subst hne
      have hread : n.readSortMergeNode lay file waited = (.endOfRun, n) := by
        have hcnt : n.numRecsRead = n.blockHead.numRecs := h.count
        rw [SortMergeNode.readSortMergeNode, if_pos hcnt, if_pos (h.last.2 rfl)]
      exact ⟨_, n, [], [], next, hread, h, .inr ⟨nofun, fun _ => rfl⟩⟩
    · rcases h.read_nil hne hbpb hpool waited with
        ⟨n', hread, hwaited, h'⟩ | ⟨rec, cur', rest', n', hrecs, hread, h'⟩
      · exact ⟨_, n', [], rest, next, hread, h', .inl ⟨rfl, hwaited, rfl⟩⟩
      · refine ⟨_, n', cur', rest', next + 1, hread, h', .inr ⟨nofun, fun k => ?_⟩⟩
        rw [nil_append, hrecs]
        rfl

lemma Reading.reads (evs : List Event) : ∃ k, evs.count (.read true) ≤ k ∧
      (n.reads lay file evs).filter (· ≠ .ioNotComplete) = results (cur ++ rest.flatten) k := by
  induction evs generalizing n cur rest next with
  | nil => exact ⟨0, by simp, by simp [SortMergeNode.reads, results]⟩
  | cons event evs ih =>
    cases event with
    | complete num =>
      obtain ⟨k, hk, heq⟩ := ih (h.complete num)
      exact ⟨k, by simpa using hk, heq⟩
    | read waited =>
      obtain ⟨code, n', cur', rest', next', hread, h', hcode⟩ := h.read hbpb hpool waited
      obtain ⟨k, hk, heq⟩ := ih h'
      rw [SortMergeNode.reads, hread]
      rcases hcode with ⟨rfl, rfl, hsame⟩ | ⟨hcode, hresults⟩
      · refine ⟨k, by simpa using hk, ?_⟩
        rw [← hsame, ← heq]
        simp
      · refine ⟨k + 1, ?_, ?_⟩
        · rw [count_cons]
          split_ifs <;> omega
        · rw [hresults, ← heq]
          simp [hcode]

end

end reading

lemma Stored.sortMergeNode {s : SortScratchSpace} {runs : List (List (List Byte))}
    (h : Stored s runs) (hbpb : 1 ≤ lay.sortMergeBlocksPerBuffer)
    (hpool : 2 * lay.sortMergeBlocksPerBuffer ≤ pool) {r : ℕ} {recs : List (List Byte)}
    (hr : runs[r]? = some recs) (hsized : ∀ rec ∈ recs, OwnLength lay rec) :
    ∃ n rest next, s.sortMergeNode lay (r + 1) pool = some n ∧
      Reading lay s.file pool n [] rest next ∧ rest.flatten = recs := by
  obtain ⟨first, blocks, hfst, hrecs, hchain, hend⟩ := h.chain r recs hr
  have hlt := (List.getElem?_eq_some_iff.1 hfst).1
  have hbegin : mapRunNumberToFirstSBN s.runDirectory (r + 1) = some first := by
    rw [mapRunNumberToFirstSBN, if_neg (by omega)]
    exact hfst
  have hblocks : blocks ≠ [] := by
    rintro rfl
    exact hchain
  have hpos := List.length_pos_of_ne_nil hblocks
  obtain ⟨e, he, hle⟩ : ∃ e, (match mapRunNumberToFirstSBN s.runDirectory (r + 1 + 1) with
      | some first => first - 1
      | none => s.totalNumOfScrBlocks - 1) = e ∧ first + blocks.length ≤ e + 1 := by
    refine ⟨_, rfl, ?_⟩
    unfold endOf at hend
    unfold mapRunNumberToFirstSBN
    split_ifs with hlast
    · rw [List.getElem?_eq_none (by omega), Option.getD_none] at hend
      simp only
      omega
    · rw [show r + 1 + 1 - 1 = r + 1 by omega]
      cases hnext : s.runDirectory[r + 1]? with
      | none =>
        rw [hnext, Option.getD_none] at hend
        simp only
        omega
      | some first' =>
        rw [hnext, Option.getD_some] at hend
        simp only
        omega
  have hqueue : Queue ⟨first, e, ⟨0, 0, 0, 0, 0⟩, 0, [], [], pool⟩ [] [] first pool :=
    ⟨rfl, Nat.zero_le 1, by simp, by simp, by simp, le_rfl, rfl⟩
  obtain ⟨n, q, hinit, ⟨hend', hhead, hread, hdata⟩, hqueue', hnext⟩ :=
    hqueue.initiate hbpb hpool
  refine ⟨n, blocks, first, ?_, ⟨?_, ⟨[], ?_⟩, ?_, ⟨[], q, hqueue'⟩, fun _ => ⟨hchain, ?_, ?_⟩, ?_⟩,
    hrecs⟩
  · rw [SortScratchSpace.sortMergeNode, hbegin, Option.bind_some, he]
    exact hinit
  · rw [hread, hhead]
    rfl
  · rw [hdata]
    rfl
  · rw [hhead]
    simp [hblocks]
  · refine hnext ?_
    simp only
    omega
  · rw [hend']
    exact hle
  · rw [List.nil_append, hrecs]
    exact hsized

/-- **Round trip.** Runs are written, with any flushes before and between them. Every run is then
read back: whenever its reads complete, the reads that find their block give its records in the
order written and then the end of the run, and a read that waits always finds its block. -/
theorem readSortMergeNode_writeRuns (scrBlock1 scrBlock2 : List Byte) (file : ℕ → ScratchBlock)
    (blockSize : ℕ) (before : List Bool) {scripts : List SortScratchSpace.RunScript}
    (hne : ∀ x ∈ scripts, x.records ≠ [])
    (hfits : ∀ x ∈ scripts, ∀ rec ∈ x.records, FitsBlock blockSize rec ∧ OwnLength lay rec)
    (hbpb : 1 ≤ lay.sortMergeBlocksPerBuffer) (hpool : 2 * lay.sortMergeBlocksPerBuffer ≤ pool)
    {r : ℕ} {x : SortScratchSpace.RunScript} (hx : scripts[r]? = some x) :
    let s := SortScratchSpace.writeRuns blockSize 1 scripts
      (SortScratchSpace.flushes before (SortScratchSpace.init scrBlock1 scrBlock2 file))
    ∃ n, s.sortMergeNode lay (r + 1) pool = some n ∧
      ∀ events : List Event, ∃ k, events.count (.read true) ≤ k ∧
        (n.reads lay s.file events).filter (· ≠ .ioNotComplete) = results x.records k := by
  have hready := ((Ready.init scrBlock1 scrBlock2 file).flushes before).writeRuns
    fun y hy => ⟨hne y hy, fun rec hrec => (hfits y hy rec hrec).1⟩
  have hrun : ([] ++ scripts.map SortScratchSpace.RunScript.records)[r]? = some x.records := by
    simp [hx]
  obtain ⟨n, rest, next, hnode, hreading, hrecs⟩ := hready.stored.sortMergeNode hbpb hpool hrun
    fun rec hrec => (hfits x (mem_of_getElem? hx) rec hrec).2
  refine ⟨n, hnode, fun events => ?_⟩
  obtain ⟨k, hk, hreads⟩ := hreading.reads hbpb hpool events
  rw [nil_append, hrecs] at hreads
  exact ⟨k, hk, hreads⟩

/-- Two runs of two-byte records in blocks for one record. An empty flush follows the first. -/
theorem two_runs_read_back :
    let lay : Layout := ⟨2, false, 1⟩
    let scripts : List SortScratchSpace.RunScript := [⟨[[1#8, 2#8], [3#8, 4#8]], [false]⟩,
      ⟨[[5#8, 6#8]], []⟩]
    let s := SortScratchSpace.writeRuns 30 1 scripts
      (SortScratchSpace.flushes [] (SortScratchSpace.init [] [] fun _ => ⟨⟨0, 0, 0, 0, 0⟩, []⟩))
    (∃ n, s.sortMergeNode lay 1 2 = some n ∧
      ∀ events : List Event, ∃ k, events.count (.read true) ≤ k ∧
        (n.reads lay s.file events).filter (· ≠ .ioNotComplete) =
          results [[1#8, 2#8], [3#8, 4#8]] k) ∧
    (s.sortMergeNode lay 1 2).map
        (fun n => n.reads lay s.file [.read false, .complete 1, .read false, .read true,
          .read false]) =
      some [.ioNotComplete, .success [1#8, 2#8], .success [3#8, 4#8], .endOfRun] := by
  intro lay scripts s
  have hne : ∀ x ∈ scripts, x.records ≠ [] := by decide
  have hfits : ∀ x ∈ scripts, ∀ rec ∈ x.records, FitsBlock 30 rec ∧ OwnLength lay rec := by
    simp [scripts, lay, FitsBlock, OwnLength, overhead, dp2ChecksumBytes]
  have hfirst : scripts[0]? = some ⟨[[1#8, 2#8], [3#8, 4#8]], [false]⟩ := rfl
  have hread := readSortMergeNode_writeRuns [] [] (fun _ => ⟨⟨0, 0, 0, 0, 0⟩, []⟩) 30 [] hne hfits
    le_rfl le_rfl hfirst
  exact ⟨hread, by decide⟩

end Trafodion.Scratch
