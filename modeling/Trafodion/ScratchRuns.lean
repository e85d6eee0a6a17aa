import Trafodion.ByteStrings

/-!
# Runs in the scratch space

`SortScratchSpace` collects records in a block buffer and writes the block under the next block
number when a record does not fit or the run ends. A block header says how many records the block
holds and whether the run goes on; the run directory keeps the number of the first block of each
run. Two buffers are used in turn, so a block still has bytes of an older block behind its
records.
-/
namespace Trafodion.Scratch

open List Function ByteStrings

structure ScrBlockHeader where
  thisBlockNum : ℤ
  nextBlockNum : ℤ
  bytesUsed : ℕ
  runNum : ℤ
  numRecs : ℕ

structure ScratchBlock where
  head : ScrBlockHeader
  data : List Byte

def overhead : ℕ := 20

def dp2ChecksumBytes : ℕ := 8

structure SortScratchSpace where
  blockHead : ScrBlockHeader
  currentBlock : List Byte
  otherBlock : List Byte
  nextWritePosition : ℕ
  currentRun : ℤ
  totalNumOfScrBlocks : ℕ
  runDirectory : List ℕ
  file : ℕ → ScratchBlock

open SortScratchSpace

/-- Copying `src` to position `pos` of a buffer. -/
def memcpy (dst : List Byte) (pos : ℕ) (src : List Byte) : List Byte :=
  dst.take pos ++ src ++ dst.drop (pos + src.length)

namespace SortScratchSpace

def init (scrBlock1 scrBlock2 : List Byte) (file : ℕ → ScratchBlock) : SortScratchSpace where
  blockHead := ⟨0, 0, overhead, 0, 0⟩
  currentBlock := scrBlock1
  otherBlock := scrBlock2
  nextWritePosition := 0
  currentRun := -99
  totalNumOfScrBlocks := 1
  runDirectory := []
  file := file

variable (l : List Bool) (endrun : Bool) (blockSize : ℕ) (data : List Byte) (run : ℕ)
  (s : SortScratchSpace)

/-- `flushRun`, with `switchScratchBuffers`. -/
def flushRun : SortScratchSpace :=
  let head : ScrBlockHeader := { s.blockHead with
    thisBlockNum := s.totalNumOfScrBlocks
    nextBlockNum := if endrun then -1 else s.totalNumOfScrBlocks + 1
    runNum := s.currentRun }
  { s with
    blockHead := { head with bytesUsed := overhead, numRecs := 0 }
    currentBlock := s.otherBlock
    otherBlock := s.currentBlock
    nextWritePosition := 0
    totalNumOfScrBlocks := s.totalNumOfScrBlocks + 1
    file := update s.file s.totalNumOfScrBlocks ⟨head, s.currentBlock⟩ }

def append : SortScratchSpace :=
  { s with
    currentBlock := memcpy s.currentBlock s.nextWritePosition data
    nextWritePosition := s.nextWritePosition + data.length
    blockHead := { s.blockHead with
      bytesUsed := s.blockHead.bytesUsed + data.length
      numRecs := s.blockHead.numRecs + 1 } }

/-- `RunDirectory::startNewRun`. -/
def startNewRun : SortScratchSpace :=
  { s with
    runDirectory := s.runDirectory ++ [s.totalNumOfScrBlocks]
    currentRun := s.runDirectory.length + 1 }

def writeRunData :
    SortScratchSpace :=
  let s := if (run : ℤ) ≠ s.currentRun then s.startNewRun else s
  if s.blockHead.bytesUsed + data.length ≤ blockSize - dp2ChecksumBytes then s.append data
  else (s.flushRun false).append data

structure RunScript where
  records : List (List Byte)
  flushes : List Bool

def flushes : SortScratchSpace :=
  l.foldl (fun s endrun => s.flushRun endrun) s

def writeRun (blockSize run : ℕ) (x : RunScript) (s : SortScratchSpace) : SortScratchSpace :=
  flushes x.flushes ((x.records.foldl (fun s rec => s.writeRunData blockSize rec run) s).flushRun
    true)

/-- Runs in turn, numbered from `run` on. -/
def writeRuns (blockSize : ℕ) : ℕ → List RunScript → SortScratchSpace → SortScratchSpace
  | _, [], s => s
  | run, x :: rest, s => writeRuns blockSize (run + 1) rest (s.writeRun blockSize run x)

end SortScratchSpace

/-! ### Chains of blocks -/

structure Holds (b : ScratchBlock) (recs : List (List Byte)) (last : Bool) : Prop where
  ne_nil : recs ≠ []
  numRecs_eq : b.head.numRecs = recs.length
  nextBlockNum_eq : b.head.nextBlockNum = -1 ↔ last
  data_eq : ∃ rest, b.data = recs.flatten ++ rest

/-- Blocks from `first` on that hold the beginning of a run. -/
def OpenChain (file : ℕ → ScratchBlock) : ℕ → List (List (List Byte)) → Prop
  | _, [] => True
  | first, recs :: blocks => Holds (file first) recs false ∧ OpenChain file (first + 1) blocks

/-- Blocks from `first` on that hold a run. -/
def Chain (file : ℕ → ScratchBlock) : ℕ → List (List (List Byte)) → Prop
  | _, [] => False
  | first, [recs] => Holds (file first) recs true
  | first, recs :: next :: blocks =>
    Holds (file first) recs false ∧ Chain file (first + 1) (next :: blocks)

section chains
variable {file : ℕ → ScratchBlock} {first : ℕ} {blocks : List (List (List Byte))}

lemma OpenChain.snoc {recs : List (List Byte)} (h : OpenChain file first blocks)
    (hrecs : Holds (file (first + blocks.length)) recs false) :
    OpenChain file first (blocks ++ [recs]) := by
  induction blocks generalizing first with
  | nil => exact ⟨hrecs, trivial⟩
  | cons b blocks ih =>
    refine ⟨h.1, ih h.2 ?_⟩
    rwa [length_cons, ← Nat.add_assoc, Nat.add_right_comm] at hrecs

lemma OpenChain.close {recs : List (List Byte)} (h : OpenChain file first blocks)
    (hrecs : Holds (file (first + blocks.length)) recs true) :
    Chain file first (blocks ++ [recs]) := by
  induction blocks generalizing first with
  | nil => exact hrecs
  | cons b blocks ih =>
    have hrest : Chain file (first + 1) (blocks ++ [recs]) := by
      refine ih h.2 ?_
      rwa [length_cons, ← Nat.add_assoc, Nat.add_right_comm] at hrecs
    cases blocks with
    | nil => exact ⟨h.1, hrest⟩
    | cons b' blocks => exact ⟨h.1, hrest⟩

lemma OpenChain.update {n : ℕ} {b : ScratchBlock} (h : OpenChain file first blocks)
    (hn : first + blocks.length ≤ n) : OpenChain (update file n b) first blocks := by
  induction blocks generalizing first with
  | nil => trivial
  | cons recs blocks ih =>
    rw [length_cons] at hn
    refine ⟨?_, ih h.2 (by omega)⟩
    rw [update_of_ne (by omega)]
    exact h.1

lemma Chain.update {n : ℕ} {b : ScratchBlock} (h : Chain file first blocks)
    (hn : first + blocks.length ≤ n) : Chain (update file n b) first blocks := by
  induction blocks generalizing first with
  | nil => exact h
  | cons recs blocks ih =>
    rw [length_cons] at hn
    cases blocks with
    | nil =>
      rw [Chain, update_of_ne (by omega)]
      exact h
    | cons next blocks =>
      refine ⟨?_, ih h.2 (by omega)⟩
      rw [update_of_ne (by omega)]
      exact h.1

end chains

/-! ### Writing -/

/-- The block number after the blocks of run `r + 1`. -/
def endOf (dir : List ℕ) (total r : ℕ) : ℕ := (dir[r + 1]?).getD total

structure Stored (s : SortScratchSpace) (runs : List (List (List Byte))) : Prop where
  chain : ∀ r recs, runs[r]? = some recs → ∃ first blocks, s.runDirectory[r]? = some first ∧
    blocks.flatten = recs ∧ Chain s.file first blocks ∧
    first + blocks.length ≤ endOf s.runDirectory s.totalNumOfScrBlocks r
  first_le : ∀ first ∈ s.runDirectory, first ≤ s.totalNumOfScrBlocks

structure Buffered (s : SortScratchSpace) (recs : List (List Byte)) : Prop where
  take_eq : s.currentBlock.take s.nextWritePosition = recs.flatten
  nextWritePosition_eq : s.nextWritePosition = recs.flatten.length
  bytesUsed_eq : s.blockHead.bytesUsed = overhead + recs.flatten.length
  numRecs_eq : s.blockHead.numRecs = recs.length

structure Ready (s : SortScratchSpace) (runs : List (List (List Byte))) : Prop where
  stored : Stored s runs
  length_eq : s.runDirectory.length = runs.length
  buffered : Buffered s []
  currentRun_ne : s.currentRun ≠ s.runDirectory.length + 1

/-- While a run is written: its full blocks are in the file, and `recs` in the buffer. -/
structure Writing (s : SortScratchSpace) (runs : List (List (List Byte)))
    (blocks : List (List (List Byte))) (recs : List (List Byte)) : Prop where
  stored : Stored s runs
  directory : ∃ dir first, s.runDirectory = dir ++ [first] ∧ dir.length = runs.length ∧
    OpenChain s.file first blocks ∧ first + blocks.length = s.totalNumOfScrBlocks
  currentRun_eq : s.currentRun = s.runDirectory.length
  buffered : Buffered s recs
  ne_nil : recs ≠ []

variable {s : SortScratchSpace} {runs blocks : List (List (List Byte))} {recs : List (List Byte)}
  {blockSize : ℕ}

lemma endOf_le (h : Stored s runs) (r : ℕ) :
    endOf s.runDirectory s.totalNumOfScrBlocks r ≤ s.totalNumOfScrBlocks := by
  unfold endOf
  cases hr : s.runDirectory[r + 1]? with
  | none => exact le_rfl
  | some first => exact h.first_le first (mem_of_getElem? hr)

lemma Stored.flushRun (h : Stored s runs) (endrun : Bool) : Stored (s.flushRun endrun) runs := by
  refine ⟨fun r recs hr => ?_, fun first hfst => (h.first_le first hfst).trans (Nat.le_succ _)⟩
  obtain ⟨first, blocks, hdir, hrecs, hchain, hend⟩ := h.chain r recs hr
  have hle := endOf_le h r
  refine ⟨first, blocks, hdir, hrecs, hchain.update (by omega), hend.trans ?_⟩
  simp only [endOf, SortScratchSpace.flushRun]
  cases s.runDirectory[r + 1]? with
  | none => exact Nat.le_succ _
  | some next => exact le_rfl

lemma Buffered.flushRun (s : SortScratchSpace) (endrun : Bool) :
    Buffered (s.flushRun endrun) [] :=
  ⟨by simp [SortScratchSpace.flushRun], rfl, rfl, rfl⟩

lemma Buffered.append (h : Buffered s recs) (data : List Byte) :
    Buffered (s.append data) (recs ++ [data]) := by
  have hpos := h.nextWritePosition_eq
  refine ⟨?_, ?_, ?_, ?_⟩
  · have hflat : (recs ++ [data]).flatten = s.currentBlock.take s.nextWritePosition ++ data := by
      rw [flatten_append, h.take_eq]
      simp
    have hlen : (s.currentBlock.take s.nextWritePosition ++ data).length =
        s.nextWritePosition + data.length := by
      rw [length_append, h.take_eq, hpos]
    rw [hflat]
    exact take_left' hlen
  · simp [SortScratchSpace.append, hpos]
  · simp [SortScratchSpace.append, h.bytesUsed_eq, Nat.add_assoc]
  · simp [SortScratchSpace.append, h.numRecs_eq]

lemma Buffered.holds (h : Buffered s recs) (hne : recs ≠ []) (endrun : Bool) :
    Holds ((s.flushRun endrun).file s.totalNumOfScrBlocks) recs endrun := by
  refine ⟨hne, ?_, ?_, ⟨s.currentBlock.drop s.nextWritePosition, ?_⟩⟩
  · simp [SortScratchSpace.flushRun, h.numRecs_eq]
  · simp only [SortScratchSpace.flushRun, update_self]
    cases endrun
    · simp
      omega
    · simp
  · simp [SortScratchSpace.flushRun, ← h.take_eq]

def FitsBlock (blockSize : ℕ) (rec : List Byte) : Prop :=
  overhead + rec.length ≤ blockSize - dp2ChecksumBytes

lemma Stored.startNewRun (h : Stored s runs) (hlen : s.runDirectory.length = runs.length) :
    Stored s.startNewRun runs := by
  refine ⟨fun r recs hr => ?_, forall_mem_append.2 ⟨h.first_le, forall_mem_singleton.2 le_rfl⟩⟩
  · obtain ⟨first, blocks, hdir, hrecs, hchain, hend⟩ := h.chain r recs hr
    have hlt : r < s.runDirectory.length := hlen ▸ (List.getElem?_eq_some_iff.1 hr).1
    refine ⟨first, blocks, ?_, hrecs, hchain, hend.trans ?_⟩
    · simpa [SortScratchSpace.startNewRun, getElem?_append_left hlt] using hdir
    · -- the end of the last run becomes the first block of the new one
      simp only [endOf, SortScratchSpace.startNewRun, getElem?_append]
      split_ifs with hnext
      · exact le_rfl
      · rw [getElem?_eq_none (by omega)]
        rw [show r + 1 - s.runDirectory.length = 0 by omega]
        exact le_rfl

lemma Ready.writeRunData (h : Ready s runs) {rec : List Byte} (hrec : FitsBlock blockSize rec) :
    Writing (s.writeRunData blockSize rec (runs.length + 1)) runs [] [rec] := by
  have hne : ((runs.length + 1 : ℕ) : ℤ) ≠ s.currentRun := by
    have := h.currentRun_ne
    rw [h.length_eq] at this
    exact this.symm
  have hfits : s.startNewRun.blockHead.bytesUsed + rec.length ≤ blockSize - dp2ChecksumBytes := by
    have hused : s.startNewRun.blockHead.bytesUsed = overhead := h.buffered.bytesUsed_eq
    rw [hused]
    exact hrec
  have hstrd := h.stored.startNewRun h.length_eq
  have hbuffered : Buffered s.startNewRun [] :=
    { h.buffered with }
  simp only [SortScratchSpace.writeRunData, if_pos hne, if_pos hfits]
  refine ⟨⟨hstrd.chain, hstrd.first_le⟩, ⟨s.runDirectory, s.totalNumOfScrBlocks, rfl,
    h.length_eq, trivial, rfl⟩, ?_, hbuffered.append rec, cons_ne_nil _ _⟩
  simp [append, startNewRun]

section
variable (h : Writing s runs blocks recs)
include h

lemma Writing.flushRun_directory :
    ∃ dir first, (s.flushRun false).runDirectory = dir ++ [first] ∧ dir.length = runs.length ∧
      OpenChain (s.flushRun false).file first (blocks ++ [recs]) ∧
      first + (blocks ++ [recs]).length = (s.flushRun false).totalNumOfScrBlocks := by
  obtain ⟨dir, first, hdir, hlen, hchain, htotal⟩ := h.directory
  have hholds := h.buffered.holds h.ne_nil false
  rw [← htotal] at hholds
  refine ⟨dir, first, hdir, hlen, (hchain.update htotal.le).snoc hholds, ?_⟩
  simp only [length_append, length_singleton, flushRun]
  omega

lemma Writing.writeRunData (rec : List Byte) :
    ∃ blocks' recs', Writing (s.writeRunData blockSize rec (runs.length + 1)) runs blocks' recs' ∧
      (blocks' ++ [recs']).flatten = (blocks ++ [recs]).flatten ++ [rec] := by
  have hrun : ¬ ((runs.length + 1 : ℕ) : ℤ) ≠ s.currentRun := by
    obtain ⟨dir, first, hdir, hlen, -⟩ := h.directory
    rw [h.currentRun_eq, hdir, length_append, hlen]
    simp
  simp only [SortScratchSpace.writeRunData, if_neg hrun]
  split_ifs with hfits
  · refine ⟨blocks, recs ++ [rec], ⟨⟨h.stored.chain, h.stored.first_le⟩, h.directory,
      h.currentRun_eq, h.buffered.append rec, by simp⟩, ?_⟩
    simp
  · have hstrd := h.stored.flushRun false
    have hbuffered := (Buffered.flushRun s false).append rec
    refine ⟨blocks ++ [recs], [rec], ⟨⟨hstrd.chain, hstrd.first_le⟩, h.flushRun_directory,
      h.currentRun_eq, hbuffered, cons_ne_nil _ _⟩, ?_⟩
    simp

lemma Writing.foldl (rest : List (List Byte)) : ∃ blocks' recs', Writing
      (rest.foldl (fun s rec => s.writeRunData blockSize rec (runs.length + 1)) s) runs blocks'
        recs' ∧ (blocks' ++ [recs']).flatten = (blocks ++ [recs]).flatten ++ rest := by
  induction rest generalizing s blocks recs with
  | nil => exact ⟨blocks, recs, h, by simp⟩
  | cons rec rest ih =>
    obtain ⟨blocks₁, recs₁, h₁, heq₁⟩ := h.writeRunData rec
    obtain ⟨blocks', recs', h', heq'⟩ := ih h₁
    exact ⟨blocks', recs', h', by rw [heq', heq₁, append_assoc, singleton_append]⟩

lemma Writing.flushRun : Ready (s.flushRun true) (runs ++ [(blocks ++ [recs]).flatten]) := by
  obtain ⟨dir, first, hdir, hlen, hchain, htotal⟩ := h.directory
  have hstrd := h.stored.flushRun true
  have hholds := h.buffered.holds h.ne_nil true
  rw [← htotal] at hholds
  have hclosed := (hchain.update htotal.le).close hholds
  refine ⟨⟨fun r recs' hr => ?_, hstrd.first_le⟩, ?_, Buffered.flushRun s true, ?_⟩
  · rw [getElem?_append] at hr
    split_ifs at hr with hlt
    · exact hstrd.chain r recs' hr
    · rw [getElem?_singleton] at hr
      split_ifs at hr with hzero
      have hr' : r = runs.length := by omega
      subst hr'
      refine ⟨first, blocks ++ [recs], ?_, Option.some.inj hr, hclosed, ?_⟩
      · change s.runDirectory[runs.length]? = some first
        rw [hdir, ← hlen]
        simp
      · change first + (blocks ++ [recs]).length ≤
          (s.runDirectory[runs.length + 1]?).getD (s.totalNumOfScrBlocks + 1)
        rw [hdir, ← hlen, getElem?_eq_none (by simp)]
        simp only [length_append, length_singleton, Option.getD_none]
        omega
  · change s.runDirectory.length = (runs ++ [(blocks ++ [recs]).flatten]).length
    simp [hdir, hlen]
  · change s.currentRun ≠ s.runDirectory.length + 1
    rw [h.currentRun_eq]
    omega

end

lemma Ready.flushRun (h : Ready s runs) (endrun : Bool) : Ready (s.flushRun endrun) runs :=
  ⟨h.stored.flushRun endrun, h.length_eq, Buffered.flushRun s endrun, h.currentRun_ne⟩

lemma Ready.flushes (h : Ready s runs) (l : List Bool) : Ready (flushes l s) runs := by
  induction l generalizing s with
  | nil => exact h
  | cons endrun l ih => exact ih (h.flushRun endrun)

lemma Ready.writeRun (h : Ready s runs) {x : SortScratchSpace.RunScript} (hne : x.records ≠ [])
    (hfits : ∀ rec ∈ x.records, FitsBlock blockSize rec) :
    Ready (s.writeRun blockSize (runs.length + 1) x) (runs ++ [x.records]) := by
  obtain ⟨rec, rest, hrecs⟩ := exists_cons_of_ne_nil hne
  rw [hrecs] at hfits
  have hfst := h.writeRunData (hfits rec mem_cons_self)
  obtain ⟨blocks, recs, hwriting, hflat⟩ := hfst.foldl rest
  have hready := hwriting.flushRun
  rw [hflat] at hready
  unfold SortScratchSpace.writeRun
  rw [hrecs]
  exact hready.flushes x.flushes

lemma Ready.writeRuns (h : Ready s runs) {scripts : List SortScratchSpace.RunScript}
    (hscripts : ∀ x ∈ scripts, x.records ≠ [] ∧ ∀ rec ∈ x.records, FitsBlock blockSize rec) :
    Ready (s.writeRuns blockSize (runs.length + 1) scripts)
      (runs ++ scripts.map SortScratchSpace.RunScript.records) := by
  induction scripts generalizing s runs with
  | nil => simpa [writeRuns] using h
  | cons x scripts ih =>
    obtain ⟨hne, hfits⟩ := hscripts x mem_cons_self
    have hrest := ih (h.writeRun hne hfits) (forall_mem_cons.1 hscripts).2
    simpa [writeRuns] using hrest

lemma Ready.init (scrBlock1 scrBlock2 : List Byte) (file : ℕ → ScratchBlock) :
    Ready (SortScratchSpace.init scrBlock1 scrBlock2 file) [] where
  stored := ⟨by simp, by simp [SortScratchSpace.init]⟩
  length_eq := rfl
  buffered := ⟨by simp [SortScratchSpace.init], rfl, rfl, rfl⟩
  currentRun_ne := by simp [SortScratchSpace.init]

end Trafodion.Scratch
