import Mathlib.Data.Prod.Lex
import Trafodion.ByteStrings
import Trafodion.LoserTree

/-!
# The tournament tree of the sort

`Tree` merges runs by replacement selection. A node has two roles: with its number as a place in
the tournament it holds a loser and the run number of that loser, and with its number as a run
it holds the record last read. The tree starts with dummies of run number 0 that have no key.
-/
namespace Trafodion.TourTree

open List Function ByteStrings LoserTree

/-! ### Records and runs -/

structure Config where
  numRuns : ℕ
  keySize : ℕ
  recSize : ℕ
  resizeCifRecord : Bool

variable (cfg : Config)

def Config.numberOfBytesForRecordSize : ℕ := if cfg.resizeCifRecord then 4 else 0

variable (rec : List Byte)

def Config.extractKey : List Byte :=
  (rec.drop cfg.numberOfBytesForRecordSize).take cfg.keySize

def sizeField : ℕ := Nat.ofDigits 256 ((rec.take 4).map BitVec.toNat)

/-- The length of a record as `readSortMergeNode` finds it. -/
def Config.actRecLen : ℕ :=
  if cfg.resizeCifRecord then sizeField rec else cfg.recSize

structure Block where
  delay : ℕ
  first : List Byte
  rest : List (List Byte)

structure MergeInput where
  left : List (List Byte)
  blocks : List Block

inductive RetCode
  | success (rec : List Byte)
  | endOfRun
  | ioNotComplete

namespace MergeInput

def records (i : MergeInput) : List (List Byte) :=
  i.left ++ i.blocks.flatMap fun b => b.first :: b.rest

def delay (i : MergeInput) : ℕ := (i.blocks.map Block.delay).sum

lemma delay_eq_zero {i : MergeInput} (h : i.records = []) : i.delay = 0 := by
  have hblocks : i.blocks = [] := by
    cases hb : i.blocks with
    | nil => rfl
    | cons b blocks => simp [records, hb] at h
  rw [delay, hblocks]
  rfl

/-- `readSortMergeNode`: the next record, or the first one of the next block. -/
def readSortMergeNode (waited : Bool) (i : MergeInput) : RetCode × MergeInput :=
  match i.left, i.blocks with
  | rec :: left, blocks => (.success rec, ⟨left, blocks⟩)
  | [], [] => (.endOfRun, i)
  | [], b :: blocks =>
    if !waited && b.delay ≠ 0 then (.ioNotComplete, ⟨[], { b with delay := b.delay - 1 } :: blocks⟩)
    else (.success b.first, ⟨b.rest, blocks⟩)

/-- A read gives the next record, or finds that there is none, or uses up a delay. -/
theorem readSortMergeNode_cases (waited : Bool) (i : MergeInput) :
    (∃ rec i', i.readSortMergeNode waited = (.success rec, i') ∧ i.records = rec :: i'.records ∧
      i'.delay ≤ i.delay) ∨ (i.readSortMergeNode waited = (.endOfRun, i) ∧ i.records = []) ∨
    (waited = false ∧ ∃ i', i.readSortMergeNode waited = (.ioNotComplete, i') ∧
      i'.records = i.records ∧ i'.delay < i.delay) := by
  obtain ⟨left, blocks⟩ := i
  cases left with
  | cons rec left => exact .inl ⟨rec, ⟨left, blocks⟩, rfl, rfl, le_rfl⟩
  | nil =>
    cases blocks with
    | nil => exact .inr (.inl ⟨rfl, rfl⟩)
    | cons b blocks =>
      by_cases hdel : !waited && b.delay ≠ 0
      · have hwaited : waited = false := by simp at hdel; exact hdel.1
        have hpos : b.delay ≠ 0 := by simp at hdel; exact hdel.2
        refine .inr (.inr ⟨hwaited, _, if_pos hdel, rfl, ?_⟩)
        simp only [delay, map_cons, sum_cons]
        omega
      · refine .inl ⟨b.first, ⟨b.rest, blocks⟩, if_neg hdel, rfl, ?_⟩
        simp only [delay, map_cons, sum_cons]
        omega

end MergeInput

/-! ### The tree -/

structure Tree where
  loser : ℕ → ℕ
  run : ℕ → ℕ
  key : ℕ → Option (List Byte)
  record : ℕ → List Byte
  recSize : ℕ → ℕ
  sortMergeNode : ℕ → MergeInput
  winner : ℕ
  winnerRun : ℕ
  currentRun : ℕ
  maxRuns : ℕ
  keyOfLastWinner : List Byte

/-- `SortAlgo::compare`: a node without a key comes first. -/
def compare : Option (List Byte) → Option (List Byte) → Ordering
  | some key1, some key2 => memcmp key1 key2
  | none, none => .eq
  | none, some _ => .lt
  | some _, none => .gt

namespace Tree

variable (cfg : Config)

def init (runs : ℕ → MergeInput) : Tree where
  loser := id
  run _ := 0
  key _ := none
  record _ := []
  recSize _ := cfg.recSize
  sortMergeNode := runs
  winner := 0
  winnerRun := 0
  currentRun := 0
  maxRuns := 0
  keyOfLastWinner := replicate cfg.keySize 0xFF#8

variable (t : Tree)

/-- The comparison of `determineNewWinner` at one node, with the swap. -/
def challenge (temp1 : ℕ) : Tree :=
  if t.run temp1 < t.winnerRun ∨
      t.run temp1 = t.winnerRun ∧ compare (t.key (t.loser temp1)) (t.key t.winner) ≠ .gt then
    { t with
      loser := update t.loser temp1 t.winner
      winner := t.loser temp1
      run := update t.run temp1 t.winnerRun
      winnerRun := t.run temp1 }
  else t

/-- The loop of `determineNewWinner`, up to node 1. `getFi` of a node is the half of it. -/
def challengeUp : ℕ → ℕ → Tree → Tree
  | 0, _, t => t
  | fuel + 1, temp1, t =>
    if temp1 = 1 then t.challenge temp1 else challengeUp fuel (temp1 / 2) (t.challenge temp1)

def determineNewWinner : Tree :=
  challengeUp (cfg.numRuns + t.winner) ((cfg.numRuns + t.winner) / 2) t

/-- `TreeNode::inputScr` for the winner. The record's size is set by every read, also by one
that gives no record. -/
def inputScr (waited : Bool) (t : Tree) : RetCode × Tree :=
  let (status, input) := (t.sortMergeNode t.winner).readSortMergeNode waited
  let t := { t with sortMergeNode := update t.sortMergeNode t.winner input }
  match status with
  | .success rec =>
    (status, { t with
      record := update t.record t.winner rec
      recSize := update t.recSize t.winner (cfg.actRecLen rec)
      key := update t.key t.winner (some (cfg.extractKey rec)) })
  | _ => (status, { t with recSize := update t.recSize t.winner cfg.recSize })

/-- `winnerRun_++`, with the greatest run number. -/
def nextRun : Tree :=
  { t with winnerRun := t.winnerRun + 1, maxRuns := max t.maxRuns (t.winnerRun + 1) }

def withRecord (rec : List Byte) (input : MergeInput) : Tree :=
  { t with
    sortMergeNode := update t.sortMergeNode t.winner input
    record := update t.record t.winner rec
    recSize := update t.recSize t.winner (cfg.actRecLen rec)
    key := update t.key t.winner (some (cfg.extractKey rec)) }

def withInput (input : MergeInput) : Tree :=
  { t with
    sortMergeNode := update t.sortMergeNode t.winner input
    recSize := update t.recSize t.winner cfg.recSize }

lemma inputScr_cases (waited : Bool) (t : Tree) :
    (∃ rec input, t.inputScr cfg waited = (.success rec, t.withRecord cfg rec input) ∧
      (t.sortMergeNode t.winner).records = rec :: input.records ∧
      input.delay ≤ (t.sortMergeNode t.winner).delay) ∨
    (t.inputScr cfg waited = (.endOfRun, t.withInput cfg (t.sortMergeNode t.winner)) ∧
      (t.sortMergeNode t.winner).records = []) ∨
    (waited = false ∧ ∃ input, t.inputScr cfg waited = (.ioNotComplete, t.withInput cfg input) ∧
      input.records = (t.sortMergeNode t.winner).records ∧
      input.delay < (t.sortMergeNode t.winner).delay) := by
  unfold inputScr
  rcases (t.sortMergeNode t.winner).readSortMergeNode_cases waited with
    ⟨rec, input, hread, hrecs, hdel⟩ | ⟨hread, hrecs⟩ | ⟨hwaited, input, hread, hrest⟩
  · rw [hread]
    exact .inl ⟨rec, input, rfl, hrecs, hdel⟩
  · rw [hread]
    exact .inr (.inl ⟨rfl, hrecs⟩)
  · rw [hread]
    exact .inr (.inr ⟨hwaited, input, rfl, hrest⟩)

/-! ### The tournament is a loser tree -/

def slots : LoserTree.Slots := ⟨t.loser, t.winner⟩

def rank (key : Option (List Byte)) : WithBot ℕ := key.map value

def standing (runOf : ℕ → ℕ) (j : ℕ) : ℕ ×ₗ WithBot ℕ := toLex (runOf j, rank (t.key j))

structure Tracks (cfg : Config) (runOf : ℕ → ℕ) (t : Tree) : Prop where
  run_eq : ∀ c, 1 ≤ c → c < cfg.numRuns → t.run c = runOf (t.loser c)
  winnerRun_eq : t.winnerRun = runOf t.winner

def KeySized : Prop := ∀ j, ∀ k ∈ t.key j, k.length = cfg.keySize

end Tree

lemma compare_ne_gt_iff {k1 k2 : Option (List Byte)} {n : ℕ} (h1 : ∀ k ∈ k1, k.length = n)
    (h2 : ∀ k ∈ k2, k.length = n) : compare k1 k2 ≠ .gt ↔ Tree.rank k1 ≤ Tree.rank k2 := by
  cases k1 with
  | none =>
    refine iff_of_true ?_ bot_le
    cases k2 <;> simp [compare]
  | some k1 =>
    cases k2 with
    | none => exact iff_of_false (by simp [compare]) (WithBot.not_coe_le_bot _)
    | some k2 =>
      have hlen : k1.length = k2.length := (h1 k1 rfl).trans (h2 k2 rfl).symm
      rw [compare, memcmp_eq_compare hlen, ne_eq, compare_gt_iff_gt, not_lt]
      exact WithBot.coe_le_coe.symm

namespace Tree

variable {cfg : Config} {runOf : ℕ → ℕ} {t : Tree}

def SameRuns (t t' : Tree) : Prop :=
  ∃ loser run winner winnerRun,
    t' = { t with loser := loser, run := run, winner := winner, winnerRun := winnerRun }

lemma sameRuns_challenge (t : Tree) (c : ℕ) : SameRuns t (t.challenge c) := by
  unfold challenge
  split_ifs
  · exact ⟨_, _, _, _, rfl⟩
  · exact ⟨t.loser, t.run, t.winner, t.winnerRun, rfl⟩

lemma sameRuns_challengeUp (fuel c : ℕ) (t : Tree) : SameRuns t (challengeUp fuel c t) := by
  induction fuel generalizing c t with
  | zero => exact ⟨t.loser, t.run, t.winner, t.winnerRun, rfl⟩
  | succ fuel ih =>
    obtain ⟨l, r, w, wr, hc⟩ := sameRuns_challenge t c
    rw [challengeUp]
    split_ifs
    · exact ⟨l, r, w, wr, hc⟩
    · obtain ⟨l', r', w', wr', hup⟩ := ih (c / 2) (t.challenge c)
      rw [hup, hc]
      exact ⟨l', r', w', wr', rfl⟩

lemma sameRuns_determineNewWinner (cfg : Config) (t : Tree) :
    SameRuns t (t.determineNewWinner cfg) :=
  sameRuns_challengeUp _ _ t

lemma SameRuns.key_eq {t' : Tree} (h : SameRuns t t') : t'.key = t.key := by
  obtain ⟨_, _, _, _, rfl⟩ := h
  rfl

@[simp] lemma determineNewWinner_key : (t.determineNewWinner cfg).key = t.key :=
  (sameRuns_determineNewWinner cfg t).key_eq

@[simp] lemma determineNewWinner_frame :
    (t.determineNewWinner cfg).record = t.record ∧ (t.determineNewWinner cfg).recSize = t.recSize ∧
    (t.determineNewWinner cfg).sortMergeNode = t.sortMergeNode ∧
    (t.determineNewWinner cfg).currentRun = t.currentRun ∧
    (t.determineNewWinner cfg).maxRuns = t.maxRuns ∧
    (t.determineNewWinner cfg).keyOfLastWinner = t.keyOfLastWinner := by
  obtain ⟨_, _, _, _, h⟩ := sameRuns_determineNewWinner cfg t
  rw [h]
  exact ⟨rfl, rfl, rfl, rfl, rfl, rfl⟩

lemma challenge_slots (h : Tracks cfg runOf t) (hkeys : KeySized cfg t) {c : ℕ} (hc : 1 ≤ c)
    (hcn : c < cfg.numRuns) : (t.challenge c).slots = play (t.standing runOf) t.slots c := by
  have hle : (t.run c < t.winnerRun ∨
      t.run c = t.winnerRun ∧ compare (t.key (t.loser c)) (t.key t.winner) ≠ .gt) ↔
      t.standing runOf (t.loser c) ≤ t.standing runOf t.winner := by
    rw [compare_ne_gt_iff (hkeys _) (hkeys _), h.run_eq c hc hcn, h.winnerRun_eq, standing,
      standing, Prod.Lex.toLex_le_toLex]
  by_cases hplay : t.standing runOf (t.loser c) ≤ t.standing runOf t.winner
  · rw [challenge, if_pos (hle.2 hplay)]
    exact (if_pos hplay).symm
  · rw [challenge, if_neg (mt hle.1 hplay)]
    exact (if_neg hplay).symm

lemma Tracks.challenge (h : Tracks cfg runOf t) {c : ℕ} (hc : 1 ≤ c) (hcn : c < cfg.numRuns) :
    Tracks cfg runOf (t.challenge c) := by
  unfold Tree.challenge
  split_ifs
  · refine ⟨fun d hd hdn => ?_, h.run_eq c hc hcn⟩
    by_cases hdc : d = c
    · simp [hdc, h.winnerRun_eq]
    · simpa [hdc] using h.run_eq d hd hdn
  · exact h

lemma challengeUp_eq_foldl (fuel p : ℕ) (hp : p ≠ 1) (t : Tree) :
    challengeUp fuel (p / 2) t = (ancestors fuel p).foldl challenge t := by
  induction fuel generalizing p t with
  | zero => rfl
  | succ fuel ih =>
    rw [challengeUp, ancestors, if_neg hp, foldl_cons]
    split_ifs with hroot
    · rw [hroot]
      cases fuel <;> rfl
    · exact ih _ hroot _

lemma foldl_challenge (h : Tracks cfg runOf t) (hkeys : KeySized cfg t) {l : List ℕ}
    (hl : ∀ c ∈ l, 1 ≤ c ∧ c < cfg.numRuns) :
    (l.foldl challenge t).slots = l.foldl (play (t.standing runOf)) t.slots ∧
      Tracks cfg runOf (l.foldl challenge t) := by
  induction l generalizing t with
  | nil => exact ⟨rfl, h⟩
  | cons c l ih =>
    obtain ⟨hc, hcn⟩ := hl c mem_cons_self
    have hkey := (sameRuns_challenge t c).key_eq
    have hstanding : (t.challenge c).standing runOf = t.standing runOf := by
      funext j
      rw [standing, standing, hkey]
    have hkeys' : KeySized cfg (t.challenge c) := by rwa [KeySized, hkey]
    obtain ⟨hslots, htracks⟩ := ih (h.challenge hc hcn) hkeys' fun d hd =>
      hl d (mem_cons_of_mem c hd)
    rw [hstanding, challenge_slots h hkeys hc hcn] at hslots
    exact ⟨hslots, htracks⟩

structure Ordered (cfg : Config) (runOf : ℕ → ℕ) (t : Tree) : Prop where
  tracks : Tracks cfg runOf t
  keySized : KeySized cfg t
  inv : LoserTree.Inv cfg.numRuns (t.standing runOf) t.slots

lemma Ordered.init (hn : 2 ≤ cfg.numRuns) (runs : ℕ → MergeInput) :
    Ordered cfg (fun _ => 0) (init cfg runs) where
  tracks := ⟨fun _ _ _ => rfl, rfl⟩
  keySized := by simp [KeySized, Tree.init]
  inv := LoserTree.Inv.constant (v := toLex (0, ⊥)) (by omega) fun _ _ => rfl

lemma Ordered.winner_le (h : Ordered cfg runOf t) {j : ℕ} (hj : j < cfg.numRuns) :
    t.winnerRun < runOf j ∨ t.winnerRun = runOf j ∧ rank (t.key t.winner) ≤ rank (t.key j) := by
  rw [h.tracks.winnerRun_eq]
  exact Prod.Lex.toLex_le_toLex.1 (h.inv.winner_le hj)

/-- After the winner has got a new record or none, `determineNewWinner` orders the runs again. -/
theorem Ordered.determineNewWinner (hn : 2 ≤ cfg.numRuns) (h : Ordered cfg runOf t) {t' : Tree}
    (hloser : t'.loser = t.loser) (hrun : t'.run = t.run) (hwin : t'.winner = t.winner)
    (hkey : ∀ j, j ≠ t.winner → t'.key j = t.key j)
    (hsize : ∀ k ∈ t'.key t.winner, k.length = cfg.keySize) :
    Ordered cfg (update runOf t.winner t'.winnerRun) (t'.determineNewWinner cfg) := by
  have hplaced := h.inv.placed
  have htracks : Tracks cfg (update runOf t.winner t'.winnerRun) t' := by
    refine ⟨fun c hc hcn => ?_, by rw [hwin, update_self]⟩
    have hne : t.loser c ≠ t.winner := hplaced.loser_ne c hc hcn
    rw [hrun, hloser, update_of_ne hne, h.tracks.run_eq c hc hcn]
  have hkeys : KeySized cfg t' := by
    intro j
    by_cases hj : j = t.winner
    · rwa [hj]
    · rw [hkey j hj]
      exact h.keySized j
  have hslots : t'.slots = t.slots := by rw [slots, slots, hloser, hwin]
  have hpath : ∀ c ∈ ancestors (cfg.numRuns + t.winner) (cfg.numRuns + t.winner),
      1 ≤ c ∧ c < cfg.numRuns := by
    intro c hc
    have hle := le_of_mem_ancestors hc
    have hlt : t.winner < cfg.numRuns := hplaced.winner_lt
    exact ⟨one_le_of_mem_ancestors (by omega) hc, by omega⟩
  have hreplay := h.inv.replay hn (t'.standing (update runOf t.winner t'.winnerRun))
    fun j hj => by
      have hj : j ≠ t.winner := hj
      rw [standing, standing, hkey j hj, update_of_ne hj]
  obtain ⟨hfold, htracks'⟩ := foldl_challenge htracks hkeys hpath
  have heq : t'.determineNewWinner cfg =
      (ancestors (cfg.numRuns + t.winner) (cfg.numRuns + t.winner)).foldl challenge t' := by
    rw [Tree.determineNewWinner, hwin, challengeUp_eq_foldl _ _ (by omega)]
  have hstanding : (t'.determineNewWinner cfg).standing (update runOf t.winner t'.winnerRun) =
      t'.standing (update runOf t.winner t'.winnerRun) := by
    funext j
    rw [standing, standing, determineNewWinner_key]
  refine ⟨by rwa [heq], by rwa [KeySized, determineNewWinner_key], ?_⟩
  rw [hstanding, heq, hfold, hslots]
  exact hreplay

end Tree

end Trafodion.TourTree
