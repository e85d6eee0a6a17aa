import Mathlib.Data.BitVec
import Trafodion.Runs

/-!
# The memory quota of a sort

`sortSend` consumes quota before it doubles the arrays of `Qsort`, and the destructor returns quota
for what the arrays have grown by. Memory pressure, the quota that other operators leave and the
outcome of an allocation are part of the events.
-/
namespace Trafodion.SortQuota

def oneMB : ℕ := 1048576

def maxAllocSize : ℕ := 127 * 1024 * 1024

structure SortUtilConfig where
  initialMemoryQuotaMB : ℤ
  memoryQuotaMB : BitVec 16
  memoryQuotaUsedBytes : BitVec 32
  sortMaxMem : BitVec 32
  /-- `getScratchOverflowMode()` is `SCRATCH_MMAP`. -/
  mmap : Bool

namespace SortUtilConfig

variable (config : SortUtilConfig)

def memoryQuotaSystemEnabled : Bool := 0 < config.initialMemoryQuotaMB

/-- The answers that `consumeMemoryQuota` gets. -/
structure Pressure where
  withinMemoryLimitsAndPressure : Bool
  unusedMemoryQuota : BitVec 32
  grabMemoryQuotaIfAvailable : Bool

variable (bufferSizeBytes : BitVec 32) (p : Pressure)

def consumeMemoryQuota :
    SortUtilConfig × Bool :=
  let quotaMB := config.memoryQuotaMB.signExtend 32
  let usedBytes := config.memoryQuotaUsedBytes + bufferSizeBytes
  if !config.memoryQuotaSystemEnabled then (config, false)
  else if usedBytes / BitVec.ofNat 32 oneMB ≤ quotaMB then
    if p.withinMemoryLimitsAndPressure then
      ({ config with memoryQuotaUsedBytes := usedBytes }, true)
    else (config, false)
  else
    let memNeededMB := (usedBytes - quotaMB * BitVec.ofNat 32 oneMB) / BitVec.ofNat 32 oneMB
    if p.unusedMemoryQuota < memNeededMB then (config, false)
    -- the quota is raised before the pressure is looked at, and lowered again if that fails
    else if p.withinMemoryLimitsAndPressure && p.grabMemoryQuotaIfAvailable then
      ({ config with
          memoryQuotaMB := config.memoryQuotaMB + memNeededMB.setWidth 16
          memoryQuotaUsedBytes := usedBytes }, true)
    else (config, false)

def returnConsumedMemoryQuota :
    SortUtilConfig :=
  if !config.memoryQuotaSystemEnabled then config
  else { config with memoryQuotaUsedBytes := config.memoryQuotaUsedBytes - bufferSizeBytes }

end SortUtilConfig

open SortUtilConfig

/-- `sizeof(RecKeyBuffer)` and `sizeof(Record)`. -/
structure Sizes where
  recKeyBuffer : ℕ
  record : ℕ
  record_pos : 0 < record

variable (z : Sizes)

def Sizes.getOverheadPerRecord : ℕ := z.recKeyBuffer + z.record

structure Qsort where
  allocRunSize : ℕ
  initialRunSize : ℕ
  loopIndex : ℕ

structure SortUtil where
  config : SortUtilConfig
  /-- `sortAlgo_`, unless it is `NULL` or the tree of the merge phase. -/
  qsort : Option Qsort
  memoryQuotaUtil : BitVec 32

/-- What one call of `sortSend` meets. -/
structure Send where
  pressure : Pressure
  /-- Both arrays could be allocated. -/
  allocated : Bool
  /-- Where `generateARun` leaves `loopIndex_`: at 0 once the run is written. -/
  runIndex : ℕ

variable (s : SortUtil) (send : Send) (config : SortUtilConfig)

def mayDouble (q : Qsort) (send : Send) :
    SortUtilConfig × Bool :=
  let estimateSize := BitVec.ofNat 32 (2 * q.allocRunSize * z.getOverheadPerRecord)
  if config.memoryQuotaSystemEnabled then
    if maxAllocSize < 2 * q.allocRunSize * z.recKeyBuffer ∨
        maxAllocSize < 2 * q.allocRunSize * z.record then (config, false)
    else config.consumeMemoryQuota estimateSize send.pressure
  else (config, estimateSize < config.sortMaxMem)

def sortSend : SortUtil :=
  match s.qsort with
  | none => s
  | some q =>
    if q.loopIndex + 1 < q.allocRunSize then
      { s with qsort := some { q with loopIndex := q.loopIndex + 1 } }
    else
      let estimateSize := BitVec.ofNat 32 (2 * q.allocRunSize * z.getOverheadPerRecord)
      let overflow : Qsort := { q with loopIndex := send.runIndex }
      if s.config.mmap then { s with qsort := some overflow }
      else
        let (config, may) := mayDouble z s.config q send
        if !may then { s with config := config, qsort := some overflow }
        else if send.allocated then
          { s with
              config := config
              qsort := some { q with
                allocRunSize := q.allocRunSize * 2 % 2 ^ 32
                loopIndex := q.loopIndex + 1 } }
        else
          { s with
              config := config.returnConsumedMemoryQuota estimateSize
              qsort := some overflow }

def doubles : Bool :=
  match s.qsort with
  | none => false
  | some q => !(q.loopIndex + 1 < q.allocRunSize) && !s.config.mmap &&
      (mayDouble z s.config q send).2 && send.allocated

/-- `delete sortAlgo_`, which calls `cleanUpMemoryQuota` of `Qsort`. -/
def deleteSortAlgo : SortUtil :=
  match s.qsort with
  | none => s
  | some q =>
    { s with
        config := s.config.returnConsumedMemoryQuota
          (BitVec.ofNat 32 ((q.allocRunSize - q.initialRunSize) * z.getOverheadPerRecord))
        qsort := none }

/-- `sortSendEnd`, with the memory for the merge phase if there is one. -/
def sortSendEnd (merge : Option (BitVec 32 × Pressure)) (s : SortUtil) : SortUtil :=
  match merge with
  | none => s
  | some (maxMergeMemory, pressure) =>
    let s := deleteSortAlgo z s
    if s.config.memoryQuotaSystemEnabled then
      let (config, consumed) := s.config.consumeMemoryQuota maxMergeMemory pressure
      { s with
          config := config
          memoryQuotaUtil := if consumed then maxMergeMemory else s.memoryQuotaUtil }
    else s

/-- `sortEnd` with `doCleanUp` -/
def sortEnd : SortUtil :=
  let s := deleteSortAlgo z s
  { s with
      config := s.config.returnConsumedMemoryQuota s.memoryQuotaUtil
      memoryQuotaUtil := 0 }

/-- `sortInitialize`, when nothing is left to clean up -/
def sortInitialize : SortUtil :=
  ⟨config, some ⟨1000000, 1000000, 0⟩, 0⟩

/-! ### What is consumed -/

lemma consumeMemoryQuota_cases (bytes : BitVec 32) (p : Pressure) :
    config.consumeMemoryQuota bytes p = (config, false) ∨
      config.memoryQuotaSystemEnabled = true ∧
        ∃ quotaMB, config.consumeMemoryQuota bytes p = ({ config with
          memoryQuotaMB := quotaMB
          memoryQuotaUsedBytes := config.memoryQuotaUsedBytes + bytes }, true) := by
  unfold consumeMemoryQuota
  cases hen : config.memoryQuotaSystemEnabled with
  | false => exact .inl rfl
  | true =>
    dsimp only
    split_ifs
    · cases ‹_›
    · exact .inr ⟨rfl, _, rfl⟩
    · exact .inl rfl
    · exact .inl rfl
    · exact .inr ⟨rfl, _, rfl⟩
    · exact .inl rfl

variable {config : SortUtilConfig}

lemma returnConsumedMemoryQuota_enabled
    (h : config.memoryQuotaSystemEnabled = true) (bytes : BitVec 32) :
    config.returnConsumedMemoryQuota bytes =
      { config with memoryQuotaUsedBytes := config.memoryQuotaUsedBytes - bytes } := by
  simp [returnConsumedMemoryQuota, h]

lemma returnConsumedMemoryQuota_disabled
    (h : config.memoryQuotaSystemEnabled = false) (bytes : BitVec 32) :
    config.returnConsumedMemoryQuota bytes = config := by
  simp [returnConsumedMemoryQuota, h]

/-- A sort that has consumed `2 * (allocRunSize - initialRunSize)` records' worth of quota. -/
structure Sending (z : Sizes) (u : BitVec 32) (q : Qsort) (s : SortUtil) : Prop where
  enabled : s.config.memoryQuotaSystemEnabled = true
  qsort : s.qsort = some q
  util : s.memoryQuotaUtil = 0
  grown : q.initialRunSize ≤ q.allocRunSize
  pos : 0 < q.allocRunSize
  used : s.config.memoryQuotaUsedBytes = u + BitVec.ofNat 32
    (2 * (q.allocRunSize - q.initialRunSize) * z.getOverheadPerRecord)
  small : q.initialRunSize < q.allocRunSize →
    q.allocRunSize * z.getOverheadPerRecord ≤ 2 * maxAllocSize

namespace Sending

variable {z : Sizes} {u : BitVec 32} {q : Qsort} {s : SortUtil}

section
variable (h : Sending z u q s)
include h

lemma keep (i : ℕ) :
    Sending z u { q with loopIndex := i } { s with qsort := some { q with loopIndex := i } } :=
  { h with qsort := rfl }

lemma double (i : ℕ) (quotaMB : BitVec 16)
    (hkeys : 2 * q.allocRunSize * z.recKeyBuffer ≤ maxAllocSize)
    (hrecs : 2 * q.allocRunSize * z.record ≤ maxAllocSize) :
    Sending z u { q with allocRunSize := 2 * q.allocRunSize, loopIndex := i }
      { s with
          config := { s.config with
            memoryQuotaMB := quotaMB
            memoryQuotaUsedBytes := s.config.memoryQuotaUsedBytes +
              BitVec.ofNat 32 (2 * q.allocRunSize * z.getOverheadPerRecord) }
          qsort := some { q with allocRunSize := 2 * q.allocRunSize, loopIndex := i } } := by
  have hgrown := h.grown
  have hpos := h.pos
  refine ⟨h.enabled, rfl, h.util, ?_, ?_, ?_, fun _ => ?_⟩
  · dsimp only
    omega
  · dsimp only
    omega
  · dsimp only
    rw [h.used, BitVec.add_assoc, ← BitVec.ofNat_add, ← Nat.add_mul]
    congr 3
    omega
  · dsimp only
    rw [Sizes.getOverheadPerRecord, Nat.mul_add]
    omega

lemma step : ∃ q', Sending z u q' (sortSend z s send) ∧ q'.initialRunSize = q.initialRunSize ∧
      q'.allocRunSize = if doubles z s send then 2 * q.allocRunSize else q.allocRunSize := by
  simp only [sortSend, doubles, h.qsort]
  by_cases hroom : q.loopIndex + 1 < q.allocRunSize
  · rw [if_pos hroom]
    exact ⟨_, h.keep _, rfl, by simp [hroom]⟩
  rw [if_neg hroom]
  cases hmmap : s.config.mmap with
  | true => exact ⟨_, h.keep _, rfl, by simp⟩
  | false =>
    by_cases hsize : maxAllocSize < 2 * q.allocRunSize * z.recKeyBuffer ∨
        maxAllocSize < 2 * q.allocRunSize * z.record
    · have hmay : mayDouble z s.config q send = (s.config, false) := by
        simp only [mayDouble, h.enabled, if_true, if_pos hsize]
      simp only [hmay]
      exact ⟨_, h.keep _, rfl, by simp⟩
    · have hmay : mayDouble z s.config q send = s.config.consumeMemoryQuota
          (BitVec.ofNat 32 (2 * q.allocRunSize * z.getOverheadPerRecord)) send.pressure := by
        simp only [mayDouble, h.enabled, if_true, if_neg hsize]
      obtain hc | ⟨-, quotaMB, hc⟩ := consumeMemoryQuota_cases s.config
        (BitVec.ofNat 32 (2 * q.allocRunSize * z.getOverheadPerRecord)) send.pressure
      · simp only [hmay, hc]
        exact ⟨_, h.keep _, rfl, by simp⟩
      · simp only [hmay, hc]
        cases hallocated : send.allocated with
        | true =>
          have hdouble : q.allocRunSize * 2 % 2 ^ 32 = 2 * q.allocRunSize := by
            have hle := Nat.le_mul_of_pos_right (2 * q.allocRunSize) z.record_pos
            unfold maxAllocSize at hsize
            rw [Nat.mod_eq_of_lt (by omega)]
            omega
          rw [hdouble]
          exact ⟨_, h.double _ quotaMB (by omega) (by omega), rfl, by simp [hroom]⟩
        | false =>
          rw [returnConsumedMemoryQuota_enabled, BitVec.add_sub_cancel]
          · exact ⟨_, { h with qsort := rfl }, rfl, by simp⟩
          · exact h.enabled

lemma run (sends : List Send) : ∃ q', Sending z u q' (Runs.run (sortSend z) s sends) ∧
      q'.initialRunSize = q.initialRunSize ∧ q.allocRunSize ≤ q'.allocRunSize ∧
        (q'.allocRunSize = q.allocRunSize ↔
          Runs.Guarded (sortSend z) (fun s send => doubles z s send = false) s sends) := by
  induction sends generalizing q s with
  | nil => exact ⟨q, h, rfl, le_refl _, iff_of_true rfl trivial⟩
  | cons send sends ih =>
    obtain ⟨q₁, h₁, hinitial, halloc⟩ := h.step send
    obtain ⟨q', h', hinitial', hle, hiff⟩ := ih h₁
    have hpos := h.pos
    refine ⟨q', h', hinitial'.trans hinitial, ?_, ?_⟩
    · split_ifs at halloc <;> omega
    · cases hdoubles : doubles z s send with
      | true =>
        rw [hdoubles, if_pos rfl] at halloc
        refine iff_of_false (by omega) fun hguarded => ?_
        exact Bool.false_ne_true (hguarded.1.symm.trans hdoubles)
      | false =>
        rw [hdoubles, if_neg Bool.false_ne_true] at halloc
        rw [← halloc, hiff]
        exact ⟨fun hrest => ⟨hdoubles, hrest⟩, fun hguarded => hguarded.2⟩

lemma deleted : deleteSortAlgo z s =
    { s with
        config := { s.config with
          memoryQuotaUsedBytes := u +
            BitVec.ofNat 32 ((q.allocRunSize - q.initialRunSize) * z.getOverheadPerRecord) }
        qsort := none } := by
  simp only [deleteSortAlgo, h.qsort, returnConsumedMemoryQuota_enabled h.enabled, h.used]
  rw [Nat.mul_assoc, Nat.two_mul, BitVec.ofNat_add, ← BitVec.add_assoc, BitVec.add_sub_cancel]

lemma finish (merge : Option (BitVec 32 × Pressure)) :
    (sortEnd z (sortSendEnd z merge s)).config.memoryQuotaUsedBytes =
      u + BitVec.ofNat 32 ((q.allocRunSize - q.initialRunSize) * z.getOverheadPerRecord) := by
  have hdeleted := h.deleted
  obtain ⟨d, hd⟩ : ∃ d, d = deleteSortAlgo z s := ⟨_, rfl⟩
  have hen : d.config.memoryQuotaSystemEnabled = true := by
    rw [hd, hdeleted]
    exact h.enabled
  have hd0 : d.qsort = none ∧ d.memoryQuotaUtil = 0 := by
    rw [hd, hdeleted]
    exact ⟨rfl, h.util⟩
  have hused : d.config.memoryQuotaUsedBytes = u +
      BitVec.ofNat 32 ((q.allocRunSize - q.initialRunSize) * z.getOverheadPerRecord) := by
    rw [hd, hdeleted]
  rw [← hused]
  cases merge with
  | none =>
    simp only [sortSendEnd, sortEnd, ← hd, hd0.2, returnConsumedMemoryQuota_enabled hen]
    exact BitVec.sub_zero _
  | some m =>
    obtain ⟨bytes, p⟩ := m
    obtain hc | ⟨-, quotaMB, hc⟩ := consumeMemoryQuota_cases d.config bytes p
    · simp only [sortSendEnd, ← hd, hen, if_true, hc, Bool.false_eq_true, if_false]
      simp only [sortEnd, deleteSortAlgo, hd0.1, hd0.2, returnConsumedMemoryQuota_enabled hen]
      exact BitVec.sub_zero _
    · simp only [sortSendEnd, ← hd, hen, if_true, hc]
      simp only [sortEnd, deleteSortAlgo, hd0.1]
      rw [returnConsumedMemoryQuota_enabled]
      · exact BitVec.add_sub_cancel _ _
      · exact hen

end

end Sending

lemma disabled_step {z : Sizes}
    (h : config.memoryQuotaSystemEnabled = false) (s : SortUtil) (send : Send)
    (hs : s.config = config) : (sortSend z s send).config = config := by
  subst hs
  simp only [sortSend, mayDouble, h, Bool.false_eq_true, if_false,
    returnConsumedMemoryQuota_disabled h]
  split
  · rfl
  · split_ifs <;> rfl

lemma disabled_finish {z : Sizes} {s : SortUtil} (h : s.config.memoryQuotaSystemEnabled = false)
    (merge : Option (BitVec 32 × Pressure)) :
    (sortEnd z (sortSendEnd z merge s)).config = s.config := by
  have hdelete (t : SortUtil) (ht : t.config = s.config) :
      (deleteSortAlgo z t).config = s.config := by
    rw [← ht] at h ⊢
    unfold deleteSortAlgo
    split
    · rfl
    · exact returnConsumedMemoryQuota_disabled h _
  have hend : (sortSendEnd z merge s).config = s.config := by
    cases merge with
    | none => rfl
    | some m => simp only [sortSendEnd, hdelete s rfl, h, Bool.false_eq_true, if_false]
  simp only [sortEnd, hdelete _ hend, returnConsumedMemoryQuota_disabled h]

/-- The quota is back at its old value unless the arrays were doubled under the quota system. -/
theorem quota_conserved_iff (z : Sizes) (config : SortUtilConfig) (sends : List Send)
    (merge : Option (BitVec 32 × Pressure)) :
    (sortEnd z (sortSendEnd z merge (Runs.run (sortSend z) (sortInitialize config)
        sends))).config.memoryQuotaUsedBytes = config.memoryQuotaUsedBytes ↔
      config.memoryQuotaSystemEnabled = false ∨
        Runs.Guarded (sortSend z) (fun s send => doubles z s send = false)
          (sortInitialize config) sends := by
  cases henabled : config.memoryQuotaSystemEnabled with
  | false =>
    have hrun : (Runs.run (sortSend z) (sortInitialize config) sends).config = config :=
      Runs.run_invariant (I := fun s : SortUtil => s.config = config) (disabled_step henabled) rfl
        sends
    refine iff_of_true ?_ (.inl rfl)
    rw [disabled_finish (by rw [hrun]; exact henabled) merge, hrun]
  | true =>
    have hstart : Sending z config.memoryQuotaUsedBytes ⟨1000000, 1000000, 0⟩
        (sortInitialize config) := by
      refine ⟨henabled, rfl, rfl, le_refl _, by decide, ?_, fun h => absurd h (lt_irrefl _)⟩
      simp [sortInitialize]
    obtain ⟨q, hq, hinitial, hle, hiff⟩ := hstart.run sends
    dsimp only at hinitial hle hiff
    rw [hq.finish merge, ← hiff, hinitial]
    simp only [Bool.true_eq_false, false_or]
    constructor
    · intro hzero
      by_contra hne
      have hsmall := hq.small (by omega)
      have hpos : 0 < (q.allocRunSize - 1000000) * z.getOverheadPerRecord :=
        Nat.mul_pos (by omega) (Nat.add_pos_right _ z.record_pos)
      have hle : (q.allocRunSize - 1000000) * z.getOverheadPerRecord ≤
          q.allocRunSize * z.getOverheadPerRecord := Nat.mul_le_mul_right _ (Nat.sub_le _ _)
      have hmod := congrArg BitVec.toNat hzero
      unfold maxAllocSize at hsmall
      rw [BitVec.toNat_add, BitVec.toNat_ofNat] at hmod
      generalize (q.allocRunSize - 1000000) * z.getOverheadPerRecord = grown at *
      omega
    · intro heq
      rw [heq]
      simp

lemma filling (z : Sizes) (config : SortUtilConfig) (send : Send) {n : ℕ} (hn : n < 1000000) :
    Runs.run (sortSend z) (sortInitialize config) (List.replicate n send) =
      ⟨config, some ⟨1000000, 1000000, n⟩, 0⟩ := by
  induction n with
  | zero => rfl
  | succ n ih =>
    rw [List.replicate_succ', Runs.run_snoc, ih (by omega)]
    simp only [sortSend, if_pos hn]

def sizes64 : Sizes := ⟨16, 48, by decide⟩

def quota300 : SortUtilConfig := ⟨300, 300, 0, 0, false⟩

def granted : Send := ⟨⟨true, 0, true⟩, true, 0⟩

/-- One doubling consumes the quota of two million records, and that of one million is returned. -/
theorem doubling_leaks :
    (sortEnd sizes64 (sortSendEnd sizes64 none (Runs.run (sortSend sizes64) (sortInitialize quota300)
      (List.replicate 1000000 granted)))).config.memoryQuotaUsedBytes = 64000000 := by
  rw [show 1000000 = 999999 + 1 from rfl, List.replicate_succ', Runs.run_snoc,
    filling _ _ _ (by omega)]
  decide

end Trafodion.SortQuota
