import Mathlib.Data.BitVec

/-!
# Packed counters

`VarUIntArray` keeps counters of `numBits` bits in an array of 32-bit words, the first counter
in the most significant bits of the first word. Indices are natural numbers reduced modulo
`2 ^ 32` where the code's arithmetic can wrap.
-/
namespace Trafodion
open BitVec Function

/-- The number of words `numWords_` is the length of `counters`. -/
structure VarUIntArray where
  numEntries : ℕ
  numBits : ℕ
  maxVal : BitVec 32
  counters : List (BitVec 32)

namespace VarUIntArray

def new (numEntries numBits : ℕ) : Option VarUIntArray := do
  guard (0 < numBits ∧ numBits ≤ 32 ∧ 0 < numEntries)
  let numWords := (numEntries * numBits + 32 - 1) % 2 ^ 32 / 32
  return ⟨numEntries, numBits, allOnes 32 >>> (32 - numBits), .replicate numWords 0⟩

section
variable (a : VarUIntArray) (ix : ℕ) (val : BitVec 32)

def lowBit : ℕ := ix * a.numBits % 2 ^ 32

def nextCounterStart : ℕ := a.lowBit ix % 32 + a.numBits

/-- `operator[]`. A failed assertion, or an access outside the words, gives `none`. -/
def get : Option (BitVec 32) := do
  guard (ix < a.numEntries)
  let w ← a.counters[a.lowBit ix / 32]?
  let result := w <<< (a.lowBit ix % 32) >>> (32 - a.numBits)
  if 32 < a.nextCounterStart ix then
    let numRemainingBits := a.nextCounterStart ix - 32
    let w' ← a.counters[a.lowBit ix / 32 + 1]?
    return result &&& allOnes 32 <<< numRemainingBits ||| w' >>> (32 - numRemainingBits)
  return result

/-- The two halves of a counter that extends into a second word are written one after the
other. -/
def put : Option (VarUIntArray × Bool) := do
  guard (ix < a.numEntries)
  let val := if a.maxVal < val then a.maxVal else val
  let w ← a.counters[a.lowBit ix / 32]?
  let rest := a.nextCounterStart ix - 32
  let putMask := allOnes 32 >>> (a.lowBit ix % 32)
  if 32 < a.nextCounterStart ix then
    let first := a.counters.set (a.lowBit ix / 32) (w &&& ~~~putMask ||| val >>> rest)
    let w' ← first[a.lowBit ix / 32 + 1]?
    let second := w' &&& allOnes 32 >>> rest ||| val <<< (32 - rest)
    return ({ a with counters := first.set (a.lowBit ix / 32 + 1) second }, val == a.maxVal)
  let left := 32 - a.nextCounterStart ix
  let word := w &&& ~~~(putMask &&& allOnes 32 <<< left) ||| val <<< left
  return ({ a with counters := a.counters.set (a.lowBit ix / 32) word }, val == a.maxVal)

/-- The sum is the out parameter `result`. -/
def add : Option (VarUIntArray × Bool × BitVec 32) := do
  let oldVal ← a.get ix
  let sum := oldVal + val
  let result := if a.maxVal < sum ∨ sum < oldVal ∨ sum < val then a.maxVal else sum
  let (b, flag) ← a.put ix result
  return (b, flag, result)

/-- The old value is the out parameter `minuend`. -/
def sub : Option (VarUIntArray × Bool × BitVec 32) := do
  let minuend ← a.get ix
  if minuend = a.maxVal then return (a, true, minuend)
  if minuend < val then
    let (b, _) ← a.put ix 0
    return (b, true, minuend)
  let (b, flag) ← a.put ix (minuend - val)
  return (b, flag, minuend)

end

inductive Op
  | put
  | add
  | sub

abbrev Call := Op × ℕ × BitVec 32

def Call.run (a : VarUIntArray) : Call → Option VarUIntArray
  | (.put, ix, val) => Prod.fst <$> a.put ix val
  | (.add, ix, val) => Prod.fst <$> a.add ix val
  | (.sub, ix, val) => Prod.fst <$> a.sub ix val

/-- The counters as numbers, each at most `max`. -/
def Call.effect (max : ℕ) (c : ℕ → ℕ) : Call → ℕ → ℕ
  | (.put, ix, val) => update c ix (min val.toNat max)
  | (.add, ix, val) => update c ix (min (c ix + val.toNat) max)
  | (.sub, ix, val) => if c ix = max then c else update c ix (c ix - val.toNat)

/-- Every sequence of operations on a new array stays within the words and leaves the counters
that the operations on numbers give. The constructor asserts that there is a counter. -/
def Behaves (numEntries numBits : ℕ) : Prop :=
  0 < numEntries → ∀ calls : List Call, (∀ x ∈ calls, x.2.1 < numEntries) →
    ∃ a, new numEntries numBits >>= calls.foldlM Call.run = some a ∧ ∀ ix < numEntries,
      a.get ix = some (.ofNat 32 (calls.foldl (Call.effect (2 ^ numBits - 1)) (fun _ => 0) ix))

/-! ### Bits -/

/-- Bit `p` of the words, from the most significant bit of the first one. -/
def bit (ws : List (BitVec 32)) (p : ℕ) : Bool := (ws.getD (p / 32) 0).getMsbD (p % 32)

section
variable {ws : List (BitVec 32)} {w v : BitVec 32} {q k p b x : ℕ}

lemma bit_eq (hw : ws[q]? = some w) (hp : p / 32 = q) : bit ws p = w.getMsbD (p % 32) := by
  rw [bit, hp, List.getD_eq_getElem?_getD, hw]
  rfl

lemma bit_set (hq : q < ws.length) (p : ℕ) :
    bit (ws.set q w) p = if p / 32 = q then w.getMsbD (p % 32) else bit ws p := by
  simp only [bit, List.getD_eq_getElem?_getD, List.getElem?_set, if_pos hq, eq_comm (b := q)]
  split_ifs <;> rfl

lemma toNat_maxVal : ∀ b ≤ 32, (allOnes 32 >>> (32 - b)).toNat = 2 ^ b - 1 := by decide

lemma toNat_ofNat_of_le (hb : b ≤ 32) (hx : x ≤ 2 ^ b - 1) : (BitVec.ofNat 32 x).toNat = x := by
  have hpow : 2 ^ b ≤ 2 ^ 32 := Nat.pow_le_pow_right (by decide) hb
  have hpos := Nat.two_pow_pos b
  rw [toNat_ofNat, Nat.mod_eq_of_lt (by omega)]

lemma getMsbD_of_le (hb : b ≤ 32) (hx : x ≤ 2 ^ b - 1) (hk : k < 32 - b) :
    (BitVec.ofNat 32 x).getMsbD k = false := by
  have hpow : 2 ^ b ≤ 2 ^ (32 - 1 - k) := Nat.pow_le_pow_right (by decide) (by omega)
  have hpos := Nat.two_pow_pos b
  rw [getMsbD_eq_getLsbD, ← testBit_toNat, toNat_ofNat_of_le hb hx,
    Nat.testBit_lt_two_pow (by omega), Bool.and_false]

end

/-! ### One counter -/

/-- An array of `n` counters of `b` bits with a word for every bit. -/
structure Shaped (n b : ℕ) (a : VarUIntArray) : Prop where
  entries : a.numEntries = n
  bits : a.numBits = b
  max : a.maxVal = allOnes 32 >>> (32 - b)
  room : n * b ≤ 32 * a.counters.length
  small : n * b < 2 ^ 32
  le : b ≤ 32
  pos : 0 < b

section
variable {a : VarUIntArray} {n b ix : ℕ} (h : Shaped n b a) (hix : ix < n)
include h hix

lemma Shaped.lowBit_eq : a.lowBit ix = ix * b ∧ ix * b + b ≤ n * b := by
  have hle : (ix + 1) * b ≤ n * b := Nat.mul_le_mul_right b hix
  have hsmall := h.small
  rw [Nat.succ_mul] at hle
  rw [lowBit, h.bits]
  exact ⟨Nat.mod_eq_of_lt (by omega), hle⟩

lemma Shaped.get_bits : ∃ v, a.get ix = some v ∧ ∀ k < 32,
    v.getMsbD k = (decide (32 - b ≤ k) && bit a.counters (ix * b + (k + b - 32))) := by
  obtain ⟨hlow, hle⟩ := h.lowBit_eq hix
  obtain ⟨hn, hbits, -, hroom, -, hb, hpos⟩ := h
  have hw := List.getElem?_eq_getElem (show ix * b / 32 < a.counters.length by omega)
  simp only [get, nextCounterStart, hlow, hbits, hn, guard, hix, if_true, hw]
  generalize a.counters[ix * b / 32] = w at hw
  split_ifs with hlong
  · have hw' := List.getElem?_eq_getElem (show ix * b / 32 + 1 < a.counters.length by omega)
    refine ⟨_, by rw [hw']; rfl, fun k hk => ?_⟩
    simp only [getMsbD_or, getMsbD_and, getMsbD_ushiftRight, getMsbD_shiftLeft, getMsbD_allOnes]
    by_cases hfirst : k + (ix * b % 32 + b - 32) < 32
    · by_cases hin : 32 - b ≤ k
      · rw [bit_eq hw (by omega), show (ix * b + (k + b - 32)) % 32 =
          k - (32 - b) + ix * b % 32 by omega]
        grind
      · grind
    · rw [bit_eq hw' (by omega), show (ix * b + (k + b - 32)) % 32 =
        k - (32 - (ix * b % 32 + b - 32)) by omega]
      grind
  · refine ⟨_, rfl, fun k hk => ?_⟩
    simp only [getMsbD_ushiftRight, getMsbD_shiftLeft]
    by_cases hin : 32 - b ≤ k
    · rw [bit_eq hw (by omega), show (ix * b + (k + b - 32)) % 32 =
        k - (32 - b) + ix * b % 32 by omega]
      simp [hk, hin]
    · simp [hin]

lemma Shaped.put_bits {val v : BitVec 32} {x : ℕ} (hx : min val.toNat (2 ^ b - 1) = x)
    (hv : v = .ofNat 32 x) :
    ∃ ws, a.put ix val = some ({ a with counters := ws }, v == a.maxVal) ∧
      ws.length = a.counters.length ∧ ∀ p, bit ws p =
        if ix * b ≤ p ∧ p < ix * b + b then v.getMsbD (p - ix * b + (32 - b))
        else bit a.counters p := by
  obtain ⟨hlow, hle⟩ := h.lowBit_eq hix
  obtain ⟨hn, hbits, hmax, hroom, -, hb, hpos⟩ := h
  have hword : ix * b / 32 < a.counters.length := by omega
  have hw := List.getElem?_eq_getElem hword
  have hle : x ≤ 2 ^ b - 1 := hx ▸ Nat.min_le_right _ _
  have hhigh : ∀ k < 32 - b, v.getMsbD k = false := fun k hk => hv ▸ getMsbD_of_le hb hle hk
  have hclip : (if a.maxVal < val then a.maxVal else val) = v := by
    apply eq_of_toNat_eq
    have hmaxVal := toNat_maxVal b hb
    rw [← hmax] at hmaxVal
    rw [hv, toNat_ofNat_of_le hb hle]
    split_ifs with hlt <;> rw [lt_def] at hlt <;> omega
  simp only [put, nextCounterStart, hlow, hbits, hn, guard, hix, if_true, hw, hclip]
  generalize a.counters[ix * b / 32] = w at hw
  split_ifs with hlong
  · have hnext : ix * b / 32 + 1 < a.counters.length := by omega
    have hw' := List.getElem?_eq_getElem hnext
    have hset (x : BitVec 32) : (a.counters.set (ix * b / 32) x)[ix * b / 32 + 1]? = _ :=
      (List.getElem?_set_ne (by omega)).trans hw'
    have hne : b ≠ 32 := by
      rintro rfl
      simp at hlong
    simp only [hset]
    refine ⟨_, rfl, by simp, fun p => ?_⟩
    rw [bit_set (by simpa using hnext), bit_set hword]
    simp only [getMsbD_or, getMsbD_and, getMsbD_not, getMsbD_ushiftRight, getMsbD_shiftLeft,
      getMsbD_allOnes]
    split_ifs with hp hin hp' hin hin
    · rw [show p % 32 + (32 - (ix * b % 32 + b - 32)) = p - ix * b + (32 - b) by omega]
      grind
    · rw [bit_eq hw' hp, getMsbD_of_ge v _ (by omega)]
      grind
    · rw [show p % 32 - (ix * b % 32 + b - 32) = p - ix * b + (32 - b) by omega]
      grind
    · rw [bit_eq hw hp', hhigh _ (by omega)]
      grind
    · omega
    · rfl
  · refine ⟨_, rfl, by simp, fun p => ?_⟩
    rw [bit_set hword]
    simp only [getMsbD_or, getMsbD_and, getMsbD_not, getMsbD_ushiftRight, getMsbD_shiftLeft,
      getMsbD_allOnes]
    split_ifs with hp hin hin
    · rw [show p % 32 + (32 - (ix * b % 32 + b)) = p - ix * b + (32 - b) by omega]
      grind
    · have hzero : v.getMsbD (p % 32 + (32 - (ix * b % 32 + b))) = false := by
        by_cases hlow : p % 32 < ix * b % 32
        · exact hhigh _ (by omega)
        · exact getMsbD_of_ge _ _ (by omega)
      rw [bit_eq hw hp, hzero]
      grind
    · omega
    · rfl

end

/-! ### All counters -/

/-- The bits of the words are those of the counters `c`. -/
structure Counts (n b : ℕ) (c : ℕ → ℕ) (a : VarUIntArray) : Prop extends Shaped n b a where
  eq : ∀ ix < n, ∀ k < b,
    bit a.counters (ix * b + k) = (BitVec.ofNat 32 (c ix)).getMsbD (32 - b + k)
  bound : ∀ ix, c ix ≤ 2 ^ b - 1

section
variable {a : VarUIntArray} {n b ix : ℕ} {c : ℕ → ℕ} (h : Counts n b c a) (hix : ix < n)
include h hix

lemma Counts.get : a.get ix = some (.ofNat 32 (c ix)) := by
  obtain ⟨v, hv, hbits⟩ := h.get_bits hix
  rw [hv, Option.some.injEq]
  refine eq_of_getMsbD_eq fun k hk => (hbits k hk).trans ?_
  by_cases hin : 32 - b ≤ k
  · rw [h.eq ix hix _ (by omega), show 32 - b + (k + b - 32) = k by have := h.le; omega]
    simp [hin]
  · rw [getMsbD_of_le h.le (h.bound ix) (by omega)]
    simp [hin]

lemma Counts.put (val : BitVec 32) {x : ℕ} (hx : min val.toNat (2 ^ b - 1) = x) :
    ∃ r, a.put ix val = some r ∧ Counts n b (update c ix x) r.1 := by
  obtain ⟨ws, hput, hlen, hbits⟩ := h.put_bits hix hx rfl
  refine ⟨_, hput, { h.toShaped with room := hlen ▸ h.room }, fun jx hjx k hk => ?_,
    (forall_update_iff c fun _ y => y ≤ 2 ^ b - 1).2
      ⟨hx ▸ Nat.min_le_right _ _, fun jx _ => h.bound jx⟩⟩
  rw [hbits]
  by_cases hj : jx = ix
  · subst hj
    rw [update_self, if_pos (by omega), Nat.add_sub_cancel_left, Nat.add_comm k]
  · rw [update_of_ne hj, if_neg, h.eq jx hjx k hk]
    obtain hlt | hlt := Nat.lt_or_gt_of_ne hj
    all_goals have hle := Nat.mul_le_mul_right b hlt
    all_goals rw [Nat.succ_mul] at hle
    all_goals omega

lemma Counts.add (val : BitVec 32) : ∃ r, a.add ix val = some r ∧
    Counts n b (update c ix (min (c ix + val.toNat) (2 ^ b - 1))) r.1 := by
  have hold := toNat_ofNat_of_le h.le (h.bound ix)
  have hmax := toNat_maxVal b h.le
  simp only [VarUIntArray.add, h.get hix, h.max, Option.bind_eq_bind, Option.bind_some]
  generalize BitVec.ofNat 32 (c ix) = old at hold
  generalize allOnes 32 >>> (32 - b) = max at hmax
  obtain ⟨r, hput, hcount⟩ := h.put hix
    (if max < old + val ∨ old + val < old ∨ old + val < val then max else old + val)
    (x := min (c ix + val.toNat) (2 ^ b - 1)) (by
      split_ifs <;> simp only [lt_def, toNat_add] at * <;> omega)
  exact ⟨_, by rw [hput]; rfl, hcount⟩

lemma Counts.sub (val : BitVec 32) : ∃ r, a.sub ix val = some r ∧
    Counts n b (if c ix = 2 ^ b - 1 then c else update c ix (c ix - val.toNat)) r.1 := by
  have hold := toNat_ofNat_of_le h.le (h.bound ix)
  have hle := h.bound ix
  simp only [VarUIntArray.sub, h.get hix, h.max, Option.bind_eq_bind, Option.bind_some,
    ← toNat_inj, lt_def, hold, toNat_maxVal b h.le]
  split_ifs with hsat hlt
  · exact ⟨_, rfl, h⟩
  · obtain ⟨r, hput, hcount⟩ := h.put hix 0 (x := c ix - val.toNat) (by simp; omega)
    exact ⟨_, by rw [hput]; rfl, hcount⟩
  · obtain ⟨r, hput, hcount⟩ := h.put hix (.ofNat 32 (c ix) - val) (x := c ix - val.toNat) (by
      rw [toNat_sub_of_le (by rw [le_def, hold]; omega), hold]
      omega)
    exact ⟨_, by rw [hput]; rfl, hcount⟩

end

section
variable {n b : ℕ} {a : VarUIntArray} {c : ℕ → ℕ}

lemma Counts.call (h : Counts n b c a) {x : Call} (hix : x.2.1 < n) :
    ∃ a', x.run a = some a' ∧ Counts n b (x.effect (2 ^ b - 1) c) a' := by
  obtain ⟨_ | _ | _, ix, val⟩ := x
  · obtain ⟨r, hput, hcount⟩ := h.put hix val rfl
    exact ⟨r.1, by rw [Call.run, hput]; rfl, hcount⟩
  · obtain ⟨r, hadd, hcount⟩ := h.add hix val
    exact ⟨r.1, by rw [Call.run, hadd]; rfl, hcount⟩
  · obtain ⟨r, hsub, hcount⟩ := h.sub hix val
    exact ⟨r.1, by rw [Call.run, hsub]; rfl, hcount⟩

lemma Counts.run {calls : List Call} (hcalls : ∀ x ∈ calls, x.2.1 < n) (h : Counts n b c a) :
    ∃ a', calls.foldlM Call.run a = some a' ∧
      Counts n b (calls.foldl (Call.effect (2 ^ b - 1)) c) a' := by
  induction calls generalizing a c with
  | nil => exact ⟨a, rfl, h⟩
  | cons x calls ih =>
    obtain ⟨hix, hcalls⟩ := List.forall_mem_cons.1 hcalls
    obtain ⟨a₁, hcall, hcount⟩ := h.call hix
    rw [List.foldlM_cons, hcall]
    exact ih hcalls hcount

variable (hpos : 0 < b) (hb : b ≤ 32)
include hpos hb

lemma new_eq (hne : 0 < n) : new n b = some ⟨n, b, allOnes 32 >>> (32 - b),
    .replicate ((n * b + 32 - 1) % 2 ^ 32 / 32) 0⟩ := by
  rw [new, guard, if_pos ⟨hpos, hb, hne⟩]
  rfl

lemma counts_new (hne : 0 < n) (hroom : n * b + 31 < 2 ^ 32) :
    ∃ a, new n b = some a ∧ Counts n b (fun _ => 0) a := by
  refine ⟨_, new_eq hpos hb hne, ⟨rfl, rfl, rfl, ?_, by omega, hb, hpos⟩, fun ix _ k _ => ?_,
    fun _ => Nat.zero_le _⟩
  · rw [List.length_replicate]
    omega
  · simp only [bit, List.getD_eq_getElem?_getD, List.getElem?_replicate]
    split_ifs <;> simp

lemma not_behaves (hn : n * b < 2 ^ 32) (hwrap : 2 ^ 32 ≤ n * b + 31) : ¬ Behaves n b := by
  intro h
  have hne : 0 < n := by
    by_contra hzero
    simp [Nat.eq_zero_of_not_pos hzero] at hwrap
  have hwords : (n * b + 32 - 1) % 2 ^ 32 / 32 = 0 := by omega
  obtain ⟨a, hrun, -⟩ := h hne [(.put, 0, 0)] (by simpa using hne)
  rw [new_eq hpos hb hne, hwords] at hrun
  simp [Call.run, put, guard, hne] at hrun

/-- **Independent counters.** The array behaves as its counters unless the number of its words
wraps around. -/
theorem behaves_iff (hn : n * b < 2 ^ 32) : Behaves n b ↔ n * b + 31 < 2 ^ 32 := by
  constructor
  · intro h
    by_contra hwrap
    exact not_behaves hpos hb hn (Nat.not_lt.1 hwrap) h
  · intro hroom hne calls hcalls
    obtain ⟨a₀, hnew, hzero⟩ := counts_new hpos hb hne hroom
    obtain ⟨a, hrun, hcount⟩ := hzero.run hcalls
    exact ⟨a, by rw [hnew]; exact hrun, fun ix hix => hcount.get hix⟩

end

/-- Ten counters of five bits. -/
theorem behaves_five_bits : Behaves 10 5 ↔ 10 * 5 + 31 < 2 ^ 32 :=
  behaves_iff (by decide) (by decide) (by decide)

/-- The words of `2 ^ 32 - 1` bits wrap around to none. -/
theorem not_behaves_max : ¬ Behaves (2 ^ 32 - 1) 1 :=
  not_behaves (by decide) (by decide) (by decide) (by decide)

end VarUIntArray

end Trafodion
