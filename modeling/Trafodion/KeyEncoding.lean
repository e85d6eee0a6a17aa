import Trafodion.ByteStrings

/-!
# Encoded keys

`ex_function_encode` turns a key column into bytes that sort with `memcmp`: numbers and the
fields of a datetime are brought into big-endian order, the sign bit of a signed number is
flipped, a nullable column gets an indicator in front, and all bytes of a descending column
are complemented. Values are stored in little-endian order.
-/
namespace Trafodion.KeyEncoding

open List ByteStrings

inductive DatetimeField
  | year
  | month
  | day
  | hour
  | minute
  | second
  deriving DecidableEq, Repr

open DatetimeField

namespace DatetimeField

/-- The value in `rec_datetime_field`. -/
def code : DatetimeField → ℕ
  | year => 1
  | month => 2
  | day => 3
  | hour => 4
  | minute => 5
  | second => 6

def range (startField endField : DatetimeField) : List DatetimeField :=
  [year, month, day, hour, minute, second].filter fun field =>
    startField.code ≤ field.code ∧ field.code ≤ endField.code

def storage (scale : ℕ) : List DatetimeField → ℕ
  | [] => 0
  | year :: fields => 2 + storage scale fields
  | second :: fields => 1 + (if scale > 0 then 4 else 0) + storage scale fields
  | _ :: fields => 1 + storage scale fields

/-- Reverses the year and the fraction in place. The pointer stays on the fraction after
the second, which is the last field there is. -/
def reverseFields (scale : ℕ) : List DatetimeField → List Byte → List Byte
  | year :: fields, y₀ :: y₁ :: ptr => y₁ :: y₀ :: reverseFields scale fields ptr
  | second :: fields, b :: ptr =>
    b :: reverseFields scale fields
      (if scale > 0 then (ptr.take 4).reverse ++ ptr.drop 4 else ptr)
  | _ :: fields, b :: ptr => b :: reverseFields scale fields ptr
  | _, ptr => ptr

/-- The numbers in the fields, as `compDatetimes` reads them. -/
def numbers (scale : ℕ) : List DatetimeField → List Byte → List ℕ
  | year :: fields, y₀ :: y₁ :: ptr => value [y₁, y₀] :: numbers scale fields ptr
  | second :: fields, b :: ptr =>
    b.toNat ::
      if scale > 0 then value (ptr.take 4).reverse :: numbers scale fields (ptr.drop 4)
      else numbers scale fields ptr
  | _ :: fields, b :: ptr => b.toNat :: numbers scale fields ptr
  | _, _ => []

end DatetimeField

inductive IntervalSize
  | small
  | int
  | large
  deriving DecidableEq, Repr

def IntervalSize.bytes : IntervalSize → ℕ
  | small => 2
  | int => 4
  | large => 8

/-- The column types. A `char` is fixed and has a binary collation. -/
inductive ColumnType
  | bin16Signed
  | bpintUnsigned
  | bin16Unsigned
  | bin32Signed
  | bin32Unsigned
  | bin64Signed
  | interval (size : IntervalSize)
  | datetime (startField endField : DatetimeField) (scale : ℕ)
  | char (length : ℕ)
  deriving DecidableEq, Repr

def ColumnType.length : ColumnType → ℕ
  | .bin16Signed | .bpintUnsigned | .bin16Unsigned => 2
  | .bin32Signed | .bin32Unsigned => 4
  | .bin64Signed => 8
  | .interval size => size.bytes
  | .datetime startField endField scale => storage scale (startField.range endField)
  | .char length => length

structure Value (t : ColumnType) where
  bytes : List Byte
  length_eq : bytes.length = t.length

/-! ### Encoding and decoding -/

/-- `target[0] ^= 0200`. -/
def flipFirst (target : List Byte) : List Byte := target.modify 0 (· ^^^ 0x80#8)

def flipLast (target : List Byte) : List Byte :=
  target.modify (target.length - 1) (· ^^^ 0x80#8)

variable (l : List Byte) (t : ColumnType)

def encodeKeyValue (source : List Byte) : List Byte :=
  match t with
  | .bin16Signed | .bin32Signed | .bin64Signed | .interval _ => flipFirst source.reverse
  | .bpintUnsigned | .bin16Unsigned | .bin32Unsigned => source.reverse
  | .datetime startField endField scale =>
    reverseFields scale (startField.range endField) source
  | .char _ => source

def decodeValue (source : List Byte) : List Byte :=
  match t with
  | .bin16Signed | .bin32Signed | .bin64Signed | .interval _ => flipLast source.reverse
  | .bpintUnsigned | .bin16Unsigned | .bin32Unsigned => source.reverse
  | .datetime startField endField scale =>
    reverseFields scale (startField.range endField) source
  | .char _ => source

def keyNullIndicatorLength : ℕ := 2

/-- With `handleNullability` the indicator in front of a nullable value is copied. -/
def decodeKeyValue (isDesc nullFlag handleNullability : Bool)
    (inSource : List Byte) : List Byte :=
  let source := if isDesc then inSource.map (~~~·) else inSource
  if handleNullability && nullFlag then
    source.take keyNullIndicatorLength ++ decodeValue t (source.drop keyNullIndicatorLength)
  else decodeValue t source

structure Column where
  type : ColumnType
  isDesc : Bool
  nullFlag : Bool
  deriving DecidableEq, Repr

inductive Cell (c : Column)
  | null (nullable : c.nullFlag = true)
  | value (v : Value c.type)

open Cell

def Column.indicator (c : Column) : List Byte :=
  if c.nullFlag then replicate keyNullIndicatorLength 0 else []

variable {c : Column}

/-- `processNulls` and `eval` of `ex_function_encode`. -/
def Cell.encode : Cell c → List Byte
  | .null _ =>
    if c.isDesc then
      replicate keyNullIndicatorLength 0 ++ replicate c.type.length 0xFF#8
    else replicate keyNullIndicatorLength 0xFF#8 ++ replicate c.type.length 0
  | .value v =>
    let result := c.indicator ++ encodeKeyValue c.type v.bytes
    if c.isDesc then result.map (~~~·) else result

inductive Row : List Column → Type
  | nil : Row []
  | cons {c : Column} {columns : List Column} (cell : Cell c) (rest : Row columns) :
    Row (c :: columns)

def Row.encode : {columns : List Column} → Row columns → List Byte
  | _, .nil => []
  | _, .cons cell rest => cell.encode ++ rest.encode

/-! ### The order of the values -/

def compareNumbers : List ℕ → List ℕ → Ordering
  | x :: xs, y :: ys => (compare x y).then (compareNumbers xs ys)
  | _, _ => .eq

def sqlCompare (x y : List Byte) : Ordering :=
  match t with
  | .bin16Signed | .bin32Signed | .bin64Signed | .interval _ =>
    compare (signedValue x.reverse) (signedValue y.reverse)
  | .bpintUnsigned | .bin16Unsigned | .bin32Unsigned =>
    compare (value x.reverse) (value y.reverse)
  | .datetime startField endField scale =>
    compareNumbers (numbers scale (startField.range endField) x)
      (numbers scale (startField.range endField) y)
  | .char _ => compareNumbers (x.map BitVec.toNat) (y.map BitVec.toNat)

def Cell.ascending : Cell c → Cell c → Ordering
  | .null _, .null _ => .eq
  | .null _, .value _ => .gt
  | .value _, .null _ => .lt
  | .value v, .value w => sqlCompare c.type v.bytes w.bytes

def Cell.compare (x y : Cell c) : Ordering :=
  if c.isDesc then (x.ascending y).swap else x.ascending y

def Row.compare : {columns : List Column} → Row columns → Row columns → Ordering
  | _, .nil, .nil => .eq
  | _, .cons x r, .cons y s => (x.compare y).then (r.compare s)

/-! ### One value -/

lemma length_flipFirst : (flipFirst l).length = l.length :=
  length_modify ..

lemma value_flipFirst {l : List Byte} (h : l ≠ []) :
    (value (flipFirst l) : ℤ) = signedValue l + ((128 * 256 ^ (l.length - 1) : ℕ) : ℤ) := by
  cases l with
  | nil => exact absurd rfl h
  | cons b l => exact value_flipSign b l

lemma memcmp_flipFirst {l m : List Byte} (h : l.length = m.length) (hl : l ≠ []) :
    memcmp (flipFirst l) (flipFirst m) = compare (signedValue l) (signedValue m) := by
  have hm : m ≠ [] := fun hm => hl (eq_nil_of_length_eq_zero (by rw [h, hm]; rfl))
  have hvl := value_flipFirst hl
  have hvm := value_flipFirst hm
  rw [← h] at hvm
  rw [memcmp_eq_compare (by rw [length_flipFirst, length_flipFirst, h])]
  exact compare_congr (by omega) (by omega)

lemma flipLast_append_singleton (b : Byte) : flipLast (l ++ [b]) = l ++ [b ^^^ 0x80#8] := by
  have hmodify : ∀ l : List Byte,
      (l ++ [b]).modify l.length (· ^^^ 0x80#8) = l ++ [b ^^^ 0x80#8] := by
    intro l
    induction l with
    | nil => rfl
    | cons a l ih => simp [ih]
  rw [flipLast, length_append, length_singleton, Nat.add_sub_cancel, hmodify]

lemma flipLast_reverse_flipFirst : flipLast (flipFirst l).reverse = l.reverse := by
  cases l with
  | nil => rfl
  | cons b l =>
    change flipLast ((b ^^^ 0x80#8) :: l).reverse = _
    rw [reverse_cons, flipLast_append_singleton, BitVec.xor_assoc, BitVec.xor_self,
      BitVec.xor_zero, reverse_cons]

lemma compareNumbers_bytes (l m : List Byte) :
    compareNumbers (l.map BitVec.toNat) (m.map BitVec.toNat) = memcmp l m := by
  induction l generalizing m with
  | nil => cases m <;> rfl
  | cons b l ih =>
    cases m with
    | nil => rfl
    | cons c m => rw [map_cons, map_cons, compareNumbers, memcmp, ih]

namespace DatetimeField

def SecondLast : List DatetimeField → Prop
  | [] => True
  | second :: fields => fields = []
  | _ :: fields => SecondLast fields

lemma secondLast_range (fld endField : DatetimeField) : SecondLast (fld.range endField) := by
  cases fld <;> cases endField <;> simp [range, code, SecondLast]

variable {scale : ℕ} {fields : List DatetimeField}

/-- Induction over the bytes of two values with the same fields, of which the second comes
last. -/
theorem fields_induction {P : List DatetimeField → List Byte → List Byte → Prop} (hnil : P [] [] [])
    (hyear : ∀ fields x₀ x₁ xs y₀ y₁ ys, P fields xs ys →
      P (year :: fields) (x₀ :: x₁ :: xs) (y₀ :: y₁ :: ys))
    (hsecond : ∀ x xs y ys, xs.length = (if scale > 0 then 4 else 0) →
      ys.length = (if scale > 0 then 4 else 0) → P [second] (x :: xs) (y :: ys))
    (hbyte : ∀ field fields x xs y ys, field ≠ year → field ≠ second → P fields xs ys →
      P (field :: fields) (x :: xs) (y :: ys)) {xs ys : List Byte} (hlast : SecondLast fields)
    (hxs : xs.length = storage scale fields) (hys : ys.length = storage scale fields) :
    P fields xs ys := by
  induction fields generalizing xs ys with
  | nil =>
    obtain rfl := eq_nil_of_length_eq_zero hxs
    obtain rfl := eq_nil_of_length_eq_zero hys
    exact hnil
  | cons field fields ih =>
    by_cases hfy : field = year
    · subst hfy
      match xs, ys with
      | x₀ :: x₁ :: xs, y₀ :: y₁ :: ys =>
        simp only [length_cons, storage] at hxs hys
        exact hyear _ _ _ _ _ _ _ (ih hlast (by omega) (by omega))
      | [], _ | [_], _ | _, [] | _, [_] =>
        simp only [length_cons, length_nil, storage] at hxs hys
        omega
    by_cases hfs : field = second
    · subst hfs
      obtain rfl : fields = [] := hlast
      match xs, ys with
      | x :: xs, y :: ys =>
        simp only [length_cons, storage] at hxs hys
        exact hsecond _ _ _ _ (by omega) (by omega)
      | [], _ | _, [] =>
        simp only [length_nil, storage] at hxs hys
        omega
    · have hstorage : storage scale (field :: fields) = 1 + storage scale fields := by
        cases field <;> first | rfl | exact absurd rfl hfy | exact absurd rfl hfs
      have hlast' : SecondLast fields := by
        cases field <;> first | exact hlast | exact absurd rfl hfs
      rw [hstorage] at hxs hys
      match xs, ys with
      | x :: xs, y :: ys =>
        simp only [length_cons] at hxs hys
        exact hbyte _ _ _ _ _ _ hfy hfs (ih hlast' (by omega) (by omega))
      | [], _ | _, [] =>
        simp only [length_nil] at hxs hys
        omega

section
variable {field : DatetimeField} (hy : field ≠ year) (hs : field ≠ second)
  (fields : List DatetimeField) (x : Byte) (xs : List Byte)
include hy hs

lemma reverseFields_byte :
    reverseFields scale (field :: fields) (x :: xs) = x :: reverseFields scale fields xs := by
  cases field <;> first | rfl | exact absurd rfl hy | exact absurd rfl hs

lemma numbers_byte :
    numbers scale (field :: fields) (x :: xs) = x.toNat :: numbers scale fields xs := by
  cases field <;> first | rfl | exact absurd rfl hy | exact absurd rfl hs

end

lemma reverseFields_nil (scale : ℕ) (xs : List Byte) : reverseFields scale [] xs = xs := by
  cases xs <;> rfl

variable {xs : List Byte}

lemma reverseFields_second (x : Byte) (h : xs.length = if scale > 0 then 4 else 0) :
    reverseFields scale [second] (x :: xs) = x :: xs.reverse := by
  rw [reverseFields, reverseFields_nil]
  split
  · next hsc =>
    rw [if_pos hsc] at h
    rw [take_of_length_le h.le, drop_of_length_le h.le, append_nil]
  · next hsc =>
    rw [if_neg hsc] at h
    rw [eq_nil_of_length_eq_zero h]
    rfl

lemma numbers_second (x : Byte) (h : xs.length = if scale > 0 then 4 else 0) :
    numbers scale [second] (x :: xs) = x.toNat :: if scale > 0 then [value xs.reverse] else [] := by
  rw [numbers]
  split
  · next hsc =>
    rw [if_pos hsc] at h
    rw [take_of_length_le h.le]
    rfl
  · rfl

lemma reverseFields_reverseFields
    (hlast : SecondLast fields) (hxs : xs.length = storage scale fields) :
    (reverseFields scale fields xs).length = xs.length ∧
      reverseFields scale fields (reverseFields scale fields xs) = xs := by
  refine fields_induction (P := fun fields xs _ =>
    (reverseFields scale fields xs).length = xs.length ∧
      reverseFields scale fields (reverseFields scale fields xs) = xs)
    ⟨rfl, rfl⟩ ?_ ?_ ?_ hlast hxs hxs
  · rintro fields x₀ x₁ xs - - - ⟨hlen, hxs⟩
    simp only [reverseFields, length_cons]
    exact ⟨by rw [hlen], by rw [hxs]⟩
  · intro x xs _ _ hlen _
    rw [reverseFields_second x hlen, reverseFields_second x (by rw [length_reverse, hlen]),
      reverse_reverse]
    exact ⟨by simp, rfl⟩
  · rintro field fields x xs - - hy hs ⟨hlen, hxs⟩
    rw [reverseFields_byte hy hs, reverseFields_byte hy hs, length_cons, hlen, hxs]
    exact ⟨rfl, rfl⟩

lemma compareNumbers_singleton (x y : ℕ) : compareNumbers [x] [y] = compare x y := by
  change (compare x y).then .eq = _
  cases compare x y <;> rfl

lemma memcmp_reverseFields {xs ys : List Byte}
    (hlast : SecondLast fields) (hxs : xs.length = storage scale fields)
    (hys : ys.length = storage scale fields) :
    memcmp (reverseFields scale fields xs) (reverseFields scale fields ys) =
      compareNumbers (numbers scale fields xs) (numbers scale fields ys) := by
  refine fields_induction (P := fun fields xs ys =>
    memcmp (reverseFields scale fields xs) (reverseFields scale fields ys) =
      compareNumbers (numbers scale fields xs) (numbers scale fields ys))
    rfl ?_ ?_ ?_ hlast hxs hys
  · intro fields x₀ x₁ xs y₀ y₁ ys ih
    have hyear : memcmp [x₁, x₀] [y₁, y₀] = compare (value [x₁, x₀]) (value [y₁, y₀]) :=
      memcmp_eq_compare rfl
    simp only [reverseFields, numbers, compareNumbers]
    rw [← ih, ← hyear]
    exact memcmp_append (l := [x₁, x₀]) (m := [y₁, y₀]) rfl _ _
  · intro x xs y ys hlen hlen'
    rw [reverseFields_second x hlen, reverseFields_second y hlen', numbers_second x hlen,
      numbers_second y hlen', memcmp, compareNumbers]
    congr 1
    split
    · rw [compareNumbers_singleton, memcmp_eq_compare (by simp [hlen, hlen'])]
    · next hsc =>
      rw [if_neg hsc] at hlen
      rw [eq_nil_of_length_eq_zero hlen]
      rfl
  · intro field fields x xs y ys hy hs ih
    rw [reverseFields_byte hy hs, reverseFields_byte hy hs, numbers_byte hy hs,
      numbers_byte hy hs, memcmp, compareNumbers, ih]

end DatetimeField

/-! ### Columns and rows -/

variable {t : ColumnType}

lemma length_encodeKeyValue (v : Value t) : (encodeKeyValue t v.bytes).length = t.length := by
  rw [← v.length_eq]
  cases t with
  | datetime fld endField scale =>
    exact (reverseFields_reverseFields
      (secondLast_range fld endField) v.length_eq).1
  | char length => rfl
  | bin16Signed | bin32Signed | bin64Signed | interval size =>
    exact (length_flipFirst _).trans length_reverse
  | bpintUnsigned | bin16Unsigned | bin32Unsigned => exact length_reverse

lemma decodeValue_encodeKeyValue (v : Value t) :
    decodeValue t (encodeKeyValue t v.bytes) = v.bytes := by
  cases t with
  | datetime fld endField scale =>
    exact (reverseFields_reverseFields
      (secondLast_range fld endField) v.length_eq).2
  | char length => rfl
  | bin16Signed | bin32Signed | bin64Signed | interval size =>
    exact (flipLast_reverse_flipFirst _).trans (reverse_reverse _)
  | bpintUnsigned | bin16Unsigned | bin32Unsigned => exact reverse_reverse _

lemma ColumnType.length_pos_of_number
    (ht : t = .bin16Signed ∨ t = .bin32Signed ∨ t = .bin64Signed ∨ ∃ size, t = .interval size) :
    0 < t.length := by
  obtain rfl | rfl | rfl | ⟨size, rfl⟩ := ht
  · decide
  · decide
  · decide
  · cases size <;> decide

lemma memcmp_signed (v w : Value t)
    (ht : t = .bin16Signed ∨ t = .bin32Signed ∨ t = .bin64Signed ∨ ∃ size, t = .interval size) :
    memcmp (flipFirst v.bytes.reverse) (flipFirst w.bytes.reverse) =
      compare (signedValue v.bytes.reverse) (signedValue w.bytes.reverse) := by
  refine memcmp_flipFirst (by simp [v.length_eq, w.length_eq]) fun hnil => ?_
  have hpos := ColumnType.length_pos_of_number ht
  rw [← v.length_eq, reverse_eq_nil_iff.1 hnil] at hpos
  exact lt_irrefl 0 hpos

lemma memcmp_encodeKeyValue (v w : Value t) :
    memcmp (encodeKeyValue t v.bytes) (encodeKeyValue t w.bytes) =
      sqlCompare t v.bytes w.bytes := by
  have hlen : v.bytes.reverse.length = w.bytes.reverse.length := by
    simp [v.length_eq, w.length_eq]
  cases t with
  | datetime fld endField scale =>
    exact memcmp_reverseFields
      (secondLast_range fld endField) v.length_eq w.length_eq
  | char length => exact (compareNumbers_bytes _ _).symm
  | bpintUnsigned | bin16Unsigned | bin32Unsigned => exact memcmp_eq_compare hlen
  | _ => exact memcmp_signed v w (by simp)

variable {c : Column}

lemma Cell.length_encode (x : Cell c) : x.encode.length = c.indicator.length + c.type.length := by
  cases x with
  | null hnull =>
    rw [encode, Column.indicator, if_pos hnull]
    split <;> simp
  | value v =>
    have hlen := length_encodeKeyValue v
    rw [encode]
    split <;> simp [hlen]

lemma Cell.memcmp_encode_null (hnull : c.nullFlag = true) (v : Value c.type) :
    memcmp (null hnull).encode (value v).encode = (if c.isDesc then .lt else .gt) ∧
      memcmp (value v).encode (null hnull).encode = (if c.isDesc then .gt else .lt) := by
  rw [encode, encode, Column.indicator, if_pos hnull]
  split
  · rw [map_append, memcmp_append (by simp), memcmp_append (by simp)]
    exact ⟨rfl, rfl⟩
  · rw [memcmp_append (by simp), memcmp_append (by simp)]
    exact ⟨rfl, rfl⟩

lemma Cell.memcmp_encode_value (v w : Value c.type) : memcmp (value v).encode (value w).encode =
      (value v).compare (value w) := by
  have hval : memcmp (c.indicator ++ encodeKeyValue c.type v.bytes)
      (c.indicator ++ encodeKeyValue c.type w.bytes) = sqlCompare c.type v.bytes w.bytes := by
    rw [memcmp_append rfl, memcmp_self, memcmp_encodeKeyValue]
    rfl
  rw [encode, encode, compare]
  split
  · rw [memcmp_map_not, hval]
    · rfl
    · simp [length_encodeKeyValue]
  · exact hval

lemma Cell.memcmp_encode (x y : Cell c) : memcmp x.encode y.encode = x.compare y := by
  cases x with
  | null hx =>
    cases y with
    | null hy =>
      rw [memcmp_self, compare]
      split <;> rfl
    | value w =>
      rw [(memcmp_encode_null hx w).1, compare]
      split <;> rfl
  | value v =>
    cases y with
    | null hy =>
      rw [(memcmp_encode_null hy v).2, compare]
      split <;> rfl
    | value w => exact memcmp_encode_value v w

/-- The complement that decoding a descending column begins with undoes the one that encoding
ends with. -/
theorem Cell.uncomplement_encode (v : Value c.type) :
    (if c.isDesc then (value v).encode.map (~~~·) else (value v).encode) =
      c.indicator ++ encodeKeyValue c.type v.bytes := by
  rw [encode]
  split
  · simp [Function.comp_def]
  · rfl

lemma decodeKeyValue_encode (t : ColumnType) (isDesc nullFlag : Bool) (v : Value t) :
    decodeKeyValue t isDesc nullFlag false (value v : Cell ⟨t, isDesc, false⟩).encode = v.bytes ∧
      decodeKeyValue t isDesc true true (value v : Cell ⟨t, isDesc, true⟩).encode =
        replicate keyNullIndicatorLength 0 ++ v.bytes := by
  constructor
  · have hsrc := uncomplement_encode (c := ⟨t, isDesc, false⟩) v
    rw [decodeKeyValue]
    rw [hsrc]
    exact decodeValue_encodeKeyValue v
  · have hsrc := uncomplement_encode (c := ⟨t, isDesc, true⟩) v
    rw [decodeKeyValue]
    rw [hsrc]
    have hval := decodeValue_encodeKeyValue v
    exact congrArg (replicate keyNullIndicatorLength 0 ++ ·) hval

lemma Row.memcmp_encode {cols : List Column} (r s : Row cols) :
    memcmp r.encode s.encode = r.compare s := by
  induction r with
  | nil => cases s; rfl
  | cons x r ih =>
    cases s with
    | cons y s =>
      have hlen : x.encode.length = y.encode.length := by
        rw [x.length_encode, y.length_encode]
      rw [Row.encode, Row.encode, memcmp_append hlen, x.memcmp_encode, ih, Row.compare]

/-- Encoded keys order like the rows, nulls highest and descending columns reversed, and
every value can be decoded again. -/
theorem encoded_keys_order_and_decode (columns : List Column) (r s : Row columns) :
    memcmp r.encode s.encode = r.compare s ∧
      ∀ (t : ColumnType) (isDesc nullFlag : Bool) (v : Value t),
        decodeKeyValue t isDesc nullFlag false (value v : Cell ⟨t, isDesc, false⟩).encode =
            v.bytes ∧ decodeKeyValue t isDesc true true (value v : Cell ⟨t, isDesc, true⟩).encode =
            replicate keyNullIndicatorLength 0 ++ v.bytes :=
  ⟨r.memcmp_encode s, decodeKeyValue_encode⟩

/-- A descending timestamp with a fraction, before and after the last microsecond of a
year. -/
example :
    let c : Column := ⟨.datetime .year .second 6, true, true⟩
    let x : Value c.type := ⟨[0xDF, 0x07, 12, 31, 23, 59, 59, 0x3F, 0x42, 0x0F, 0x00], rfl⟩
    let y : Value c.type := ⟨[0xE0, 0x07, 1, 1, 0, 0, 0, 0, 0, 0, 0], rfl⟩
    memcmp (value x : Cell c).encode (value y : Cell c).encode = .gt := by
  decide

end Trafodion.KeyEncoding
