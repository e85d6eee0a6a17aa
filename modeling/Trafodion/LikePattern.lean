import Trafodion.ByteStrings
import Trafodion.WildcardLanguages

/-!
# LIKE patterns

A `LikePattern` is built from the text of a pattern for a character set of one byte for each
character. The pattern is cut at its percent signs into headers, and a header into clauses of
literal characters or of underscores; the last header is moved to the second place. Matching looks
at the first header, at the last one from the end of the text, and then for the others in order.
Lengths are `UInt16` in the source, which is enough for patterns and texts below 65536 bytes.
-/
namespace Trafodion.Like

open List ByteStrings WildcardLanguages

inductive CharType
  | endOfPattern
  | nonWildcard
  | underscore
  | percent
  | error
  deriving DecidableEq

inductive ExeErrorCode
  | invalidEscapeSequence
  deriving DecidableEq

def underscoreChar : Byte := 0x5F#8

def percentChar : Byte := 0x25#8

/-- The rest of the pattern from `currentChar_` on, and what its first character is. -/
structure LikePatternStringIterator where
  charType : CharType
  currentChar : List Byte
  deriving DecidableEq

def determineCharType (escapeChar : Option Byte) (currentChar : List Byte) :
    LikePatternStringIterator :=
  match currentChar with
  | [] => ⟨.endOfPattern, []⟩
  | c :: rest =>
    if escapeChar = some c then
      match rest with
      | [] => ⟨.error, []⟩
      | d :: _ =>
        if escapeChar = some d ∨ d = underscoreChar ∨ d = percentChar then ⟨.nonWildcard, rest⟩
        else ⟨.error, rest⟩
    else if c = underscoreChar then ⟨.underscore, currentChar⟩
    else if c = percentChar then ⟨.percent, currentChar⟩
    else ⟨.nonWildcard, currentChar⟩

structure LikePatternClause where
  charType : CharType
  pattern : List Byte
  deriving DecidableEq

def LikePatternClause.getLength (c : LikePatternClause) : ℕ := c.pattern.length

structure LikePatternHeader where
  clauses : List LikePatternClause
  lastClause : LikePatternClause
  deriving DecidableEq

namespace LikePatternHeader

variable (charType : CharType)

def new : LikePatternHeader := ⟨[], ⟨charType, []⟩⟩

def allClauses (h : LikePatternHeader) : List LikePatternClause := h.clauses ++ [h.lastClause]

/-- `getLength` after `endClauses`. -/
def getLength (h : LikePatternHeader) : ℕ := (h.allClauses.map LikePatternClause.getLength).sum

def firstClause (h : LikePatternHeader) : LikePatternClause := h.clauses.headD h.lastClause

def getType (h : LikePatternHeader) : CharType := h.firstClause.charType

def setType (h : LikePatternHeader) : LikePatternHeader :=
  match h.clauses with
  | [] => { h with lastClause := { h.lastClause with charType := charType } }
  | c :: clauses => { h with clauses := { c with charType := charType } :: clauses }

/-- The clause that the next character goes to, with `addNewClause`. -/
def openClause (h : LikePatternHeader) : LikePatternHeader :=
  if charType ≠ h.lastClause.charType then
    if h.lastClause.getLength > 0 then ⟨h.allClauses, ⟨charType, []⟩⟩
    else { h with lastClause := { h.lastClause with charType := charType } }
  else h

def append (c : Byte) (h : LikePatternHeader) : LikePatternHeader :=
  let h := h.openClause charType
  { h with lastClause := { h.lastClause with pattern := h.lastClause.pattern ++ [c] } }

end LikePatternHeader

/-- `this`, and the headers that follow it. -/
structure LikePattern where
  first : LikePatternHeader
  nextHeaders : List LikePatternHeader
  deriving DecidableEq

namespace LikePattern

/-- The loop of the constructor: the headers before the last one, and the last one. Every pass
takes a character, so the length of the pattern is enough fuel. -/
def scan (escapeChar : Option Byte) :
    ℕ → LikePatternStringIterator → List LikePatternHeader → LikePatternHeader →
      Except ExeErrorCode (List LikePatternHeader × LikePatternHeader)
  | 0, _, headers, lastHeader => .ok (headers, lastHeader)
  | fuel + 1, i, headers, lastHeader =>
    match i.charType, i.currentChar with
    | .nonWildcard, c :: rest | .underscore, c :: rest =>
      scan escapeChar fuel (determineCharType escapeChar rest) headers
        (lastHeader.append i.charType c)
    | .percent, _ :: rest =>
      if lastHeader.lastClause.charType ≠ .percent then
        scan escapeChar fuel (determineCharType escapeChar rest) (headers ++ [lastHeader])
          (.new .percent)
      else scan escapeChar fuel (determineCharType escapeChar rest) headers lastHeader
    | .error, _ => .error .invalidEscapeSequence
    | _, _ => .ok (headers, lastHeader)

def link (headers : List LikePatternHeader) (lastHeader : LikePatternHeader) : LikePattern :=
  match headers with
  | [] => ⟨lastHeader, []⟩
  | first :: rest =>
    ⟨if first.getLength = 0 then first.setType .percent else first, lastHeader :: rest⟩

def new (escapeChar : Option Byte) (pattern : List Byte) : Except ExeErrorCode LikePattern :=
  match scan escapeChar pattern.length (determineCharType escapeChar pattern) []
    (.new .nonWildcard) with
  | .ok (headers, lastHeader) => .ok (link headers lastHeader)
  | .error e => .error e

end LikePattern

/-! ### Matching -/

/-- `LikePatternClause::matches`. -/
def LikePatternClause.matches (c : LikePatternClause) (text : List Byte) : Bool :=
  c.charType ≠ .nonWildcard || c.pattern.isPrefixOf text

/-- The loop of `LikePatternHeader::matches`; the result is `headerMatchLen`. -/
def matchClauses : List LikePatternClause → List Byte → ℕ → Option ℕ
  | [], _, headerMatchLen => some headerMatchLen
  | c :: clauses, text, headerMatchLen =>
    if c.matches text then
      matchClauses clauses (text.drop c.getLength) (headerMatchLen + c.getLength)
    else none

/-- The loop of `LikePatternHeader::matchesR` over the clauses from the last one on; the result is
the text up to `endText`. -/
def matchClausesR : List LikePatternClause → List Byte → Option (List Byte)
  | [], text => some text
  | c :: clauses, text =>
    if text.length < c.getLength then none
    else if c.charType = .underscore ∨ c.matches (text.drop (text.length - c.getLength)) then
      matchClausesR clauses (text.take (text.length - c.getLength))
    else none

def LikePatternHeader.matches (h : LikePatternHeader) (text : List Byte) : Option ℕ :=
  matchClauses h.allClauses text 0

namespace LikePatternHeader

def matchesR (h : LikePatternHeader) (text : List Byte) : Option (List Byte) :=
  matchClausesR h.allClauses.reverse text

def skip (h : LikePatternHeader) (text : List Byte) : List Byte :=
  if h.getType = .nonWildcard then
    text.dropWhile fun c => h.firstClause.pattern.head? ≠ some c
  else text

def search (h : LikePatternHeader) : ℕ → List Byte → Option (List Byte)
  | 0, text => some text
  | _, [] => some []
  | fuel + 1, c :: text =>
    match h.matches (c :: text) with
    | some headerMatchLen => some ((c :: text).drop headerMatchLen)
    | none =>
      if h.getLength > (h.skip text).length then none else search h fuel (h.skip text)

end LikePatternHeader

namespace LikePattern

def matchRemaining : List LikePatternHeader → List Byte → Bool
  | [], _ => true
  | h :: headers, text =>
    if h.getLength > text.length then false
    else match h.search text.length text with
      | none => false
      | some text => matchRemaining headers text

def matchRest (headers : List LikePatternHeader) (text : List Byte) : Bool :=
  match headers with
  | [] => false
  | last :: middle =>
    if last.getLength > 0 then
      match last.matchesR text with
      | none => false
      | some text => matchRemaining middle text
    else matchRemaining middle text

end LikePattern

def LikePattern.matches (p : LikePattern) (text : List Byte) : Bool :=
  if p.first.getType ≠ .percent then
    if p.first.getLength > text.length then false
    else match p.first.matches text with
      | none => false
      | some headerMatchLen =>
        match p.nextHeaders with
        | [] => headerMatchLen = text.length
        | headers => LikePattern.matchRest headers (text.drop headerMatchLen)
  else LikePattern.matchRest p.nextHeaders text

/-! ### The language of a pattern -/

/-- No escape character is the last one, and each is followed by a character that may be
escaped. -/
def ValidEscapes (escapeChar : Option Byte) : List Byte → Bool
  | [] => true
  | [c] => escapeChar ≠ some c
  | c :: d :: p =>
    if escapeChar = some c then
      (escapeChar = some d ∨ d = underscoreChar ∨ d = percentChar) && ValidEscapes escapeChar p
    else ValidEscapes escapeChar (d :: p)

def charLanguage (c : Byte) : Language Byte :=
  if c = underscoreChar then letter none
  else if c = percentChar then ⊤
  else letter (some c)

def language (escapeChar : Option Byte) : List Byte → Language Byte
  | [] => 1
  | [c] => if escapeChar = some c then 0 else charLanguage c
  | c :: d :: p =>
    if escapeChar = some c then letter (some d) * language escapeChar p
    else charLanguage c * language escapeChar (d :: p)

variable {esc : Option Byte} {c : Byte}

lemma validEscapes_cons (h : esc ≠ some c)
    (p : List Byte) : ValidEscapes esc (c :: p) = ValidEscapes esc p := by
  cases p with
  | nil => simp [ValidEscapes, h]
  | cons d p => simp [ValidEscapes, h]

lemma language_cons (h : esc ≠ some c) (p : List Byte) :
    language esc (c :: p) = charLanguage c * language esc p := by
  cases p with
  | nil => simp [language, h]
  | cons d p => simp [language, h]

def item (charType : CharType) (c : Byte) : Option Byte :=
  if charType = .underscore then none else some c

lemma determineCharType_cases (esc : Option Byte) (p : List Byte) :
    p = [] ∧ determineCharType esc p = ⟨.endOfPattern, []⟩ ∨
    ValidEscapes esc p = false ∧ (∃ rest, determineCharType esc p = ⟨.error, rest⟩) ∨
    ∃ c rest, rest.length < p.length ∧
      ValidEscapes esc p = ValidEscapes esc rest ∧
      ((∃ charType, (charType = .nonWildcard ∨ charType = .underscore) ∧
          determineCharType esc p = ⟨charType, c :: rest⟩ ∧
          language esc p = letter (item charType c) * language esc rest) ∨
        determineCharType esc p = ⟨.percent, c :: rest⟩ ∧
          language esc p = ⊤ * language esc rest) := by
  cases p with
  | nil => exact .inl ⟨rfl, rfl⟩
  | cons c p =>
    right
    by_cases hc : esc = some c
    · cases p with
      | nil => exact .inl ⟨by simp [ValidEscapes, hc], [], if_pos hc⟩
      | cons d p =>
        simp only [determineCharType, ValidEscapes, language, if_pos hc]
        by_cases hd : esc = some d ∨ d = underscoreChar ∨ d = percentChar
        · have hlen : p.length < (c :: d :: p).length := by
            simp only [length_cons]
            omega
          exact .inr ⟨d, p, hlen, by simp [hd], .inl ⟨.nonWildcard, .inl rfl, if_pos hd, rfl⟩⟩
        · exact .inl ⟨by simp [hd], d :: p, if_neg hd⟩
    · simp only [determineCharType, if_neg hc, language_cons hc]
      refine .inr ⟨c, p, by simp, validEscapes_cons hc p, ?_⟩
      unfold charLanguage
      by_cases hunder : c = underscoreChar
      · exact .inl ⟨.underscore, .inr rfl, if_pos hunder, by rw [if_pos hunder]; rfl⟩
      · rw [if_neg hunder, if_neg hunder]
        by_cases hpercent : c = percentChar
        · exact .inr ⟨if_pos hpercent, by rw [if_pos hpercent]⟩
        · exact .inl ⟨.nonWildcard, .inl rfl, if_neg hpercent, by rw [if_neg hpercent]; rfl⟩

/-! ### The headers of a pattern -/

def LikePatternClause.segment (c : LikePatternClause) : List (Option Byte) :=
  if c.charType = .underscore then replicate c.getLength none else c.pattern.map some

@[simp]
lemma LikePatternClause.length_segment (c : LikePatternClause) :
    c.segment.length = c.getLength := by
  unfold segment getLength
  split_ifs <;> simp

def LikePatternHeader.segment (h : LikePatternHeader) : List (Option Byte) :=
  h.allClauses.flatMap LikePatternClause.segment

@[simp]
lemma LikePatternHeader.length_segment (h : LikePatternHeader) :
    h.segment.length = h.getLength := by
  rw [segment, length_flatMap, getLength]
  simp

structure LikePatternClause.Filled (c : LikePatternClause) : Prop where
  ne_nil : c.pattern ≠ []
  charType : c.charType = .nonWildcard ∨ c.charType = .underscore

lemma LikePatternClause.Filled.ne_percent {c : LikePatternClause} (h : c.Filled) :
    c.charType ≠ .percent := by
  rcases h.charType with h | h <;> simp [h]

def LikePatternHeader.Full (h : LikePatternHeader) : Prop := ∀ c ∈ h.allClauses, c.Filled

namespace LikePatternHeader
variable {h : LikePatternHeader} {charType : CharType}

@[simp]
lemma segment_new (charType : CharType) : (new charType).segment = [] := by
  simp [segment, allClauses, new, LikePatternClause.segment, LikePatternClause.getLength]

lemma allClauses_eq (h : LikePatternHeader) : ∃ tail, h.allClauses = h.firstClause :: tail := by
  unfold firstClause allClauses
  cases h.clauses with
  | nil => exact ⟨[], rfl⟩
  | cons c clauses => exact ⟨_, rfl⟩

lemma Full.firstClause (hfull : h.Full) : h.firstClause.Filled := by
  obtain ⟨tail, htail⟩ := h.allClauses_eq
  exact hfull _ (htail ▸ mem_cons_self)

lemma Full.getLength_pos (hfull : h.Full) : 0 < h.getLength := by
  obtain ⟨tail, htail⟩ := h.allClauses_eq
  have hfst := length_pos_of_ne_nil hfull.firstClause.ne_nil
  rw [getLength, htail, map_cons, sum_cons, LikePatternClause.getLength]
  omega

lemma segment_eq (h : LikePatternHeader) :
    h.segment = h.clauses.flatMap LikePatternClause.segment ++ h.lastClause.segment := by
  rw [segment, allClauses, flatMap_append, flatMap_singleton]

lemma segment_openClause (h : LikePatternHeader) (charType : CharType) :
    (h.openClause charType).segment = h.segment ∧
      (h.openClause charType).lastClause.charType = charType := by
  unfold openClause
  split_ifs with hne hpos
  · refine ⟨?_, rfl⟩
    rw [segment_eq, segment]
    simp [LikePatternClause.segment, LikePatternClause.getLength]
  · have hnil : h.lastClause.pattern = [] :=
      eq_nil_of_length_eq_zero (Nat.eq_zero_of_not_pos hpos)
    refine ⟨?_, rfl⟩
    rw [segment_eq, segment_eq]
    simp [LikePatternClause.segment, LikePatternClause.getLength, hnil]
  · rw [not_not] at hne
    exact ⟨rfl, hne.symm⟩

lemma segment_append (h : LikePatternHeader) (charType : CharType) (c : Byte) :
    (h.append charType c).segment = h.segment ++ [item charType c] := by
  obtain ⟨hsegment, htype⟩ := h.segment_openClause charType
  rw [← hsegment, segment_eq, segment_eq, append_assoc, append]
  congr 1
  simp only [LikePatternClause.segment, LikePatternClause.getLength, htype, item]
  split_ifs
  · rw [length_append, length_singleton, replicate_succ']
  · rw [map_append, map_singleton]

lemma full_append (hfull : h.Full ∨ ∃ charType, h = new charType)
    (htype : charType = .nonWildcard ∨ charType = .underscore) (c : Byte) :
    (h.append charType c).Full := by
  rcases hfull with hfull | ⟨charType', rfl⟩
  · unfold append openClause
    split_ifs with hne hpos
    · exact forall_mem_append.2 ⟨hfull, forall_mem_singleton.2 ⟨by simp, htype⟩⟩
    · have hfill := hfull h.lastClause (by simp [allClauses])
      exact (hpos (length_pos_of_ne_nil hfill.ne_nil)).elim
    · rw [not_not] at hne
      exact forall_mem_append.2 ⟨(forall_mem_append.1 hfull).1,
        forall_mem_singleton.2 ⟨by simp, hne ▸ htype⟩⟩
  · have hlast : (new charType').append charType c = ⟨[], ⟨charType, [c]⟩⟩ := by
      unfold append openClause
      split_ifs with hne hpos
      · exact absurd hpos (lt_irrefl 0)
      · rfl
      · rw [not_not] at hne
        rw [hne]
        rfl
    rw [hlast]
    exact forall_mem_singleton.2 ⟨by simp, htype⟩

end LikePatternHeader

/-! ### Headers against the text -/

def LikePatternClause.Plain (c : LikePatternClause) : Prop :=
  c.charType = .nonWildcard ∨ c.charType = .underscore ∨ c.pattern = []

lemma LikePatternClause.Filled.plain {c : LikePatternClause} (h : c.Filled) : c.Plain :=
  h.charType.imp_right .inl

def LikePatternHeader.Plain (h : LikePatternHeader) : Prop := ∀ c ∈ h.allClauses, c.Plain

lemma LikePatternHeader.Full.plain {h : LikePatternHeader} (hfull : h.Full) : h.Plain :=
  fun c hc => (hfull c hc).plain

lemma LikePatternHeader.plain_new (charType : CharType) : (new charType).Plain := by
  exact forall_mem_singleton.2 (.inr (.inr rfl))

section texts
variable {c : LikePatternClause} {clauses : List LikePatternClause} {text : List Byte}

lemma LikePatternClause.Plain.matches_iff (h : c.Plain) (hlen : c.getLength ≤ text.length) :
    c.matches text ↔ text ∈ words c.segment * ⊤ := by
  unfold LikePatternClause.matches
  by_cases hunder : c.charType = .underscore
  · have hmem : text ∈ words c.segment * ⊤ := by
      rw [LikePatternClause.segment, if_pos hunder, ← take_append_drop c.getLength text]
      refine Language.append_mem_mul (mem_words_replicate_none.2 ?_) trivial
      rw [length_take, min_eq_left hlen]
    simp [hunder, hmem]
  · have hmem : text ∈ words c.segment * ⊤ ↔ c.pattern <+: text := by
      rw [LikePatternClause.segment, if_neg hunder, Language.mem_mul]
      constructor
      · rintro ⟨u, hu, v, -, rfl⟩
        rw [mem_words_map_some.1 hu]
        exact prefix_append _ _
      · rintro ⟨v, rfl⟩
        exact ⟨c.pattern, mem_words_map_some.2 rfl, v, trivial, rfl⟩
    rw [hmem]
    rcases h with h | h | h
    · simp [h]
    · exact (hunder h).elim
    · simp [h]

lemma matchClauses_eq_some_iff (hplain : ∀ c ∈ clauses, c.Plain) {n m : ℕ}
    (hlen : (clauses.flatMap LikePatternClause.segment).length ≤ text.length) :
    matchClauses clauses text n = some m ↔
      text ∈ words (clauses.flatMap LikePatternClause.segment) * ⊤ ∧
        m = n + (clauses.flatMap LikePatternClause.segment).length := by
  induction clauses generalizing text n with
  | nil => simp [matchClauses, eq_comm]
  | cons c clauses ih =>
    rw [flatMap_cons, length_append, LikePatternClause.length_segment] at hlen ⊢
    rw [words_append, mul_assoc, matchClauses]
    have hmatches : c.matches text ↔ text ∈ words c.segment * ⊤ :=
      (hplain c mem_cons_self).matches_iff (by omega)
    split_ifs with hc
    · obtain ⟨u, hu, v, -, rfl⟩ := Language.mem_mul.1 (hmatches.1 hc)
      have hulen : u.length = c.getLength := by rw [length_of_mem_words hu, c.length_segment]
      rw [length_append] at hlen
      rw [append_mem_words_mul hu, ← hulen, drop_left,
        ih (forall_mem_cons.1 hplain).2 (by omega), Nat.add_assoc]
    · have hnot := notMem_words_mul fun h => hc (hmatches.2 h)
      simp [hnot]

lemma LikePatternClause.Plain.matches_all_iff (h : c.Plain) (hlen : text.length = c.getLength) :
    c.charType = .underscore ∨ c.matches text ↔ text ∈ words c.segment := by
  have hmatches : c.matches text ↔ text ∈ words c.segment := by
    rw [h.matches_iff hlen.ge]
    constructor
    · intro hmem
      obtain ⟨u, hu, v, -, rfl⟩ := Language.mem_mul.1 hmem
      rw [length_append, length_of_mem_words hu, c.length_segment] at hlen
      obtain rfl : v = [] := eq_nil_of_length_eq_zero (by omega)
      rwa [append_nil]
    · intro hmem
      exact Language.mem_mul.2 ⟨text, hmem, [], trivial, append_nil text⟩
  rw [← hmatches]
  exact or_iff_right_of_imp fun hunder => by simp [LikePatternClause.matches, hunder]

lemma matchClausesR_eq_some_iff (hplain : ∀ c ∈ clauses, c.Plain) {t : List Byte} :
    matchClausesR clauses text = some t ↔
      ∃ v ∈ words (clauses.reverse.flatMap LikePatternClause.segment), text = t ++ v := by
  induction clauses generalizing text with
  | nil => simp [matchClausesR, Language.mem_one]
  | cons c clauses ih =>
    rw [reverse_cons, flatMap_append, flatMap_singleton, words_append, matchClausesR]
    have hc := hplain c mem_cons_self
    -- a text of the clauses ends in a text of `c`
    have hspl : ∀ v ∈ words (clauses.reverse.flatMap LikePatternClause.segment) *
        words c.segment, text = t ++ v → ∃ a ∈ words (clauses.reverse.flatMap
          LikePatternClause.segment), ∃ b ∈ words c.segment, b.length = c.getLength ∧
          text = (t ++ a) ++ b := by
      rintro v hv rfl
      obtain ⟨a, ha, b, hb, rfl⟩ := Language.mem_mul.1 hv
      exact ⟨a, ha, b, hb, by rw [length_of_mem_words hb, c.length_segment],
        (append_assoc t a b).symm⟩
    split_ifs with hshort hlast
    · refine iff_of_false nofun ?_
      rintro ⟨v, hv, heq⟩
      obtain ⟨a, -, b, -, hb, rfl⟩ := hspl v hv heq
      rw [length_append] at hshort
      omega
    · rw [ih (forall_mem_cons.1 hplain).2]
      constructor
      · rintro ⟨a, ha, heq⟩
        have hdrop : (text.drop (text.length - c.getLength)).length = c.getLength := by
          rw [length_drop]
          omega
        refine ⟨_, Language.append_mem_mul ha ((hc.matches_all_iff hdrop).1 hlast), ?_⟩
        rw [← append_assoc, ← heq, take_append_drop]
      · rintro ⟨v, hv, heq⟩
        obtain ⟨a, ha, b, -, hb, rfl⟩ := hspl v hv heq
        refine ⟨a, ha, ?_⟩
        rw [length_append, hb, Nat.add_sub_cancel, take_left]
    · refine iff_of_false nofun ?_
      rintro ⟨v, hv, heq⟩
      obtain ⟨a, -, b, hmem, hb, rfl⟩ := hspl v hv heq
      refine hlast ?_
      rw [length_append, hb, Nat.add_sub_cancel, drop_left]
      exact (hc.matches_all_iff hb).2 hmem

end texts

namespace LikePatternHeader
variable {h : LikePatternHeader} {text : List Byte}

lemma Plain.matches_eq_some_iff (hplain : h.Plain) (hlen : h.getLength ≤ text.length) {n : ℕ} :
    h.matches text = some n ↔ text ∈ words h.segment * ⊤ ∧ n = h.getLength := by
  rw [← h.length_segment] at hlen ⊢
  rw [LikePatternHeader.matches, matchClauses_eq_some_iff hplain hlen, Nat.zero_add]
  rfl

lemma Plain.matchesR_eq_some_iff (hplain : h.Plain) {t : List Byte} :
    h.matchesR text = some t ↔ ∃ v ∈ words h.segment, text = t ++ v := by
  rw [matchesR, matchClausesR_eq_some_iff fun c hc => hplain c (mem_reverse.1 hc), reverse_reverse]
  rfl

lemma Full.mem_between_skip (hfull : h.Full) (ss : List (List (Option Byte))) (text : List Byte) :
    h.skip text ∈ between (h.segment :: ss) ↔ text ∈ between (h.segment :: ss) := by
  unfold skip
  split_ifs with htype
  · obtain ⟨a, pattern, hpattern⟩ := exists_cons_of_ne_nil hfull.firstClause.ne_nil
    obtain ⟨s, hs⟩ : ∃ s, h.segment = some a :: s := by
      obtain ⟨tail, htail⟩ := h.allClauses_eq
      have htype : h.firstClause.charType ≠ .underscore := by
        rw [show h.firstClause.charType = .nonWildcard from htype]
        exact nofun
      rw [segment, htail, flatMap_cons, LikePatternClause.segment, if_neg htype, hpattern]
      exact ⟨_, rfl⟩
    rw [hs, hpattern]
    induction text with
    | nil => rfl
    | cons c text ih =>
      rw [dropWhile_cons]
      split_ifs with hne
      · rw [ih, mem_between_cons_of_notMem]
        rw [words_cons, mul_assoc]
        intro hmem
        obtain ⟨b, hb, v, -, heq⟩ := Language.mem_mul.1 hmem
        rw [mem_letter_some.1 hb] at heq
        obtain ⟨rfl, -⟩ := cons.inj heq
        simp at hne
      · rfl
  · rfl

lemma Full.search (hfull : h.Full) (ss : List (List (Option Byte))) (fuel : ℕ)
    (hfuel : text.length ≤ fuel) (hlen : h.getLength ≤ text.length) :
    (∃ t, h.search fuel text = some t ∧ (text ∈ between (h.segment :: ss) ↔ t ∈ between ss)) ∨
    h.search fuel text = none ∧ text ∉ between (h.segment :: ss) := by
  have hpos := hfull.getLength_pos
  induction fuel generalizing text with
  | zero => omega
  | succ fuel ih =>
    cases text with
    | nil =>
      rw [length_nil] at hlen
      omega
    | cons c text =>
      rw [LikePatternHeader.search]
      cases hmatch : h.matches (c :: text) with
      | some n =>
        obtain ⟨hmem, rfl⟩ := (hfull.plain.matches_eq_some_iff hlen).1 hmatch
        obtain ⟨u, hu, v, -, heq⟩ := Language.mem_mul.1 hmem
        refine .inl ⟨_, rfl, ?_⟩
        have hulen : u.length = h.getLength := by rw [length_of_mem_words hu, h.length_segment]
        rw [← heq, append_mem_between_cons hu, ← hulen, drop_left]
      | none =>
        have hnot : c :: text ∉ words h.segment * ⊤ := fun hmem => by
          have := (hfull.plain.matches_eq_some_iff hlen).2 ⟨hmem, rfl⟩
          rw [hmatch] at this
          cases this
        rw [mem_between_cons_of_notMem hnot, ← hfull.mem_between_skip]
        have hskip : (h.skip text).length ≤ text.length := by
          unfold skip
          split_ifs
          · exact (dropWhile_suffix _).length_le
          · exact le_rfl
        rw [length_cons] at hfuel
        simp only
        split_ifs with hshort
        · refine .inr ⟨rfl, fun hmem => ?_⟩
          have := length_le_of_mem_between hmem
          rw [h.length_segment] at this
          omega
        · exact ih (by omega) (by omega)

end LikePatternHeader

/-! ### A pattern against the text -/

namespace LikePattern
variable {text : List Byte}

lemma matchRemaining_iff {headers : List LikePatternHeader} (hfull : ∀ h ∈ headers, h.Full) :
    matchRemaining headers text ↔ text ∈ between (headers.map LikePatternHeader.segment) := by
  induction headers generalizing text with
  | nil => simp [matchRemaining]
  | cons h headers ih =>
    rw [map_cons, matchRemaining]
    have hh := hfull h mem_cons_self
    split_ifs with hshort
    · refine iff_of_false nofun fun hmem => ?_
      have := length_le_of_mem_between hmem
      rw [h.length_segment] at this
      omega
    · rcases hh.search (headers.map LikePatternHeader.segment) text.length le_rfl (by omega) with
        ⟨t, hsearch, hmem⟩ | ⟨hsearch, hmem⟩
      · rw [hsearch, hmem]
        exact ih (forall_mem_cons.1 hfull).2
      · rw [hsearch]
        exact iff_of_false nofun hmem

variable {last : LikePatternHeader} {middle : List LikePatternHeader}

lemma matchRest_iff (hlast : last.Plain) (hmiddle : ∀ h ∈ middle, h.Full) :
    matchRest (last :: middle) text ↔
      text ∈ between (middle.map LikePatternHeader.segment) * words last.segment := by
  rw [matchRest]
  split_ifs with hpos
  · cases hmatch : last.matchesR text with
    | none =>
      refine iff_of_false nofun fun hmem => ?_
      obtain ⟨u, -, v, hv, rfl⟩ := Language.mem_mul.1 hmem
      rw [hlast.matchesR_eq_some_iff.2 ⟨v, hv, rfl⟩] at hmatch
      cases hmatch
    | some t =>
      obtain ⟨v, hv, rfl⟩ := hlast.matchesR_eq_some_iff.1 hmatch
      rw [append_mem_mul_words hv]
      exact matchRemaining_iff hmiddle
  · have hnil : last.segment = [] :=
      eq_nil_of_length_eq_zero (by rw [last.length_segment]; omega)
    rw [hnil, words_nil, mul_one]
    exact matchRemaining_iff hmiddle

structure Built (headers : List LikePatternHeader) (last : LikePatternHeader) : Prop where
  first : ∀ h ∈ headers.head?, h.Full ∨ h = .new .nonWildcard
  middle : ∀ h ∈ headers.tail, h.Full
  last : last.Full ∨ last = .new (if headers = [] then .nonWildcard else .percent)

lemma matches_iff_of_type_ne {p : LikePattern} (hplain : p.first.Plain)
    (htype : p.first.getType ≠ .percent) {L : Language Byte}
    (hrest : ∀ u v : List Byte, u.length = p.first.getLength →
      ((match p.nextHeaders with
        | [] => decide (p.first.getLength = (u ++ v).length)
        | headers => matchRest headers ((u ++ v).drop p.first.getLength)) = true ↔ v ∈ L)) :
    p.matches text ↔ text ∈ words p.first.segment * L := by
  rw [LikePattern.matches, if_pos htype]
  split_ifs with hshort
  · refine iff_of_false nofun fun hmem => ?_
    obtain ⟨u, hu, v, -, rfl⟩ := Language.mem_mul.1 hmem
    rw [length_append, length_of_mem_words hu, p.first.length_segment] at hshort
    omega
  · cases hmatch : p.first.matches text with
    | none =>
      have hnot : text ∉ words p.first.segment * ⊤ := fun hmem => by
        rw [(hplain.matches_eq_some_iff (Nat.le_of_not_gt hshort)).2 ⟨hmem, rfl⟩] at hmatch
        cases hmatch
      exact iff_of_false nofun (notMem_words_mul hnot L)
    | some n =>
      obtain ⟨hmem, rfl⟩ := (hplain.matches_eq_some_iff (Nat.le_of_not_gt hshort)).1 hmatch
      obtain ⟨u, hu, v, -, rfl⟩ := Language.mem_mul.1 hmem
      rw [append_mem_words_mul hu]
      exact hrest u v (by rw [length_of_mem_words hu, p.first.length_segment])

lemma Built.type_ne {h : LikePatternHeader} (hfull : h.Full ∨ h = .new .nonWildcard) :
    h.getType ≠ .percent ∧ h.Plain := by
  rcases hfull with hfull | rfl
  · exact ⟨hfull.firstClause.ne_percent, hfull.plain⟩
  · exact ⟨nofun, LikePatternHeader.plain_new _⟩

lemma Built.matches_link {headers : List LikePatternHeader} (hblt : Built headers last) :
    (link headers last).matches text ↔
      text ∈ row (headers.map LikePatternHeader.segment) last.segment := by
  cases headers with
  | nil =>
    obtain ⟨htype, hplain⟩ := type_ne hblt.last
    rw [show row ([].map LikePatternHeader.segment) last.segment = words last.segment * 1 by
      simp [row]]
    refine matches_iff_of_type_ne (p := ⟨last, []⟩) hplain htype fun u v hu => ?_
    rw [Language.mem_one, decide_eq_true_iff, length_append, hu, ← length_eq_zero_iff]
    omega
  | cons first rest =>
    have hlast : last.Plain := by
      rcases hblt.last with hfull | rfl
      · exact hfull.plain
      · exact LikePatternHeader.plain_new _
    have hfst := hblt.first first rfl
    rw [map_cons, row_cons, link]
    split_ifs with hzero
    · -- nothing stands before the first percent sign
      rcases hfst with hfull | rfl
      · have := hfull.getLength_pos
        omega
      · rw [LikePatternHeader.segment_new, words_nil, one_mul]
        exact matchRest_iff hlast hblt.middle
    · obtain ⟨htype, hplain⟩ := type_ne hfst
      refine matches_iff_of_type_ne (p := ⟨first, last :: rest⟩) hplain htype fun u v hu => ?_
      simp only at hu ⊢
      rw [← hu, drop_left]
      exact matchRest_iff hlast hblt.middle

/-! ### The constructor -/

variable {headers : List LikePatternHeader} {last : LikePatternHeader}

lemma Built.append (hblt : Built headers last) {charType : CharType}
    (htype : charType = .nonWildcard ∨ charType = .underscore) (c : Byte) :
    Built headers (last.append charType c) :=
  ⟨hblt.first, hblt.middle,
    .inl (LikePatternHeader.full_append (hblt.last.imp_right fun h => ⟨_, h⟩) htype c)⟩

lemma Built.percent (hblt : Built headers last) (htype : last.lastClause.charType ≠ .percent) :
    Built (headers ++ [last]) (.new .percent) := by
  refine ⟨?_, ?_, .inr (by simp)⟩
  · cases headers with
    | nil =>
      rintro h ⟨⟩
      exact hblt.last
    | cons first rest => exact hblt.first
  · cases headers with
    | nil => exact nofun
    | cons first rest =>
      refine forall_mem_append.2 ⟨hblt.middle, forall_mem_singleton.2 ?_⟩
      rcases hblt.last with hfull | rfl
      · exact hfull
      · exact (htype rfl).elim

lemma Built.row_mul_top (hblt : Built headers last)
    (htype : last.lastClause.charType = .percent) :
    row (headers.map LikePatternHeader.segment) last.segment * ⊤ =
      row (headers.map LikePatternHeader.segment) last.segment := by
  rcases hblt.last with hfull | rfl
  · exact absurd htype (hfull last.lastClause (by simp [LikePatternHeader.allClauses])).ne_percent
  · rcases eq_nil_or_concat headers with rfl | ⟨init, h, rfl⟩
    · cases htype
    · rw [LikePatternHeader.segment_new, concat_eq_append, map_append, map_singleton]
      exact row_concat_mul_top _ _

/-- The language of the headers so far, followed by that of the rest of the pattern. -/
theorem scan_spec (esc : Option Byte) (fuel : ℕ) {p : List Byte} (hfuel : p.length ≤ fuel)
    (hblt : Built headers last) : ValidEscapes esc p = false ∧
      scan esc fuel (determineCharType esc p) headers last = .error .invalidEscapeSequence ∨
    ValidEscapes esc p = true ∧ ∃ headers' last',
      scan esc fuel (determineCharType esc p) headers last = .ok (headers', last') ∧
      Built headers' last' ∧ row (headers'.map LikePatternHeader.segment) last'.segment =
        row (headers.map LikePatternHeader.segment) last.segment * language esc p := by
  induction fuel generalizing p headers last with
  | zero =>
    obtain rfl : p = [] := eq_nil_of_length_eq_zero (Nat.le_zero.1 hfuel)
    exact .inr ⟨rfl, headers, last, rfl, hblt, (mul_one _).symm⟩
  | succ fuel ih =>
    rcases determineCharType_cases esc p with
      ⟨rfl, hdet⟩ | ⟨hinvalid, rest, hdet⟩ | ⟨c, rest, hlen, hvalid, htoken⟩
    · exact .inr ⟨rfl, headers, last, rfl, hblt, (mul_one _).symm⟩
    · rw [hdet]
      exact .inl ⟨hinvalid, rfl⟩
    · rw [hvalid]
      have hfuel : rest.length ≤ fuel := by omega
      rcases htoken with ⟨charType, htype, hdet, hlanguage⟩ | ⟨hdet, hlanguage⟩
      · have hscan : scan esc (fuel + 1) ⟨charType, c :: rest⟩ headers last =
            scan esc fuel (determineCharType esc rest) headers
              (last.append charType c) := by
          rcases htype with rfl | rfl <;> rfl
        have hrest := ih hfuel (hblt.append htype c)
        rw [LikePatternHeader.segment_append, row_append, words_singleton, mul_assoc] at hrest
        rw [hdet, hlanguage, hscan]
        exact hrest
      · rw [hdet, hlanguage, scan]
        simp only
        split_ifs with htype
        · have hrest := ih hfuel (hblt.percent htype)
          rw [map_append, map_singleton, LikePatternHeader.segment_new, row_concat,
            mul_assoc] at hrest
          exact hrest
        · rw [not_not] at htype
          rw [← mul_assoc, hblt.row_mul_top htype]
          exact ih hfuel hblt

end LikePattern

/-- **LIKE on text of single-byte characters.** The constructor reports an invalid escape sequence
exactly for the patterns that have one. For all others the pattern matches exactly the texts of
its language. -/
theorem LikePattern.matches_iff_mem_language (escapeChar : Option Byte) (pattern : List Byte) :
    (LikePattern.new escapeChar pattern = .error .invalidEscapeSequence ↔
      ValidEscapes escapeChar pattern = false) ∧
    (ValidEscapes escapeChar pattern = true → ∃ p, LikePattern.new escapeChar pattern = .ok p ∧
      ∀ text, p.matches text = true ↔ text ∈ language escapeChar pattern) := by
  have hbuilt : Built [] (.new .nonWildcard) := ⟨nofun, nofun, .inr rfl⟩
  rw [LikePattern.new]
  rcases scan_spec escapeChar pattern.length le_rfl hbuilt with
    ⟨hinvalid, hscan⟩ | ⟨hvalid, headers, last, hscan, hbuilt', hrow⟩
  · rw [hscan, hinvalid]
    exact ⟨iff_of_true rfl rfl, nofun⟩
  · rw [hscan, hvalid]
    refine ⟨iff_of_false nofun nofun, fun _ => ⟨_, rfl, fun text => ?_⟩⟩
    have hempty : row ([].map LikePatternHeader.segment)
        (LikePatternHeader.new .nonWildcard).segment = 1 := by
      simp [row]
    rw [hempty, one_mul] at hrow
    rw [hbuilt'.matches_link, hrow]

/-- `a%!%_b%%c` with the escape character `!`, and two texts. -/
theorem escaped_percent_matched :
    ∃ p, LikePattern.new (some 0x21#8)
        [0x61#8, 0x25#8, 0x21#8, 0x25#8, 0x5F#8, 0x62#8, 0x25#8, 0x25#8, 0x63#8] = .ok p ∧
      (∀ text, p.matches text = true ↔ text ∈ language (some 0x21#8)
        [0x61#8, 0x25#8, 0x21#8, 0x25#8, 0x5F#8, 0x62#8, 0x25#8, 0x25#8, 0x63#8]) ∧
      p.matches [0x61#8, 0x25#8, 0x25#8, 0x78#8, 0x62#8, 0x63#8] = true ∧
      p.matches [0x61#8, 0x25#8, 0x62#8, 0x63#8] = false := by
  obtain ⟨p, hp, hmatches⟩ := (LikePattern.matches_iff_mem_language (some 0x21#8)
    [0x61#8, 0x25#8, 0x21#8, 0x25#8, 0x5F#8, 0x62#8, 0x25#8, 0x25#8, 0x63#8]).2 (by decide)
  refine ⟨p, hp, hmatches, ?_⟩
  have hnew : LikePattern.new (some 0x21#8)
      [0x61#8, 0x25#8, 0x21#8, 0x25#8, 0x5F#8, 0x62#8, 0x25#8, 0x25#8, 0x63#8] =
      .ok ⟨⟨[], ⟨.nonWildcard, [0x61#8]⟩⟩, [⟨[], ⟨.nonWildcard, [0x63#8]⟩⟩,
        ⟨[⟨.nonWildcard, [0x25#8]⟩, ⟨.underscore, [0x5F#8]⟩], ⟨.nonWildcard, [0x62#8]⟩⟩]⟩ := by
    decide
  obtain rfl := Except.ok.inj (hp.symm.trans hnew)
  decide

end Trafodion.Like
