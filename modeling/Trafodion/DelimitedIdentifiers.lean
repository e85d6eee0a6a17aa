import Mathlib.Data.List.DropRight

/-!
# Delimited identifiers

`ToInternalIdentifier` turns the external form of a name into the internal one. A name in
double quotes is read by a loop with two states that edits the string in place. Regular and
Guardian names, and the translation to UCS-2 that measures the result, are parameters.
-/
namespace Trafodion.Identifiers
open List

abbrev Text := List Char

def isSpace (c : Char) : Bool := (9 ≤ c.toNat && c.toNat ≤ 13) || c.toNat == 32

def reservedNamePrefixes : List Text :=
  ["DELTA@", "INDIRECT@", "KEYTAG@", "NEW@", "OLD@", "PACKED__@", "PACKED__IDU__@"].map
    String.toList

/-- `isDelimitedIdentifierReservedForInternalUse`. -/
def isReserved (text : Text) : Bool :=
  text.head? == some '@' || reservedNamePrefixes.any (·.isPrefixOf text)

structure Modes where
  acceptCircumflex : Bool
  /-- The parser flag `ALLOW_FUNNY_IDENTIFIER`. -/
  allowFunny : Bool
  allowGuardian : Bool
  dollarPrefix : Bool

/-- The error codes -3004, -3127 (with the position left in the string), -3128, -3118 and
-13001. -/
inductive Rejection
  | empty
  | illegalChar (position : ℕ)
  | reservedWord
  | tooLong
  | notTranslated

def illegalCharInIdentifier (i countOfRemoved : ℕ) : Rejection :=
  .illegalChar ((i + countOfRemoved) % 256)

def tabToSpace (c : Char) : Char := if isSpace c then ' ' else c

inductive State
  | inside
  | afterQuote
  deriving DecidableEq

/-- What is wrong with the text at position `i`, tested at the first position only. -/
def objection (m : Modes) (i : ℕ) (text : Text) : Option ℕ :=
  if i ≠ 0 then none
  else if text.head? = some '^' ∧ m.acceptCircumflex = false then some 0
  else if m.allowFunny = false ∧ isReserved text then some (text.idxOf '@')
  else none

/-- The loop, with `kept` before the position and the text from the position on. -/
def scan (m : Modes) : State → Text → ℕ → Text → Except Rejection Text
  | state, kept, removed, [] =>
    if state = .afterQuote then .ok kept
    else .error (illegalCharInIdentifier kept.length removed)
  | state, kept, removed, c :: text =>
    match objection m kept.length (c :: text), state with
    | some i, _ => .error (illegalCharInIdentifier i removed)
    | none, .inside =>
      if c = '"' then scan m .afterQuote kept (removed + 1) text
      else scan m .inside (kept ++ [tabToSpace c]) removed text
    | none, .afterQuote =>
      if c = '"' then scan m .inside (kept ++ [c]) removed text
      else if isSpace c then scan m .afterQuote (kept ++ [' ']) removed text
      else .error (illegalCharInIdentifier kept.length removed)

def trim (kept : Text) : Text := kept.rdropWhile (· = ' ')

/-- A body as it is written between the quotes. -/
def double (body : Text) : Text := body.flatMap fun c => if c = '"' then [c, c] else [c]

def Closes (body text : Text) : Prop :=
  ∃ blanks : Text, (∀ c ∈ blanks, isSpace c) ∧ text = double body ++ '"' :: blanks

/-- The texts the loop reads to their end, with what it keeps of them: after the closing quote
blanks may be followed by one more quote and a further text. -/
inductive Spells : Text → Text → Prop
  | closed (body : Text) {blanks : Text} (hb : ∀ c ∈ blanks, isSpace c) :
    Spells (double body ++ '"' :: blanks) (body ++ blanks)
  | reopened (body : Text) {blanks tail rest : Text} (hne : blanks ≠ []) (hb : ∀ c ∈ blanks, isSpace c)
      (htail : Spells tail rest) :
    Spells (double body ++ '"' :: (blanks ++ '"' :: tail)) (body ++ (blanks ++ '"' :: rest))

/-- After the closing quote the text has blanks, one more quote and a text that is read to its
end. -/
def Reopens (text raw : Text) : Prop :=
  ∃ body blanks tail rest : Text, blanks ≠ [] ∧ (∀ c ∈ blanks, isSpace c) ∧ Spells tail rest ∧
    text = double body ++ '"' :: (blanks ++ '"' :: tail) ∧ raw = body ++ (blanks ++ '"' :: rest)

/-- The text starts neither a Guardian name, nor with a circumflex, nor a reserved name. -/
def Plain (text : Text) : Prop :=
  text.head? ∉ [some '\\', some '$', some '^'] ∧ isReserved text = false

section Identifier

variable (regular guardian : Text → ℕ → Except Rejection Text)
  (ucs2Length : Text → Option ℕ) (m : Modes)

def delimited (text : Text) (removed : ℕ) : Except Rejection Text :=
  if text.length ≤ 1 then .error .empty
  else if text.head? = some '\\' ∨
      text.head? = some '$' ∧ m.allowGuardian ∧ m.dollarPrefix = false then
    guardian text removed
  else do
    let kept ← scan m .inside [] removed text
    if trim kept = [] then .error .empty else .ok (trim kept)

def checkLength (name : Text) : Except Rejection Text :=
  if m.allowFunny then .ok name
  else if 512 < name.length then .error .tooLong
  else match ucs2Length name with
    | none | some 0 => .error .notTranslated
    | some n => if 128 < n then .error .tooLong else .ok name

def toInternalIdentifier (ansiIdent : Text) : Except Rejection Text :=
  let removed := (ansiIdent.takeWhile isSpace).length
  match ansiIdent.dropWhile isSpace with
  | [] => .error .empty
  | c :: text => do
    checkLength ucs2Length m
      (← if c = '"' then delimited guardian m text (removed + 1) else regular (c :: text) removed)

/-- The name has a UCS-2 form, and neither form is too long. -/
def Fits (name : Text) : Prop :=
  m.allowFunny ∨ name.length ≤ 512 ∧ ∃ n, ucs2Length name = some n ∧ 0 < n ∧ n ≤ 128

/-- The name that the grammar of delimited identifiers gives to the text after the first
quote. -/
def Denotes (text name : Text) : Prop :=
  ∃ body, Closes body text ∧ (∃ c ∈ body, isSpace c = false) ∧
    Fits ucs2Length m name ∧ name = trim (body.map tabToSpace)

def Recognises (lead text : Text) : Prop :=
  ∀ name, toInternalIdentifier regular guardian ucs2Length m (lead ++ '"' :: text) = .ok name ↔
    Denotes ucs2Length m text name

/-- The text is reopened and what is kept of it fits. -/
def Misread (text : Text) : Prop :=
  ∃ raw, Reopens text raw ∧ Fits ucs2Length m (trim (raw.map tabToSpace))

end Identifier

variable {m : Modes} {c : Char} {text kept name body blanks : Text} {removed : ℕ}

lemma tabToSpace_eq_iff : tabToSpace c = ' ' ↔ isSpace c := by
  rw [tabToSpace, ite_eq_left_iff]
  constructor
  · intro h
    by_contra hc
    exact hc (h hc ▸ rfl)
  · exact fun h hc => absurd h hc

lemma ne_quote_of_isSpace (h : isSpace c) : c ≠ '"' := by
  rintro rfl
  exact absurd h (by decide)

lemma objection_of_plain {i : ℕ} (h : i ≠ 0 ∨ Plain text) : objection m i text = none := by
  rcases h with h | h
  · exact if_pos h
  · have hc : text.head? ≠ some '^' := fun hc => h.1 (by simp [hc])
    simp [objection, hc, h.2]

lemma plain_cons (h : c ∉ ['\\', '$', '^', '@', 'D', 'I', 'K', 'N', 'O', 'P']) :
    Plain (c :: text) := by
  simp only [mem_cons, not_mem_nil, or_false, not_or] at h
  simp [Plain, isReserved, reservedNamePrefixes, isPrefixOf, h, Ne.symm]

lemma plain_cons_quote : Plain ('"' :: text) := plain_cons (by decide)

lemma plain_cons_space (h : isSpace c) : Plain (c :: text) := by
  have hd : ['\\', '$', '^', '@', 'D', 'I', 'K', 'N', 'O', 'P'].any isSpace = false := rfl
  exact plain_cons fun hc => Bool.false_ne_true (hd ▸ any_eq_true.2 ⟨c, hc, h⟩)

@[simp] lemma double_nil : double [] = [] := rfl

@[simp] lemma double_cons_quote : double ('"' :: body) = '"' :: '"' :: double body := rfl

lemma double_cons (hc : c ≠ '"') : double (c :: body) = c :: double body := by
  simp [double, hc]

@[simp] lemma scan_inside_quote : scan m .inside kept removed ('"' :: text) =
    scan m .afterQuote kept (removed + 1) text := by
  simp [scan, objection_of_plain (.inr plain_cons_quote)]

@[simp] lemma scan_afterQuote_quote : scan m .afterQuote kept removed ('"' :: text) =
    scan m .inside (kept ++ ['"']) removed text := by
  simp [scan, objection_of_plain (.inr plain_cons_quote)]

lemma scan_double {tail : Text} (h : kept ≠ [] ∨ Plain (double body ++ tail)) :
    scan m .inside kept removed (double body ++ tail) =
      scan m .inside (kept ++ body.map tabToSpace) (removed + body.count '"') tail := by
  induction body generalizing kept removed with
  | nil => simp
  | cons c body ih =>
    have ih' (d : Char) (n : ℕ) : scan m .inside (kept ++ [d]) n (double body ++ tail) = _ :=
      ih (.inl (by simp))
    by_cases hc : c = '"'
    · subst hc
      simp [ih', tabToSpace, isSpace, Nat.add_right_comm, Nat.add_assoc]
    · rw [double_cons hc, cons_append] at h ⊢
      have hfirst : objection m kept.length (c :: (double body ++ tail)) = none :=
        objection_of_plain (h.imp_left fun h => by simpa using h)
      simp [scan, hfirst, hc, ih']

lemma scan_blanks {tail : Text} (hb : ∀ c ∈ blanks, isSpace c) :
    scan m .afterQuote kept removed (blanks ++ tail) =
      scan m .afterQuote (kept ++ blanks.map tabToSpace) removed tail := by
  induction blanks generalizing kept with
  | nil => simp
  | cons c blanks ih =>
    have hc := hb c mem_cons_self
    have ih' : scan m .afterQuote (kept ++ [' ']) removed (blanks ++ tail) = _ :=
      ih (forall_mem_cons.1 hb).2
    simp [scan, objection_of_plain (.inr (plain_cons_space hc)), hc, ne_quote_of_isSpace hc, ih',
      tabToSpace]

lemma Spells.cons (h : Spells text name) (c : Char) : Spells (double [c] ++ text) (c :: name) := by
  cases h with
  | closed body hb =>
    have hc := Spells.closed (c :: body) hb
    simpa [double] using hc
  | reopened body hne hb htail =>
    have hc := Spells.reopened (c :: body) hne hb htail
    simpa [double] using hc

lemma Spells.of_afterQuote {tail : Text} (hb : ∀ c ∈ blanks, isSpace c)
    (h : text = blanks ∨ text = blanks ++ '"' :: tail ∧ ∃ raw, Spells tail raw) :
    ∃ raw, Spells ('"' :: text) raw := by
  rcases h with rfl | ⟨rfl, raw, htail⟩
  · exact ⟨_, .closed [] hb⟩
  · by_cases hne : blanks = []
    · subst hne
      exact ⟨_, htail.cons '"'⟩
    · exact ⟨_, .reopened [] hne hb htail⟩

/-- What the loop reads to its end is spelled so, from either state. -/
lemma spells_of_scan {state : State} (h : scan m state kept removed text = .ok name) :
    (state = .inside → ∃ raw, Spells text raw) ∧ (state = .afterQuote →
      ∃ blanks tail : Text, (∀ c ∈ blanks, isSpace c) ∧
        (text = blanks ∨ text = blanks ++ '"' :: tail ∧ ∃ raw, Spells tail raw)) := by
  induction text generalizing state kept removed with
  | nil =>
    cases state with
    | inside => simp [scan] at h
    | afterQuote => exact ⟨nofun, fun _ => ⟨[], [], by simp⟩⟩
  | cons c text ih =>
    unfold scan at h
    split at h
    · cases h
    · refine ⟨fun _ => ?_, nofun⟩
      split_ifs at h with hc
      · obtain ⟨blanks, tail, hb, htext⟩ := (ih h).2 rfl
        rw [hc]
        exact Spells.of_afterQuote hb htext
      · obtain ⟨raw, hraw⟩ := (ih h).1 rfl
        have hcons := hraw.cons c
        rw [double_cons hc] at hcons
        exact ⟨_, hcons⟩
    · refine ⟨nofun, fun _ => ?_⟩
      split_ifs at h with hc hs
      · exact ⟨[], text, by simp, .inr ⟨by rw [hc]; rfl, (ih h).1 rfl⟩⟩
      · obtain ⟨blanks, tail, hb, htext⟩ := (ih h).2 rfl
        refine ⟨c :: blanks, tail, by simpa [hs] using hb, ?_⟩
        rcases htext with rfl | ⟨rfl, htail⟩
        · exact .inl rfl
        · exact .inr ⟨rfl, htail⟩

/-- A text that is spelled so is read to its end, by induction on its quotes. -/
lemma scan_spells (h : Spells text name) (hp : kept ≠ [] ∨ Plain text) :
    scan m .inside kept removed text = .ok (kept ++ name.map tabToSpace) := by
  induction h generalizing kept removed with
  | @closed body blanks hb =>
    rw [scan_double hp, scan_inside_quote, ← append_nil blanks, scan_blanks hb]
    simp [scan]
  | @reopened body blanks tail rest hne hb htail ih =>
    rw [scan_double hp, scan_inside_quote, scan_blanks hb, scan_afterQuote_quote,
      ih (.inl (by simp))]
    simp [tabToSpace, isSpace]

lemma scan_spells_nil (m : Modes) (removed : ℕ) (hp : Plain text) (h : Spells text name) :
    scan m .inside [] removed text = .ok (name.map tabToSpace) := by
  rw [scan_spells h (.inr hp), nil_append]

lemma head_double_append (tail : Text) : (double (c :: body) ++ tail).head? = some c := by
  by_cases hc : c = '"' <;> simp_all [double_cons]

lemma not_reopens_of_closes (hc : Closes body text) : ¬ Reopens text name := by
  rintro ⟨body', blanks', tail, -, hne, hb', -, h, -⟩
  obtain ⟨blanks, hb, rfl⟩ := hc
  have hquote : '"' ∉ blanks := fun hmem => ne_quote_of_isSpace (hb _ hmem) rfl
  obtain ⟨b, blanks', rfl⟩ := exists_cons_of_ne_nil hne
  have hspace := ne_quote_of_isSpace (hb' b mem_cons_self)
  have hhead := congrArg head? h
  induction body generalizing body' with
  | nil =>
    rcases body' with _ | ⟨c, body'⟩
    · simp_all
    · rw [head_double_append] at hhead
      obtain rfl : '"' = c := Option.some.inj hhead
      simp_all
  | cons c body ih =>
    rw [head_double_append] at hhead
    rcases body' with _ | ⟨c', body'⟩
    · obtain rfl : c = '"' := Option.some.inj hhead
      exact hspace (cons.inj (cons.inj h).2).1.symm
    · rw [head_double_append] at hhead
      obtain rfl : c = c' := Option.some.inj hhead
      have htail : double body ++ '"' :: blanks =
          double body' ++ '"' :: (b :: blanks' ++ '"' :: tail) := by
        by_cases hc : c = '"' <;> simpa [hc, double_cons] using h
      exact ih body' htail (congrArg head? htail)

lemma trim_append_blanks (hb : ∀ c ∈ blanks, isSpace c) :
    trim (kept ++ blanks.map tabToSpace) = trim kept := by
  have hs : ∀ c ∈ (blanks.map tabToSpace).reverse, decide (c = ' ') = true := by
    simp_all [tabToSpace]
  rw [trim, rdropWhile, reverse_append, dropWhile_append_of_pos hs]
  rfl

lemma trim_ne_nil_iff : trim (body.map tabToSpace) ≠ [] ↔ ∃ c ∈ body, isSpace c = false := by
  simp [trim, rdropWhile_eq_nil_iff, tabToSpace_eq_iff]

lemma scan_closes (m : Modes) (removed : ℕ) (hp : Plain text) (hc : Closes body text) :
    ∃ kept, scan m .inside [] removed text = .ok kept ∧ trim kept = trim (body.map tabToSpace) := by
  obtain ⟨blanks, hb, rfl⟩ := hc
  refine ⟨_, scan_spells_nil m removed hp (.closed body hb), ?_⟩
  rw [map_append, trim_append_blanks hb]

lemma Reopens.spells (h : Reopens text name) : Spells text name := by
  obtain ⟨body, blanks, tail, rest, hne, hb, htail, rfl, rfl⟩ := h
  exact .reopened body hne hb htail

lemma Reopens.trim_ne_nil (h : Reopens text name) : trim (name.map tabToSpace) ≠ [] := by
  obtain ⟨body, blanks, tail, rest, -, -, -, -, rfl⟩ := h
  exact trim_ne_nil_iff.2 ⟨'"', by simp, rfl⟩

lemma Reopens.one_lt_length (h : Reopens text name) : 1 < text.length := by
  obtain ⟨body, blanks, tail, rest, -, -, -, rfl, -⟩ := h
  simp only [length_append, length_cons]
  omega

lemma Closes.one_lt_length (hc : Closes body text) (hne : body ≠ []) : 1 < text.length := by
  obtain ⟨blanks, -, rfl⟩ := hc
  obtain ⟨c, body, rfl⟩ := exists_cons_of_ne_nil hne
  by_cases hc : c = '"'
  · simp [hc]
  · simp only [double_cons hc, cons_append, length_cons, length_append]
    omega

variable {regular guardian : Text → ℕ → Except Rejection Text}
  {ucs2Length : Text → Option ℕ} {lead : Text}

lemma checkLength_eq_ok {out : Text} :
    checkLength ucs2Length m name = .ok out ↔ Fits ucs2Length m name ∧ out = name := by
  rw [checkLength, Fits]
  split_ifs with hf hn
  · simp [hf, eq_comm]
  · simp [hf, not_le.2 hn]
  · rcases hu : ucs2Length name with _ | _ | n
    · simp [hf]
    · simp [hf]
    · by_cases hl : 128 < n + 1 <;> simp [hf, not_lt.1 hn, hl, eq_comm] <;> omega

lemma toInternalIdentifier_quote (hl : ∀ c ∈ lead, isSpace c) (hp : Plain text) :
    toInternalIdentifier regular guardian ucs2Length m (lead ++ '"' :: text) = .ok name ↔
      1 < text.length ∧ ∃ kept, scan m .inside [] (lead.length + 1) text = .ok kept ∧
        trim kept ≠ [] ∧ Fits ucs2Length m name ∧ name = trim kept := by
  have hhead := hp.1
  simp only [mem_cons, not_mem_nil, or_false, not_or] at hhead
  have htake : (lead ++ '"' :: text).takeWhile isSpace = lead := by
    rw [takeWhile_append_of_pos hl]
    simp [isSpace]
  have hdrop : (lead ++ '"' :: text).dropWhile isSpace = '"' :: text := by
    rw [dropWhile_append_of_pos hl]
    simp [isSpace]
  rw [toInternalIdentifier, htake, hdrop]
  simp only [if_true, delimited]
  split_ifs with hlen hg
  · simp [bind, Except.bind, not_lt.2 hlen]
  · simp [hhead] at hg
  · rcases hs : scan m .inside [] (lead.length + 1) text with e | kept
    · simp [bind, Except.bind]
    · by_cases ht : trim kept = [] <;> simp [bind, Except.bind, ht, checkLength_eq_ok, not_le.1 hlen]
      rintro rfl
      rfl

/-- A delimited identifier is recognised exactly if and only if it is not misread: blanks and a
further quote after its closing quote, a rest that is spelled like a delimited identifier again,
and a result that fits. -/
theorem recognises_iff (hl : ∀ c ∈ lead, isSpace c) (hp : Plain text) :
    Recognises regular guardian ucs2Length m lead text ↔ ¬ Misread ucs2Length m text := by
  constructor
  · rintro h ⟨raw, hr, hf⟩
    have hscan := scan_spells_nil m (lead.length + 1) hp hr.spells
    have hok : toInternalIdentifier regular guardian ucs2Length m (lead ++ '"' :: text) =
        .ok (trim (raw.map tabToSpace)) :=
      (toInternalIdentifier_quote hl hp).2
        ⟨hr.one_lt_length, _, hscan, hr.trim_ne_nil, hf, rfl⟩
    obtain ⟨body, hc, -⟩ := (h _).1 hok
    exact not_reopens_of_closes hc hr
  intro h name
  constructor
  · intro hok
    obtain ⟨-, kept, hs, hne, hf, rfl⟩ := (toInternalIdentifier_quote hl hp).1 hok
    obtain ⟨raw, hraw⟩ := (spells_of_scan hs).1 rfl
    obtain rfl := Except.ok.inj (hs.symm.trans (scan_spells_nil m (lead.length + 1) hp hraw))
    cases hraw with
    | @closed body blanks hb =>
      rw [map_append, trim_append_blanks hb] at hne hf ⊢
      exact ⟨body, ⟨blanks, hb, rfl⟩, trim_ne_nil_iff.1 hne, hf, rfl⟩
    | @reopened body blanks tail rest hblanks hb htail =>
      exact absurd ⟨_, ⟨body, blanks, tail, rest, hblanks, hb, htail, rfl, rfl⟩, hf⟩ h
  · rintro ⟨body, hc, hnot, hf, rfl⟩
    obtain ⟨kept, hs, ht⟩ := scan_closes m (lead.length + 1) hp hc
    have hlen : 1 < text.length := hc.one_lt_length (by rintro rfl; simp at hnot)
    rw [← ht] at hf ⊢
    exact (toInternalIdentifier_quote hl hp).2
      ⟨hlen, kept, hs, ht ▸ trim_ne_nil_iff.2 hnot, hf, rfl⟩

def ansiModes : Modes := ⟨false, false, true, false⟩

def noNames (_ : Text) (_ : ℕ) : Except Rejection Text := .error .empty

/-- The name `a"b`, written with its quote doubled. -/
theorem recognises_doubled_quote :
    Recognises noNames noNames (some ·.length) ansiModes [] ['a', '"', '"', 'b', '"'] := by
  refine (recognises_iff (by simp) (plain_cons (by decide))).2 ?_
  rintro ⟨raw, hr, -⟩
  have hcloses : Closes ['a', '"', 'b'] ['a', '"', '"', 'b', '"'] := ⟨[], by simp, rfl⟩
  exact not_reopens_of_closes hcloses hr

/-- The text `"a" "b"` is accepted as the name `a "b`. -/
theorem reopened_name_accepted : ¬ Recognises noNames noNames (some ·.length) ansiModes []
    ['a', '"', ' ', '"', 'b', '"'] := by
  intro h
  obtain ⟨body, hc, -⟩ := (h ['a', ' ', '"', 'b']).1 rfl
  exact not_reopens_of_closes hc
    ⟨['a'], [' '], ['b', '"'], ['b'], by simp, by simp [isSpace],
      .closed ['b'] (by simp), rfl, rfl⟩

end Trafodion.Identifiers
