import WaterStructure.Core.JavaValues
import WaterStructure.Formats.Snbt

/-!
# Texts of a tag

A tag without floating-point numbers has many texts: space may stand between any two tokens, the entries of
a compound come in any order, strings are quoted in one of two ways, and suffixes are small or capital. The
parser reads each of them back to the tag. Only an integer may go on behind its text, so what follows it
must begin with space or with a character that ends it.
-/

namespace WaterStructure

open NbtTag

namespace Snbt

def Blank (text : List Char) : Prop := ∀ c ∈ text, isBlank c = true

/-- A text between quotes, where the quote and the backslash are escaped, and any quote may be. -/
inductive Quoted (quote : Char) : List Char → List Char → Prop where
  | nil : Quoted quote [] []
  | plain {c : Char} {value body : List Char} (hquote : c ≠ quote) (hslash : c ≠ '\\')
      (h : Quoted quote value body) : Quoted quote (c :: value) (c :: body)
  | escaped {c : Char} {value body : List Char} (hc : isQuote c = true ∨ c = '\\')
      (h : Quoted quote value body) : Quoted quote (c :: value) ('\\' :: c :: body)

def QuotedText (value text : List Char) : Prop :=
  ∃ quote body, isQuote quote = true ∧ Quoted quote value body ∧ text = quote :: (body ++ [quote])

/-- The texts of an integer. -/
inductive NumberText : Tag → List Char → Prop where
  | byte {value : ℤ} {suffix : Char} (h : IsSigned 1 value) (hsuffix : suffix = 'b' ∨ suffix = 'B') :
      NumberText (.byte value) (decimal value ++ [suffix])
  | short {value : ℤ} {suffix : Char} (h : IsSigned 2 value) (hsuffix : suffix = 's' ∨ suffix = 'S') :
      NumberText (.short value) (decimal value ++ [suffix])
  | int {value : ℤ} (h : IsSigned 4 value) : NumberText (.int value) (decimal value)
  | long {value : ℤ} {suffix : Char} (h : IsSigned 8 value) (hsuffix : suffix = 'l' ∨ suffix = 'L') :
      NumberText (.long value) (decimal value ++ [suffix])

/-- Parts with commas between them, and space around each. -/
inductive Joined : List (List Char) → List Char → Prop where
  | nil {space : List Char} (h : Blank space) : Joined [] space
  | last {before part after : List Char} (hbefore : Blank before) (hafter : Blank after) :
      Joined [part] (before ++ part ++ after)
  | cons {before part after text : List Char} {rest : List (List Char)} (hbefore : Blank before)
      (hafter : Blank after) (hrest : rest ≠ []) (h : Joined rest text) :
      Joined (part :: rest) (before ++ part ++ after ++ ',' :: text)

/-- The text of an entry: the key, a colon between spaces, and the value. -/
structure EntryText where
  key : List Char
  before : List Char
  after : List Char
  value : List Char

def EntryText.text (entry : EntryText) : List Char :=
  entry.key ++ entry.before ++ ':' :: (entry.after ++ entry.value)

/-- The texts of a tag without floating-point numbers. A list without items states no type, and the entries
of a compound are a map in key order. -/
inductive Renders : Tag → List Char → Prop where
  | number {tag : Tag} {text : List Char} (h : NumberText tag text) : Renders tag text
  | string {value text : List Char} (h : QuotedText value text) : Renders (.string value) text
  | byteArray {values : List ℤ} {parts : List (List Char)} {space body : List Char} (hspace : Blank space)
      (hparts : parts.length = values.length)
      (hitems : ∀ pair ∈ values.zip parts, NumberText (.byte pair.1) pair.2) (hbody : Joined parts body) :
      Renders (.byteArray values) ('[' :: (space ++ 'B' :: ';' :: (body ++ [']'])))
  | intArray {values : List ℤ} {parts : List (List Char)} {space body : List Char} (hspace : Blank space)
      (hparts : parts.length = values.length)
      (hitems : ∀ pair ∈ values.zip parts, NumberText (.int pair.1) pair.2) (hbody : Joined parts body) :
      Renders (.intArray values) ('[' :: (space ++ 'I' :: ';' :: (body ++ [']'])))
  | longArray {values : List ℤ} {parts : List (List Char)} {space body : List Char} (hspace : Blank space)
      (hparts : parts.length = values.length)
      (hitems : ∀ pair ∈ values.zip parts, NumberText (.long pair.1) pair.2) (hbody : Joined parts body) :
      Renders (.longArray values) ('[' :: (space ++ 'L' :: ';' :: (body ++ [']'])))
  | list {element : TagType} {items : List Tag} {parts : List (List Char)} {body : List Char}
      (htype : ∀ item ∈ items, item.type = element) (hempty : items = [] → element = .End)
      (hparts : parts.length = items.length) (hitems : ∀ pair ∈ items.zip parts, Renders pair.1 pair.2)
      (hbody : Joined parts body) : Renders (.list element items) ('[' :: (body ++ [']']))
  | compound {entries written : Entries} {parts : List EntryText} {body : List Char}
      (hsorted : entries.Pairwise fun first second => first.1 < second.1) (hwritten : written.Perm entries)
      (hparts : parts.length = written.length) (hblank : ∀ part ∈ parts, Blank part.before ∧ Blank part.after)
      (hkeys : ∀ pair ∈ written.zip parts, QuotedText pair.1.1 pair.2.key)
      (hvalues : ∀ pair ∈ written.zip parts, Renders pair.1.2 pair.2.value)
      (hbody : Joined (parts.map EntryText.text) body) :
      Renders (.compound entries) ('\x7b' :: (body ++ ['\x7d']))

/-! ## Tokens -/

section Tokens

variable {total : ℕ} {c : Char} {before rest : List Char} {message : String}

theorem skipSpace_blank (h : Blank before) : skipSpace (before ++ rest) = skipSpace rest :=
  List.dropWhile_append_of_pos h

theorem skipSpace_cons (h : isBlank c = false) : skipSpace (c :: rest) = c :: rest :=
  List.dropWhile_cons_of_neg (by rw [h]; decide)

theorem skipSpace_of_blank (h : Blank before) : skipSpace before = [] := by
  have hskip := @skipSpace_blank before [] h
  rwa [List.append_nil] at hskip

variable {expected : Char}

theorem consume_blank (h : Blank before) : consume expected (before ++ rest) = consume expected rest := by
  rw [consume, consume, skipSpace_blank h]

theorem consume_self (h : isBlank c = false) : consume c (c :: rest) = (true, rest) := by
  rw [consume, skipSpace_cons h]
  exact if_pos rfl

theorem consume_ne (h : isBlank c = false) (hne : c ≠ expected) :
    consume expected (c :: rest) = (false, c :: rest) := by
  rw [consume, skipSpace_cons h]
  exact if_neg hne

theorem expect_self (hblank : Blank before) (h : isBlank c = false) :
    expect total c message (before ++ c :: rest) = .ok rest := by
  rw [expect, consume_blank hblank, consume_self h]
  rfl

theorem expect_head (h : isBlank c = false) : expect total c message (c :: rest) = .ok rest :=
  @expect_self total c [] rest message (fun _ hno => absurd hno List.not_mem_nil) h

theorem isBlank_of_isQuote (h : isQuote c = true) : isBlank c = false := by
  rw [isQuote, Bool.or_eq_true, decide_eq_true_eq, decide_eq_true_eq] at h
  rcases h with rfl | rfl <;> rfl

theorem quotedLoop_quoted {quote : Char} {value body : List Char} (h : Quoted quote value body)
    (hquote : isQuote quote = true) {rounds : ℕ} {output : List Char} (hrounds : body.length < rounds) :
    quotedLoop total quote rounds output (body ++ quote :: rest) = .ok (output ++ value, rest) := by
  induction h generalizing rounds output with
  | nil =>
    obtain ⟨rounds, rfl⟩ : ∃ n, rounds = n + 1 := ⟨rounds - 1, by omega⟩
    rw [List.nil_append, quotedLoop.eq_def]
    dsimp only
    rw [if_pos rfl, List.append_nil]
  | @plain c value body hne hslash h ih =>
    obtain ⟨rounds, rfl⟩ : ∃ n, rounds = n + 1 := ⟨rounds - 1, by omega⟩
    rw [List.length_cons] at hrounds
    have hinner := @ih rounds (output ++ [c]) (by omega)
    rw [List.cons_append, quotedLoop.eq_def]
    dsimp only
    rw [if_neg hne, if_pos hslash, hinner, List.append_assoc]
    rfl
  | @escaped c value body hc h ih =>
    obtain ⟨rounds, rfl⟩ : ∃ n, rounds = n + 1 := ⟨rounds - 1, by omega⟩
    rw [List.length_cons, List.length_cons] at hrounds
    have hslash : '\\' ≠ quote := by
      rintro rfl
      cases hquote
    have hitself : c ≠ 'u' ∧ unescaped c = c := by
      rw [isQuote, Bool.or_eq_true, decide_eq_true_eq, decide_eq_true_eq] at hc
      rcases hc with (rfl | rfl) | rfl <;> decide
    have hinner := @ih rounds (output ++ [c]) (by omega)
    rw [List.cons_append, List.cons_append, quotedLoop.eq_def]
    dsimp only
    rw [if_neg hslash, if_neg (not_not.mpr rfl), if_neg hitself.1, hitself.2, hinner, List.append_assoc]
    rfl

theorem quotedString_quoted {value text : List Char} (hblank : Blank before) (h : QuotedText value text) :
    quotedString total (before ++ text ++ rest) = .ok (value, rest) := by
  obtain ⟨quote, body, hquote, hquoted, rfl⟩ := h
  rw [quotedString, List.append_assoc, skipSpace_blank hblank, List.cons_append,
    skipSpace_cons (isBlank_of_isQuote hquote)]
  dsimp only
  rw [if_pos hquote, List.append_assoc]
  have hlength : body.length < (body ++ ([quote] ++ rest)).length := by
    rw [List.length_append, List.length_append, List.length_singleton]
    omega
  exact quotedLoop_quoted hquoted hquote hlength

theorem parseKey_quoted {key text : List Char} (hblank : Blank before) (h : QuotedText key text) :
    parseKey total (before ++ text ++ rest) = .ok (key, rest) := by
  have hread := @quotedString_quoted total [] rest key text (fun _ hno => absurd hno List.not_mem_nil) h
  obtain ⟨quote, body, hquote, hquoted, rfl⟩ := h
  rw [parseKey, List.append_assoc, skipSpace_blank hblank, List.cons_append,
    skipSpace_cons (isBlank_of_isQuote hquote)]
  dsimp only
  rw [if_pos hquote]
  exact hread

end Tokens

/-! ## Numbers -/

section Numbers

variable {floats : FloatReading} {total : ℕ} {value : ℤ} {tag : Tag} {text rest : List Char}

/-- What may stand behind an integer. -/
def Ends (rest : List Char) : Prop := ∀ c tail, rest = c :: tail → endsToken false c = true

variable {width : ℕ} {c : Char}

theorem fromCharsSigned_decimal (h : IsSigned width value) :
    fromCharsSigned width (decimal value) = some value := by
  rw [decimal]
  split_ifs with hneg
  · have habs : -((value.natAbs : ℕ) : ℤ) = value := by omega
    change ((digitsValue (Nat.toDigits 10 value.natAbs)).map (- ·)).bind _ = some value
    rw [digitsValue_toDigits, Option.map_some, habs]
    exact if_pos h
  · have habs : ((value.natAbs : ℕ) : ℤ) = value := by omega
    unfold fromCharsSigned
    split
    case h_1 digits heq => exact absurd heq (toDigits_ne_minus _ digits)
    case h_2 =>
      rw [digitsValue_toDigits, habs]
      exact if_pos h

/-- The characters of a decimal end no token. -/
theorem endsToken_decimal (hc : c ∈ decimal value) : endsToken false c = false := by
  rcases isDigit_of_mem_decimal hc with hdigit | rfl
  · have hnot : c ≠ ',' ∧ c ≠ '\x7d' ∧ c ≠ ']' ∧ isBlank c = false := by
      refine ⟨?_, ?_, ?_, ?_⟩
      · rintro rfl
        cases hdigit
      · rintro rfl
        cases hdigit
      · rintro rfl
        cases hdigit
      · rw [isBlank, Bool.or_eq_false_iff, Bool.or_eq_false_iff, Bool.or_eq_false_iff, decide_eq_false_iff_not,
          decide_eq_false_iff_not, decide_eq_false_iff_not, decide_eq_false_iff_not]
        refine ⟨⟨⟨?_, ?_⟩, ?_⟩, ?_⟩ <;> rintro rfl <;> cases hdigit
    rw [endsToken, decide_eq_false hnot.1, decide_eq_false hnot.2.1, decide_eq_false hnot.2.2.1, hnot.2.2.2]
    rfl
  · rfl

theorem looksNumeric_decimal : looksNumeric (decimal value) = true := by
  cases hdecimal : decimal value with
  | nil => exact absurd hdecimal (decimal_ne_nil value)
  | cons c tail =>
    have hc : c ∈ decimal value := by
      rw [hdecimal]
      exact List.mem_cons_self
    rw [looksNumeric, Bool.or_eq_true, Bool.or_eq_true, decide_eq_true_eq, decide_eq_true_eq]
    rcases isDigit_of_mem_decimal hc with hdigit | hminus
    · right
      rw [Char.isDigit] at hdigit
      exact hdigit
    · exact .inl (.inr hminus)

/-- A last character that settles the type. -/
theorem numericOrString_suffix {suffix : Char} (hsuffix : toLower suffix = 'b' ∨ toLower suffix = 's' ∨
    toLower suffix = 'l') : numericOrString floats total (decimal value ++ [suffix]) rest =
      if toLower suffix = 'b' then (parseIntegerValue total 1 (decimal value) "byte" rest).map .byte
      else if toLower suffix = 's' then (parseIntegerValue total 2 (decimal value) "short" rest).map .short
      else (parseIntegerValue total 8 (decimal value) "long" rest).map .long := by
  have hlast : (decimal value ++ [suffix]).getLast? = some suffix := List.getLast?_concat
  have hnamed {name : List Char} {last : Char} (hname : name.getLast? = some last) (hne : toLower last = 'e') :
      decimal value ++ [suffix] ≠ name := by
    rintro rfl
    rw [hlast] at hname
    cases hname
    rw [hne] at hsuffix
    rcases hsuffix with h | h | h <;> cases h
  have htrue : ¬ (decimal value ++ [suffix] = "true".toList ∨ decimal value ++ [suffix] = "TRUE".toList) :=
    not_or.mpr ⟨hnamed rfl rfl, hnamed rfl rfl⟩
  have hfalse : ¬ (decimal value ++ [suffix] = "false".toList ∨ decimal value ++ [suffix] = "FALSE".toList) :=
    not_or.mpr ⟨hnamed rfl rfl, hnamed rfl rfl⟩
  have hany : toLower suffix = 'b' ∨ toLower suffix = 's' ∨ toLower suffix = 'l' ∨ toLower suffix = 'f' ∨
      toLower suffix = 'd' := by
    rcases hsuffix with h | h | h
    · exact .inl h
    · exact .inr (.inl h)
    · exact .inr (.inr (.inl h))
  rw [numericOrString, if_neg htrue, if_neg hfalse, hlast]
  dsimp only
  rw [if_pos hany, List.dropLast_concat, looksNumeric_decimal, if_neg (by decide)]
  rcases hsuffix with h | h | h
  · rw [if_pos h, if_pos h]
  · rw [h]
    rfl
  · rw [h]
    rfl

/-- No suffix, and no point or exponent either. -/
theorem numericOrString_plain : numericOrString floats total (decimal value) rest =
    (parseIntegerValue total 4 (decimal value) "int" rest).map .int := by
  obtain ⟨front, last, hfront⟩ : ∃ front last, decimal value = front ++ [last] :=
    ⟨_, _, (List.dropLast_append_getLast (decimal_ne_nil value)).symm⟩
  have hlast : (decimal value).getLast? = some last := by
    rw [hfront]
    exact List.getLast?_concat
  have hcaseless {c : Char} (hc : c ∈ decimal value) : toLower c = c ∧ c ≠ 'e' ∧ c ≠ 'E' ∧ c ≠ '.' ∧ c ≠ 'b' ∧
      c ≠ 's' ∧ c ≠ 'l' ∧ c ≠ 'f' ∧ c ≠ 'd' := by
    have hkind := isDigit_of_mem_decimal hc
    have hne {d : Char} (hdigit : d.isDigit = false) (hminus : d ≠ '-') : c ≠ d := by
      rintro rfl
      rcases hkind with h | h
      · rw [hdigit] at h
        cases h
      · exact hminus h
    refine ⟨(toLower_eq_caseless (hkind.imp_right .inl)).mpr rfl, hne rfl (by decide), hne rfl (by decide),
      hne rfl (by decide), hne rfl (by decide), hne rfl (by decide), hne rfl (by decide), hne rfl (by decide),
      hne rfl (by decide)⟩
  have hmem : last ∈ decimal value := by
    rw [hfront]
    exact List.mem_append_right _ List.mem_cons_self
  obtain ⟨hlower, -, -, -, hb, hs, hl, hf, hd⟩ := hcaseless hmem
  have hnamed {name : List Char} (hname : 'e' ∈ name ∨ 'E' ∈ name) : decimal value ≠ name := by
    rintro rfl
    rcases hname with h | h
    · exact (hcaseless h).2.1 rfl
    · exact (hcaseless h).2.2.1 rfl
  have htrue : ¬ (decimal value = "true".toList ∨ decimal value = "TRUE".toList) :=
    not_or.mpr ⟨hnamed (.inl (by decide)), hnamed (.inr (by decide))⟩
  have hfalse : ¬ (decimal value = "false".toList ∨ decimal value = "FALSE".toList) :=
    not_or.mpr ⟨hnamed (.inl (by decide)), hnamed (.inr (by decide))⟩
  have hpoint : ((decimal value).any fun c => c = '.' || c = 'e' || c = 'E') = false := by
    rw [List.any_eq_false]
    intro c hc
    obtain ⟨-, he, hE, hdot, -⟩ := hcaseless hc
    rw [decide_eq_false hdot, decide_eq_false he, decide_eq_false hE]
    decide
  have hnone : ¬ (last = 'b' ∨ last = 's' ∨ last = 'l' ∨ last = 'f' ∨ last = 'd') := by
    rintro (h | h | h | h | h)
    · exact hb h
    · exact hs h
    · exact hl h
    · exact hf h
    · exact hd h
  have hfloat : ¬ (last = 'f' ∨ last = 'd' ∨
      ((decimal value).any fun c => c = '.' || c = 'e' || c = 'E') = true) := by
    rw [hpoint]
    rintro (h | h | h)
    · exact hf h
    · exact hd h
    · cases h
  rw [numericOrString, if_neg htrue, if_neg hfalse, hlast]
  dsimp only
  rw [hlower, if_neg hnone, looksNumeric_decimal, if_neg (by decide), if_neg hb, if_neg hs, if_neg hl,
    if_neg hfloat]

theorem parseIntegerValue_decimal {type : String} (h : IsSigned width value) :
    parseIntegerValue total width (decimal value) type rest = .ok value := by
  rw [parseIntegerValue, fromCharsSigned_decimal h]

theorem numericOrString_number (h : NumberText tag text) : numericOrString floats total text rest = .ok tag := by
  cases h with
  | byte h hsuffix =>
    rcases hsuffix with rfl | rfl
    · rw [numericOrString_suffix (.inl rfl), if_pos (by decide), parseIntegerValue_decimal h]
      rfl
    · rw [numericOrString_suffix (.inl rfl), if_pos (by decide), parseIntegerValue_decimal h]
      rfl
  | short h hsuffix =>
    rcases hsuffix with rfl | rfl
    · rw [numericOrString_suffix (.inr (.inl rfl)), if_neg (by decide), if_pos (by decide), parseIntegerValue_decimal h]
      rfl
    · rw [numericOrString_suffix (.inr (.inl rfl)), if_neg (by decide), if_pos (by decide), parseIntegerValue_decimal h]
      rfl
  | int h =>
    rw [numericOrString_plain, parseIntegerValue_decimal h]
    rfl
  | long h hsuffix =>
    rcases hsuffix with rfl | rfl
    · rw [numericOrString_suffix (.inr (.inr rfl)), if_neg (by decide), if_neg (by decide),
        parseIntegerValue_decimal h]
      rfl
    · rw [numericOrString_suffix (.inr (.inr rfl)), if_neg (by decide), if_neg (by decide),
        parseIntegerValue_decimal h]
      rfl

/-- The text of an integer has no character that ends it. -/
theorem endsToken_number (h : NumberText tag text) : text ≠ [] ∧ ∀ c ∈ text, endsToken false c = false := by
  have hsuffixed {value : ℤ} {suffix : Char} (hsuffix : endsToken false suffix = false) :
      decimal value ++ [suffix] ≠ [] ∧ ∀ c ∈ decimal value ++ [suffix], endsToken false c = false := by
    refine ⟨List.append_ne_nil_of_right_ne_nil _ (List.cons_ne_nil _ _), fun c hc => ?_⟩
    rcases List.mem_append.mp hc with hc | hc
    · exact endsToken_decimal hc
    · rw [List.mem_singleton.mp hc]
      exact hsuffix
  cases h with
  | byte h hsuffix => rcases hsuffix with rfl | rfl <;> exact hsuffixed rfl
  | short h hsuffix => rcases hsuffix with rfl | rfl <;> exact hsuffixed rfl
  | int h => exact ⟨decimal_ne_nil _, fun c hc => endsToken_decimal hc⟩
  | long h hsuffix => rcases hsuffix with rfl | rfl <;> exact hsuffixed rfl

theorem isBlank_of_endsToken (h : endsToken false c = false) : isBlank c = false := by
  rw [endsToken, Bool.or_eq_false_iff] at h
  exact h.2

theorem bareToken_number (h : NumberText tag text) (hends : Ends rest) :
    bareToken total false (text ++ rest) = .ok (text, rest) := by
  obtain ⟨hne, htoken⟩ := endsToken_number h
  obtain ⟨c, tail, rfl⟩ := List.exists_cons_of_ne_nil hne
  have hall : ∀ d ∈ c :: tail, (!endsToken false d) = true := fun d hd => by
    rw [htoken d hd]
    rfl
  have hstop : (rest.takeWhile fun c => !endsToken false c) = [] ∧
      (rest.dropWhile fun c => !endsToken false c) = rest := by
    cases rest with
    | nil => exact ⟨rfl, rfl⟩
    | cons d other =>
      have hd : ¬ (!endsToken false d) = true := by
        rw [hends d other rfl]
        decide
      exact ⟨List.takeWhile_cons_of_neg hd, List.dropWhile_cons_of_neg hd⟩
  have hskip : skipSpace (c :: tail ++ rest) = c :: tail ++ rest :=
    skipSpace_cons (isBlank_of_endsToken (htoken c List.mem_cons_self))
  rw [bareToken, hskip, List.takeWhile_append_of_pos hall, List.dropWhile_append_of_pos hall, hstop.1, hstop.2, List.append_nil]
  exact if_neg (List.cons_ne_nil _ _)

end Numbers

/-! ## Entries in any order -/

section Entries

variable {κ α : Type} [LinearOrder κ] {entries : List (κ × α)}

/-- Putting in an entry with a new key adds it. -/
theorem perm_setEntry {key : κ} {value : α} (h : ∀ entry ∈ entries, entry.1 ≠ key) :
    (SortedMap.setEntry key value entries).Perm ((key, value) :: entries) := by
  induction entries with
  | nil => exact List.Perm.refl _
  | cons first rest ih =>
    have hne := h first List.mem_cons_self
    rw [SortedMap.setEntry]
    split
    · exact List.Perm.refl _
    · rw [if_neg fun heq => hne heq.symm]
      have hrest := ih fun entry hentry => h entry (List.mem_cons_of_mem first hentry)
      exact (hrest.cons first).trans (List.Perm.swap _ _ _)

theorem perm_foldl_set {written : List (κ × α)} {map : SortedMap κ α}
    (h : (written.map Prod.fst).Nodup) (hnew : ∀ entry ∈ map.entries, ∀ other ∈ written, entry.1 ≠ other.1) :
    (written.foldl (fun map entry => map.set entry.1 entry.2) map).entries.Perm (written ++ map.entries) := by
  induction written generalizing map with
  | nil => exact List.Perm.refl _
  | cons first rest ih =>
    rw [List.map_cons, List.nodup_cons] at h
    have hset : (map.set first.1 first.2).entries.Perm (first :: map.entries) :=
      perm_setEntry fun entry hentry => hnew entry hentry first List.mem_cons_self
    have hrest := @ih (map.set first.1 first.2) h.2 (by
      intro entry hentry other hother
      rcases List.mem_cons.mp (hset.mem_iff.mp hentry) with rfl | hold
      · intro heq
        exact h.1 (heq ▸ List.mem_map_of_mem hother)
      · exact hnew entry hold other (List.mem_cons_of_mem first hother))
    exact hrest.trans ((hset.append_left rest).trans List.perm_middle)

/-- A map is what its entries give in any order. -/
theorem entries_of_perm {written : List (κ × α)}
    (hsorted : entries.Pairwise fun first second => first.1 < second.1) (hperm : written.Perm entries) :
    (written.foldl (fun map entry => map.set entry.1 entry.2) SortedMap.empty).entries = entries := by
  have hnodup : (entries.map Prod.fst).Nodup :=
    List.pairwise_map.mpr (hsorted.imp fun hlt => ne_of_lt hlt)
  have hfold := @perm_foldl_set _ _ _ written SortedMap.empty ((hperm.map Prod.fst).nodup_iff.mpr hnodup)
    (fun _ hno => absurd hno List.not_mem_nil)
  have hboth : (written.foldl (fun map entry => map.set entry.1 entry.2) SortedMap.empty).entries.Perm
      entries := by
    refine hfold.trans ?_
    rw [show SortedMap.entries (SortedMap.empty : SortedMap κ α) = [] from rfl, List.append_nil]
    exact hperm
  refine List.Perm.eq_of_pairwise ?_ (SortedMap.sorted _) hsorted hboth
  intro first second _ _ hlt hgt
  exact absurd hlt (lt_asymm hgt)

end Entries

/-! ## Loops -/

section Loops

variable {total : ℕ} {σ α : Type} {close : Char} {missing truncated : String} {before rest : List Char}
  {c : Char} {parts : List (List Char)} {body : List Char} {tag : Tag} {text : List Char}

theorem endsToken_of_isBlank (h : isBlank c = true) : endsToken false c = true := by
  rw [endsToken, h, Bool.or_true]

/-- Space ends an integer, and so does what ends it behind the space. -/
theorem ends_blank (h : Blank before) (hc : endsToken false c = true) : Ends (before ++ c :: rest) := by
  intro d tail heq
  cases before with
  | nil =>
    rw [← (List.cons.inj heq).1]
    exact hc
  | cons e others =>
    rw [← (List.cons.inj heq).1]
    exact endsToken_of_isBlank (h e List.mem_cons_self)

/-- The loop reads all items that stand before the closing character. -/
theorem itemsLoop_joined (hblank : isBlank close = false) (hcomma : ',' ≠ close)
    (hclose : endsToken false close = true) {item : σ → List Char → Except String (σ × List Char)}
    {push : σ → α → σ} {Good : σ → Prop} {parts : List (List Char)} {body : List Char} (hbody : Joined parts body)
    (hne : parts ≠ []) {items : List α} (hparts : parts.length = items.length)
    (hitem : ∀ pair ∈ items.zip parts, ∀ state before tail, Good state → Blank before → Ends tail →
      item state (before ++ pair.2 ++ tail) = .ok (push state pair.1, tail) ∧ Good (push state pair.1))
    {rounds : ℕ} {state : σ} (hgood : Good state) (hrounds : body.length < rounds) :
    itemsLoop total close missing truncated item rounds state (body ++ close :: rest) =
      .ok (items.foldl push state, rest) := by
  obtain ⟨rounds, rfl⟩ : ∃ n, rounds = n + 1 := ⟨rounds - 1, by omega⟩
  induction hbody generalizing items rounds state with
  | nil => exact absurd rfl hne
  | @last before part after hbefore hafter =>
    obtain ⟨a, rfl⟩ := List.length_eq_one_iff.mp hparts.symm
    obtain ⟨hread, -⟩ := hitem (a, part) List.mem_cons_self state before (after ++ close :: rest) hgood hbefore
      (ends_blank hafter hclose)
    rw [itemsLoop, List.append_assoc, hread, NestedLoop.ok_bind]
    dsimp only
    rw [consume_blank hafter, consume_self hblank]
    rfl
  | @cons before part after text others hbefore hafter hrest h ih =>
    cases items with
    | nil => cases hparts
    | cons a items =>
      obtain ⟨hread, hnext⟩ := hitem (a, part) List.mem_cons_self state before
        (after ++ ',' :: (text ++ close :: rest)) hgood hbefore (ends_blank hafter rfl)
      rw [List.length_append, List.length_cons] at hrounds
      obtain ⟨rounds, rfl⟩ : ∃ n, rounds = n + 1 := ⟨rounds - 1, by omega⟩
      have hinner := ih hrest (Nat.succ.inj hparts)
        (fun pair hpair => hitem pair (List.mem_cons_of_mem _ hpair)) hnext rounds (by omega)
      have htext : before ++ part ++ after ++ ',' :: text ++ close :: rest =
          before ++ part ++ (after ++ ',' :: (text ++ close :: rest)) := by
        simp only [List.append_assoc, List.cons_append]
      rw [itemsLoop, htext, hread, NestedLoop.ok_bind]
      dsimp only
      rw [consume_blank hafter, consume_ne rfl hcomma]
      dsimp only
      rw [if_neg (by decide), expect_head rfl, NestedLoop.ok_bind]
      exact hinner

theorem joined_length (h : Joined parts body) : ∀ part ∈ parts, part.length ≤ body.length := by
  induction h with
  | nil => exact fun _ hno => absurd hno List.not_mem_nil
  | @last before part after =>
    intro other hother
    rw [List.mem_singleton.mp hother, List.length_append, List.length_append]
    omega
  | @cons before part after text rest hbefore hafter hrest h ih =>
    intro other hother
    rw [List.length_append, List.length_append, List.length_append, List.length_cons]
    rcases List.mem_cons.mp hother with rfl | hother
    · omega
    · have hle := ih other hother
      omega

/-- No parts are space only. -/
theorem joined_nil (h : Joined [] body) : Blank body := by
  cases h with
  | nil hblank => exact hblank

/-- The characters with which a text of a tag begins. -/
def Opens (c : Char) : Prop := c.isDigit = true ∨ c = '-' ∨ isQuote c = true ∨ c = '[' ∨ c = '\x7b'

theorem Opens.facts (h : Opens c) : isBlank c = false ∧ c ≠ ']' ∧ c ≠ '\x7d' ∧
    ¬ (c = 'B' ∨ c = 'b' ∨ c = 'I' ∨ c = 'i' ∨ c = 'L' ∨ c = 'l') := by
  rcases h with hdigit | rfl | hquote | rfl | rfl
  · have hne {d : Char} (hd : d.isDigit = false) : c ≠ d := by
      rintro rfl
      rw [hd] at hdigit
      cases hdigit
    refine ⟨?_, hne rfl, hne rfl, ?_⟩
    · rw [isBlank, decide_eq_false (hne rfl), decide_eq_false (hne rfl), decide_eq_false (hne rfl),
        decide_eq_false (hne rfl)]
      rfl
    · rintro (h | h | h | h | h | h) <;> exact hne rfl h
  · decide
  · rw [isQuote, Bool.or_eq_true, decide_eq_true_eq, decide_eq_true_eq] at hquote
    rcases hquote with rfl | rfl <;> decide
  · decide
  · decide

theorem number_opens (h : NumberText tag text) : ∃ c tail, text = c :: tail ∧ (c.isDigit = true ∨ c = '-') := by
  have hdecimal (value : ℤ) (more : List Char) :
      ∃ c tail, decimal value ++ more = c :: tail ∧ (c.isDigit = true ∨ c = '-') := by
    obtain ⟨c, tail, heq⟩ := List.exists_cons_of_ne_nil (decimal_ne_nil value)
    refine ⟨c, tail ++ more, by rw [heq, List.cons_append], @isDigit_of_mem_decimal value c ?_⟩
    rw [heq]
    exact List.mem_cons_self
  cases h with
  | byte => exact hdecimal _ _
  | short => exact hdecimal _ _
  | @int value =>
    have hplain := hdecimal value []
    rwa [List.append_nil] at hplain
  | long => exact hdecimal _ _

theorem quoted_opens {value : List Char} (h : QuotedText value text) :
    ∃ c tail, text = c :: tail ∧ isQuote c = true := by
  obtain ⟨quote, body, hquote, -, rfl⟩ := h
  exact ⟨quote, _, rfl, hquote⟩

theorem renders_opens (h : Renders tag text) : ∃ c tail, text = c :: tail ∧ Opens c := by
  cases h with
  | number h =>
    obtain ⟨c, tail, heq, hc⟩ := number_opens h
    exact ⟨c, tail, heq, hc.imp_right .inl⟩
  | string h =>
    obtain ⟨c, tail, heq, hc⟩ := quoted_opens h
    exact ⟨c, tail, heq, .inr (.inr (.inl hc))⟩
  | byteArray | intArray | longArray | list => exact ⟨'[', _, rfl, .inr (.inr (.inr (.inl rfl)))⟩
  | compound => exact ⟨'\x7b', _, rfl, .inr (.inr (.inr (.inr rfl)))⟩

/-- Without the space before its first part, a body begins with that part. -/
theorem joined_skipSpace (h : Joined parts body) (hne : parts ≠ [])
    (hopens : ∀ part ∈ parts, ∃ c tail, part = c :: tail ∧ Opens c) :
    ∃ c tail, Joined parts (c :: tail) ∧ Opens c ∧ ∀ rest, skipSpace (body ++ rest) = c :: tail ++ rest := by
  have hskip {before part : List Char} (hbefore : Blank before) (hpart : ∃ c tail, part = c :: tail ∧ Opens c)
      (more : List Char) : ∃ c tail, part ++ more = c :: tail ∧ Opens c ∧
        ∀ rest, skipSpace (before ++ (part ++ more) ++ rest) = c :: tail ++ rest := by
    obtain ⟨c, tail, rfl, hc⟩ := hpart
    refine ⟨c, tail ++ more, rfl, hc, fun rest => ?_⟩
    rw [List.append_assoc, skipSpace_blank hbefore]
    exact skipSpace_cons hc.facts.1
  have hempty : Blank [] := fun _ hno => absurd hno List.not_mem_nil
  cases h with
  | nil => exact absurd rfl hne
  | @last before part after hbefore hafter =>
    obtain ⟨c, tail, heq, hc, hrest⟩ := hskip hbefore (hopens part List.mem_cons_self) after
    refine ⟨c, tail, ?_, hc, fun rest => ?_⟩
    · rw [← heq]
      exact .last hempty hafter
    · rw [List.append_assoc before]
      exact hrest rest
  | @cons before part after text others hbefore hafter hothers h =>
    obtain ⟨c, tail, heq, hc, hrest⟩ := hskip hbefore (hopens part List.mem_cons_self) (after ++ ',' :: text)
    refine ⟨c, tail, ?_, hc, fun rest => ?_⟩
    · rw [← heq, ← List.append_assoc]
      exact .cons hempty hafter hothers h
    · rw [List.append_assoc before part after, List.append_assoc before, List.append_assoc part]
      exact hrest rest

/-- Behind the opening character a container is closed at once if it has no parts, and not if it has. -/
theorem consume_close (hclose : close = ']' ∨ close = '\x7d') {parts : List (List Char)} {body : List Char}
    (h : Joined parts body) (hopens : ∀ part ∈ parts, ∃ c tail, part = c :: tail ∧ Opens c) :
    (parts = [] ∧ consume close (body ++ close :: rest) = (true, rest)) ∨
      (parts ≠ [] ∧ ∃ body', consume close (body ++ close :: rest) = (false, body' ++ close :: rest) ∧
        Joined parts body') := by
  by_cases hne : parts = []
  · subst hne
    refine .inl ⟨rfl, ?_⟩
    rw [consume_blank (joined_nil h), consume_self (by rcases hclose with rfl | rfl <;> rfl)]
  · obtain ⟨c, tail, hjoined, hc, hskip⟩ := joined_skipSpace h hne hopens
    refine .inr ⟨hne, c :: tail, ?_, hjoined⟩
    have hother : c ≠ close := by
      rcases hclose with rfl | rfl
      · exact hc.facts.2.1
      · exact hc.facts.2.2.1
    rw [consume, hskip]
    exact if_neg hother

end Loops

/-! ## Containers -/

section Containers

variable {total : ℕ} {parseValue : ValueParser} {space body rest : List Char} {parts : List (List Char)}
  {element : TagType}

/-- A typed array is read by its prefix and its items. -/
theorem parseList_array {letter : Char} (hletter : letter = 'B' ∨ letter = 'I' ∨ letter = 'L') {tagOf : ℤ → Tag}
    (htag : ∀ value, (arrayType letter).item (tagOf value) = some value) {values : List ℤ}
    (hspace : Blank space) (hparts : parts.length = values.length)
    (hnumbers : ∀ pair ∈ values.zip parts, NumberText (tagOf pair.1) pair.2) (hbody : Joined parts body)
    (hread : ∀ pair ∈ values.zip parts, ∀ before tail, Blank before → Ends tail →
      parseValue (before ++ pair.2 ++ tail) = .ok (tagOf pair.1, tail)) :
    parseList total parseValue ('[' :: (space ++ letter :: ';' :: (body ++ ']' :: rest))) =
      .ok ((arrayType letter).array values, rest) := by
  have hword : arrayPrefix (letter :: ';' :: (body ++ ']' :: rest)) =
      some (letter, ';' :: (body ++ ']' :: rest)) := by
    rcases hletter with rfl | rfl | rfl <;> rfl
  have hblank : isBlank letter = false := by
    rcases hletter with rfl | rfl | rfl <;> rfl
  have hopens : ∀ part ∈ parts, ∃ c tail, part = c :: tail ∧ Opens c := by
    refine NestedLoop.forall_of_zip hparts fun pair hpair => ?_
    obtain ⟨c, tail, heq, hc⟩ := number_opens (hnumbers pair hpair)
    exact ⟨c, tail, heq, hc.imp_right .inl⟩
  rw [parseList, expect_head rfl, NestedLoop.ok_bind, skipSpace_blank hspace, skipSpace_cons hblank]
  dsimp only
  rw [hword]
  dsimp only
  rw [parseTypedArray, expect_head rfl, NestedLoop.ok_bind]
  rcases @consume_close ']' rest (.inl rfl) parts body hbody hopens with
    ⟨hempty, hclosed⟩ | ⟨hne, body', hopen, hbody'⟩
  · have hvalues : values = [] := List.eq_nil_of_length_eq_zero (by rw [← hparts, hempty, List.length_nil])
    rw [hclosed, hvalues]
    rfl
  · have hloop := @itemsLoop_joined total _ _ ']' ((arrayType letter).name ++ " array 项之间缺少逗号")
      "标签值被截断" rest rfl (by decide) rfl (arrayItem total parseValue (arrayType letter))
      (fun values value => values ++ [value]) (fun _ => True) parts body' hbody' hne values hparts
      (fun pair hpair state before tail _ hbefore htail => by
        refine ⟨?_, trivial⟩
        rw [arrayItem, hread pair hpair before tail hbefore htail, NestedLoop.ok_bind]
        dsimp only
        rw [htag]
        rfl) (body' ++ ']' :: rest).length [] trivial (by
          rw [List.length_append, List.length_cons]
          omega)
    rw [hopen]
    dsimp only
    rw [if_neg (by decide), hloop, NestedLoop.ok_bind, NestedLoop.foldl_append_singleton, List.nil_append]
    rfl

theorem arrayPrefix_none {c : Char} {tail : List Char}
    (h : ¬ (c = 'B' ∨ c = 'b' ∨ c = 'I' ∨ c = 'i' ∨ c = 'L' ∨ c = 'l')) : arrayPrefix (c :: tail) = none := by
  unfold arrayPrefix
  split
  case h_1 letter rest heq =>
    cases heq
    exact if_neg h
  case h_2 => rfl

/-- Items of one type are pushed one after the other. -/
theorem foldl_pushItem (items acc : List Tag) (before : TagType) :
    items.foldl (fun state item => (element, state.2 ++ [item])) (before, acc) =
      (if items = [] then before else element, acc ++ items) := by
  induction items generalizing acc before with
  | nil =>
    rw [if_pos rfl, List.append_nil]
    rfl
  | cons item rest ih =>
    rw [List.foldl_cons, ih, if_neg (List.cons_ne_nil _ _), List.append_assoc]
    split <;> rfl

theorem parseList_list {items : List Tag} (htype : ∀ item ∈ items, item.type = element)
    (hempty : items = [] → element = .End) (hparts : parts.length = items.length)
    (hitems : ∀ pair ∈ items.zip parts, Renders pair.1 pair.2) (hbody : Joined parts body)
    (hread : ∀ pair ∈ items.zip parts, ∀ before tail, Blank before → Ends tail →
      parseValue (before ++ pair.2 ++ tail) = .ok (pair.1, tail)) :
    parseList total parseValue ('[' :: (body ++ ']' :: rest)) = .ok (.list element items, rest) := by
  have hopens : ∀ part ∈ parts, ∃ c tail, part = c :: tail ∧ Opens c :=
    NestedLoop.forall_of_zip hparts fun pair hpair => renders_opens (hitems pair hpair)
  have hskip : ∃ text, skipSpace (body ++ ']' :: rest) = text ∧ arrayPrefix text = none ∧
      consume ']' text = consume ']' (body ++ ']' :: rest) := by
    by_cases hne : parts = []
    · subst hne
      refine ⟨']' :: rest, ?_, arrayPrefix_none (by decide), ?_⟩
      · rw [skipSpace_blank (joined_nil hbody)]
        exact skipSpace_cons rfl
      · rw [consume_blank (joined_nil hbody)]
    · obtain ⟨c, tail, hjoined, hc, hrest⟩ := joined_skipSpace hbody hne hopens
      refine ⟨_, hrest _, arrayPrefix_none hc.facts.2.2.2, ?_⟩
      rw [consume, consume, hrest, List.cons_append, skipSpace_cons hc.facts.1]
  obtain ⟨text, htext, hnone, hsame⟩ := hskip
  rw [parseList, expect_head rfl, NestedLoop.ok_bind, htext]
  dsimp only
  rw [hnone, hsame]
  dsimp only
  rcases @consume_close ']' rest (.inl rfl) parts body hbody hopens with
    ⟨hnil, hclosed⟩ | ⟨hne, body', hopen, hbody'⟩
  · have hnoItems : items = [] := List.eq_nil_of_length_eq_zero (by rw [← hparts, hnil, List.length_nil])
    rw [hclosed, hempty hnoItems, hnoItems]
    rfl
  · have hsome : items ≠ [] := by
      rintro rfl
      exact hne (List.eq_nil_of_length_eq_zero hparts)
    have hloop := @itemsLoop_joined total _ _ ']' "list 项之间缺少逗号" "标签值被截断" rest rfl (by decide) rfl
      (listItem total parseValue) (fun state item => (element, state.2 ++ [item]))
      (fun state => state.2 = [] ∨ state.1 = element) parts body' hbody' hne items hparts
      (fun pair hpair state before tail hgood hbefore htail => by
        refine ⟨?_, .inr rfl⟩
        have hitem : pair.1.type = element := htype pair.1 (List.of_mem_zip hpair).1
        have hpush : pushBack state.1 state.2 pair.1 = some (element, state.2 ++ [pair.1]) := by
          rw [pushBack, hitem]
          by_cases hfirst : state.2 = []
          · rw [if_pos hfirst, hfirst]
            rfl
          · rw [if_neg hfirst, hgood.resolve_left hfirst]
            exact if_pos rfl
        rw [listItem, hread pair hpair before tail hbefore htail, NestedLoop.ok_bind]
        dsimp only
        rw [hpush]
        rfl) (body' ++ ']' :: rest).length (.End, []) (.inl rfl) (by
          rw [List.length_append, List.length_cons]
          omega)
    rw [hopen]
    dsimp only
    rw [if_neg (by decide), hloop, NestedLoop.ok_bind, foldl_pushItem, if_neg hsome, List.nil_append]
    rfl

/-- The entries are put into a map as they come. -/
theorem parseCompound_entries {written : Entries} {parts : List EntryText}
    (hparts : parts.length = written.length) (hblank : ∀ part ∈ parts, Blank part.before ∧ Blank part.after)
    (hkeys : ∀ pair ∈ written.zip parts, QuotedText pair.1.1 pair.2.key)
    (hbody : Joined (parts.map EntryText.text) body)
    (hread : ∀ pair ∈ written.zip parts, ∀ before tail, Blank before → Ends tail →
      parseValue (before ++ pair.2.value ++ tail) = .ok (pair.1.2, tail)) :
    parseCompound total parseValue ('\x7b' :: (body ++ '\x7d' :: rest)) =
      .ok (.compound (written.foldl (fun map entry => map.set entry.1 entry.2) SortedMap.empty).entries,
        rest) := by
  have hopens : ∀ part ∈ parts.map EntryText.text, ∃ c tail, part = c :: tail ∧ Opens c := by
    intro text htext
    obtain ⟨part, hpart, rfl⟩ := List.mem_map.mp htext
    have hquoted := @NestedLoop.forall_of_zip _ _ _ _ (fun part => ∃ c tail, part.key = c :: tail ∧ isQuote c = true) hparts
      (fun pair hpair => quoted_opens (hkeys pair hpair)) part hpart
    obtain ⟨c, tail, heq, hc⟩ := hquoted
    refine ⟨c, tail ++ part.before ++ ':' :: (part.after ++ part.value), ?_, .inr (.inr (.inl hc))⟩
    rw [EntryText.text, heq]
    rfl
  rw [parseCompound, expect_head rfl, NestedLoop.ok_bind]
  rcases @consume_close '\x7d' rest (.inr rfl) _ body hbody hopens with
    ⟨hnil, hclosed⟩ | ⟨hne, body', hopen, hbody'⟩
  · have hnone : written = [] := by
      refine List.eq_nil_of_length_eq_zero ?_
      rw [← hparts, List.map_eq_nil_iff.mp hnil, List.length_nil]
    rw [hclosed, hnone]
    rfl
  · have hloop := @itemsLoop_joined total _ _ '\x7d' "compound 项之间缺少逗号" "compound key 为空" rest rfl
      (by decide) rfl (compoundItem total parseValue) (fun map entry => map.set entry.1 entry.2)
      (fun _ => True) (parts.map EntryText.text) body' hbody' hne written
      (by rw [List.length_map, hparts])
      (fun pair hpair state before tail _ hbefore htail => by
        refine ⟨?_, trivial⟩
        rw [List.zip_map_right] at hpair
        obtain ⟨⟨entry, part⟩, hmem, rfl⟩ := List.mem_map.mp hpair
        obtain ⟨hspace, hspace'⟩ := hblank part (List.of_mem_zip hmem).2
        have htext : before ++ EntryText.text part ++ tail =
            before ++ part.key ++ (part.before ++ ':' :: (part.after ++ part.value ++ tail)) := by
          rw [EntryText.text]
          simp only [List.append_assoc, List.cons_append]
        have hvalue := hread (entry, part) hmem part.after tail hspace' htail
        rw [compoundItem, Prod.map_snd, htext, parseKey_quoted hbefore (hkeys (entry, part) hmem),
          NestedLoop.ok_bind]
        dsimp only
        rw [expect_self hspace rfl, NestedLoop.ok_bind, hvalue, NestedLoop.ok_bind]
        rfl) (body' ++ '\x7d' :: rest).length SortedMap.empty trivial (by
          rw [List.length_append, List.length_cons]
          omega)
    rw [hopen]
    dsimp only
    rw [if_neg (by decide), hloop, NestedLoop.ok_bind]
    rfl

end Containers

/-! ## Values -/

section Values

variable {floats : FloatReading} {total levels : ℕ} {before rest text : List Char} {tag : Tag}
  {tail : List Char}

/-- A value is told by its first character. -/
theorem parseValue_head {c : Char} (hbefore : Blank before) (hblank : isBlank c = false) :
    parseValue floats total (levels + 1) (before ++ c :: tail) =
      if c = '\x7b' then parseCompound total (parseValue floats total levels) (c :: tail)
      else if c = '[' then parseList total (parseValue floats total levels) (c :: tail)
      else if isQuote c then (quotedString total (c :: tail)).map fun found => (.string found.1, found.2)
      else do
        let (token, rest) ← bareToken total false (c :: tail)
        let tag ← numericOrString floats total token rest
        return (tag, rest) := by
  rw [parseValue.eq_def]
  dsimp only
  rw [skipSpace_blank hbefore, skipSpace_cons hblank]

/-- An integer may go on behind its text. -/
def IsInteger : Tag → Prop
  | .byte _ | .short _ | .int _ | .long _ => True
  | _ => False

theorem isInteger_number (h : NumberText tag text) : IsInteger tag := by
  cases h <;> trivial

theorem parseValue_number (h : NumberText tag text) (hbefore : Blank before) (hends : Ends rest) :
    parseValue floats total (levels + 1) (before ++ text ++ rest) = .ok (tag, rest) := by
  obtain ⟨c, tail, heq, hc⟩ := number_opens h
  have hplain : c ≠ '\x7b' ∧ c ≠ '[' ∧ isQuote c = false := by
    rcases hc with hdigit | rfl
    · have hne {d : Char} (hd : d.isDigit = false) : c ≠ d := by
        rintro rfl
        rw [hd] at hdigit
        cases hdigit
      refine ⟨hne rfl, hne rfl, ?_⟩
      rw [isQuote, decide_eq_false (hne rfl), decide_eq_false (hne rfl)]
      rfl
    · decide
  have hblank : isBlank c = false := Opens.facts (hc.imp_right .inl) |>.1
  rw [List.append_assoc, heq, List.cons_append, parseValue_head hbefore hblank, if_neg hplain.1,
    if_neg hplain.2.1, if_neg (by rw [hplain.2.2]; decide), ← List.cons_append, ← heq,
    bareToken_number h hends, NestedLoop.ok_bind]
  dsimp only
  rw [numericOrString_number h]
  rfl

theorem parseValue_list (hbefore : Blank before) :
    parseValue floats total (levels + 1) (before ++ '[' :: tail) =
      parseList total (parseValue floats total levels) ('[' :: tail) := by
  rw [parseValue_head hbefore rfl, if_neg (by decide), if_pos rfl]

theorem parseValue_array {letter : Char} (hletter : letter = 'B' ∨ letter = 'I' ∨ letter = 'L') {tagOf : ℤ → Tag}
    (htag : ∀ value, (arrayType letter).item (tagOf value) = some value) {values : List ℤ}
    {parts : List (List Char)} {space body : List Char} (hspace : Blank space)
    (hparts : parts.length = values.length)
    (hitems : ∀ pair ∈ values.zip parts, NumberText (tagOf pair.1) pair.2) (hbody : Joined parts body)
    (hlevels : ('[' :: (space ++ letter :: ';' :: (body ++ [']']))).length ≤ levels) (hbefore : Blank before) :
    parseValue floats total levels (before ++ '[' :: (space ++ letter :: ';' :: (body ++ [']'])) ++ rest) =
      .ok ((arrayType letter).array values, rest) := by
  simp only [List.length_cons, List.length_append] at hlevels
  obtain ⟨levels, rfl⟩ : ∃ n, levels = n + 2 := ⟨levels - 2, by omega⟩
  have htext : before ++ '[' :: (space ++ letter :: ';' :: (body ++ [']'])) ++ rest =
      before ++ '[' :: (space ++ letter :: ';' :: (body ++ ']' :: rest)) := by
    simp only [List.append_assoc, List.cons_append, List.nil_append]
  rw [htext, parseValue_list hbefore]
  exact parseList_array hletter htag hspace hparts hitems hbody fun pair hpair before tail hblank hends =>
    parseValue_number (hitems pair hpair) hblank hends

/-- Every text of a tag is read as the tag, whatever stands behind it. -/
theorem parseValue_renders (h : Renders tag text) (hlevels : text.length ≤ levels) (hbefore : Blank before)
    (hends : IsInteger tag → Ends rest) :
    parseValue floats total levels (before ++ text ++ rest) = .ok (tag, rest) := by
  induction h generalizing levels before rest with
  | @number tag text h =>
    obtain ⟨c, tail, heq, -⟩ := number_opens h
    obtain ⟨levels, rfl⟩ : ∃ n, levels = n + 1 := ⟨levels - 1, by rw [heq, List.length_cons] at hlevels; omega⟩
    exact parseValue_number h hbefore (hends (isInteger_number h))
  | @string value text h =>
    have hread := @quotedString_quoted total [] rest value text (fun _ hno => absurd hno List.not_mem_nil) h
    obtain ⟨c, tail, rfl, hc⟩ := quoted_opens h
    obtain ⟨levels, rfl⟩ : ∃ n, levels = n + 1 := ⟨levels - 1, by rw [List.length_cons] at hlevels; omega⟩
    have hother : c ≠ '\x7b' ∧ c ≠ '[' := by
      constructor <;> rintro rfl <;> cases hc
    rw [List.append_assoc, List.cons_append, parseValue_head hbefore (isBlank_of_isQuote hc), if_neg hother.1,
      if_neg hother.2, if_pos hc]
    rw [List.nil_append, List.cons_append] at hread
    rw [hread]
    rfl
  | byteArray hspace hparts hitems hbody =>
    exact parseValue_array (.inl rfl) (fun _ => rfl) hspace hparts hitems hbody hlevels hbefore
  | intArray hspace hparts hitems hbody =>
    exact parseValue_array (.inr (.inl rfl)) (fun _ => rfl) hspace hparts hitems hbody hlevels hbefore
  | longArray hspace hparts hitems hbody =>
    exact parseValue_array (.inr (.inr rfl)) (fun _ => rfl) hspace hparts hitems hbody hlevels hbefore
  | @list element items parts body htype hempty hparts hitems hbody ih =>
    obtain ⟨levels, rfl⟩ : ∃ n, levels = n + 1 := ⟨levels - 1, by rw [List.length_cons] at hlevels; omega⟩
    rw [List.length_cons, List.length_append, List.length_singleton] at hlevels
    have htext : before ++ '[' :: (body ++ [']']) ++ rest = before ++ '[' :: (body ++ ']' :: rest) := by
      simp only [List.append_assoc, List.cons_append, List.nil_append]
    rw [htext, parseValue_list hbefore]
    refine parseList_list htype hempty hparts hitems hbody fun pair hpair before tail hblank htail => ?_
    have hlength := joined_length hbody pair.2 (List.of_mem_zip hpair).2
    exact ih pair hpair (by omega) hblank fun _ => htail
  | @compound entries written parts body hsorted hwritten hparts hblank hkeys hvalues hbody ih =>
    obtain ⟨levels, rfl⟩ : ∃ n, levels = n + 1 := ⟨levels - 1, by rw [List.length_cons] at hlevels; omega⟩
    rw [List.length_cons, List.length_append, List.length_singleton] at hlevels
    have htext : before ++ '\x7b' :: (body ++ ['\x7d']) ++ rest =
        before ++ '\x7b' :: (body ++ '\x7d' :: rest) := by
      simp only [List.append_assoc, List.cons_append, List.nil_append]
    have hread := @parseCompound_entries total (parseValue floats total levels) body rest written parts hparts
      hblank hkeys hbody fun pair hpair before tail hspace htail => by
        have hlength := joined_length hbody _ (List.mem_map_of_mem (List.of_mem_zip hpair).2)
        have hvalue : pair.2.value.length ≤ (EntryText.text pair.2).length := by
          rw [EntryText.text, List.length_append, List.length_append, List.length_cons, List.length_append]
          omega
        exact ih pair hpair (by omega) hspace fun _ => htail
    rw [htext, parseValue_head hbefore rfl, if_pos rfl, hread, entries_of_perm hsorted hwritten]

end Values

/-- Every text of a tag is parsed to the tag, and with more text behind it is refused, unless an integer goes
on there. -/
theorem parse_renders (floats : FloatReading) (tag : Tag) (before text after : List Char) (h : Renders tag text)
    (hbefore : Blank before) (hafter : Blank after) :
    parse floats (before ++ text ++ after) = .ok tag ∧
      ∀ extra, ¬ Blank extra → (IsInteger tag → Ends (after ++ extra)) →
        parse floats (before ++ text ++ after ++ extra) =
          fail (before ++ text ++ after ++ extra).length "根标签后存在多余内容" (skipSpace extra) := by
  have hread (rest : List Char) (hends : IsInteger tag → Ends rest) : parse floats (before ++ text ++ rest) =
      if skipSpace rest ≠ [] then
        fail (before ++ text ++ rest).length "根标签后存在多余内容" (skipSpace rest)
      else .ok tag := by
    obtain ⟨c, tail, rfl, hc⟩ := renders_opens h
    have hlength : (c :: tail).length ≤ (before ++ c :: tail ++ rest).length := by
      rw [List.length_append, List.length_append]
      omega
    have hvalue := @parseValue_renders floats (before ++ c :: tail ++ rest).length _ [] rest _ tag h hlength
      (fun _ hno => absurd hno List.not_mem_nil) hends
    have hskip : skipSpace (before ++ c :: tail ++ rest) = [] ++ c :: tail ++ rest := by
      rw [List.append_assoc, skipSpace_blank hbefore]
      exact skipSpace_cons hc.facts.1
    rw [parse, hskip, hvalue, NestedLoop.ok_bind]
    rfl
  have hclosed : IsInteger tag → Ends after := fun _ c tail heq => by
    refine endsToken_of_isBlank (hafter c ?_)
    rw [heq]
    exact List.mem_cons_self
  refine ⟨?_, fun extra hextra hends => ?_⟩
  · rw [hread after hclosed, if_neg (not_not.mpr (skipSpace_of_blank hafter))]
  · have hskip : skipSpace (after ++ extra) = skipSpace extra := skipSpace_blank hafter
    have hrest : skipSpace extra ≠ [] := by
      intro hnil
      refine hextra fun c hc => ?_
      exact List.dropWhile_eq_nil_iff.mp hnil c hc
    have hfull := hread (after ++ extra) hends
    rw [hskip, if_pos hrest, ← List.append_assoc] at hfull
    exact hfull

theorem parse_renders_list : parse ⟨fun _ => none, fun _ => 0⟩ ([] ++ "[1b,2b]".toList ++ [' ']) =
    .ok (.list .Byte [.byte 1, .byte 2]) ∧ ∀ extra, ¬ Blank extra →
      (IsInteger (.list .Byte [.byte 1, .byte 2]) → Ends ([' '] ++ extra)) →
        parse ⟨fun _ => none, fun _ => 0⟩ ([] ++ "[1b,2b]".toList ++ [' '] ++ extra) =
          fail ([] ++ "[1b,2b]".toList ++ [' '] ++ extra).length "根标签后存在多余内容" (skipSpace extra) := by
  have hone : NumberText (.byte 1) "1b".toList := .byte (by decide) (.inl rfl)
  have htwo : NumberText (.byte 2) "2b".toList := .byte (by decide) (.inl rfl)
  have hempty : Blank [] := fun _ hno => absurd hno List.not_mem_nil
  have hbody : Joined ["1b".toList, "2b".toList] "1b,2b".toList :=
    .cons hempty hempty (List.cons_ne_nil _ _) (.last hempty hempty)
  refine parse_renders ⟨fun _ => none, fun _ => 0⟩ (.list .Byte [.byte 1, .byte 2]) [] "[1b,2b]".toList [' ']
    (.list ?_ (fun hno => absurd hno (List.cons_ne_nil _ _)) rfl ?_ hbody) hempty ?_
  · intro item hitem
    simp only [List.mem_cons, List.not_mem_nil, or_false] at hitem
    rcases hitem with rfl | rfl <;> rfl
  · intro pair hpair
    simp only [List.zip_cons_cons, List.zip_nil_left, List.mem_cons, List.not_mem_nil, or_false] at hpair
    rcases hpair with rfl | rfl
    · exact .number hone
    · exact .number htwo
  · intro c hc
    rw [List.mem_singleton.mp hc]
    rfl

/-- An integer with a digit behind its text is another integer. -/
theorem parse_longer_integer : Renders (.int 5) ['5'] ∧
    parse ⟨fun _ => none, fun _ => 0⟩ (['5'] ++ ['6']) = .ok (.int 56) :=
  ⟨.number (.int (by decide)), rfl⟩

end Snbt

end WaterStructure
