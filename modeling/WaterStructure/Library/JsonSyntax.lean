import WaterStructure.Library.JsonCallback
import WaterStructure.Library.LastValue

/-!
# JSON texts and their events

A JSON text is a sequence of characters, stored as UTF-8, that stands for a document. A parser that keeps
no document reports one by its events, in the order of the text.
-/

namespace Json

/-! ## Texts -/

/-- Whitespace around a token. -/
def IsWhitespace (text : List Char) : Prop := ∀ c ∈ text, c = ' ' ∨ c = '\t' ∨ c = '\n' ∨ c = '\r'

/-- The character of an escape of one letter. -/
def escapedLetter : Char → Option Char
  | '"' => some '"'
  | '\\' => some '\\'
  | '/' => some '/'
  | 'b' => some (Char.ofNat 8)
  | 'f' => some (Char.ofNat 12)
  | 'n' => some '\n'
  | 'r' => some '\r'
  | 't' => some '\t'
  | _ => none

def hexDigit (c : Char) : Option ℕ :=
  if c.isDigit then some (c.toNat - '0'.toNat)
  else if 'a' ≤ c ∧ c ≤ 'f' then some (c.toNat - 'a'.toNat + 10)
  else if 'A' ≤ c ∧ c ≤ 'F' then some (c.toNat - 'A'.toNat + 10)
  else none

/-- The number of four hexadecimal digits. -/
def codeUnit : List Char → Option ℕ
  | [a, b, c, d] => do
    let a ← hexDigit a
    let b ← hexDigit b
    let c ← hexDigit c
    let d ← hexDigit d
    return ((a * 16 + b) * 16 + c) * 16 + d
  | _ => none

/-- The characters of a string, and what stands for them between the quotes. -/
inductive StringText : List Char → List Char → Prop
  | nil : StringText [] []
  | plain {c : Char} {value text : List Char} (hcontrol : 0x20 ≤ c.toNat) (hquote : c ≠ '"')
      (hescape : c ≠ '\\') (rest : StringText value text) : StringText (c :: value) (c :: text)
  | letter {c letter : Char} {value text : List Char} (hletter : escapedLetter letter = some c)
      (rest : StringText value text) : StringText (c :: value) ('\\' :: letter :: text)
  | unit {digits value text : List Char} {code : ℕ} (hcode : codeUnit digits = some code)
      (hsurrogate : code < 0xd800 ∨ 0xdfff < code) (rest : StringText value text) :
      StringText (Char.ofNat code :: value) ('\\' :: 'u' :: (digits ++ text))
  | pair {high low value text : List Char} {first second : ℕ} (hfirst : codeUnit high = some first)
      (hsecond : codeUnit low = some second) (hhigh : 0xd800 ≤ first ∧ first ≤ 0xdbff)
      (hlow : 0xdc00 ≤ second ∧ second ≤ 0xdfff) (rest : StringText value text) :
      StringText (Char.ofNat (0x10000 + (first - 0xd800) * 0x400 + (second - 0xdc00)) :: value)
        ('\\' :: 'u' :: (high ++ '\\' :: 'u' :: (low ++ text)))

/-- Some digits. -/
def IsDigits (text : List Char) : Prop := text ≠ [] ∧ ∀ c ∈ text, c.isDigit = true

/-- Digits that do not begin with a zero for nothing. -/
def IsWhole (text : List Char) : Prop := IsDigits text ∧ (text.head? = some '0' → text = ['0'])

def digitsNumber (digits : List Char) : ℕ :=
  digits.foldl (fun value c => value * 10 + (c.toNat - '0'.toNat)) 0

/-- A number with its sign. -/
def signed (negative : Bool) (value : ℚ) : ℚ := if negative then -value else value

/-- The fraction of a number, and its value. -/
inductive FractionText : ℚ → List Char → Prop
  | none : FractionText 0 []
  | digits {digits : List Char} (hdigits : IsDigits digits) :
      FractionText (digitsNumber digits / 10 ^ digits.length) ('.' :: digits)

/-- The exponent of a number, and its value. -/
inductive ExponentText : ℤ → List Char → Prop
  | none : ExponentText 0 []
  | bare {mark : Char} {digits : List Char} (hmark : mark = 'e' ∨ mark = 'E') (hdigits : IsDigits digits) :
      ExponentText (digitsNumber digits) (mark :: digits)
  | plus {mark : Char} {digits : List Char} (hmark : mark = 'e' ∨ mark = 'E') (hdigits : IsDigits digits) :
      ExponentText (digitsNumber digits) (mark :: '+' :: digits)
  | minus {mark : Char} {digits : List Char} (hmark : mark = 'e' ∨ mark = 'E')
      (hdigits : IsDigits digits) : ExponentText (-digitsNumber digits) (mark :: '-' :: digits)

/-- A number: one without a fraction and an exponent is an integer as far as 64 bits reach. Others must
round to a finite number of double precision. -/
inductive NumberText : Json → List Char → Prop
  | unsigned {digits : List Char} (hdigits : IsWhole digits) (hfits : digitsNumber digits < 2 ^ 64) :
      NumberText (.unsigned (digitsNumber digits)) digits
  | integer {digits : List Char} (hdigits : IsWhole digits) (hfits : digitsNumber digits ≤ 2 ^ 63) :
      NumberText (.integer (-digitsNumber digits)) ('-' :: digits)
  | float {negative : Bool} {whole fraction exponent : List Char} {part : ℚ} {power : ℤ}
      (hwhole : IsWhole whole) (hfraction : FractionText part fraction)
      (hexponent : ExponentText power exponent)
      (hinteger : fraction = [] → exponent = [] →
        if negative then 2 ^ 63 < digitsNumber whole else 2 ^ 64 ≤ digitsNumber whole)
      (hfinite : (digitsNumber whole + part) * (10 : ℚ) ^ power < 2 ^ 1024 - 2 ^ 970) :
      NumberText (.float (signed negative ((digitsNumber whole + part) * (10 : ℚ) ^ power)))
        ((if negative then ['-'] else []) ++ whole ++ fraction ++ exponent)

mutual

/-- A value, from its first character to its last one. -/
inductive ValueText : Json → List Char → Prop
  | null : ValueText .null "null".toList
  | false : ValueText (.boolean false) "false".toList
  | true : ValueText (.boolean true) "true".toList
  | number {value : Json} {text : List Char} (hnumber : NumberText value text) : ValueText value text
  | string {value text : List Char} (hstring : StringText value text) :
      ValueText (.string value) ('"' :: (text ++ ['"']))
  | emptyArray {space : List Char} (hspace : IsWhitespace space) :
      ValueText (.array []) ('[' :: (space ++ [']']))
  | array {items : List Json} {text : List Char} (hitems : ItemsText items text) :
      ValueText (.array items) ('[' :: (text ++ [']']))
  | emptyObject {space : List Char} (hspace : IsWhitespace space) :
      ValueText (.object []) ('\x7b' :: (space ++ ['\x7d']))
  | object {members : List (List Char × Json)} {text : List Char} (hmembers : MembersText members text) :
      ValueText (.object members) ('\x7b' :: (text ++ ['\x7d']))

/-- A value with whitespace around it. -/
inductive PaddedText : Json → List Char → Prop
  | padded {value : Json} {before text after : List Char} (hbefore : IsWhitespace before)
      (hvalue : ValueText value text) (hafter : IsWhitespace after) :
      PaddedText value (before ++ text ++ after)

/-- Values between commas. -/
inductive ItemsText : List Json → List Char → Prop
  | last {value : Json} {text : List Char} (hvalue : PaddedText value text) : ItemsText [value] text
  | cons {value : Json} {items : List Json} {text rest : List Char} (hvalue : PaddedText value text)
      (hitems : ItemsText items rest) : ItemsText (value :: items) (text ++ ',' :: rest)

/-- A name, a colon and a value. -/
inductive MemberText : List Char × Json → List Char → Prop
  | member {name : List Char} {value : Json} {before quoted after text : List Char}
      (hbefore : IsWhitespace before) (hname : StringText name quoted) (hafter : IsWhitespace after)
      (hvalue : PaddedText value text) :
      MemberText (name, value) (before ++ '"' :: (quoted ++ '"' :: (after ++ ':' :: text)))

inductive MembersText : List (List Char × Json) → List Char → Prop
  | last {member : List Char × Json} {text : List Char} (hmember : MemberText member text) :
      MembersText [member] text
  | cons {member : List Char × Json} {members : List (List Char × Json)} {text rest : List Char}
      (hmember : MemberText member text) (hmembers : MembersText members rest) :
      MembersText (member :: members) (text ++ ',' :: rest)

end

/-- The bytes of a JSON text that stands for a document. -/
def IsDocument (value : Json) (bytes : List UInt8) : Prop :=
  ∃ text, PaddedText value text ∧ bytes = text.flatMap String.utf8EncodeChar

/-! ## The first character -/

/-- What a text begins with: whitespace or the first character of a value. -/
def IsFirst (c : Char) : Prop :=
  c.isDigit = true ∨ c ∈ ['-', '"', '[', '\x7b', 'n', 't', 'f', ' ', '\t', '\n', '\r']

theorem exists_of_isWhole {digits : List Char} (h : IsWhole digits) :
    ∃ c rest, digits = c :: rest ∧ IsFirst c := by
  obtain ⟨c, rest, rfl⟩ := List.exists_cons_of_ne_nil h.1.1
  exact ⟨c, rest, rfl, .inl (h.1.2 c List.mem_cons_self)⟩

variable {value : Json} {text : List Char} {members : List (List Char × Json)}

theorem NumberText.exists_first (h : NumberText value text) : ∃ c rest, text = c :: rest ∧ IsFirst c := by
  cases h with
  | unsigned hdigits => exact exists_of_isWhole hdigits
  | integer hdigits => exact ⟨'-', _, rfl, .inr (by decide)⟩
  | @float negative whole fraction exponent part power hwhole =>
    cases negative with
    | true => exact ⟨'-', _, rfl, .inr (by decide)⟩
    | false =>
      obtain ⟨c, rest, rfl, hfirst⟩ := exists_of_isWhole hwhole
      exact ⟨c, rest ++ fraction ++ exponent, rfl, hfirst⟩

theorem ValueText.exists_first (h : ValueText value text) : ∃ c rest, text = c :: rest ∧ IsFirst c := by
  cases h with
  | null => exact ⟨'n', "ull".toList, rfl, .inr (by decide)⟩
  | false => exact ⟨'f', "alse".toList, rfl, .inr (by decide)⟩
  | true => exact ⟨'t', "rue".toList, rfl, .inr (by decide)⟩
  | number hnumber => exact hnumber.exists_first
  | string => exact ⟨'"', _, rfl, .inr (by decide)⟩
  | emptyArray => exact ⟨'[', _, rfl, .inr (by decide)⟩
  | array => exact ⟨'[', _, rfl, .inr (by decide)⟩
  | emptyObject => exact ⟨'\x7b', _, rfl, .inr (by decide)⟩
  | object => exact ⟨'\x7b', _, rfl, .inr (by decide)⟩

theorem PaddedText.exists_first (h : PaddedText value text) : ∃ c rest, text = c :: rest ∧ IsFirst c := by
  cases h with
  | @padded _ before inner after hbefore hvalue =>
    cases before with
    | nil =>
      obtain ⟨c, rest, rfl, hfirst⟩ := hvalue.exists_first
      exact ⟨c, rest ++ after, rfl, hfirst⟩
    | cons c before =>
      refine ⟨c, before ++ inner ++ after, rfl, .inr ?_⟩
      rcases hbefore c List.mem_cons_self with rfl | rfl | rfl | rfl <;> decide

/-- The first byte of a document is that of its first character. -/
theorem IsDocument.exists_first {bytes : List UInt8} (h : IsDocument value bytes) :
    ∃ c rest, bytes = UInt8.ofNat c.toNat :: rest ∧ IsFirst c := by
  obtain ⟨text, htext, rfl⟩ := h
  obtain ⟨c, rest, rfl, hfirst⟩ := htext.exists_first
  have hascii : c.toNat < 128 := by
    rcases hfirst with hdigit | hmem
    · rw [Char.isDigit, Bool.and_eq_true, decide_eq_true_eq, decide_eq_true_eq] at hdigit
      exact lt_of_le_of_lt (UInt32.le_iff_toNat_le.mp hdigit.2) (by decide)
    · simp only [List.mem_cons, List.not_mem_nil, or_false] at hmem
      rcases hmem with rfl | rfl | rfl | rfl | rfl | rfl | rfl | rfl | rfl | rfl | rfl <;> decide
  refine ⟨c, rest.flatMap String.utf8EncodeChar, ?_, hfirst⟩
  have hsmall : c.val.toNat ≤ 0x7f := Nat.lt_succ_iff.mp hascii
  rw [List.flatMap_cons, String.utf8EncodeChar, if_pos hsmall]
  rfl

/-! ## Events -/

/-- What a parser without a document reports. -/
inductive SaxEvent where
  | null
  | boolean (value : Bool)
  | numberInteger (value : ℤ)
  | numberUnsigned (value : ℕ)
  | numberFloat (value : ℚ)
  | string (value : List Char)
  | binary
  | startObject
  | key (name : List Char)
  | endObject
  | startArray
  | endArray
  | parseError

mutual

/-- The events of a value, in the order of its text. -/
def events : Json → List SaxEvent
  | .null => [.null]
  | .boolean value => [.boolean value]
  | .unsigned value => [.numberUnsigned value]
  | .integer value => [.numberInteger value]
  | .float value => [.numberFloat value]
  | .string value => [.string value]
  | .array items => .startArray :: (itemsEvents items ++ [.endArray])
  | .object members => .startObject :: (membersEvents members ++ [.endObject])
termination_by structural value => value

def itemsEvents : List Json → List SaxEvent
  | [] => []
  | item :: rest => item.events ++ itemsEvents rest
termination_by structural items => items

def membersEvents : List (List Char × Json) → List SaxEvent
  | [] => []
  | member :: rest => memberEvents member ++ membersEvents rest
termination_by structural members => members

def memberEvents : List Char × Json → List SaxEvent
  | (name, value) => .key name :: value.events
termination_by structural member => member

end

mutual

/-- How many containers stand in each other. -/
def depth : Json → ℕ
  | .array items => itemsDepth items + 1
  | .object members => membersDepth members + 1
  | _ => 0
termination_by structural value => value

def itemsDepth : List Json → ℕ
  | [] => 0
  | item :: rest => max item.depth (itemsDepth rest)
termination_by structural items => items

def membersDepth : List (List Char × Json) → ℕ
  | [] => 0
  | member :: rest => max (memberDepth member) (membersDepth rest)
termination_by structural members => members

def memberDepth : List Char × Json → ℕ
  | (_, value) => value.depth
termination_by structural member => member

end

theorem depth_le_itemsDepth {items : List Json} {item : Json} (h : item ∈ items) :
    item.depth ≤ itemsDepth items := by
  induction items with
  | nil => cases h
  | cons first rest ih =>
    rw [itemsDepth]
    rcases List.mem_cons.mp h with rfl | hrest
    · exact le_max_left _ _
    · exact (ih hrest).trans (le_max_right _ _)

theorem depth_le_membersDepth {member : List Char × Json} (h : member ∈ members) :
    member.2.depth ≤ membersDepth members := by
  induction members with
  | nil => cases h
  | cons first rest ih =>
    rw [membersDepth]
    rcases List.mem_cons.mp h with rfl | hrest
    · obtain ⟨name, value⟩ := member
      exact le_max_left _ _
    · exact (ih hrest).trans (le_max_right _ _)

/-! ## The members of a finished object -/

theorem lookup_eq_find (members : List (List Char × Json)) (name : List Char) :
    members.lookup name = SortedMap.find members name := by
  induction members with
  | nil => rfl
  | cons member rest ih =>
    obtain ⟨other, value⟩ := member
    rw [List.lookup_cons, SortedMap.find]
    by_cases hname : name = other
    · rw [hname, beq_self_eq_true, List.find?_cons_of_pos (by simp)]
      rfl
    · have hne : (name == other) = false := beq_eq_false_iff_ne.mpr hname
      rw [hne, List.find?_cons_of_neg (by simpa using Ne.symm hname)]
      exact ih

/-- The last member of a name counts. -/
theorem lookup_normalMembers {kept : List (List Char × Json)} (h : kept.Pairwise fun a b => a.1 < b.1)
    (name : List Char) :
    (normalMembers members kept).lookup name =
      (LastValue.lastValue (fun member : List Char × Json =>
        if member.1 = name then some member.2.normal else none) members).or (kept.lookup name) := by
  induction members generalizing kept with
  | nil => rfl
  | cons member rest ih =>
    obtain ⟨other, value⟩ := member
    rw [normalMembers, normalMember, storeMember, ih (SortedMap.pairwise_setEntry h other value.normal),
      LastValue.lastValue_cons, Option.or_assoc, lookup_eq_find, lookup_eq_find, SortedMap.find_setEntry _ _ _ _ h]
    refine congrArg _ ?_
    by_cases hname : other = name
    · rw [if_pos hname.symm, if_pos hname, Option.some_or]
    · rw [if_neg fun hsame => hname hsame.symm, if_neg hname, Option.none_or]

theorem member?_normal (members : List (List Char × Json)) (name : String) :
    (object members).normal.member? name =
      LastValue.lastValue (fun member : List Char × Json =>
        if member.1 = name.toList then some member.2.normal else none) members :=
  (lookup_normalMembers List.Pairwise.nil name.toList).trans Option.or_none

theorem normalItems_eq (items : List Json) : normalItems items = items.map normal := by
  induction items with
  | nil => rfl
  | cons item rest ih => rw [normalItems, ih, List.map_cons]

theorem toText_normal (value : Json) : value.normal.toText = value.toText := by
  cases value <;> rfl

theorem items?_normal (value : Json) : value.normal.items? = value.items?.map (List.map normal) := by
  cases value with
  | array items => exact congrArg some (normalItems_eq items)
  | null | boolean | unsigned | integer | float | string | object => rfl

end Json
