import Mathlib.Data.Char
import Mathlib.Data.List.Lex
import WaterStructure.Core.Text
import WaterStructure.Core.Types
import WaterStructure.Library.NestedLoop

/-!
# Block states in the constants of a BDX file

The writer puts the properties of a block state into one text, by name, with names and text values in
quotation marks. The reader takes such a text apart at the commas and at the first separator of each
part that stand outside of quotation marks. It reads back what the writer has written of properties
whose texts do not end with a backslash, except that it only knows three types of values. Behind such a
backslash the closing quotation mark does not count.
-/

namespace WaterStructure.Bdx

open NestedLoop

/-- `escaped` -/
def escaped (value : List Char) : List Char :=
  value.flatMap fun c => if c = '\\' ∨ c = '"' then ['\\', c] else [c]

def quoted (value : List Char) : List Char := '"' :: (escaped value ++ ['"'])

def valueText (property : BlockStateProperty) : List Char :=
  match property.type with
  | .String => quoted property.value
  | .Byte => if property.value = "0".toList then "false".toList else "true".toList
  | _ => property.value

def sortedProperties (state : BlockState) : List BlockStateProperty :=
  state.states.mergeSort fun left right => decide (left.name ≤ right.name)

def partText (property : BlockStateProperty) : List Char :=
  quoted property.name ++ '=' :: valueText property

/-- `state_string` -/
def stateString (state : BlockState) : List Char :=
  if state.states.isEmpty then "[]".toList
  else '[' :: (List.intercalate [','] ((sortedProperties state).map partText) ++ [']'])

def kMaximumStateProperties : ℕ := 128

/-- Whether the text behind a character is inside of quotation marks. A quotation mark behind a backslash
does not count. -/
def insideAfter (previous : Char) (inside : Bool) (c : Char) : Bool :=
  if c = '"' ∧ previous ≠ '\\' then !inside else inside

/-- Cut a text at the first of some characters that stands outside of quotation marks. -/
def cutUnquoted (stops : Char → Bool) (previous : Char) (inside : Bool) :
    List Char → Option (List Char × Char × List Char)
  | [] => none
  | c :: rest =>
    if stops c ∧ insideAfter previous inside c = false then some ([], c, rest)
    else
      (cutUnquoted stops c (insideAfter previous inside c) rest).map fun cut => (c :: cut.1, cut.2)

theorem eq_of_cutUnquoted {stops : Char → Bool} {previous c : Char} {inside : Bool}
    {text before after : List Char}
    (h : cutUnquoted stops previous inside text = some (before, c, after)) :
    text = before ++ c :: after := by
  induction text generalizing previous inside before with
  | nil => cases h
  | cons d rest ih =>
    rw [cutUnquoted] at h
    split at h
    · cases h
      rfl
    · obtain ⟨⟨front, cut⟩, hrest, heq⟩ := Option.map_eq_some_iff.mp h
      cases heq
      rw [ih hrest, List.cons_append]

/-- The parts between commas. -/
def splitParts (contents : List Char) : List (List Char) :=
  match _h : cutUnquoted (· = ',') ',' false contents with
  | none => [contents]
  | some (part, _, rest) => part :: splitParts rest
termination_by contents.length
decreasing_by
  rw [eq_of_cutUnquoted _h, List.length_append, List.length_cons]
  omega

def unescape : List Char → List Char
  | '\\' :: c :: rest => c :: unescape rest
  | c :: rest => c :: unescape rest
  | [] => []

def isQuoted (value : List Char) : Bool :=
  value.length ≥ 2 ∧ value.head? = some '"' ∧ value.getLast? = some '"'

def unquote (value : List Char) : List Char :=
  if isQuoted value then unescape value.tail.dropLast else value

def parseProperty (name value : List Char) : Except String BlockStateProperty :=
  let name := unquote (trimBy isBlank name)
  let value := trimBy isBlank value
  let boolean := value.map toLower
  if boolean = "true".toList then .ok ⟨name, .Byte, "1".toList⟩
  else if boolean = "false".toList then .ok ⟨name, .Byte, "0".toList⟩
  else if isQuoted value then .ok ⟨name, .String, unquote value⟩
  else
    match fromChars value with
    | none => .error ("BDX block state 值无效: " ++ String.ofList value)
    | some integer => .ok ⟨name, .Int, decimal integer⟩

/-- The loop over the parts, with the separator of the first one and the number of properties so far. -/
def parseParts : Option Char → ℕ → List (List Char) → Except String (List BlockStateProperty)
  | _, _, [] => .ok []
  | mode, count, part :: rest =>
    match cutUnquoted (fun c => c = '=' ∨ c = ':') ',' false part with
    | none =>
      if trimBy isBlank part ≠ [] then .error "BDX block states 缺少 ':' 或 '='"
      else parseParts mode count rest
    | some (name, separator, value) =>
      if count ≥ kMaximumStateProperties then .error "BDX block states 属性过多"
      else if mode.any (· ≠ separator) then .error "BDX block states 混用了 ':' 和 '='"
      else do
        let property ← parseProperty name value
        let properties ← parseParts (some separator) (count + 1) rest
        return property :: properties

def isClosing (c : Char) : Bool := c = ']' ∨ c = '}'

/-- What stands between the first opening and the last closing bracket. -/
def bracketContents (encoded : List Char) : Option (List Char) :=
  match encoded.dropWhile fun c => ¬ (c = '[' ∨ c = '{') with
  | [] => none
  | _ :: rest =>
    some (if rest.any isClosing then (rest.rdropWhile fun c => !isClosing c).dropLast else rest)

/-- `parse_block_states` -/
def parseBlockStates (encoded : List Char) : Except String (List BlockStateProperty) :=
  match bracketContents encoded with
  | none => .ok []
  | some contents => parseParts none 0 (splitParts contents)

section Cutting

variable {stops : Char → Bool}

/-- Scanning goes through the text without a stop, and changes the state from inside or outside of
quotation marks to the other one given. -/
def Passes (stops : Char → Bool) (inside : Bool) (text : List Char) (inside' : Bool) : Prop :=
  ∀ previous rest, previous ≠ '\\' → ∃ last, last ≠ '\\' ∧
    cutUnquoted stops previous inside (text ++ rest) =
      (cutUnquoted stops last inside' rest).map fun cut => (text ++ cut.1, cut.2)

theorem Passes.nil (inside : Bool) : Passes stops inside [] inside := fun previous rest h =>
  ⟨previous, h, by simp⟩

theorem Passes.append {inside inside' inside'' : Bool} {first second : List Char}
    (h : Passes stops inside first inside') (h' : Passes stops inside' second inside'') :
    Passes stops inside (first ++ second) inside'' := by
  intro previous rest hprevious
  obtain ⟨middle, hmiddle, hfirst⟩ := h previous (second ++ rest) hprevious
  obtain ⟨last, hlast, hsecond⟩ := h' middle rest hmiddle
  refine ⟨last, hlast, ?_⟩
  rw [List.append_assoc, hfirst, hsecond, Option.map_map]
  simp [Function.comp_def]

theorem Passes.quote (inside : Bool) (hstops : stops '"' = false) :
    Passes stops inside ['"'] (!inside) := by
  intro previous rest hprevious
  refine ⟨'"', by decide, ?_⟩
  have hinside : insideAfter previous inside '"' = !inside := if_pos ⟨rfl, hprevious⟩
  rw [List.singleton_append, cutUnquoted, hinside, hstops]
  exact if_neg fun hstop => Bool.false_ne_true hstop.1

theorem insideAfter_of_ne {c : Char} (h : c ≠ '"') (previous : Char) (inside : Bool) :
    insideAfter previous inside c = inside :=
  if_neg fun hquote => h hquote.1

theorem Passes.char {c : Char} {inside : Bool} (hquote : c ≠ '"') (hbackslash : c ≠ '\\')
    (h : inside = true ∨ stops c = false) : Passes stops inside [c] inside := by
  intro previous rest _
  refine ⟨c, hbackslash, ?_⟩
  have hstop : ¬ (stops c = true ∧ inside = false) := by
    rintro ⟨hstops, rfl⟩
    exact absurd (h.resolve_left Bool.false_ne_true) (by rw [hstops]; decide)
  rw [List.singleton_append, cutUnquoted, insideAfter_of_ne hquote]
  exact if_neg hstop

/-- A text without quotation marks and backslashes, and outside of quotation marks without stops. -/
theorem Passes.text {text : List Char} {inside : Bool} (hquote : '"' ∉ text) (hbackslash : '\\' ∉ text)
    (h : inside = true ∨ ∀ c ∈ text, stops c = false) : Passes stops inside text inside := by
  induction text with
  | nil => exact .nil inside
  | cons c rest ih =>
    rw [List.mem_cons, not_or] at hquote hbackslash
    have hrest := ih hquote.2 hbackslash.2 (h.imp_right fun h c hc => h c (List.mem_cons_of_mem _ hc))
    exact Passes.append (.char (Ne.symm hquote.1) (Ne.symm hbackslash.1)
      (h.imp_right fun h => h c List.mem_cons_self)) hrest

/-- Cutting behind a text that has been gone through. -/
theorem Passes.cut {text after : List Char} {c : Char} (h : Passes stops false text false)
    (hstop : stops c = true) (hquote : c ≠ '"') :
    cutUnquoted stops ',' false (text ++ c :: after) = some (text, c, after) := by
  obtain ⟨last, -, hcut⟩ := h ',' (c :: after) (by decide)
  rw [hcut, cutUnquoted, insideAfter_of_ne hquote, if_pos ⟨hstop, rfl⟩, Option.map_some,
    List.append_nil]

theorem Passes.none {text : List Char} {inside : Bool} (h : Passes stops false text inside) :
    cutUnquoted stops ',' false text = Option.none := by
  obtain ⟨last, -, hcut⟩ := h ',' [] (by decide)
  rw [List.append_nil] at hcut
  rw [hcut, cutUnquoted, Option.map_none]

/-- The text of a quotation, up to and without its closing mark: every mark in it is escaped. -/
theorem cutUnquoted_escaped (text : List Char) (previous : Char) (rest : List Char) :
    cutUnquoted stops previous true (escaped text ++ rest) =
      (cutUnquoted stops (text.getLast?.getD previous) true rest).map
        fun cut => (escaped text ++ cut.1, cut.2) := by
  have hinside {previous c : Char} (h : c ≠ '"' ∨ previous = '\\') (rest : List Char) :
      cutUnquoted stops previous true (c :: rest) =
        (cutUnquoted stops c true rest).map fun cut => (c :: cut.1, cut.2) := by
    have hstays : insideAfter previous true c = true :=
      if_neg fun hcounts => h.elim (fun hc => hc hcounts.1) fun hescaped => hcounts.2 hescaped
    rw [cutUnquoted, hstays]
    exact if_neg fun hstop => Bool.noConfusion hstop.2
  induction text generalizing previous with
  | nil => simp [escaped]
  | cons c text ih =>
    have hlast : ((c :: text).getLast?).getD previous = text.getLast?.getD c := by
      rw [List.getLast?_cons, Option.getD_some]
    rw [hlast]
    by_cases hspecial : c = '\\' ∨ c = '"'
    · have hescaped : escaped (c :: text) = '\\' :: c :: escaped text := by
        simp [escaped, hspecial]
      rw [hescaped, List.cons_append, List.cons_append, hinside (.inl (by decide)),
        hinside (.inr rfl), ih c, Option.map_map, Option.map_map]
      rfl
    · have hplain : escaped (c :: text) = c :: escaped text := by simp [escaped, hspecial]
      rw [hplain, List.cons_append, hinside (.inl fun hquote => hspecial (.inr hquote)), ih c,
        Option.map_map]
      rfl

/-- A quotation whose text does not end with a backslash. -/
theorem passes_quoted {text : List Char} (h : text.getLast? ≠ some '\\')
    (hstops : stops '"' = false) : Passes stops false (quoted text) false := by
  have hescaped : Passes stops true (escaped text) true := by
    intro previous rest hprevious
    refine ⟨text.getLast?.getD previous, fun hlast => ?_, cutUnquoted_escaped text previous rest⟩
    cases hend : text.getLast? with
    | none => exact hprevious (by rwa [hend] at hlast)
    | some c =>
      rw [hend, Option.getD_some] at hlast
      exact h (hlast ▸ hend)
  exact (Passes.quote false hstops).append (hescaped.append (.quote true hstops))

/-- Behind the opening mark of a quotation nothing is cut any more, whether it closes or not. -/
theorem cutUnquoted_quoted (text : List Char) (hstops : stops '"' = false) {front : List Char}
    (h : Passes stops false front false) :
    cutUnquoted stops ',' false (front ++ quoted text) = none := by
  obtain ⟨last, hlast, hcut⟩ := h ',' (quoted text) (by decide)
  have hopen : insideAfter last false '"' = true := if_pos ⟨rfl, hlast⟩
  have hclose (previous : Char) (inside : Bool) : cutUnquoted stops previous inside ['"'] = none := by
    rw [cutUnquoted, if_neg fun hstop => by simp [hstops] at hstop]
    rfl
  rw [hcut, quoted, cutUnquoted, hopen, if_neg fun hstop => Bool.noConfusion hstop.2,
    cutUnquoted_escaped, hclose]
  rfl

end Cutting

/-- A text that needs no escapes. -/
def PlainText (text : List Char) : Prop := '"' ∉ text ∧ '\\' ∉ text

/-- A property whose name needs no escapes, and whose value fits its type. -/
structure OrdinaryProperty (property : BlockStateProperty) : Prop where
  name : PlainText property.name
  text : property.type = .String → PlainText property.value
  number : property.type ≠ .String → property.type ≠ .Byte →
    ∃ value, IsInt32 value ∧ property.value = decimal value

/-- A state that the reader takes apart as the writer has put it together. -/
structure OrdinaryState (state : BlockState) : Prop where
  few : state.states.length ≤ kMaximumStateProperties
  property : ∀ property ∈ state.states, OrdinaryProperty property

/-- A property whose number, if its value is one, fits the reader's type, and whose name ends with some
other character than a backslash. -/
structure ReadableProperty (property : BlockStateProperty) : Prop where
  name : property.name.getLast? ≠ some '\\'
  number : property.type ≠ .String → property.type ≠ .Byte →
    ∃ value, IsInt32 value ∧ property.value = decimal value

/-- A text value of the property ends with some other character than a backslash. -/
def ClosedValue (property : BlockStateProperty) : Prop :=
  property.type = .String → property.value.getLast? ≠ some '\\'

theorem PlainText.getLast?_ne {text : List Char} (h : PlainText text) : text.getLast? ≠ some '\\' :=
  fun hlast => h.2 (List.mem_of_getLast? hlast)

theorem OrdinaryProperty.readable {property : BlockStateProperty} (h : OrdinaryProperty property) :
    ReadableProperty property :=
  ⟨h.name.getLast?_ne, h.number⟩

theorem OrdinaryProperty.closedValue {property : BlockStateProperty} (h : OrdinaryProperty property) :
    ClosedValue property :=
  fun htype => (h.text htype).getLast?_ne

/-- What is read of a property. -/
def reread (property : BlockStateProperty) : BlockStateProperty :=
  match property.type with
  | .String => property
  | .Byte => if property.value = "0".toList then property else { property with value := "1".toList }
  | _ => { property with type := .Int }

section Readable

theorem getLast?_quoted (text : List Char) : (quoted text).getLast? = some '"' := by
  rw [quoted, ← List.cons_append, List.getLast?_concat]

theorem isQuoted_quoted (text : List Char) : isQuoted (quoted text) = true := by
  have hlength : (quoted text).length ≥ 2 := by
    rw [quoted, List.length_cons, List.length_append, List.length_singleton]
    omega
  exact decide_eq_true ⟨hlength, rfl, getLast?_quoted text⟩

theorem unescape_escaped (text : List Char) : unescape (escaped text) = text := by
  induction text with
  | nil => rfl
  | cons c rest ih =>
    by_cases hspecial : c = '\\' ∨ c = '"'
    · have hescaped : escaped (c :: rest) = '\\' :: c :: escaped rest := by simp [escaped, hspecial]
      rw [hescaped, unescape, ih]
    · have hplain : escaped (c :: rest) = c :: escaped rest := by simp [escaped, hspecial]
      rw [hplain, unescape, ih]
      rintro d more rfl -
      exact hspecial (.inl rfl)

theorem unquote_quoted (text : List Char) : unquote (quoted text) = text := by
  rw [unquote, if_pos (isQuoted_quoted text), quoted, List.tail_cons, List.dropLast_concat,
    unescape_escaped]

/-- Nothing is trimmed of a text that starts and ends with other characters. -/
theorem trimBy_eq {removed : Char → Bool} {text : List Char}
    (hhead : ∀ c ∈ text.head?, removed c = false) (hlast : ∀ c ∈ text.getLast?, removed c = false) :
    trimBy removed text = text := by
  have hfront : text.dropWhile removed = text := by
    cases text with
    | nil => rfl
    | cons c rest =>
      exact List.dropWhile_cons_of_neg (by rw [hhead c rfl]; exact Bool.false_ne_true)
  rw [trimBy, hfront]
  rcases List.eq_nil_or_concat' text with rfl | ⟨front, c, rfl⟩
  · rfl
  · refine List.rdropWhile_concat_neg _ _ _ ?_
    rw [hlast c (by simp)]
    exact Bool.false_ne_true

theorem trimBy_quoted (text : List Char) : trimBy isBlank (quoted text) = quoted text := by
  refine trimBy_eq (fun c hc => ?_) fun c hc => ?_
  · cases hc
    rfl
  · rw [getLast?_quoted] at hc
    cases hc
    rfl

/-- A character of a number. -/
def IsNumeric (c : Char) : Prop := c.isDigit = true ∨ c = '-'

/-- The character is no number's. -/
theorem IsNumeric.ne {c d : Char} (h : IsNumeric c) (hdigit : d.isDigit = false) (hminus : d ≠ '-') :
    c ≠ d := by
  rintro rfl
  rcases h with h | h
  · rw [h] at hdigit
    exact Bool.noConfusion hdigit
  · exact hminus h

theorem IsNumeric.toLower_eq {c : Char} (h : IsNumeric c) : toLower c = c := by
  rw [toLower]
  refine if_neg fun hupper => ?_
  rcases h with h | rfl
  · rw [Char.isDigit] at h
    have hnine : c ≤ '9' := by
      simp only [Bool.and_eq_true, decide_eq_true_eq] at h
      exact h.2
    exact absurd (Char.le_trans hupper.1 hnine) (by decide)
  · exact absurd hupper.1 (by decide)

theorem IsNumeric.not_isBlank {c : Char} (h : IsNumeric c) : isBlank c = false := by
  simp only [isBlank, Bool.or_eq_false_iff, decide_eq_false_iff_not]
  exact ⟨⟨⟨h.ne (by decide) (by decide), h.ne (by decide) (by decide)⟩, h.ne (by decide) (by decide)⟩,
    h.ne (by decide) (by decide)⟩

theorem isNumeric_decimal {value : ℤ} {c : Char} (h : c ∈ decimal value) : IsNumeric c :=
  isDigit_of_mem_decimal h

theorem passes_decimal {stops : Char → Bool} {value : ℤ} (h : ∀ c, IsNumeric c → stops c = false) :
    Passes stops false (decimal value) false := by
  refine .text (fun hmem => ?_) (fun hmem => ?_) (.inr fun c hc => h c (isNumeric_decimal hc))
  · exact (isNumeric_decimal hmem).ne (by decide) (by decide) rfl
  · exact (isNumeric_decimal hmem).ne (by decide) (by decide) rfl

/-- A number is read as a number. -/
theorem parseProperty_decimal (name : List Char) {value : ℤ} (h : IsInt32 value) :
    parseProperty name (decimal value) = .ok ⟨unquote (trimBy isBlank name), .Int, decimal value⟩ := by
  have htrim : trimBy isBlank (decimal value) = decimal value :=
    trimBy_eq (fun c hc => (isNumeric_decimal (List.mem_of_mem_head? hc)).not_isBlank) fun c hc =>
      (isNumeric_decimal (List.mem_of_getLast? hc)).not_isBlank
  have hlower : (decimal value).map toLower = decimal value :=
    (List.map_congr_left fun c hc => (isNumeric_decimal hc).toLower_eq).trans (List.map_id' _)
  have hnot {c : Char} (hdigit : c.isDigit = false) (hminus : c ≠ '-') : c ∉ decimal value := fun hmem =>
    (isNumeric_decimal hmem).ne hdigit hminus rfl
  have htrue : decimal value ≠ "true".toList := fun heq => @hnot 't' (by decide) (by decide) (by
    rw [heq]
    decide)
  have hfalse : decimal value ≠ "false".toList := fun heq => @hnot 'f' (by decide) (by decide) (by
    rw [heq]
    decide)
  have hquoted : isQuoted (decimal value) = false := decide_eq_false fun hquoted =>
    @hnot '"' (by decide) (by decide) (List.mem_of_mem_head? hquoted.2.1)
  rw [parseProperty, htrim, hlower, if_neg htrue, if_neg hfalse, hquoted, fromChars_decimal h]
  rfl

theorem parseProperty_quoted (name value : List Char) :
    parseProperty name (quoted value) = .ok ⟨unquote (trimBy isBlank name), .String, value⟩ := by
  have hlower (text : List Char) (hhead : text.head? ≠ some '"') : (quoted value).map toLower ≠ text := by
    rintro rfl
    exact hhead rfl
  rw [parseProperty, trimBy_quoted value, if_neg (hlower _ (by decide)), if_neg (hlower _ (by decide)),
    if_pos (isQuoted_quoted value), unquote_quoted]

theorem parseProperty_true (name : List Char) :
    parseProperty name "true".toList = .ok ⟨unquote (trimBy isBlank name), .Byte, "1".toList⟩ := rfl

theorem parseProperty_false (name : List Char) :
    parseProperty name "false".toList = .ok ⟨unquote (trimBy isBlank name), .Byte, "0".toList⟩ := rfl

variable {property : BlockStateProperty}

theorem ReadableProperty.passes_value (h : ReadableProperty property) (hclosed : ClosedValue property) :
    Passes (· = ',') false (valueText property) false := by
  rw [valueText]
  split
  case h_1 htype => exact passes_quoted (hclosed htype) (by decide)
  case h_2 => split <;> exact .text (by decide) (by decide) (.inr (by simp))
  case h_3 hstring hbyte =>
    obtain ⟨value, -, hvalue⟩ := h.number hstring hbyte
    rw [hvalue]
    exact passes_decimal fun c hc => decide_eq_false (hc.ne (by decide) (by decide))

theorem ReadableProperty.parseProperty (h : ReadableProperty property) :
    parseProperty (quoted property.name) (valueText property) = .ok (reread property) := by
  have hname : unquote (trimBy isBlank (quoted property.name)) = property.name := by
    rw [trimBy_quoted, unquote_quoted]
  obtain ⟨name, type, value⟩ := property
  cases type with
  | String => exact (parseProperty_quoted _ _).trans (by rw [hname]; rfl)
  | Byte =>
    by_cases hzero : value = "0".toList
    · rw [valueText, reread]
      dsimp only
      rw [if_pos hzero, if_pos hzero, parseProperty_false, hname, hzero]
    · rw [valueText, reread]
      dsimp only
      rw [if_neg hzero, if_neg hzero, parseProperty_true, hname]
  | Short | Int | Long =>
    obtain ⟨number, hnumber, rfl⟩ := h.number nofun nofun
    exact (parseProperty_decimal _ hnumber).trans (by rw [hname]; rfl)

theorem ReadableProperty.passes_name (h : ReadableProperty property) :
    Passes (· = ',') false (quoted property.name ++ ['=']) false :=
  (passes_quoted h.name (by decide)).append (Passes.char (by decide) (by decide) (.inr (by decide)))

theorem partText_eq (property : BlockStateProperty) :
    partText property = quoted property.name ++ ['='] ++ valueText property := by
  rw [partText, List.append_assoc, List.singleton_append]

/-- The comma behind a part ends it. -/
theorem ReadableProperty.passes_part (h : ReadableProperty property) (hclosed : ClosedValue property) :
    Passes (· = ',') false (partText property) false := by
  rw [partText_eq]
  exact h.passes_name.append (h.passes_value hclosed)

/-- No comma of a part ends it, even if the quotation mark of its value does not count. -/
theorem ReadableProperty.uncut_part (h : ReadableProperty property) :
    cutUnquoted (· = ',') ',' false (partText property) = none := by
  by_cases htype : property.type = .String
  · have hvalue : valueText property = quoted property.value := by rw [valueText, htype]
    rw [partText_eq, hvalue]
    exact cutUnquoted_quoted _ (by decide) h.passes_name
  · exact (h.passes_part fun hstring => absurd hstring htype).none

theorem ReadableProperty.cut (h : ReadableProperty property) :
    cutUnquoted (fun c => c = '=' ∨ c = ':') ',' false (partText property) =
      some (quoted property.name, '=', valueText property) :=
  (passes_quoted h.name (by decide)).cut (by decide) (by decide)

/-- The commas between the parts are found, as all values but the last one are closed. -/
theorem splitParts_intercalate {properties : List BlockStateProperty} (hne : properties ≠ [])
    (h : ∀ property ∈ properties, ReadableProperty property)
    (hclosed : ∀ property ∈ properties.dropLast, ClosedValue property) :
    splitParts (List.intercalate [','] (properties.map partText)) = properties.map partText := by
  induction properties with
  | nil => exact absurd rfl hne
  | cons property rest ih =>
    have hproperty := h property List.mem_cons_self
    cases rest with
    | nil =>
      rw [List.map_cons, List.map_nil, List.intercalate_singleton, splitParts]
      split
      case h_1 => rfl
      case h_2 _ _ _ hcut =>
        rw [hproperty.uncut_part] at hcut
        cases hcut
    | cons other more =>
      rw [List.dropLast_cons_cons] at hclosed
      have hpart := hproperty.passes_part (hclosed property List.mem_cons_self)
      have hrest := ih (List.cons_ne_nil _ _)
        (fun property hmem => h property (List.mem_cons_of_mem _ hmem))
        fun property hmem => hclosed property (List.mem_cons_of_mem _ hmem)
      rw [List.map_cons, List.map_cons, List.intercalate_cons_cons, List.append_assoc,
        List.singleton_append, splitParts]
      split
      case h_1 hcut =>
        rw [hpart.cut (by decide) (by decide)] at hcut
        cases hcut
      case h_2 _ _ _ hcut =>
        rw [hpart.cut (by decide) (by decide)] at hcut
        cases hcut
        rw [← List.map_cons, hrest]

/-- All parts are read, as long as there are few. -/
theorem parseParts_map {properties : List BlockStateProperty} {mode : Option Char} {count : ℕ}
    (hcount : count + properties.length ≤ kMaximumStateProperties) (hmode : ∀ c ∈ mode, c = '=')
    (h : ∀ property ∈ properties, ReadableProperty property) :
    parseParts mode count (properties.map partText) = .ok (properties.map reread) := by
  induction properties generalizing mode count with
  | nil => rfl
  | cons property rest ih =>
    rw [List.length_cons] at hcount
    have hproperty := h property List.mem_cons_self
    have hrest := @ih (some '=') (count + 1) (by omega) (fun c hc => (Option.some.inj hc).symm)
      fun property hmem => h property (List.mem_cons_of_mem _ hmem)
    have hsame : mode.any (· ≠ '=') = false := by
      rw [Option.any_eq_false]
      intro c hc
      rw [hmode c hc]
      rfl
    rw [List.map_cons, parseParts, hproperty.cut]
    dsimp only
    rw [if_neg (by omega), hsame, if_neg Bool.false_ne_true, hproperty.parseProperty, ok_bind, hrest,
      ok_bind]
    rfl

/-- Too many parts are refused. -/
theorem parseParts_map_many {properties : List BlockStateProperty} {mode : Option Char} {count : ℕ}
    (hcount : count ≤ kMaximumStateProperties) (hmany : kMaximumStateProperties < count + properties.length)
    (hmode : ∀ c ∈ mode, c = '=') (h : ∀ property ∈ properties, ReadableProperty property) :
    parseParts mode count (properties.map partText) = .error "BDX block states 属性过多" := by
  induction properties generalizing mode count with
  | nil => exact absurd hmany (Nat.not_lt.mpr hcount)
  | cons property rest ih =>
    rw [List.length_cons] at hmany
    have hproperty := h property List.mem_cons_self
    have hsame : mode.any (· ≠ '=') = false := by
      rw [Option.any_eq_false]
      intro c hc
      rw [hmode c hc]
      rfl
    rw [List.map_cons, parseParts, hproperty.cut]
    dsimp only
    by_cases hfull : count ≥ kMaximumStateProperties
    · rw [if_pos hfull]
    · have hrest := @ih (some '=') (count + 1) (by omega) (by omega)
        (fun c hc => (Option.some.inj hc).symm) fun property hmem => h property (List.mem_cons_of_mem _ hmem)
      rw [if_neg hfull, hsame, if_neg Bool.false_ne_true, hproperty.parseProperty, ok_bind, hrest]
      rfl

theorem sortedProperties_perm (state : BlockState) : (sortedProperties state).Perm state.states :=
  List.mergeSort_perm _ _

/-- The properties stand in the order of their names. -/
theorem sortedProperties_pairwise (state : BlockState) :
    (sortedProperties state).Pairwise fun left right => left.name ≤ right.name :=
  pairwise_mergeSort_by (fun _ _ _ => le_trans) le_total BlockStateProperty.name state.states

/-- The reader takes a text with properties apart. -/
theorem parseBlockStates_of_ne {state : BlockState} (hne : state.states ≠ [])
    (h : ∀ property ∈ state.states, ReadableProperty property)
    (hclosed : ∀ property ∈ (sortedProperties state).dropLast, ClosedValue property) :
    parseBlockStates (stateString state) = parseParts none 0 ((sortedProperties state).map partText) := by
  have hperm := sortedProperties_perm state
  have hsorted : sortedProperties state ≠ [] := by
    intro hnone
    rw [hnone] at hperm
    exact hne hperm.nil_eq.symm
  have hcontents (text : List Char) : bracketContents ('[' :: (text ++ [']'])) = some text := by
    rw [bracketContents, List.dropWhile_cons_of_neg (by decide)]
    dsimp only
    rw [if_pos (by simp [isClosing]), List.rdropWhile_concat_neg _ _ _ (by decide),
      List.dropLast_concat]
  rw [stateString, if_neg (by rwa [List.isEmpty_iff]), parseBlockStates, hcontents]
  dsimp only
  rw [splitParts_intercalate hsorted (fun property hmem => h property (hperm.mem_iff.mp hmem)) hclosed]

end Readable

/-- A state with too many properties is written, and refused by the reader. -/
theorem parseBlockStates_many {state : BlockState} (hmany : kMaximumStateProperties < state.states.length)
    (h : ∀ property ∈ state.states, OrdinaryProperty property) :
    parseBlockStates (stateString state) = .error "BDX block states 属性过多" := by
  have hperm := sortedProperties_perm state
  have hsorted : ∀ property ∈ sortedProperties state, OrdinaryProperty property := fun property hmem =>
    h property (hperm.mem_iff.mp hmem)
  have hne : state.states ≠ [] := by
    intro hnone
    rw [hnone] at hmany
    exact Nat.not_lt_zero _ hmany
  rw [parseBlockStates_of_ne hne (fun property hmem => (h property hmem).readable)
    fun property hmem => (hsorted property (List.dropLast_subset _ hmem)).closedValue]
  refine parseParts_map_many (Nat.zero_le _) ?_ nofun fun property hmem => (hsorted property hmem).readable
  rwa [hperm.length_eq, Nat.zero_add]

/-- The reader reads of readable properties what the writer has written, when the quotation marks of all
values but the last one count. -/
theorem parseBlockStates_readable {state : BlockState} (hfew : state.states.length ≤ kMaximumStateProperties)
    (h : ∀ property ∈ state.states, ReadableProperty property)
    (hclosed : ∀ property ∈ (sortedProperties state).dropLast, ClosedValue property) :
    parseBlockStates (stateString state) = .ok ((sortedProperties state).map reread) := by
  have hperm := sortedProperties_perm state
  rcases eq_or_ne state.states [] with hnil | hne
  · have hnone : sortedProperties state = [] := by
      rw [← List.length_eq_zero_iff, hperm.length_eq, hnil, List.length_nil]
    have hsplit : splitParts [] = [[]] := by
      rw [splitParts]
      rfl
    rw [stateString, if_pos (List.isEmpty_iff.mpr hnil), hnone]
    change parseParts none 0 (splitParts []) = _
    rw [hsplit]
    rfl
  · rw [parseBlockStates_of_ne hne h hclosed]
    exact parseParts_map (by rwa [hperm.length_eq, Nat.zero_add]) nofun fun property hmem =>
      h property (hperm.mem_iff.mp hmem)

/-- The reader reads of an ordinary state what the writer has written. -/
theorem parseBlockStates_stateString {state : BlockState} (h : OrdinaryState state) :
    parseBlockStates (stateString state) = .ok ((sortedProperties state).map reread) := by
  have hperm := sortedProperties_perm state
  refine parseBlockStates_readable h.few (fun property hmem => (h.property property hmem).readable) ?_
  intro property hmem
  exact (h.property property (hperm.mem_iff.mp (List.dropLast_subset _ hmem))).closedValue

/-- A value of one of the three types the reader knows, spelled as it spells it. -/
def HasReadType (property : BlockStateProperty) : Prop :=
  match property.type with
  | .Byte => property.value = "0".toList ∨ property.value = "1".toList
  | .Int => ∃ value, IsInt32 value ∧ property.value = decimal value
  | .String => True
  | _ => False

theorem HasReadType.reread_eq {property : BlockStateProperty} (h : HasReadType property) :
    reread property = property := by
  obtain ⟨name, type, value⟩ := property
  cases type with
  | String | Int => rfl
  | Byte =>
    rcases h with rfl | rfl
    · rfl
    · rfl
  | Short | Long => exact h.elim

theorem HasReadType.readable {property : BlockStateProperty} (h : HasReadType property)
    (hname : property.name.getLast? ≠ some '\\') : ReadableProperty property := by
  refine ⟨hname, fun hstring hbyte => ?_⟩
  obtain ⟨name, type, value⟩ := property
  cases type with
  | Int => exact h
  | String => exact absurd rfl hstring
  | Byte => exact absurd rfl hbyte
  | Short | Long => exact h.elim

/-- Every property comes back as it is, in the order of the names. -/
theorem parseBlockStates_typed {state : BlockState}
    (hfew : state.states.length ≤ kMaximumStateProperties)
    (htyped : ∀ property ∈ state.states, HasReadType property)
    (hname : ∀ property ∈ state.states, property.name.getLast? ≠ some '\\')
    (hclosed : ∀ property ∈ (sortedProperties state).dropLast, ClosedValue property) :
    parseBlockStates (stateString state) = .ok (sortedProperties state) := by
  have hreread : (sortedProperties state).map reread = sortedProperties state :=
    (List.map_congr_left fun property hmem =>
      (htyped property ((sortedProperties_perm state).mem_iff.mp hmem)).reread_eq).trans (List.map_id _)
  rw [parseBlockStates_readable hfew
    (fun property hmem => (htyped property hmem).readable (hname property hmem)) hclosed, hreread]

/-- A state whose properties are not in the order of their names, with a text full of special
characters. -/
def shuffledState : BlockState where
  name := "minecraft:block".toList
  states := [⟨"note".toList, .String, "\\a\",=]:[".toList⟩, ⟨"lit".toList, .Byte, "1".toList⟩]
  version := 0

theorem shuffledState_typed : ∀ property ∈ shuffledState.states, HasReadType property :=
  List.forall_mem_cons.mpr ⟨trivial, List.forall_mem_singleton.mpr (.inr rfl)⟩

theorem shuffledState_closed :
    ∀ property ∈ (sortedProperties shuffledState).dropLast, ClosedValue property := by
  intro property hmem
  have hstates := (sortedProperties_perm shuffledState).mem_iff.mp (List.dropLast_subset _ hmem)
  rcases List.mem_pair.mp hstates with rfl | rfl
  · exact fun _ => by decide
  · exact nofun

end WaterStructure.Bdx
