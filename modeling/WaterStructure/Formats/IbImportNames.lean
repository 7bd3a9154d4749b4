import Mathlib.Data.Char
import Mathlib.Data.List.Lex
import WaterStructure.Formats.BdxStates
import WaterStructure.Formats.IbImportText
import WaterStructure.Library.FsPath
import WaterStructure.Library.JsonText

/-!
# Block states in the lines of an IBImport file

The writer puts a block state into a line as its name and a bracketed list of properties, by name, with
names and text values as JSON strings. The reader takes the line apart at the blank behind the name, cuts
the list at the commas outside of quotation marks, and unquotes with the JSON library. Of a state with a
plain name it gets back the properties, whatever stands in their texts.
-/

namespace WaterStructure.IbImport

open Json (dumpString quotedText isUtf8 Escaped)

def sortedProperties (state : BlockState) : List BlockStateProperty :=
  state.states.mergeSort fun left right => decide (left.name ≤ right.name)

def valueText (property : BlockStateProperty) : Option (List Char) :=
  match property.type with
  | .Byte => some (if property.value = "0".toList then "false".toList else "true".toList)
  | .Short | .Int | .Long => some property.value
  | .String => dumpString property.value

def propertyText (property : BlockStateProperty) : Option (List Char) := do
  let name ← dumpString property.name
  let value ← valueText property
  return name ++ '=' :: value

/-- `block_name`; nothing when a text is no UTF-8. -/
def blockName (state : BlockState) : Option (List Char) :=
  if state.name.isEmpty then some "unknown []".toList
  else
    let name :=
      if "minecraft:".toList.isPrefixOf state.name then state.name.drop 10 else state.name
    let name := if name.isEmpty then "unknown".toList else name
    ((sortedProperties state).mapM propertyText).map fun parts =>
      name ++ " [".toList ++ List.intercalate [','] parts ++ "]".toList

/-- A property that the reader can give back. -/
structure ReadableProperty (property : BlockStateProperty) : Prop where
  name_ne_nil : property.name ≠ []
  name_utf8 : isUtf8 property.name = true
  name_plain : '=' ∉ property.name
  value :
    (property.type = .Byte ∧ (property.value = "0".toList ∨ property.value = "1".toList)) ∨
    (property.type = .Int ∧ ∃ number, IsInt32 number ∧ property.value = decimal number) ∨
    (property.type = .String ∧ isUtf8 property.value = true)

/-- A state that the reader can give back, with its name as it is written. -/
structure ReadableState (state : BlockState) : Prop where
  name_ne_nil : state.name ≠ []
  name_space : ∀ c ∈ state.name, isSpace c = false
  name_short : "minecraft:".toList.isPrefixOf state.name = false
  few : state.states.length ≤ kMaxStateProperties
  distinct : (state.states.map BlockStateProperty.name).Nodup
  property : ∀ property ∈ state.states, ReadableProperty property

/-- The JSON library reads of a dumped string the string. -/
def ReadsStrings (json : JsonLibrary) : Prop :=
  ∀ text written, dumpString text = some written → json.parse written = some (.string text)

section Splitting

/-- The splitter goes through the text and stays outside of quotation marks. -/
def Skips (text : List Char) : Prop :=
  ∀ part rest, McFunction.splitParts false false part (text ++ rest) =
    McFunction.splitParts false false (part ++ text) rest

theorem Skips.append {first second : List Char} (h : Skips first) (h' : Skips second) :
    Skips (first ++ second) := by
  intro part rest
  rw [List.append_assoc, h, h', List.append_assoc]

theorem Skips.text {text : List Char} (hquote : '"' ∉ text) (hcomma : ',' ∉ text) : Skips text := by
  induction text with
  | nil =>
    intro part rest
    rw [List.nil_append, List.append_nil]
  | cons c tail ih =>
    rw [List.mem_cons, not_or] at hquote hcomma
    intro part rest
    have hstep : McFunction.splitParts false false part (c :: (tail ++ rest)) =
        McFunction.splitParts false false (part ++ [c]) (tail ++ rest) := by
      rw [McFunction.splitParts]
      simp [Ne.symm hquote.1, Ne.symm hcomma.1]
    rw [List.cons_append, hstep, ih hquote.2 hcomma.2, List.append_assoc, List.singleton_append]

/-- Inside of quotation marks the splitter goes through what is escaped. -/
theorem splitParts_escaped {text : List Char} (h : Escaped text) (part rest : List Char) :
    McFunction.splitParts true false part (text ++ rest) =
      McFunction.splitParts true false (part ++ text) rest := by
  induction h generalizing part with
  | nil => rw [List.nil_append, List.append_nil]
  | @plain c tail hquote hbackslash _ ih =>
    rw [List.cons_append, McFunction.splitParts]
    simp [hquote, hbackslash, ih]
  | @hidden c tail _ ih =>
    rw [List.cons_append, List.cons_append, McFunction.splitParts]
    simp [McFunction.splitParts, ih]

theorem skips_quotedText (text : List Char) : Skips (quotedText text) := by
  intro part rest
  have hopen (tail : List Char) : McFunction.splitParts false false part ('"' :: tail) =
      McFunction.splitParts true false (part ++ ['"']) tail := by
    rw [McFunction.splitParts]
    simp
  have hclose (part : List Char) : McFunction.splitParts true false part ('"' :: rest) =
      McFunction.splitParts false false (part ++ ['"']) rest := by
    rw [McFunction.splitParts]
    simp
  rw [quotedText, List.cons_append, hopen, List.append_assoc, splitParts_escaped (Json.escaped_flatMap text),
    List.singleton_append, hclose]
  simp

theorem splitParts_intercalate {parts : List (List Char)} (hne : parts ≠ [])
    (h : ∀ part ∈ parts, Skips part) :
    McFunction.splitParts false false [] (List.intercalate [','] parts) = some parts := by
  induction parts with
  | nil => exact absurd rfl hne
  | cons part rest ih =>
    have hpart := h part List.mem_cons_self
    cases rest with
    | nil =>
      have hend := hpart [] []
      rw [List.append_nil] at hend
      rw [List.intercalate_singleton, hend, McFunction.splitParts]
      rfl
    | cons other more =>
      have hmore := ih (List.cons_ne_nil _ _) fun part hmem => h part (List.mem_cons_of_mem _ hmem)
      rw [List.intercalate_cons_cons, List.append_assoc, hpart, List.nil_append, List.singleton_append,
        McFunction.splitParts]
      simp [hmore]

end Splitting

section Properties

variable {json : JsonLibrary} {property : BlockStateProperty}

/-- A text that starts and ends with no blank. -/
structure Tight (text : List Char) : Prop where
  ne_nil : text ≠ []
  head : ∀ c ∈ text.head?, isBlank c = false
  last : ∀ c ∈ text.getLast?, isBlank c = false

variable {text value : List Char}

theorem Tight.trimCopy (h : Tight text) : trimCopy text = text :=
  Bdx.trimBy_eq h.head h.last

theorem Tight.append {first second : List Char} (h : Tight first) (h' : Tight second) (middle : List Char) :
    Tight (first ++ (middle ++ second)) where
  ne_nil := List.append_ne_nil_of_left_ne_nil h.ne_nil _
  head c hc := by
    rw [List.head?_append_of_ne_nil _ h.ne_nil] at hc
    exact h.head c hc
  last c hc := by
    rw [← List.append_assoc, List.getLast?_append_of_ne_nil _ h'.ne_nil] at hc
    exact h'.last c hc

theorem tight_quotedText (text : List Char) : Tight (quotedText text) where
  ne_nil := List.cons_ne_nil _ _
  head c hc := by
    cases hc
    rfl
  last c hc := by
    rw [Json.getLast?_quotedText] at hc
    cases hc
    rfl

theorem tight_decimal (number : ℤ) : Tight (decimal number) where
  ne_nil := decimal_ne_nil number
  head _ hc := (Bdx.isNumeric_decimal (List.mem_of_mem_head? hc)).not_isBlank
  last _ hc := (Bdx.isNumeric_decimal (List.mem_of_getLast? hc)).not_isBlank

theorem tight_brackets (text : List Char) : Tight ('[' :: (text ++ [']'])) where
  ne_nil := List.cons_ne_nil _ _
  head c hc := by
    cases hc
    rfl
  last c hc := by
    rw [← List.cons_append, List.getLast?_concat] at hc
    cases hc
    rfl

/-- Parts between separators. -/
theorem tight_intercalate {part : List Char} {rest : List (List Char)} (h : ∀ text ∈ part :: rest, Tight text) :
    Tight (List.intercalate [','] (part :: rest)) := by
  induction rest generalizing part with
  | nil =>
    rw [List.intercalate_singleton]
    exact h part List.mem_cons_self
  | cons other more ih =>
    rw [List.intercalate_cons_cons, List.append_assoc]
    exact (h part List.mem_cons_self).append
      (ih fun text hmem => h text (List.mem_cons_of_mem _ hmem)) [',']

theorem ne_newline_of_mem_quotedText {c : Char} (h : c ∈ quotedText text) : c ≠ '\n' := by
  rintro rfl
  exact absurd (Json.not_control_of_mem_quotedText h) (by decide)

theorem dumpString_of_isUtf8 (h : isUtf8 text = true) : dumpString text = some (quotedText text) := if_pos h

theorem unquote_quotedText (hjson : ReadsStrings json) (h : isUtf8 text = true) :
    unquote json (quotedText text) = text := by
  have hlength : ¬ ((quotedText text).length < 2 ∨ (quotedText text).head? ≠ some '"' ∨
      (quotedText text).getLast? ≠ some '"') := by
    rw [Json.getLast?_quotedText]
    simp [quotedText]
  rw [unquote, (tight_quotedText text).trimCopy, if_neg hlength, hjson text _ (dumpString_of_isUtf8 h)]

/-- A readable property is written, in a text that no comma and no blank cuts, with its value behind the
first equality sign. -/
theorem ReadableProperty.propertyText (h : ReadableProperty property) : ∃ value,
    valueText property = some value ∧
      propertyText property = some (quotedText property.name ++ '=' :: value) := by
  have hvalue : ∃ value, valueText property = some value := by
    rcases h.value with ⟨htype, -⟩ | ⟨htype, -⟩ | ⟨htype, hutf8⟩
    · exact ⟨_, by rw [valueText, htype]⟩
    · exact ⟨_, by rw [valueText, htype]⟩
    · exact ⟨_, by rw [valueText, htype]; exact dumpString_of_isUtf8 hutf8⟩
  obtain ⟨value, hvalue⟩ := hvalue
  refine ⟨value, hvalue, ?_⟩
  rw [IbImport.propertyText, dumpString_of_isUtf8 h.name_utf8, hvalue]
  rfl

/-- The texts that stand for values. -/
theorem ReadableProperty.value_cases (h : ReadableProperty property) (hvalue : valueText property = some value) :
    (property.type = .Byte ∧ property.value = "0".toList ∧ value = "false".toList) ∨
    (property.type = .Byte ∧ property.value = "1".toList ∧ value = "true".toList) ∨
    (property.type = .Int ∧ ∃ number, IsInt32 number ∧ property.value = decimal number ∧
      value = decimal number) ∨
    (property.type = .String ∧ isUtf8 property.value = true ∧ value = quotedText property.value) := by
  rw [valueText] at hvalue
  rcases h.value with ⟨htype, hzero | hone⟩ | ⟨htype, number, hnumber, hdecimal⟩ | ⟨htype, hutf8⟩
  · rw [htype, hzero] at hvalue
    exact .inl ⟨htype, hzero, (Option.some.inj hvalue).symm⟩
  · rw [htype, hone] at hvalue
    exact .inr (.inl ⟨htype, hone, (Option.some.inj hvalue).symm⟩)
  · rw [htype, hdecimal] at hvalue
    exact .inr (.inr (.inl ⟨htype, number, hnumber, hdecimal, (Option.some.inj hvalue).symm⟩))
  · rw [htype] at hvalue
    have hquoted := hvalue.symm.trans (dumpString_of_isUtf8 hutf8)
    exact .inr (.inr (.inr ⟨htype, hutf8, Option.some.inj hquoted⟩))

/-- What the splitter and the trimming make of a value text. -/
theorem ReadableProperty.value_spec (h : ReadableProperty property) {value : List Char}
    (hvalue : valueText property = some value) :
    Skips value ∧ Tight value ∧ ∀ c ∈ value, c ≠ '\n' := by
  rcases h.value_cases hvalue with ⟨-, -, rfl⟩ | ⟨-, -, rfl⟩ | ⟨-, number, -, -, rfl⟩ | ⟨-, -, rfl⟩
  · exact ⟨.text (by decide) (by decide), ⟨by decide, fun _ hc => Option.some.inj hc ▸ rfl,
      fun _ hc => Option.some.inj hc ▸ rfl⟩, forall_mem_of_all (by decide)⟩
  · exact ⟨.text (by decide) (by decide), ⟨by decide, fun _ hc => Option.some.inj hc ▸ rfl,
      fun _ hc => Option.some.inj hc ▸ rfl⟩, forall_mem_of_all (by decide)⟩
  · have hne {c d : Char} (hc : c ∈ decimal number) (hdigit : d.isDigit = false) (hminus : d ≠ '-') :
        c ≠ d := (Bdx.isNumeric_decimal hc).ne hdigit hminus
    exact ⟨.text (fun hc => hne hc (by decide) (by decide) rfl) fun hc => hne hc (by decide) (by decide) rfl,
      tight_decimal number, fun c hc => hne hc (by decide) (by decide)⟩
  · exact ⟨skips_quotedText _, tight_quotedText _, fun c => ne_newline_of_mem_quotedText⟩

/-- The reader gives a readable property back. -/
theorem ReadableProperty.parseProperty (hjson : ReadsStrings json) (h : ReadableProperty property)
    (hvalue : valueText property = some value) :
    parseProperty json (quotedText property.name ++ '=' :: value) = .ok property := by
  have htight := (h.value_spec hvalue).2.1
  have hpart : trimCopy (quotedText property.name ++ '=' :: value) =
      quotedText property.name ++ '=' :: value :=
    ((tight_quotedText property.name).append htight ['=']).trimCopy
  have hcut : cutAtFirst '=' (quotedText property.name ++ '=' :: value) =
      some (quotedText property.name, value) := by
    have hnot : ∀ c ∈ quotedText property.name, decide (c ≠ '=') = true := fun c hc =>
      decide_eq_true (ne_of_mem_of_not_mem hc (Json.equal_notMem_quotedText h.name_plain))
    rw [cutAtFirst, if_pos (List.mem_append_right _ List.mem_cons_self),
      List.takeWhile_append_of_pos hnot, List.dropWhile_append_of_pos hnot]
    simp
  have hname : unquote json (quotedText property.name) = property.name :=
    unquote_quotedText hjson h.name_utf8
  have hempty : ¬ (property.name.isEmpty = true ∨ value.isEmpty = true) := by
    simp [h.name_ne_nil, htight.ne_nil]
  obtain ⟨tail, htail⟩ : ∃ tail, quotedText property.name = '"' :: tail := ⟨_, rfl⟩
  rw [IbImport.parseProperty, hpart, hcut]
  dsimp only
  rw [if_neg (by simp [quotedText])]
  rw [htail] at hname ⊢
  dsimp only
  rw [hname, htight.trimCopy, if_neg hempty]
  obtain ⟨name, type, text⟩ := property
  rcases h.value_cases hvalue with ⟨rfl, rfl, rfl⟩ | ⟨rfl, rfl, rfl⟩ | ⟨rfl, number, hnumber, rfl, rfl⟩ |
    ⟨rfl, hutf8, rfl⟩
  · rfl
  · rfl
  · have hnot {c : Char} (hdigit : c.isDigit = false) (hminus : c ≠ '-') : c ∉ decimal number :=
      fun hmem => (Bdx.isNumeric_decimal hmem).ne hdigit hminus rfl
    have htrue : decimal number ≠ "true".toList := fun heq =>
      @hnot 't' (by decide) (by decide) (by rw [heq]; decide)
    have hfalse : decimal number ≠ "false".toList := fun heq =>
      @hnot 'f' (by decide) (by decide) (by rw [heq]; decide)
    have hquote : (decimal number).head? ≠ some '"' := fun heq =>
      @hnot '"' (by decide) (by decide) (List.mem_of_mem_head? heq)
    rw [if_neg htrue, if_neg hfalse, if_neg hquote, fromChars_decimal hnumber]
  · have hne (word : List Char) (hword : word.head? ≠ some '"') : quotedText text ≠ word := by
      rintro rfl
      exact hword rfl
    rw [if_neg (hne _ (by decide)), if_neg (hne _ (by decide)),
      if_pos (show (quotedText text).head? = some '"' from rfl), unquote_quotedText hjson hutf8]

/-- The parts of a written list. -/
theorem mapM_propertyText {properties : List BlockStateProperty}
    (hjson : ReadsStrings json) (h : ∀ property ∈ properties, ReadableProperty property) : ∃ parts,
    properties.mapM propertyText = some parts ∧ parts.mapM (parseProperty json) = .ok properties ∧
      parts.length = properties.length ∧
      ∀ part ∈ parts, Skips part ∧ Tight part ∧ ∀ c ∈ part, c ≠ '\n' := by
  induction properties with
  | nil => exact ⟨[], rfl, rfl, rfl, nofun⟩
  | cons property rest ih =>
    obtain ⟨parts, hparts, hparse, hlength, hspec⟩ := ih fun property hmem =>
      h property (List.mem_cons_of_mem _ hmem)
    have hproperty := h property List.mem_cons_self
    obtain ⟨value, hvalue, htext⟩ := hproperty.propertyText
    obtain ⟨hskips, htight, hline⟩ := hproperty.value_spec hvalue
    refine ⟨(quotedText property.name ++ '=' :: value) :: parts, ?_, ?_, ?_, ?_⟩
    · rw [List.mapM_cons, htext, hparts]
      rfl
    · rw [List.mapM_cons, hproperty.parseProperty hjson hvalue, hparse]
      rfl
    · rw [List.length_cons, hlength, List.length_cons]
    · rw [List.forall_mem_cons]
      refine ⟨⟨?_, (tight_quotedText property.name).append htight ['='], fun c hc => ?_⟩, hspec⟩
      · exact (skips_quotedText property.name).append
          (Skips.append (.text (by decide) (by decide) : Skips ['=']) hskips)
      · rcases List.mem_append.mp hc with hname | hvalue
        · exact ne_newline_of_mem_quotedText hname
        · rcases List.mem_cons.mp hvalue with rfl | hvalue
          · decide
          · exact hline c hvalue

end Properties

/-- The names of a list without repetition, sorted. -/
theorem pairwise_sortedProperties {state : BlockState}
    (h : (state.states.map BlockStateProperty.name).Nodup) :
    (sortedProperties state).Pairwise fun left right => left.name < right.name := by
  have hperm : (sortedProperties state).Perm state.states := List.mergeSort_perm _ _
  have hsorted : (sortedProperties state).Pairwise fun left right => left.name ≤ right.name :=
    pairwise_mergeSort_by (fun _ _ _ => le_trans) le_total BlockStateProperty.name state.states
  have hdistinct : (sortedProperties state).Pairwise fun left right => left.name ≠ right.name := by
    rw [← List.pairwise_map (f := BlockStateProperty.name) (R := fun left right => left ≠ right)]
    exact (hperm.map BlockStateProperty.name).nodup_iff.mpr h
  exact (hsorted.and hdistinct).imp fun hboth =>
    not_le.mp fun hge => hboth.2 (le_antisymm hboth.1 hge)

/-- The reader takes a bracketed list of parts apart. -/
theorem parseStateProperties_list {json : JsonLibrary} {parts : List (List Char)}
    {properties : List BlockStateProperty} (hparse : parts.mapM (parseProperty json) = .ok properties)
    (hfew : parts.length ≤ kMaxStateProperties) (h : ∀ part ∈ parts, Skips part ∧ Tight part) :
    parseStateProperties json ('[' :: (List.intercalate [','] parts ++ [']'])) = .ok properties := by
  have htight : Tight ('[' :: (List.intercalate [','] parts ++ [']'])) := tight_brackets _
  have hlast : ('[' :: (List.intercalate [','] parts ++ [']'])).getLast? = some ']' := by
    rw [← List.cons_append, List.getLast?_concat]
  rw [parseStateProperties, htight.trimCopy]
  dsimp only
  rw [if_neg (by simp [hlast]), List.tail_cons, List.dropLast_concat]
  cases parts with
  | nil =>
    cases hparse
    rfl
  | cons part rest =>
    have hbody : Tight (List.intercalate [','] (part :: rest)) := tight_intercalate fun part hpart => (h part hpart).2
    rw [hbody.trimCopy, if_neg (by simpa using hbody.ne_nil),
      splitParts_intercalate (List.cons_ne_nil _ _) fun part hpart => (h part hpart).1]
    dsimp only
    rw [if_neg (Nat.not_lt.mpr hfew), hparse]

/-- A library that reads strings. -/
def stringLibrary : JsonLibrary where
  parse text := (Json.parseString text).map .string
  events _ := []

def signState : BlockState where
  name := "oak_sign".toList
  states := [⟨"text".toList, .String, "a\"],[\\\n=".toList⟩, ⟨"lit".toList, .Byte, "1".toList⟩,
    ⟨"facing \"dir\"".toList, .Int, "-3".toList⟩]
  version := 0

theorem readableState_sign : ReadableState signState where
  name_ne_nil := by decide
  name_space := forall_mem_of_all (by decide)
  name_short := by decide
  few := by decide
  distinct := by decide
  property := by
    refine List.forall_mem_cons.mpr ⟨?_, List.forall_mem_cons.mpr ⟨?_, List.forall_mem_singleton.mpr ?_⟩⟩
    · exact ⟨by decide, by decide +kernel, by decide, .inr (.inr ⟨rfl, by decide +kernel⟩)⟩
    · exact ⟨by decide, by decide +kernel, by decide, .inl ⟨rfl, .inr rfl⟩⟩
    · exact ⟨by decide, by decide +kernel, by decide, .inr (.inl ⟨rfl, -3, by decide, by decide +kernel⟩)⟩

end WaterStructure.IbImport
