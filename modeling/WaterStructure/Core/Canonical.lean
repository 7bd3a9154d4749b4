import Mathlib.Data.Char
import Mathlib.Data.List.Lex
import Mathlib.Data.Prod.Lex
import WaterStructure.Core.JavaStates
import WaterStructure.Core.Types
import WaterStructure.Library.ByteReader
import WaterStructure.Library.SelfDelimiting

/-!
# Canonical bytes of a block state

A block state is written with its name, its version and its properties in the order of their names; texts
stand behind their length and integers in the width of their type. Two states have the same bytes exactly
when they agree up to the order of the properties and to integers modulo their width. A text whose length
does not fit into four bytes is refused.
-/

namespace WaterStructure.Canonical

open ByteReader NestedLoop SelfDelimiting

/-- The largest value of `std::uint32_t`. -/
def uint32Max : ℕ := 4294967295

/-- `append_integer`, for an integer type of the given number of bytes. -/
def appendInteger (width : ℕ) (value : ℤ) : List UInt8 :=
  littleEndian width (value % 256 ^ width).toNat

/-- `append_string` -/
def appendString (value : List Char) : Except String (List UInt8) :=
  if value.length > uint32Max then .error "canonical 字符串过长"
  else .ok (appendInteger 4 value.length ++ textBytes value)

/-- `parse_integer` -/
def parseInteger (value : List Char) : Except String ℤ :=
  match fromChars64 value with
  | none => .error ("方块状态整数无效: " ++ String.ofList value)
  | some result => .ok result

/-- The byte that stands for a type. -/
def typeByte : BlockStateValueType → UInt8
  | .Byte => 1
  | .Short => 2
  | .Int => 3
  | .Long => 4
  | .String => 8

/-- The bytes that an integer of a type takes. -/
def typeWidth : BlockStateValueType → ℕ
  | .Byte => 1
  | .Short => 2
  | .Int => 4
  | _ => 8

/-- The value of a property, behind the byte of its type. -/
def appendValue (property : BlockStateProperty) : Except String (List UInt8) :=
  match property.type with
  | .String => appendString property.value
  | type => (parseInteger property.value).map (appendInteger (typeWidth type))

/-- `append_block_property` -/
def appendBlockProperty (property : BlockStateProperty) : Except String (List UInt8) := do
  let name ← appendString property.name
  let value ← appendValue property
  return name ++ typeByte property.type :: value

/-- The place of a type in the enumeration. -/
def typeRank : BlockStateValueType → ℕ
  | .Byte => 0
  | .Short => 1
  | .Int => 2
  | .Long => 3
  | .String => 4

/-- What the properties are sorted by. -/
def sortKey (property : BlockStateProperty) : List Char ×ₗ ℕ ×ₗ List Char :=
  toLex (property.name, toLex (typeRank property.type, property.value))

def sortedProperties (state : BlockState) : List BlockStateProperty :=
  state.states.mergeSort fun left right => decide (sortKey left ≤ sortKey right)

def blockStateHeader : List UInt8 := textBytes "WSBS".toList ++ [1]

/-- What `canonical_block_state` puts together. -/
def blockStateBytes (state : BlockState) : Except String (List UInt8) := do
  let name ← appendString state.name
  let properties ← encodeAll appendBlockProperty (sortedProperties state)
  return blockStateHeader ++ (name ++ (appendInteger 4 state.version ++
    (appendInteger 4 state.states.length ++ properties)))

/-- `canonical_block_state` -/
def canonicalBlockState (state : BlockState) : Except String (List UInt8) :=
  (blockStateBytes state).mapError ("canonical block state 失败: " ++ ·)

/-- The value of a property as far as it is written: a text, or an integer modulo its width. -/
inductive CanonicalValue where
  | text (value : List Char)
  | integer (residue : ℤ)
  deriving DecidableEq

def canonicalValue (property : BlockStateProperty) : CanonicalValue :=
  match property.type with
  | .String => .text property.value
  | type => .integer ((fromChars64 property.value).getD 0 % 256 ^ typeWidth type)

/-- What a property says. -/
def identity (property : BlockStateProperty) : List Char × BlockStateValueType × CanonicalValue :=
  (property.name, property.type, canonicalValue property)

/-- The states have one name, one version and the same set of properties. -/
def SameState (left right : BlockState) : Prop :=
  left.name = right.name ∧ left.version = right.version ∧
    ∀ property, property ∈ left.states.map identity ↔ property ∈ right.states.map identity

/-- The characters of a text stand for bytes. -/
def ByteText (text : List Char) : Prop := ∀ c ∈ text, c.toNat < 256

instance (text : List Char) : Decidable (ByteText text) :=
  List.decidableBAll (fun c : Char => c.toNat < 256) text

/-- A block state with distinct property names whose integers parse. -/
structure ParsingState (state : BlockState) : Prop where
  name : ByteText state.name
  version : IsInt32 state.version
  texts : ∀ property ∈ state.states, ByteText property.name ∧ ByteText property.value
  distinct : (state.states.map BlockStateProperty.name).Nodup
  parses : ∀ property ∈ state.states, property.type ≠ .String →
    ∃ value, fromChars64 property.value = some value

/-- The length of a text fits into four bytes. -/
def Fits (text : List Char) : Prop := text.length ≤ uint32Max

/-- The lengths of all texts that are written fit into four bytes. -/
def TextsFit (state : BlockState) : Prop :=
  Fits state.name ∧ ∀ property ∈ state.states,
    Fits property.name ∧ (property.type = .String → Fits property.value)

section Encoders

variable {text : List Char} {width : ℕ} {value other : ℤ}

theorem textBytes_injective {other : List Char} (h : ByteText text) (h' : ByteText other)
    (heq : textBytes text = textBytes other) : text = other := by
  induction text generalizing other with
  | nil => exact (List.map_eq_nil_iff.mp heq.symm).symm
  | cons c text ih =>
    cases other with
    | nil => cases heq
    | cons d other =>
      obtain ⟨hc, htext⟩ := List.forall_mem_cons.mp h
      obtain ⟨hd, hother⟩ := List.forall_mem_cons.mp h'
      obtain ⟨hbyte, hrest⟩ := List.cons.inj heq
      have hnat := congrArg UInt8.toNat hbyte
      rw [UInt8.toNat_ofNat_of_lt' hc, UInt8.toNat_ofNat_of_lt' hd] at hnat
      rw [Char.toNat_inj.mp hnat, ih htext hother hrest]

/-- An integer in front of a rest. -/
theorem appendInteger_append {s t : List UInt8}
    (h : appendInteger width value ++ s = appendInteger width other ++ t) :
    value % 256 ^ width = other % 256 ^ width ∧ s = t := by
  obtain ⟨hmod, hrest⟩ := littleEndian_append h
  have hcast : ((256 ^ width : ℕ) : ℤ) = 256 ^ width := Int.natCast_pow 256 width
  have hpos : (0 : ℤ) < 256 ^ width := Int.pow_pos (by decide)
  have hnonneg (number : ℤ) : 0 ≤ number % 256 ^ width := Int.emod_nonneg number hpos.ne'
  have hlt (number : ℤ) : (number % 256 ^ width).toNat < 256 ^ width :=
    (Int.toNat_lt (hnonneg number)).mpr (hcast ▸ Int.emod_lt_of_pos number hpos)
  rw [Nat.mod_eq_of_lt (hlt value), Nat.mod_eq_of_lt (hlt other)] at hmod
  exact ⟨(Int.toNat_of_nonneg (hnonneg value)).symm.trans
    ((congrArg Nat.cast hmod).trans (Int.toNat_of_nonneg (hnonneg other))), hrest⟩

theorem appendInteger_congr (h : value % 256 ^ width = other % 256 ^ width) :
    appendInteger width value = appendInteger width other := by
  rw [appendInteger, appendInteger, h]

theorem appendString_ok : (∃ code, appendString text = .ok code) ↔ Fits text := by
  rw [appendString, Fits]
  split_ifs with h
  · exact iff_of_false (fun ⟨_, hok⟩ => by cases hok) (Nat.not_le.mpr h)
  · exact iff_of_true ⟨_, rfl⟩ (Nat.not_lt.mp h)

/-- A text in front of a rest. -/
theorem appendString_delimits (h : ByteText text) : DelimitsAt ByteText (· = ·) appendString text := by
  intro other h' x y s t hx hy heq
  have hok {text code} (hcode : appendString text = .ok code) :
      text.length ≤ uint32Max ∧ code = appendInteger 4 text.length ++ textBytes text := by
    rw [appendString] at hcode
    obtain ⟨hfits, hcode⟩ := else_of_ok hcode
    cases hcode
    exact ⟨Nat.not_lt.mp hfits, rfl⟩
  obtain ⟨hlength, rfl⟩ := hok hx
  obtain ⟨hlength', rfl⟩ := hok hy
  rw [List.append_assoc, List.append_assoc] at heq
  obtain ⟨hmod, hrest⟩ := appendInteger_append heq
  rw [uint32Max] at hlength hlength'
  have hsame : (textBytes text).length = (textBytes other).length := by
    rw [textBytes, textBytes, List.length_map, List.length_map]
    omega
  obtain ⟨hbytes, hst⟩ := List.append_inj hrest hsame
  exact ⟨textBytes_injective h h' hbytes, hst⟩

end Encoders

section Properties

variable {property other : BlockStateProperty} {state : BlockState}

/-- A property whose texts are bytes, and which parses if it is an integer. -/
structure ParsingProperty (property : BlockStateProperty) : Prop where
  name : ByteText property.name
  value : ByteText property.value
  parses : property.type ≠ .String → ∃ value, fromChars64 property.value = some value

theorem ParsingState.parsing (h : ParsingState state) (hmem : property ∈ state.states) :
    ParsingProperty property :=
  ⟨(h.texts property hmem).1, (h.texts property hmem).2, h.parses property hmem⟩

/-- An integer is written modulo its width. -/
theorem appendValue_integer (h : ParsingProperty property) (hne : property.type ≠ .String) :
    ∃ residue, canonicalValue property = .integer (residue % 256 ^ typeWidth property.type) ∧
      appendValue property = .ok (appendInteger (typeWidth property.type) residue) := by
  obtain ⟨number, hnumber⟩ := h.parses hne
  refine ⟨number, ?_⟩
  obtain ⟨name, type, value⟩ := property
  rw [canonicalValue, appendValue]
  dsimp only at hnumber
  cases type with
  | String => exact absurd rfl hne
  | Byte | Short | Int | Long =>
    dsimp only
    rw [parseInteger, hnumber]
    exact ⟨rfl, rfl⟩

theorem appendValue_text (htype : property.type = .String) :
    canonicalValue property = .text property.value ∧ appendValue property = appendString property.value := by
  rw [canonicalValue, appendValue, htype]
  exact ⟨rfl, rfl⟩

/-- What a property says fixes its bytes. -/
theorem appendBlockProperty_congr (h : ParsingProperty property) (h' : ParsingProperty other)
    (heq : identity property = identity other) :
    appendBlockProperty property = appendBlockProperty other := by
  obtain ⟨hname, htype, hvalue⟩ : property.name = other.name ∧ property.type = other.type ∧
      canonicalValue property = canonicalValue other := by
    simpa [identity] using heq
  have hbytes : appendValue property = appendValue other := by
    by_cases hstring : property.type = .String
    · obtain ⟨htext, hcode⟩ := appendValue_text hstring
      obtain ⟨htext', hcode'⟩ := appendValue_text (htype ▸ hstring)
      rw [htext, htext', CanonicalValue.text.injEq] at hvalue
      rw [hcode, hcode', hvalue]
    · obtain ⟨residue, hresidue, hcode⟩ := appendValue_integer h hstring
      obtain ⟨residue', hresidue', hcode'⟩ := appendValue_integer h' (htype ▸ hstring)
      rw [hresidue, hresidue', htype, CanonicalValue.integer.injEq] at hvalue
      rw [hcode, hcode', htype, appendInteger_congr hvalue]
  rw [appendBlockProperty, appendBlockProperty, hname, htype, hbytes]

theorem appendBlockProperty_ne_nil : appendBlockProperty property ≠ .ok [] := by
  intro h
  obtain ⟨name, -, h⟩ := exists_of_bind_ok h
  obtain ⟨value, -, h⟩ := exists_of_bind_ok h
  have hbytes := Except.ok.inj h
  simp at hbytes

theorem appendBlockProperty_ok (h : ParsingProperty property) :
    (∃ code, appendBlockProperty property = .ok code) ↔
      Fits property.name ∧ (property.type = .String → Fits property.value) := by
  have hvalue : (∃ code, appendValue property = .ok code) ↔
      (property.type = .String → Fits property.value) := by
    by_cases hstring : property.type = .String
    · rw [(appendValue_text hstring).2, appendString_ok]
      exact ⟨fun hfits _ => hfits, fun hfits => hfits hstring⟩
    · obtain ⟨residue, -, hcode⟩ := appendValue_integer h hstring
      exact iff_of_true ⟨_, hcode⟩ fun htype => absurd htype hstring
  rw [← appendString_ok, ← hvalue]
  constructor
  · rintro ⟨code, hcode⟩
    obtain ⟨name, hname, hcode⟩ := exists_of_bind_ok hcode
    obtain ⟨value, hvalue, -⟩ := exists_of_bind_ok hcode
    exact ⟨⟨name, hname⟩, ⟨value, hvalue⟩⟩
  · rintro ⟨⟨name, hname⟩, ⟨value, hvalue⟩⟩
    exact ⟨name ++ typeByte property.type :: value, by
      rw [appendBlockProperty, hname, ok_bind, hvalue, ok_bind]
      rfl⟩

theorem typeByte_injective : Function.Injective typeByte := by
  intro type type' h
  revert h
  cases type <;> cases type' <;> decide

/-- The bytes of a property, in front of any rest, fix what it says. -/
theorem appendBlockProperty_delimits (h : ParsingProperty property) :
    DelimitsAt ParsingProperty (fun property other => identity property = identity other)
      appendBlockProperty property := by
  intro other h' x y s t hx hy heq
  obtain ⟨name, hname, hx⟩ := exists_of_bind_ok hx
  obtain ⟨value, hvalue, hx⟩ := exists_of_bind_ok hx
  obtain ⟨name', hname', hy⟩ := exists_of_bind_ok hy
  obtain ⟨value', hvalue', hy⟩ := exists_of_bind_ok hy
  cases hx
  cases hy
  rw [List.append_assoc, List.append_assoc] at heq
  obtain ⟨hsame, hrest⟩ := appendString_delimits h.name _ h'.name _ _ _ _ hname hname' heq
  obtain ⟨hbyte, hrest⟩ := List.cons.inj hrest
  have htype := typeByte_injective hbyte
  have hvalues : canonicalValue property = canonicalValue other ∧ s = t := by
    by_cases hstring : property.type = .String
    · obtain ⟨htext, hcode⟩ := appendValue_text hstring
      obtain ⟨htext', hcode'⟩ := appendValue_text (htype ▸ hstring)
      rw [hcode] at hvalue
      rw [hcode'] at hvalue'
      obtain ⟨heq, hst⟩ := appendString_delimits h.value _ h'.value _ _ _ _ hvalue hvalue' hrest
      exact ⟨by rw [htext, htext', heq], hst⟩
    · obtain ⟨residue, hresidue, hcode⟩ := appendValue_integer h hstring
      obtain ⟨residue', hresidue', hcode'⟩ := appendValue_integer h' (htype ▸ hstring)
      rw [hcode, Except.ok.injEq] at hvalue
      rw [hcode', Except.ok.injEq] at hvalue'
      subst hvalue hvalue'
      rw [← htype] at hrest hresidue'
      obtain ⟨hmod, hst⟩ := appendInteger_append hrest
      exact ⟨by rw [hresidue, hresidue', hmod], hst⟩
  refine ⟨?_, hvalues.2⟩
  change identity property = identity other
  rw [identity, identity, hsame, htype, hvalues.1]

end Properties

section States

variable {left right state : BlockState}

theorem sortedProperties_perm (state : BlockState) : (sortedProperties state).Perm state.states :=
  List.mergeSort_perm _ _

/-- Distinct names are sorted strictly. -/
theorem ParsingState.sorted_names (h : ParsingState state) :
    ((sortedProperties state).map BlockStateProperty.name).Pairwise (· < ·) := by
  have hkeys := pairwise_mergeSort_by (fun _ _ _ => le_trans) le_total sortKey state.states
  have hdistinct : ((sortedProperties state).map BlockStateProperty.name).Nodup :=
    ((sortedProperties_perm state).map _).nodup_iff.mpr h.distinct
  rw [List.pairwise_map]
  refine (hkeys.and (List.pairwise_map.mp hdistinct)).imp fun {left right} hboth => ?_
  rcases Prod.Lex.toLex_le_toLex.mp hboth.1 with hlt | ⟨heq, -⟩
  · exact hlt
  · exact absurd heq hboth.2

/-- States with the same set of properties say the same in the same order. -/
theorem map_identity_sortedProperties (h : ParsingState left) (h' : ParsingState right)
    (hsame : ∀ property, property ∈ left.states.map identity ↔ property ∈ right.states.map identity) :
    (sortedProperties left).map identity = (sortedProperties right).map identity := by
  have hsorted {state : BlockState} (h : ParsingState state) :
      ((sortedProperties state).map identity).Pairwise fun first second => first.1 < second.1 := by
    have hnames := h.sorted_names
    rw [List.pairwise_map] at hnames ⊢
    exact hnames
  have hnodup {state : BlockState} (h : ParsingState state) :
      ((sortedProperties state).map identity).Nodup :=
    (hsorted h).imp fun hlt heq => absurd (heq ▸ hlt) (lt_irrefl _)
  have hperm : ((sortedProperties left).map identity).Perm ((sortedProperties right).map identity) := by
    refine (List.perm_ext_iff_of_nodup (hnodup h) (hnodup h')).mpr fun property => ?_
    rw [((sortedProperties_perm left).map identity).mem_iff,
      ((sortedProperties_perm right).map identity).mem_iff]
    exact hsame property
  refine List.Perm.eq_of_pairwise ?_ (hsorted h) (hsorted h') hperm
  exact fun first second _ _ hlt hgt => absurd (hlt.trans hgt) (lt_irrefl _)

variable {bytes : List UInt8}

theorem canonicalBlockState_ok_iff :
    canonicalBlockState state = .ok bytes ↔ blockStateBytes state = .ok bytes := by
  rw [canonicalBlockState]
  cases blockStateBytes state with
  | error message => exact iff_of_false nofun nofun
  | ok code => exact Iff.rfl

/-- A state has bytes when all lengths fit. -/
theorem ParsingState.bytes_iff (h : ParsingState state) :
    (∃ bytes, blockStateBytes state = .ok bytes) ↔ TextsFit state := by
  have hproperties : (∃ code, encodeAll appendBlockProperty (sortedProperties state) = .ok code) ↔
      ∀ property ∈ state.states,
        Fits property.name ∧ (property.type = .String → Fits property.value) := by
    have hmem {property} : property ∈ sortedProperties state ↔ property ∈ state.states :=
      (sortedProperties_perm state).mem_iff
    constructor
    · rintro ⟨code, hcode⟩ property hproperty
      exact (appendBlockProperty_ok (h.parsing hproperty)).mp
        (ok_of_encodeAll hcode property (hmem.mpr hproperty))
    · intro hfits
      exact encodeAll_ok fun property hproperty =>
        (appendBlockProperty_ok (h.parsing (hmem.mp hproperty))).mpr (hfits property (hmem.mp hproperty))
  rw [TextsFit, ← appendString_ok, ← hproperties]
  constructor
  · rintro ⟨bytes, hbytes⟩
    obtain ⟨name, hname, hbytes⟩ := exists_of_bind_ok hbytes
    obtain ⟨code, hcode, -⟩ := exists_of_bind_ok hbytes
    exact ⟨⟨name, hname⟩, ⟨code, hcode⟩⟩
  · rintro ⟨⟨name, hname⟩, ⟨code, hcode⟩⟩
    rw [blockStateBytes, hname, ok_bind, hcode, ok_bind]
    exact ⟨_, rfl⟩

/-- Equal bytes come from states that say the same. -/
theorem sameState_of_bytes (h : ParsingState left) (h' : ParsingState right)
    (hleft : blockStateBytes left = .ok bytes) (hright : blockStateBytes right = .ok bytes) :
    SameState left right := by
  obtain ⟨name, hname, hleft⟩ := exists_of_bind_ok hleft
  obtain ⟨code, hcode, hleft⟩ := exists_of_bind_ok hleft
  obtain ⟨name', hname', hright⟩ := exists_of_bind_ok hright
  obtain ⟨code', hcode', hright⟩ := exists_of_bind_ok hright
  cases hleft
  have hbytes := List.append_cancel_left (Except.ok.inj hright)
  obtain ⟨hsame, hrest⟩ := appendString_delimits h'.name _ h.name _ _ _ _ hname' hname hbytes
  obtain ⟨hversion, hrest⟩ := appendInteger_append hrest
  obtain ⟨-, rfl⟩ := appendInteger_append hrest
  have hversions : left.version = right.version := by
    obtain ⟨hlow, hhigh⟩ := h.version
    obtain ⟨hlow', hhigh'⟩ := h'.version
    have hwidth : (256 : ℤ) ^ 4 = 4294967296 := rfl
    rw [hwidth] at hversion
    unfold int32Min at hlow hlow'
    unfold int32Max at hhigh hhigh'
    omega
  have hall := encodeAll_whole
    (fun property hproperty => appendBlockProperty_delimits
      (h.parsing ((sortedProperties_perm left).mem_iff.mp hproperty)))
    (fun property hproperty => h'.parsing ((sortedProperties_perm right).mem_iff.mp hproperty))
    (fun _ => appendBlockProperty_ne_nil) hcode hcode'
  refine ⟨hsame.symm, hversions, fun property => ?_⟩
  have hlists : (sortedProperties left).map identity = (sortedProperties right).map identity :=
    List.forall₂_eq_eq_eq ▸ List.forall₂_map_left_iff.mpr (List.forall₂_map_right_iff.mpr hall)
  rw [← ((sortedProperties_perm left).map identity).mem_iff,
    ← ((sortedProperties_perm right).map identity).mem_iff, hlists]

/-- States that say the same have the same bytes. -/
theorem bytes_of_sameState (h : ParsingState left) (h' : ParsingState right)
    (hsame : SameState left right) : blockStateBytes left = blockStateBytes right := by
  obtain ⟨hname, hversion, hproperties⟩ := hsame
  have hlists := map_identity_sortedProperties h h' hproperties
  have hlength : left.states.length = right.states.length := by
    rw [← (sortedProperties_perm left).length_eq, ← (sortedProperties_perm right).length_eq,
      ← List.length_map identity, hlists, List.length_map]
  have hcodes := encodeAll_congr hlists fun property hproperty other hother =>
    appendBlockProperty_congr (h.parsing ((sortedProperties_perm left).mem_iff.mp hproperty))
      (h'.parsing ((sortedProperties_perm right).mem_iff.mp hother))
  rw [blockStateBytes, blockStateBytes, hname, hversion, hlength, hcodes]

end States

/-- Two states have bytes, and the same ones, exactly when they say the same and the lengths of their texts
fit. -/
theorem canonicalBlockState_eq_iff {left right : BlockState} (h : ParsingState left)
    (h' : ParsingState right) :
    (∃ bytes, canonicalBlockState left = .ok bytes ∧ canonicalBlockState right = .ok bytes) ↔
      TextsFit left ∧ SameState left right := by
  simp only [canonicalBlockState_ok_iff]
  constructor
  · rintro ⟨bytes, hleft, hright⟩
    exact ⟨h.bytes_iff.mp ⟨bytes, hleft⟩, sameState_of_bytes h h' hleft hright⟩
  · rintro ⟨hfits, hsame⟩
    obtain ⟨bytes, hleft⟩ := h.bytes_iff.mpr hfits
    exact ⟨bytes, hleft, bytes_of_sameState h h' hsame ▸ hleft⟩

/-- Two spellings of one state: the properties in another order, and a byte beyond its width. -/
def spelledState : BlockState where
  name := "minecraft:lever".toList
  states := [⟨"b".toList, .String, "x".toList⟩, ⟨"a".toList, .Byte, "257".toList⟩]
  version := 1

def respelledState : BlockState where
  name := "minecraft:lever".toList
  states := [⟨"a".toList, .Byte, "1".toList⟩, ⟨"b".toList, .String, "x".toList⟩]
  version := 1

theorem spelledState_parsing : ParsingState spelledState where
  name := by decide
  version := by decide
  texts := by decide
  distinct := by decide
  parses := List.forall_mem_cons.mpr ⟨fun h => absurd rfl h,
    List.forall_mem_singleton.mpr fun _ => ⟨257, by decide⟩⟩

theorem respelledState_parsing : ParsingState respelledState where
  name := by decide
  version := by decide
  texts := by decide
  distinct := by decide
  parses := List.forall_mem_cons.mpr ⟨fun _ => ⟨1, by decide⟩,
    List.forall_mem_singleton.mpr fun h => absurd rfl h⟩

theorem canonicalBlockState_respelled :
    ∃ bytes, canonicalBlockState spelledState = .ok bytes ∧
      canonicalBlockState respelledState = .ok bytes := by
  have hfits : TextsFit spelledState := by
    unfold TextsFit Fits
    decide
  have hswap : (spelledState.states.map identity).Perm (respelledState.states.map identity) := by
    have hreversed : respelledState.states.map identity = (spelledState.states.map identity).reverse := by
      decide
    rw [hreversed]
    exact (List.reverse_perm _).symm
  exact (canonicalBlockState_eq_iff spelledState_parsing respelledState_parsing).mpr
    ⟨hfits, rfl, rfl, fun _ => hswap.mem_iff⟩

/-- A name of 4294967296 bytes. -/
def endlessState : BlockState where
  name := List.replicate 4294967296 'a'
  states := []
  version := 0

theorem endlessState_parsing : ParsingState endlessState where
  name := fun c hc => by
    rw [List.eq_of_mem_replicate hc]
    decide
  version := by decide
  texts := nofun
  distinct := List.nodup_nil
  parses := nofun

/-- A state that is the same as itself and has no bytes. -/
theorem canonicalBlockState_endless :
    ¬ ∀ left right : BlockState, ParsingState left → ParsingState right →
      ((∃ bytes, canonicalBlockState left = .ok bytes ∧ canonicalBlockState right = .ok bytes) ↔
        SameState left right) := by
  intro h
  obtain ⟨bytes, hbytes, -⟩ := (h endlessState endlessState endlessState_parsing
    endlessState_parsing).mpr ⟨rfl, rfl, fun _ => Iff.rfl⟩
  have hfits := (endlessState_parsing.bytes_iff.mp ⟨bytes, canonicalBlockState_ok_iff.mp hbytes⟩).1
  rw [Fits, endlessState, List.length_replicate] at hfits
  exact absurd hfits (by decide)

end WaterStructure.Canonical
