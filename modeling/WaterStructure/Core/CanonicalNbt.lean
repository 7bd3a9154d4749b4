import Mathlib.Data.Int.ModEq
import WaterStructure.Core.Canonical
import WaterStructure.Library.TagTree

/-!
# Canonical bytes of NBT

A tag is written behind the byte of its type; lists, arrays and compounds stand behind the number of
their elements, which is cut off at four bytes. As long as no compound has so many entries that this
matters, two compounds have the same bytes exactly when they are the same tree. At that number of entries
two different compounds share their bytes.
-/

namespace WaterStructure.Canonical

open ByteReader NbtTag NestedLoop SelfDelimiting

/-- `tag_type` -/
def tagByte : TagType → UInt8
  | .End => 0
  | .Byte => 1
  | .Short => 2
  | .Int => 3
  | .Long => 4
  | .Float => 5
  | .Double => 6
  | .ByteArray => 7
  | .String => 8
  | .List => 9
  | .Compound => 10
  | .IntArray => 11
  | .LongArray => 12

/-- The number of elements as it is written. -/
def appendCount {α : Type} (items : List α) : List UInt8 := appendInteger 4 items.length

/-- The elements of an array behind their number. -/
def appendArray (width : ℕ) (values : List ℤ) : List UInt8 :=
  appendCount values ++ values.flatMap (appendInteger width)

mutual

/-- What `append_tag` writes behind the byte of the type. -/
def appendPayload : Tag → Except String (List UInt8)
  | .byte value => .ok (appendInteger 1 value)
  | .short value => .ok (appendInteger 2 value)
  | .int value => .ok (appendInteger 4 value)
  | .long value => .ok (appendInteger 8 value)
  | .float bits => .ok (littleEndian 4 bits.toNat)
  | .double bits => .ok (littleEndian 8 bits.toNat)
  | .byteArray values => .ok (appendArray 1 values)
  | .string value => appendString value
  | .list _ items => (appendItems items).map (appendCount items ++ ·)
  | .compound entries => (appendEntries entries).map (appendCount entries ++ ·)
  | .intArray values => .ok (appendArray 4 values)
  | .longArray values => .ok (appendArray 8 values)
termination_by structural tag => tag

/-- `append_tag` for the items of a list. -/
def appendItems : List Tag → Except String (List UInt8)
  | [] => .ok []
  | item :: rest => do
    let code ← (appendPayload item).map (tagByte item.type :: ·)
    let codes ← appendItems rest
    return code ++ codes
termination_by structural items => items

/-- The keys of a compound, each with its tag. -/
def appendEntries : List (List Char × Tag) → Except String (List UInt8)
  | [] => .ok []
  | entry :: rest => do
    let code ← appendEntry entry
    let codes ← appendEntries rest
    return code ++ codes
termination_by structural entries => entries

def appendEntry : List Char × Tag → Except String (List UInt8)
  | (key, tag) => do
    let name ← appendString key
    let code ← (appendPayload tag).map (tagByte tag.type :: ·)
    return name ++ code
termination_by structural entry => entry

end

/-- `append_tag` -/
def appendTag (tag : Tag) : Except String (List UInt8) := (appendPayload tag).map (tagByte tag.type :: ·)

def nbtHeader : List UInt8 := textBytes "WSNB".toList ++ [1]

/-- `canonical_nbt`, on the compound that has been read. -/
def canonicalNbt (root : Compound) : Except String (List UInt8) :=
  ((appendTag (.compound root.entries)).map (nbtHeader ++ ·)).mapError ("canonical NBT 失败: " ++ ·)

theorem appendItems_eq (items : List Tag) : appendItems items = encodeAll appendTag items := by
  induction items with
  | nil => rfl
  | cons item rest ih => rw [appendItems, encodeAll, ih, appendTag]

theorem appendEntries_eq (entries : Entries) : appendEntries entries = encodeAll appendEntry entries := by
  induction entries with
  | nil => rfl
  | cons entry rest ih => rw [appendEntries, encodeAll, ih]

theorem appendEntry_eq (entry : List Char × Tag) : appendEntry entry = do
    let name ← appendString entry.1
    let code ← appendTag entry.2
    return name ++ code := by
  rw [appendEntry, appendTag]

section Numbers

variable {width : ℕ} {value : ℤ} {α : Type}

/-- A signed integer is fixed by what is written of it. -/
theorem isSigned_unique {other : ℤ} (h : IsSigned width value) (h' : IsSigned width other)
    (hmod : value % 256 ^ width = other % 256 ^ width) : value = other := by
  have hdvd : (256 ^ width : ℤ) ∣ other - value := Int.ModEq.dvd hmod
  have hlt : |other - value| < 256 ^ width := by
    obtain ⟨hlow, hhigh⟩ := h
    obtain ⟨hlow', hhigh'⟩ := h'
    rw [abs_lt]
    omega
  have hzero := Int.eq_zero_of_abs_lt_dvd hdvd hlt
  omega

theorem appendInteger_delimits (h : IsSigned width value) :
    DelimitsAt (IsSigned width) (· = ·)
      (fun value => (.ok (appendInteger width value) : Except String (List UInt8))) value := by
  intro other h' x y s t hx hy heq
  cases hx
  cases hy
  obtain ⟨hmod, hrest⟩ := appendInteger_append heq
  exact ⟨isSigned_unique h h' hmod, hrest⟩

/-- A number of elements that fits into four bytes is fixed by what is written of it. -/
theorem appendCount_append {items others : List α} {s t : List UInt8} (h : items.length < 4294967296)
    (h' : others.length < 4294967296) (heq : appendCount items ++ s = appendCount others ++ t) :
    items.length = others.length ∧ s = t := by
  obtain ⟨hmod, hrest⟩ := appendInteger_append heq
  have hwidth : (256 : ℤ) ^ 4 = 4294967296 := rfl
  rw [hwidth] at hmod
  exact ⟨by omega, hrest⟩

/-- An array of numbers that fit their width. -/
def StoredArray (width : ℕ) (values : List ℤ) : Prop :=
  values.length ≤ maxLength ∧ ∀ value ∈ values, IsSigned width value

theorem appendArray_delimits {values : List ℤ} (h : StoredArray width values) :
    DelimitsAt (StoredArray width) (· = ·)
      (fun values => (.ok (appendArray width values) : Except String (List UInt8))) values := by
  intro others h' x y s t hx hy heq
  cases hx
  cases hy
  rw [appendArray, appendArray, List.append_assoc, List.append_assoc] at heq
  obtain ⟨hcount, hrest⟩ := appendCount_append (h.1.trans_lt (by decide)) (h'.1.trans_lt (by decide)) heq
  obtain ⟨hall, hst⟩ := encodeAll_delimits (fun value hvalue => appendInteger_delimits (h.2 value hvalue))
    h'.2 hcount (encodeAll_pure _ _) (encodeAll_pure _ _) hrest
  exact ⟨List.forall₂_eq_eq_eq ▸ hall, hst⟩

/-- The bits of a float are fixed by their bytes. -/
theorem littleEndian_delimits {bits : α → ℕ} (hbits : ∀ a, bits a < 256 ^ width)
    (hinj : Function.Injective bits) (value : α) :
    DelimitsAt (fun _ => True) (· = ·)
      (fun value => (.ok (littleEndian width (bits value)) : Except String (List UInt8))) value := by
  intro other _ x y s t hx hy heq
  cases hx
  cases hy
  obtain ⟨hmod, hrest⟩ := littleEndian_append heq
  rw [Nat.mod_eq_of_lt (hbits value), Nat.mod_eq_of_lt (hbits other)] at hmod
  exact ⟨hinj hmod, hrest⟩

end Numbers

section Trees

variable {limit : ℕ} {tag : Tag}

theorem tagByte_injective : Function.Injective tagByte := by
  intro type type' h
  revert h
  cases type <;> cases type' <;> decide

/-- The payload of a tag, in front of any rest, fixes the tree among the tags of its type. -/
def PayloadDelimits (limit : ℕ) (tag : Tag) : Prop :=
  ∀ other, Stored limit other → tag.type = other.type → ∀ x y s t, appendPayload tag = .ok x →
    appendPayload other = .ok y → x ++ s = y ++ t → tag.plain = other.plain ∧ s = t

/-- A tag without tags below it is fixed when its value is. -/
theorem payloadDelimits_leaf {α : Type} {make : α → Tag} {admits : α → Prop}
    {encode : α → Except String (List UInt8)} {value : α} (h : DelimitsAt admits (· = ·) encode value)
    (hcode : ∀ a, appendPayload (make a) = encode a)
    (hcases : ∀ other, Stored limit other → (make value).type = other.type →
      ∃ a, admits a ∧ make a = other) : PayloadDelimits limit (make value) := by
  intro other hother htype x y s t hx hy heq
  obtain ⟨a, ha, rfl⟩ := hcases other hother htype
  rw [hcode] at hx hy
  obtain ⟨rfl, hst⟩ := h a ha x y s t hx hy heq
  exact ⟨rfl, hst⟩

/-- The byte of the type fixes the type. -/
theorem PayloadDelimits.delimits_tag (h : PayloadDelimits limit tag) :
    DelimitsAt (Stored limit) (fun tag other => tag.plain = other.plain) appendTag tag := by
  intro other hother x y s t hx hy heq
  obtain ⟨code, hcode, rfl⟩ := exists_of_map_ok hx
  obtain ⟨code', hcode', rfl⟩ := exists_of_map_ok hy
  obtain ⟨hbyte, hrest⟩ := List.cons.inj heq
  exact h other hother (tagByte_injective hbyte) code code' s t hcode hcode' hrest

/-- The key and the tag of an entry. -/
theorem PayloadDelimits.delimits_entry {entry : List Char × Tag} (hkey : StoredText entry.1)
    (h : PayloadDelimits limit entry.2) :
    DelimitsAt (fun entry => StoredText entry.1 ∧ Stored limit entry.2)
      (fun entry other => entry.1 = other.1 ∧ entry.2.plain = other.2.plain) appendEntry entry := by
  intro other hother x y s t hx hy heq
  rw [appendEntry_eq] at hx hy
  obtain ⟨key, hname, hx⟩ := exists_of_bind_ok hx
  obtain ⟨code, hcode, hx⟩ := exists_of_bind_ok hx
  obtain ⟨key', hname', hy⟩ := exists_of_bind_ok hy
  obtain ⟨code', hcode', hy⟩ := exists_of_bind_ok hy
  cases hx
  cases hy
  rw [List.append_assoc, List.append_assoc] at heq
  obtain ⟨hsame, hrest⟩ := appendString_delimits hkey.2 _ hother.1.2 _ _ _ _ hname hname' heq
  obtain ⟨hplain, hst⟩ := h.delimits_tag other.2 hother.2 _ _ _ _ hcode hcode' hrest
  exact ⟨⟨hsame, hplain⟩, hst⟩

/-- The items of two lists are trees of the same types, so the lists are too. -/
theorem plain_list {element element' : TagType} {items items' : List Tag}
    (htype : ∀ item ∈ items, item.type = element) (htype' : ∀ item ∈ items', item.type = element')
    (h : List.Forall₂ (fun item item' => item.plain = item'.plain) items items') :
    (Tag.list element items).plain = (Tag.list element' items').plain := by
  rw [Tag.plain, Tag.plain, plainItems_eq, plainItems_eq]
  cases h with
  | nil => rfl
  | @cons item item' rest rest' hitem hrest =>
    have helement : element = element' := by
      rw [← htype item List.mem_cons_self, ← htype' item' List.mem_cons_self, ← Tag.type_plain item,
        ← Tag.type_plain item', hitem]
    have hrests : rest.map Tag.plain = rest'.map Tag.plain :=
      List.forall₂_eq_eq_eq ▸ List.forall₂_map_left_iff.mpr (List.forall₂_map_right_iff.mpr hrest)
    rw [List.map_cons, List.map_cons, hitem, hrests, helement]
    rfl

theorem plain_compound {entries entries' : Entries}
    (h : List.Forall₂ (fun entry entry' => entry.1 = entry'.1 ∧ entry.2.plain = entry'.2.plain)
      entries entries') : (Tag.compound entries).plain = (Tag.compound entries').plain := by
  have hentries : (entries.map fun entry => (entry.1, entry.2.plain)) =
      entries'.map fun entry => (entry.1, entry.2.plain) := by
    rw [← List.forall₂_eq_eq_eq, List.forall₂_map_left_iff, List.forall₂_map_right_iff]
    exact h.imp fun _ _ hboth => Prod.ext hboth.1 hboth.2
  rw [Tag.plain, Tag.plain, plainEntries_eq, plainEntries_eq, hentries]

/-- The payload of a tag in memory fixes the tree, as long as no compound has too many entries. -/
theorem payloadDelimits_of_stored (hlimit : limit < 4294967296) (h : Stored limit tag) :
    PayloadDelimits limit tag := by
  induction h with
  | byte hvalue | short hvalue | int hvalue | long hvalue =>
    refine payloadDelimits_leaf (appendInteger_delimits hvalue) (fun _ => rfl) fun other hother htype => ?_
    cases hother <;> cases htype
    exact ⟨_, by assumption, rfl⟩
  | float bits =>
    refine payloadDelimits_leaf (littleEndian_delimits UInt32.toNat_lt
      (fun _ _ => UInt32.toNat_inj.mp) bits) (fun _ => rfl) fun other hother htype => ?_
    cases hother <;> cases htype
    exact ⟨_, trivial, rfl⟩
  | double bits =>
    refine payloadDelimits_leaf (littleEndian_delimits UInt64.toNat_lt
      (fun _ _ => UInt64.toNat_inj.mp) bits) (fun _ => rfl) fun other hother htype => ?_
    cases hother <;> cases htype
    exact ⟨_, trivial, rfl⟩
  | byteArray hlength hvalues | intArray hlength hvalues | longArray hlength hvalues =>
    refine payloadDelimits_leaf (appendArray_delimits ⟨hlength, hvalues⟩) (fun _ => rfl)
      fun other hother htype => ?_
    cases hother <;> cases htype
    exact ⟨_, ⟨by assumption, by assumption⟩, rfl⟩
  | string hvalue =>
    refine payloadDelimits_leaf ((appendString_delimits hvalue.2).mono fun _ (h : StoredText _) => h.2)
      (fun _ => rfl) fun other hother htype => ?_
    cases hother <;> cases htype
    exact ⟨_, by assumption, rfl⟩
  | list hlength hitem hitems ih =>
    intro other hother htype x y s t hx hy heq
    cases hother with
    | list hlength' hitem' hitems' =>
      obtain ⟨code, hcode, rfl⟩ := exists_of_map_ok hx
      obtain ⟨code', hcode', rfl⟩ := exists_of_map_ok hy
      rw [List.append_assoc, List.append_assoc] at heq
      obtain ⟨hcount, hrest⟩ := appendCount_append (hlength.trans_lt (by decide))
        (hlength'.trans_lt (by decide)) heq
      obtain ⟨hall, hst⟩ := encodeAll_delimits (fun item hmem => (ih item hmem).delimits_tag) hitems'
        hcount (appendItems_eq _ ▸ hcode) (appendItems_eq _ ▸ hcode') hrest
      exact ⟨plain_list hitem hitem' hall, hst⟩
    | _ => cases htype
  | compound hlength hsorted hkeys htags ih =>
    intro other hother htype x y s t hx hy heq
    cases hother with
    | compound hlength' hsorted' hkeys' htags' =>
      obtain ⟨code, hcode, rfl⟩ := exists_of_map_ok hx
      obtain ⟨code', hcode', rfl⟩ := exists_of_map_ok hy
      rw [List.append_assoc, List.append_assoc] at heq
      obtain ⟨hcount, hrest⟩ := appendCount_append (hlength.trans_lt hlimit) (hlength'.trans_lt hlimit) heq
      obtain ⟨hall, hst⟩ := encodeAll_delimits
        (fun entry hmem => (ih entry hmem).delimits_entry (hkeys entry hmem))
        (fun entry hmem => ⟨hkeys' entry hmem, htags' entry hmem⟩)
        hcount (appendEntries_eq _ ▸ hcode) (appendEntries_eq _ ▸ hcode') hrest
      exact ⟨plain_compound hall, hst⟩
    | _ => cases htype

/-- What is written of a tag depends on the tree alone. -/
theorem appendPayload_plain (h : Stored limit tag) : appendPayload tag.plain = appendPayload tag := by
  induction h with
  | list hlength hitem hitems ih =>
    rename_i element items
    have hcodes : encodeAll appendTag (items.map Tag.plain) = encodeAll appendTag items :=
      encodeAll_map fun item hmem => by rw [appendTag, appendTag, ih item hmem, Tag.type_plain]
    rw [Tag.plain, plainItems_eq, appendPayload, appendPayload, appendItems_eq, appendItems_eq, hcodes,
      appendCount, appendCount, List.length_map]
  | compound hlength hsorted hkeys htags ih =>
    rename_i entries
    have hcodes : encodeAll appendEntry (entries.map fun entry => (entry.1, entry.2.plain)) =
        encodeAll appendEntry entries :=
      encodeAll_map fun entry hmem => by
        rw [appendEntry_eq, appendEntry_eq, appendTag, appendTag, ih entry hmem, Tag.type_plain]
    rw [Tag.plain, plainEntries_eq, appendPayload, appendPayload, appendEntries_eq, appendEntries_eq, hcodes,
      appendCount, appendCount, List.length_map]
  | _ => rfl

theorem appendTag_plain (h : Stored limit tag) : appendTag tag.plain = appendTag tag := by
  rw [appendTag, appendTag, appendPayload_plain h, Tag.type_plain]

theorem appendString_stored {text : List Char} (h : StoredText text) :
    ∃ code, appendString text = .ok code :=
  appendString_ok.mpr (h.1.trans (by decide))

/-- Every tag in memory is written. -/
theorem appendTag_ok (h : Stored limit tag) : ∃ code, appendTag tag = .ok code := by
  suffices hpayload : ∃ code, appendPayload tag = .ok code by
    obtain ⟨code, hcode⟩ := hpayload
    exact ⟨_, by rw [appendTag, hcode]; rfl⟩
  have htag {tag : Tag} (h : ∃ code, appendPayload tag = .ok code) : ∃ code, appendTag tag = .ok code := by
    obtain ⟨code, hcode⟩ := h
    exact ⟨_, by rw [appendTag, hcode]; rfl⟩
  induction h with
  | string hvalue => exact appendString_stored hvalue
  | list hlength hitem hitems ih =>
    obtain ⟨code, hcode⟩ := encodeAll_ok fun item hmem => htag (ih item hmem)
    exact ⟨_, by rw [appendPayload, appendItems_eq, hcode]; rfl⟩
  | compound hlength hsorted hkeys htags ih =>
    have hentries : ∃ code, encodeAll appendEntry _ = .ok code := encodeAll_ok fun entry hmem => by
      obtain ⟨key, hkey⟩ := appendString_stored (hkeys entry hmem)
      obtain ⟨code, hcode⟩ := htag (ih entry hmem)
      exact ⟨key ++ code, by rw [appendEntry_eq, hkey, ok_bind, hcode, ok_bind]; rfl⟩
    obtain ⟨code, hcode⟩ := hentries
    exact ⟨_, by rw [appendPayload, appendEntries_eq, hcode]; rfl⟩
  | _ => exact ⟨_, rfl⟩

end Trees

theorem canonicalNbt_ok_iff {root : Compound} {bytes : List UInt8} :
    canonicalNbt root = .ok bytes ↔
      ∃ code, appendTag (.compound root.entries) = .ok code ∧ bytes = nbtHeader ++ code := by
  rw [canonicalNbt]
  cases appendTag (.compound root.entries) with
  | error message => exact iff_of_false nofun nofun
  | ok code => exact ⟨fun h => ⟨code, rfl, (Except.ok.inj h).symm⟩, fun ⟨_, h, hbytes⟩ => by
      cases h
      rw [hbytes]
      rfl⟩

/-- While the numbers of entries fit into four bytes, equal bytes mean equal trees. -/
theorem canonicalNbt_eq_iff {limit : ℕ} (hlimit : limit < 4294967296) {left right : Compound}
    (h : Stored limit (.compound left.entries)) (h' : Stored limit (.compound right.entries)) :
    (∃ bytes, canonicalNbt left = .ok bytes ∧ canonicalNbt right = .ok bytes) ↔
      (Tag.compound left.entries).plain = (Tag.compound right.entries).plain := by
  constructor
  · rintro ⟨bytes, hleft, hright⟩
    obtain ⟨code, hcode, rfl⟩ := canonicalNbt_ok_iff.mp hleft
    obtain ⟨code', hcode', hbytes⟩ := canonicalNbt_ok_iff.mp hright
    have hcodes : code ++ [] = code' ++ [] := by
      rw [List.append_cancel_left hbytes]
    exact ((payloadDelimits_of_stored hlimit h).delimits_tag _ h' _ _ _ _ hcode hcode' hcodes).1
  · intro hplain
    obtain ⟨code, hcode⟩ := appendTag_ok h
    refine ⟨nbtHeader ++ code, canonicalNbt_ok_iff.mpr ⟨code, hcode, rfl⟩,
      canonicalNbt_ok_iff.mpr ⟨code, ?_, rfl⟩⟩
    rw [← appendTag_plain h', ← hplain, appendTag_plain h, hcode]

section Collision

/-- The words of a length over two letters, in ascending order. -/
def words : ℕ → List (List Char)
  | 0 => [[]]
  | n + 1 => (words n).map ('a' :: ·) ++ (words n).map ('b' :: ·)

theorem length_words (n : ℕ) : (words n).length = 2 ^ n := by
  induction n with
  | zero => rfl
  | succ n ih => rw [words, List.length_append, List.length_map, List.length_map, ih, Nat.pow_succ, Nat.mul_two]

theorem pairwise_words (n : ℕ) : (words n).Pairwise (· < ·) := by
  induction n with
  | zero => exact List.pairwise_singleton _ _
  | succ n ih =>
    have hcons (c : Char) : ((words n).map (c :: ·)).Pairwise (· < ·) :=
      List.pairwise_map.mpr (ih.imp fun hlt => List.Lex.cons hlt)
    refine List.pairwise_append.mpr ⟨hcons 'a', hcons 'b', fun first hfirst second hsecond => ?_⟩
    obtain ⟨_, -, rfl⟩ := List.mem_map.mp hfirst
    obtain ⟨_, -, rfl⟩ := List.mem_map.mp hsecond
    exact List.Lex.rel (by decide)

theorem mem_words {n : ℕ} {word : List Char} (h : word ∈ words n) :
    word.length = n ∧ ∀ c ∈ word, c = 'a' ∨ c = 'b' := by
  induction n generalizing word with
  | zero =>
    obtain rfl := List.mem_singleton.mp h
    exact ⟨rfl, nofun⟩
  | succ n ih =>
    rw [words, List.mem_append, List.mem_map, List.mem_map] at h
    rcases h with ⟨rest, hrest, rfl⟩ | ⟨rest, hrest, rfl⟩
    · obtain ⟨hlength, hletters⟩ := ih hrest
      exact ⟨congrArg Nat.succ hlength, List.forall_mem_cons.mpr ⟨.inl rfl, hletters⟩⟩
    · obtain ⟨hlength, hletters⟩ := ih hrest
      exact ⟨congrArg Nat.succ hlength, List.forall_mem_cons.mpr ⟨.inr rfl, hletters⟩⟩

/-- Keys between two others, as many as a power of two. -/
theorem exists_keys {n : ℕ} (hpos : 0 < n) (hshort : n ≤ maxStringLength) :
    ∃ first rest, (first :: rest).length = 2 ^ n ∧ (first :: rest).Pairwise (· < ·) ∧
      ∀ key ∈ first :: rest, StoredText key ∧ ['A'] < key ∧ key < ['z'] := by
  obtain ⟨first, rest, hwords⟩ : ∃ first rest, words n = first :: rest :=
    List.exists_cons_of_length_pos (by rw [length_words]; exact Nat.two_pow_pos n)
  rw [← length_words, hwords]
  refine ⟨first, rest, rfl, hwords ▸ pairwise_words n, fun key hkey => ?_⟩
  obtain ⟨hlength, hletters⟩ := mem_words (hwords ▸ hkey)
  refine ⟨⟨hlength.le.trans hshort, fun c hc => ?_⟩, ?_⟩
  · rcases hletters c hc with rfl | rfl <;> decide
  · obtain ⟨c, more, rfl⟩ := List.exists_cons_of_length_pos (hlength ▸ hpos)
    rcases hletters c List.mem_cons_self with rfl | rfl
    · exact ⟨List.Lex.rel (by decide), List.Lex.rel (by decide)⟩
    · exact ⟨List.Lex.rel (by decide), List.Lex.rel (by decide)⟩

variable {limit : ℕ} {first : List Char} {rest : Entries}

/-- All entries stand below the first key. -/
def nestedFirst (first : List Char) (rest : Entries) : Entries :=
  [(['A'], .compound ((first, .compound []) :: rest)), (['z'], .compound [])]

/-- All entries but the first one stand below that one. -/
def nestedSecond (first : List Char) (rest : Entries) : Entries :=
  [(['A'], .compound []), (first, .compound (rest ++ [(['z'], .compound [])]))]

variable {code : List UInt8}

theorem appendTag_compound {entries : Entries} (h : encodeAll appendEntry entries = .ok code) :
    appendTag (.compound entries) = .ok (10 :: (appendCount entries ++ code)) := by
  rw [appendTag, appendPayload, appendEntries_eq, h]
  rfl

theorem appendEntry_of_ok {key : List Char} {tag : Tag} {name : List UInt8} (hkey : appendString key = .ok name)
    (htag : appendTag tag = .ok code) : appendEntry (key, tag) = .ok (name ++ code) := by
  rw [appendEntry_eq, hkey, ok_bind, htag, ok_bind]
  rfl

theorem appendCount_congr {α β : Type} {items : List α} {others : List β}
    (h : items.length % 4294967296 = others.length % 4294967296) : appendCount items = appendCount others := by
  have hwidth : (256 : ℤ) ^ 4 = 4294967296 := rfl
  refine appendInteger_congr ?_
  rw [hwidth]
  omega

/-- Both have the same bytes when the number of entries is cut off to none. -/
theorem appendTag_nested (hcount : (rest.length + 1) % 4294967296 = 0) (hfirst : StoredText first)
    (hrest : encodeAll appendEntry rest = .ok code) :
    ∃ bytes, appendTag (.compound (nestedFirst first rest)) = .ok bytes ∧
      appendTag (.compound (nestedSecond first rest)) = .ok bytes := by
  obtain ⟨key, hkey⟩ := appendString_stored hfirst
  obtain ⟨low, hlow⟩ := appendString_stored (show StoredText ['A'] by decide)
  obtain ⟨high, hhigh⟩ := appendString_stored (show StoredText ['z'] by decide)
  have hempty : appendTag (.compound []) = .ok (10 :: (appendCount ([] : Entries) ++ [])) :=
    appendTag_compound rfl
  have hlast := encodeAll_cons_of_ok (appendEntry_of_ok hhigh hempty) (show encodeAll appendEntry [] = .ok [] from rfl)
  have hleft := appendTag_compound (encodeAll_cons_of_ok (appendEntry_of_ok hlow (appendTag_compound
    (encodeAll_cons_of_ok (appendEntry_of_ok hkey hempty) hrest))) hlast)
  have hright := appendTag_compound (encodeAll_cons_of_ok (appendEntry_of_ok hlow hempty)
    (encodeAll_cons_of_ok (appendEntry_of_ok hkey (appendTag_compound (encodeAll_append_of_ok hrest hlast)))
      (show encodeAll appendEntry [] = .ok [] from rfl)))
  refine ⟨_, hleft, hright.trans ?_⟩
  have hnone : appendCount ((first, Tag.compound []) :: rest) = appendCount ([] : Entries) :=
    appendCount_congr (by rw [List.length_cons, hcount]; rfl)
  have hnone' : appendCount (rest ++ [(['z'], Tag.compound [])]) = appendCount ([] : Entries) :=
    appendCount_congr (by rw [List.length_append, List.length_singleton, hcount]; rfl)
  rw [hnone, hnone']
  simp [appendCount]

/-- Compounds in memory with empty compounds under ascending keys. -/
theorem stored_flat {keys : List (List Char)} (hlength : keys.length ≤ limit)
    (hsorted : keys.Pairwise (· < ·)) (hkeys : ∀ key ∈ keys, StoredText key) :
    Stored limit (.compound (keys.map fun key => (key, .compound []))) := by
  refine .compound (by rwa [List.length_map]) (List.pairwise_map.mpr hsorted) ?_ ?_
  · exact List.forall_mem_map.mpr hkeys
  · exact List.forall_mem_map.mpr fun _ _ => .compound (Nat.zero_le _) .nil nofun nofun

/-- Two compounds with 4294967296 entries somewhere that share their bytes. -/
theorem exists_collision (hlimit : 4294967296 ≤ limit) :
    ∃ left right : Compound, Stored limit (.compound left.entries) ∧
      Stored limit (.compound right.entries) ∧
      (∃ bytes, canonicalNbt left = .ok bytes ∧ canonicalNbt right = .ok bytes) ∧
      (Tag.compound left.entries).plain ≠ (Tag.compound right.entries).plain := by
  obtain ⟨first, keys, hlength, hsorted, hkeys⟩ := @exists_keys 32 (by decide) (by decide)
  have hcount : (first :: keys).length = 4294967296 := hlength
  have hA : StoredText ['A'] := by decide
  have hz : StoredText ['z'] := by decide
  obtain ⟨hfirst, hrest⟩ := List.forall_mem_cons.mp hkeys
  obtain ⟨hfirstlt, hrestsorted⟩ := List.pairwise_cons.mp hsorted
  have hleft : (nestedFirst first (keys.map fun key => (key, .compound []))).Pairwise
      fun first second => first.1 < second.1 :=
    List.pairwise_pair.mpr (List.Lex.rel (by decide))
  have hright : (nestedSecond first (keys.map fun key => (key, .compound []))).Pairwise
      fun first second => first.1 < second.1 :=
    List.pairwise_pair.mpr hfirst.2.1
  have hall : Stored limit (.compound ((first :: keys).map fun key => (key, .compound []))) :=
    stored_flat (hcount.le.trans hlimit) hsorted fun key hkey => (hkeys key hkey).1
  have hlate : Stored limit (.compound ((keys ++ [['z']]).map fun key => (key, .compound []))) := by
    refine stored_flat ?_ ?_ ?_
    · rw [List.length_append, List.length_singleton, ← List.length_cons (a := first), hcount]
      exact hlimit
    · exact List.pairwise_append.mpr ⟨hrestsorted, List.pairwise_singleton _ _,
        fun key hkey other hother => List.mem_singleton.mp hother ▸ (hrest key hkey).2.2⟩
    · exact List.forall_mem_append.mpr ⟨fun key hkey => (hrest key hkey).1, List.forall_mem_singleton.mpr hz⟩
  have hempty : Stored limit (.compound []) := .compound (Nat.zero_le _) .nil nofun nofun
  have hcodes : ∃ code, encodeAll appendEntry (keys.map fun key => (key, Tag.compound [])) = .ok code := by
    refine encodeAll_ok (List.forall_mem_map.mpr fun key hkey => ?_)
    obtain ⟨name, hname⟩ := appendString_stored (hrest key hkey).1
    obtain ⟨payload, hpayload⟩ := appendTag_ok hempty
    exact ⟨_, appendEntry_of_ok hname hpayload⟩
  obtain ⟨code, hcode⟩ := hcodes
  obtain ⟨bytes, hbytes, hbytes'⟩ := appendTag_nested
    (by rw [List.length_map, ← List.length_cons (a := first), hcount]) hfirst.1 hcode
  refine ⟨⟨_, hleft⟩, ⟨_, hright⟩, ?_, ?_, ⟨nbtHeader ++ bytes, canonicalNbt_ok_iff.mpr ⟨_, hbytes, rfl⟩,
    canonicalNbt_ok_iff.mpr ⟨_, hbytes', rfl⟩⟩, ?_⟩
  · refine .compound ((show 2 ≤ 4294967296 by decide).trans hlimit) hleft ?_ ?_
    · exact List.forall_mem_cons.mpr ⟨hA, List.forall_mem_singleton.mpr hz⟩
    · exact List.forall_mem_cons.mpr ⟨hall, List.forall_mem_singleton.mpr hempty⟩
  · refine .compound ((show 2 ≤ 4294967296 by decide).trans hlimit) hright ?_ ?_
    · exact List.forall_mem_cons.mpr ⟨hA, List.forall_mem_singleton.mpr hfirst.1⟩
    · refine List.forall_mem_cons.mpr ⟨hempty, List.forall_mem_singleton.mpr ?_⟩
      rwa [List.map_append] at hlate
  · -- The first entry holds all the others in one tree, and nothing in the other one.
    intro hplain
    simp [nestedFirst, nestedSecond, Tag.plain, plainEntries, plainEntry] at hplain

end Collision

end WaterStructure.Canonical
