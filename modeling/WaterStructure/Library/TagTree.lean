import Mathlib.Algebra.Group.Int.Defs
import Mathlib.Algebra.Group.Nat.Defs
import WaterStructure.Library.NbtTag

/-!
# Trees of tags

What a tag in memory looks like: compounds are maps in key order, the items of a list have one type,
numbers fit their width, and lengths fit the format. Its nodes are reached by keys and indices. The type
that a list states for its items says nothing when there are none.
-/

namespace NbtTag

/-- A signed integer of the given number of bytes. -/
def IsSigned (width : ℕ) (value : ℤ) : Prop := -(256 ^ width) ≤ 2 * value ∧ 2 * value < 256 ^ width

/-- The largest length of a list or an array. -/
def maxLength : ℕ := 2147483647

/-- The characters of a text stand for bytes, and there are few enough of them. -/
def StoredText (text : List Char) : Prop := text.length ≤ maxStringLength ∧ ∀ c ∈ text, c.toNat < 256

instance (text : List Char) : Decidable (StoredText text) :=
  @instDecidableAnd _ _ (Nat.decLe _ _) (List.decidableBAll (fun c : Char => c.toNat < 256) text)

def Tag.type : Tag → TagType
  | .byte _ => .Byte
  | .short _ => .Short
  | .int _ => .Int
  | .long _ => .Long
  | .float _ => .Float
  | .double _ => .Double
  | .byteArray _ => .ByteArray
  | .string _ => .String
  | .list _ _ => .List
  | .compound _ => .Compound
  | .intArray _ => .IntArray
  | .longArray _ => .LongArray

/-- A tag in memory, none of whose compounds has more than the given number of entries. -/
inductive Stored (limit : ℕ) : Tag → Prop where
  | byte {value : ℤ} (hvalue : IsSigned 1 value) : Stored limit (.byte value)
  | short {value : ℤ} (hvalue : IsSigned 2 value) : Stored limit (.short value)
  | int {value : ℤ} (hvalue : IsSigned 4 value) : Stored limit (.int value)
  | long {value : ℤ} (hvalue : IsSigned 8 value) : Stored limit (.long value)
  | float (bits : UInt32) : Stored limit (.float bits)
  | double (bits : UInt64) : Stored limit (.double bits)
  | byteArray {values : List ℤ} (hlength : values.length ≤ maxLength)
      (hvalues : ∀ value ∈ values, IsSigned 1 value) : Stored limit (.byteArray values)
  | string {value : List Char} (hvalue : StoredText value) : Stored limit (.string value)
  | list {element : TagType} {items : List Tag} (hlength : items.length ≤ maxLength)
      (htype : ∀ item ∈ items, item.type = element) (hitems : ∀ item ∈ items, Stored limit item) :
      Stored limit (.list element items)
  | compound {entries : Entries} (hlength : entries.length ≤ limit)
      (hsorted : entries.Pairwise fun first second => first.1 < second.1)
      (hkeys : ∀ entry ∈ entries, StoredText entry.1) (htags : ∀ entry ∈ entries, Stored limit entry.2) :
      Stored limit (.compound entries)
  | intArray {values : List ℤ} (hlength : values.length ≤ maxLength)
      (hvalues : ∀ value ∈ values, IsSigned 4 value) : Stored limit (.intArray values)
  | longArray {values : List ℤ} (hlength : values.length ≤ maxLength)
      (hvalues : ∀ value ∈ values, IsSigned 8 value) : Stored limit (.longArray values)

mutual

/-- The tag as a tree: an empty list has no type of items. -/
def Tag.plain : Tag → Tag
  | .list element items => .list (if items.isEmpty then .End else element) (plainItems items)
  | .compound entries => .compound (plainEntries entries)
  | tag => tag
termination_by structural tag => tag

def plainItems : List Tag → List Tag
  | [] => []
  | item :: rest => item.plain :: plainItems rest
termination_by structural items => items

def plainEntries : List (List Char × Tag) → List (List Char × Tag)
  | [] => []
  | entry :: rest => plainEntry entry :: plainEntries rest
termination_by structural entries => entries

def plainEntry : List Char × Tag → List Char × Tag
  | (name, tag) => (name, tag.plain)
termination_by structural entry => entry

end

theorem plainItems_eq (items : List Tag) : plainItems items = items.map Tag.plain := by
  induction items with
  | nil => rfl
  | cons item rest ih => rw [plainItems, ih, List.map_cons]

theorem plainEntries_eq (entries : Entries) :
    plainEntries entries = entries.map fun entry => (entry.1, entry.2.plain) := by
  induction entries with
  | nil => rfl
  | cons entry rest ih => rw [plainEntries, ih, List.map_cons, plainEntry]

theorem Tag.type_plain (tag : Tag) : tag.plain.type = tag.type := by
  cases tag <;> rfl

/-- A step from a tag to one below it. -/
inductive Step where
  | key (key : List Char)
  | index (index : ℕ)
  deriving DecidableEq

def Tag.child : Tag → Step → Option Tag
  | .compound entries, .key key => SortedMap.find entries key
  | .list _ items, .index index => items[index]?
  | _, _ => none

/-- The tag at the end of some steps. -/
def Tag.at : Tag → List Step → Option Tag
  | tag, [] => some tag
  | tag, step :: rest => (tag.child step).bind fun child => child.at rest

mutual

/-- The steps to all nodes of a tree, itself first, in the order of its entries and items. -/
def Tag.paths : Tag → List (List Step)
  | .list _ items => [] :: pathsItems 0 items
  | .compound entries => [] :: pathsEntries entries
  | _ => [[]]
termination_by structural tag => tag

def pathsItems (index : ℕ) : List Tag → List (List Step)
  | [] => []
  | item :: rest => item.paths.map (.index index :: ·) ++ pathsItems (index + 1) rest
termination_by structural items => items

def pathsEntries : List (List Char × Tag) → List (List Step)
  | [] => []
  | entry :: rest => pathsEntry entry ++ pathsEntries rest
termination_by structural entries => entries

def pathsEntry : List Char × Tag → List (List Step)
  | (key, tag) => tag.paths.map (.key key :: ·)
termination_by structural entry => entry

end

theorem pathsEntry_eq (entry : List Char × Tag) :
    pathsEntry entry = entry.2.paths.map (.key entry.1 :: ·) := by
  rw [pathsEntry]

variable {index : ℕ} {items : List Tag} {path : List Step} {entries : Entries} {tag : Tag}

theorem mem_pathsItems :
    path ∈ pathsItems index items ↔
      ∃ i item rest, items[i]? = some item ∧ rest ∈ item.paths ∧ path = .index (index + i) :: rest := by
  induction items generalizing index with
  | nil => simp [pathsItems]
  | cons item items ih =>
    rw [pathsItems, List.mem_append, List.mem_map, ih]
    constructor
    · rintro (⟨rest, hrest, rfl⟩ | ⟨i, child, rest, hchild, hrest, rfl⟩)
      · exact ⟨0, item, rest, rfl, hrest, rfl⟩
      · exact ⟨i + 1, child, rest, hchild, hrest, by rw [Nat.add_right_comm, Nat.add_assoc]⟩
    · rintro ⟨i, child, rest, hchild, hrest, rfl⟩
      cases i with
      | zero =>
        cases hchild
        exact .inl ⟨rest, hrest, rfl⟩
      | succ i => exact .inr ⟨i, child, rest, hchild, hrest, by rw [Nat.add_right_comm, Nat.add_assoc]⟩

theorem mem_pathsEntries :
    path ∈ pathsEntries entries ↔
      ∃ entry ∈ entries, ∃ rest ∈ entry.2.paths, path = .key entry.1 :: rest := by
  induction entries with
  | nil => simp [pathsEntries]
  | cons entry entries ih =>
    rw [pathsEntries, List.mem_append, pathsEntry_eq, List.mem_map, ih]
    simp [eq_comm]

/-- An entry of a compound in memory is found under its key, and nothing else is. -/
theorem find_eq_some_iff (h : entries.Pairwise fun first second => first.1 < second.1) {key : List Char} :
    SortedMap.find entries key = some tag ↔ (key, tag) ∈ entries :=
  ⟨fun hfind => @SortedMap.lookup_eq_some _ _ _ ⟨entries, h⟩ _ _ hfind,
    fun hmem => @SortedMap.lookup_of_mem _ _ _ ⟨entries, h⟩ _ _ hmem⟩

theorem Tag.at_cons (tag : Tag) (step : Step) (rest : List Step) :
    tag.at (step :: rest) = (tag.child step).bind fun child => child.at rest := rfl

/-- A tag without children is its only node. -/
theorem mem_paths_leaf (hpaths : tag.paths = [[]]) (hchild : ∀ step, tag.child step = none) :
    path ∈ tag.paths ↔ (tag.at path).isSome = true := by
  rw [hpaths, List.mem_singleton]
  cases path with
  | nil => exact iff_of_true rfl rfl
  | cons step rest =>
    rw [Tag.at_cons, hchild]
    exact iff_of_false (List.cons_ne_nil _ _) Bool.false_ne_true

/-- The paths of a tag in memory lead to its nodes, and no node is left out. -/
theorem Stored.mem_paths {limit : ℕ} {tag : Tag} (h : Stored limit tag) {path : List Step} :
    path ∈ tag.paths ↔ (tag.at path).isSome = true := by
  induction h generalizing path with
  | byte | short | int | long | float | double | byteArray | string | intArray | longArray =>
    exact mem_paths_leaf rfl fun step => by cases step <;> rfl
  | list hlength htype hitems ih =>
    rename_i element items
    rw [Tag.paths, List.mem_cons, mem_pathsItems]
    cases path with
    | nil => exact iff_of_true (.inl rfl) rfl
    | cons step rest =>
      rw [Tag.at_cons, or_iff_right (List.cons_ne_nil _ _)]
      constructor
      · rintro ⟨i, item, rest', hitem, hrest, heq⟩
        obtain ⟨rfl, rfl⟩ := List.cons.inj heq
        rw [Nat.zero_add, Tag.child, hitem]
        exact (ih item (List.mem_of_getElem? hitem)).mp hrest
      · intro hsome
        obtain ⟨node, hnode⟩ := Option.isSome_iff_exists.mp hsome
        obtain ⟨child, hchild, hat⟩ := Option.bind_eq_some_iff.mp hnode
        cases step with
        | key key => cases hchild
        | index i =>
          exact ⟨i, child, rest, hchild,
            (ih child (List.mem_of_getElem? hchild)).mpr (Option.isSome_iff_exists.mpr ⟨node, hat⟩),
            by rw [Nat.zero_add]⟩
  | compound hlength hsorted hkeys htags ih =>
    rename_i entries
    rw [Tag.paths, List.mem_cons, mem_pathsEntries]
    cases path with
    | nil => exact iff_of_true (.inl rfl) rfl
    | cons step rest =>
      rw [Tag.at_cons, or_iff_right (List.cons_ne_nil _ _)]
      constructor
      · rintro ⟨entry, hentry, rest', hrest, heq⟩
        obtain ⟨rfl, rfl⟩ := List.cons.inj heq
        rw [Tag.child, (find_eq_some_iff hsorted).mpr hentry]
        exact (ih entry hentry).mp hrest
      · intro hsome
        obtain ⟨node, hnode⟩ := Option.isSome_iff_exists.mp hsome
        obtain ⟨child, hchild, hat⟩ := Option.bind_eq_some_iff.mp hnode
        cases step with
        | index i => cases hchild
        | key key =>
          have hentry := (find_eq_some_iff hsorted).mp hchild
          exact ⟨(key, child), hentry, rest,
            (ih _ hentry).mpr (Option.isSome_iff_exists.mpr ⟨node, hat⟩), rfl⟩

theorem nodup_pathsItems (h : ∀ item ∈ items, item.paths.Nodup) : (pathsItems index items).Nodup := by
  induction items generalizing index with
  | nil => exact List.nodup_nil
  | cons item rest ih =>
    obtain ⟨hitem, hrest⟩ := List.forall_mem_cons.mp h
    rw [pathsItems]
    refine (hitem.map (List.cons_injective)).append (ih hrest) ?_
    intro path hfirst hlater
    obtain ⟨below, -, rfl⟩ := List.mem_map.mp hfirst
    obtain ⟨i, child, below', -, -, heq⟩ := mem_pathsItems.mp hlater
    have hindex := Step.index.inj (List.cons.inj heq).1
    omega

theorem nodup_pathsEntries (hkeys : entries.Pairwise fun first second => first.1 ≠ second.1)
    (h : ∀ entry ∈ entries, entry.2.paths.Nodup) : (pathsEntries entries).Nodup := by
  induction entries with
  | nil => exact List.nodup_nil
  | cons entry rest ih =>
    obtain ⟨hentry, hrest⟩ := List.forall_mem_cons.mp h
    obtain ⟨hne, hkeys⟩ := List.pairwise_cons.mp hkeys
    rw [pathsEntries, pathsEntry_eq]
    refine (hentry.map (List.cons_injective)).append (ih hkeys hrest) ?_
    intro path hfirst hlater
    obtain ⟨below, -, rfl⟩ := List.mem_map.mp hfirst
    obtain ⟨other, hother, below', -, heq⟩ := mem_pathsEntries.mp hlater
    exact hne other hother (Step.key.inj (List.cons.inj heq).1)

/-- No path is listed twice. -/
theorem Stored.nodup_paths {limit : ℕ} (h : Stored limit tag) : tag.paths.Nodup := by
  induction h with
  | byte | short | int | long | float | double | byteArray | string | intArray | longArray =>
    exact List.nodup_singleton _
  | list hlength htype hitems ih =>
    refine List.nodup_cons.mpr ⟨fun hroot => ?_, nodup_pathsItems ih⟩
    obtain ⟨_, _, _, -, -, heq⟩ := mem_pathsItems.mp hroot
    cases heq
  | compound hlength hsorted hkeys htags ih =>
    refine List.nodup_cons.mpr ⟨fun hroot => ?_,
      nodup_pathsEntries (hsorted.imp fun hlt => ne_of_lt hlt) ih⟩
    obtain ⟨_, -, _, -, heq⟩ := mem_pathsEntries.mp hroot
    cases heq

end NbtTag
