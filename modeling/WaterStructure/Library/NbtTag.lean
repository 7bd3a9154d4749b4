import Mathlib.Data.List.Lex
import Mathlib.Data.Char
import WaterStructure.Library.SortedMap

/-!
# NBT tags

A tag as it stands in a document; a compound keeps its entries in the order in which they are
written. A compound that has been read is a map in key order. A reader refuses tags that are nested
too deeply: it counts the levels from a tag that it reads as a payload, but not the compound that a
document consists of.
-/

namespace NbtTag

inductive TagType where
  | End
  | Byte
  | Short
  | Int
  | Long
  | Float
  | Double
  | ByteArray
  | String
  | List
  | Compound
  | IntArray
  | LongArray
  deriving DecidableEq

inductive Tag where
  | byte (value : ℤ)
  | short (value : ℤ)
  | int (value : ℤ)
  | long (value : ℤ)
  | float (bits : UInt32)
  | double (bits : UInt64)
  | byteArray (values : List ℤ)
  | string (value : List Char)
  | list (element : TagType) (items : List Tag)
  | compound (entries : List (List Char × Tag))
  | intArray (values : List ℤ)
  | longArray (values : List ℤ)

/-- The entries of a compound as they stand in a document. -/
abbrev Entries := List (List Char × Tag)

/-- A compound in memory. -/
abbrev Compound := SortedMap (List Char) Tag

mutual

/-- How deeply a tag is nested. -/
def Tag.levels : Tag → ℕ
  | .list _ items => levelsItems items + 1
  | .compound entries => levelsEntries entries + 1
  | _ => 1
termination_by structural tag => tag

def levelsItems : List Tag → ℕ
  | [] => 0
  | item :: rest => max item.levels (levelsItems rest)
termination_by structural items => items

def levelsEntries : List (List Char × Tag) → ℕ
  | [] => 0
  | entry :: rest => max (levelsEntry entry) (levelsEntries rest)
termination_by structural entries => entries

def levelsEntry : List Char × Tag → ℕ
  | (_, tag) => tag.levels
termination_by structural entry => entry

end

/-- `MAX_DEPTH`. -/
def maxDepth : ℕ := 1024

/-- `read_payload` of a compound. -/
def readCompoundPayload (entries : Entries) : Except String Compound :=
  if (Tag.compound entries).levels > maxDepth then .error "Too deeply nested"
  else .ok (SortedMap.ofEntries entries)

/-- `read_compound` of a whole document: the compound itself is no payload. -/
def readCompound (entries : Entries) : Except String Compound :=
  if levelsEntries entries > maxDepth then .error "Too deeply nested"
  else .ok (SortedMap.ofEntries entries)

/-- `max_string_len`. -/
def maxStringLength : ℕ := 65535

mutual

/-- Every string of a tag is short enough to be written. -/
def Tag.stringsFit : Tag → Bool
  | .string value => decide (value.length ≤ maxStringLength)
  | .list _ items => stringsFitItems items
  | .compound entries => stringsFitEntries entries
  | _ => true
termination_by structural tag => tag

def stringsFitItems : List Tag → Bool
  | [] => true
  | item :: rest => item.stringsFit && stringsFitItems rest
termination_by structural items => items

def stringsFitEntries : List (List Char × Tag) → Bool
  | [] => true
  | entry :: rest => stringsFitEntry entry && stringsFitEntries rest
termination_by structural entries => entries

def stringsFitEntry : List Char × Tag → Bool
  | (name, tag) => decide (name.length ≤ maxStringLength) && tag.stringsFit
termination_by structural entry => entry

end

/-- `write_tag` of a document: the compound itself, unless a string is too long. -/
def writeCompound (compound : Compound) : Except String Compound :=
  if stringsFitEntries compound.entries then .ok compound else .error "String is too long for NBT"

theorem levelsEntry_eq (entry : List Char × Tag) : levelsEntry entry = entry.2.levels := by
  rw [levelsEntry]

/-- The levels of a list of entries are bounded by those of its entries. -/
theorem levelsEntries_le {entries : Entries} {bound : ℕ} :
    levelsEntries entries ≤ bound ↔ ∀ entry ∈ entries, entry.2.levels ≤ bound := by
  induction entries with
  | nil => exact iff_of_true (Nat.zero_le bound) fun _ hmem => nomatch hmem
  | cons entry rest ih => rw [levelsEntries, levelsEntry_eq, Nat.max_le, ih, List.forall_mem_cons]

/-- Setting an entry keeps a bound that its tag keeps. -/
theorem levelsEntries_set {map : Compound} {bound : ℕ} (h : levelsEntries map.entries ≤ bound)
    {key : List Char} {tag : Tag} (htag : tag.levels ≤ bound) :
    levelsEntries (map.set key tag).entries ≤ bound := by
  rw [levelsEntries_le] at h ⊢
  intro entry hentry
  rcases SortedMap.mem_setEntry hentry with rfl | hold
  · exact htag
  · exact h entry hold

/-- A map of entries is nested no deeper than they are. -/
theorem levelsEntries_ofEntries (entries : Entries) :
    levelsEntries (SortedMap.ofEntries entries).entries ≤ levelsEntries entries := by
  have hfold {bound : ℕ} (rest : Entries) (map : Compound) (hmap : levelsEntries map.entries ≤ bound)
      (hrest : levelsEntries rest ≤ bound) : levelsEntries
        (rest.foldl (fun map entry => map.emplace entry.1 entry.2) map).entries ≤ bound := by
    induction rest generalizing map with
    | nil => exact hmap
    | cons entry rest ih =>
      rw [levelsEntries, levelsEntry_eq, Nat.max_le] at hrest
      refine ih _ ?_ hrest.2
      dsimp only [SortedMap.emplace]
      split
      · exact hmap
      · exact levelsEntries_set hmap hrest.1
  exact hfold entries {} (Nat.zero_le _) le_rfl

/-- Reading a compound in memory gives it back, unless it is too deep. -/
theorem readCompoundPayload_entries {map : Compound} (h : levelsEntries map.entries < maxDepth) :
    readCompoundPayload map.entries = .ok map := by
  rw [readCompoundPayload, if_neg (by rw [Tag.levels]; omega), SortedMap.ofEntries_entries]

end NbtTag
