import WaterStructure.Core.StateKeys
import WaterStructure.Formats.TimeBuilder

/-!
# What a TimeBuilder document says

A finished document holds the last member of a name. Reading it takes the block types in their order, and
the positions of each; the passes over the events find the same.
-/

namespace WaterStructure

namespace TimeBuilder

open FuHong (Bounds Registry addBounds)
open GangBan (minimumOf)
open Json Json.Records LastValue NestedLoop StatefulRun
open NbtTag

/-! ## Reading a finished document -/

/-- A block type. -/
structure Entry where
  name : List Char
  aux : ℤ
  positions : List Json

/-- A block type of a finished document. -/
def entryOf (item : Json) : Option Entry := do
  let _ ← item.members?
  let name ← (item.member? "name").elim (some []) fun value => value.toText.toOption
  let aux ← (item.member? "aux").elim (some 0) fun value => (integer value "aux").toOption
  let positions ← (item.member? "pos").elim (some []) items?
  return ⟨name, aux, positions⟩

/-- A position; one with too few items is left out. -/
def positionOf (position : Json) : Option (Option BlockPos) :=
  match position with
  | .array (first :: second :: third :: _) => do
    let x ← (i32 first "x").toOption
    let y ← (i32 second "y").toOption
    let z ← (i32 third "z").toOption
    return some ⟨x, y, z⟩
  | .array _ => some none
  | _ => none

/-- A position behind others; there is room for a `uint32` of them. -/
def addPosition (runtime : RuntimeId) (placed : List Placement) (position : Json) : Option (List Placement) :=
  (positionOf position).bind fun found =>
    match found with
    | none => some placed
    | some world => if placed.length ≥ uint32Max then none else some (placed ++ [(world, runtime)])

def addEntry (registry : Registry) (placed : List Placement) (entry : Entry) : Option (List Placement) :=
  entry.positions.foldlM (addPosition (resolve registry (trim entry.name) entry.aux)) placed

def isTimeBuilder (document : Json) : Bool :=
  match document.member? "version" with
  | some (.string version) => decide (trim version = "TimeBuilder".toList)
  | _ => false

/-- The block types of a finished document. -/
def entriesOf (document : Json) : Option (List Entry) := do
  let block ← (document.member? "block").filter fun _ => isTimeBuilder document
  let items ← block.items?
  items.mapM entryOf

/-- The size of some blocks of the world and their places in the structure. -/
def normalize (placed : List Placement) : Option (Size × List Placement) :=
  let bounds := (placed.map Prod.fst).foldl addBounds none
  (sizeOf bounds).toOption.map fun size =>
    (size, placed.map fun placement => (placement.1.sub (minimumOf bounds), placement.2))

/-- What a finished document says: the size of the structure, and its blocks in the order in which they
are placed. -/
def readDocument (registry : Registry) (document : Json) : Option (Size × List Placement) := do
  let entries ← entriesOf document
  let placed ← entries.foldlM (addEntry registry) []
  if placed = [] then none else normalize placed

/-! ## The members of a block type -/

theorem integer_normal (value : Json) (field : String) : integer value.normal field = integer value field := by
  cases value <;> rfl

/-- The positions that a block type lists last. -/
def listed (members : List (List Char × Json)) : List Json :=
  ((lastMember "pos".toList members).elim [] fun value => value.items?.getD []).map Json.normal

/-- A block type by its members. -/
def memberEntry (members : List (List Char × Json)) : Option Entry := do
  let name ← (lastMember "name".toList members).elim (some []) fun value => value.toText.toOption
  let aux ← (lastMember "aux".toList members).elim (some 0) fun value => (integer value "aux").toOption
  if (lastMember "pos".toList members).elim true isArray then return ⟨name, aux, listed members⟩ else none

theorem positions_normal (members : List (List Char × Json)) :
    (((lastMember "pos".toList members).map Json.normal).elim (some []) items?) =
      if (lastMember "pos".toList members).elim true isArray then some (listed members) else none := by
  rw [listed]
  cases lastMember "pos".toList members with
  | none => rfl
  | some value =>
    rw [Option.map_some]
    simp only [Option.elim_some]
    rw [items?_normal]
    cases value <;> rfl

theorem entryOf_normal (item : Json) : entryOf item.normal = item.members?.bind memberEntry := by
  cases item with
  | object members =>
    have hpos := positions_normal members
    rw [← member?_normal_last members "pos"] at hpos
    have hname : ((object members).normal.member? "name").elim (some [])
        (fun value => value.toText.toOption) =
          (lastMember "name".toList members).elim (some []) fun value => value.toText.toOption := by
      rw [member?_normal_last members "name"]
      cases lastMember "name".toList members with
      | none => rfl
      | some value => exact congrArg Except.toOption (toText_normal value)
    have haux : ((object members).normal.member? "aux").elim (some 0)
        (fun value => (integer value "aux").toOption) =
          (lastMember "aux".toList members).elim (some 0) fun value => (integer value "aux").toOption := by
      rw [member?_normal_last members "aux"]
      cases lastMember "aux".toList members with
      | none => rfl
      | some value => exact congrArg Except.toOption (integer_normal value "aux")
    rw [entryOf, hname, haux, hpos]
    change _ = memberEntry members
    rw [memberEntry]
    by_cases harray : (lastMember "pos".toList members).elim true isArray = true
    · simp only [if_pos harray]
      rfl
    · simp only [if_neg harray]
      rfl
  | null | boolean | unsigned | integer | float | string | array => rfl

/-! ## The pass over the document -/

theorem mapM_entryOf_normal (items : List Json) : (items.map Json.normal).mapM entryOf =
    (items.mapM members?).bind fun records => records.mapM memberEntry := by
  rw [List.mapM_map, ← mapM_bind]
  exact congrArg (fun find => items.mapM find) (funext entryOf_normal)

/-- What the first pass does at a member of the document. -/
def stepMetadata (m : Metadata) (member : List Char × Json) : Metadata :=
  metadataMember (firstEvent member.2) (firstParsed member.2) { m with rootKey := member.1 }

theorem metadataCallback_one (event : ParseEvent) (hevent : event ≠ .key) (parsed : Json) (m : Metadata) :
    metadataCallback 1 event parsed m = .ok (false, metadataMember event parsed m) := by
  rw [metadataCallback, if_neg (by simp), if_neg (by simp [hevent]), if_neg (by decide)]

theorem idle_metadataCallback (m : Metadata) : Idle metadataCallback 1 m := by
  intro depth event parsed hdepth
  rw [metadataCallback, if_neg (by omega), if_neg (by omega), if_pos (by omega)]
  exact ⟨_, rfl⟩

theorem parse_metadata (members : List (List Char × Json)) :
    parseWith metadataCallback (.object members) {} =
      .ok (members.foldl stepMetadata { rootIsObject := true }) := by
  have hvalue (value : Json) (m : Metadata) :
      metadataCallback 1 (firstEvent value) (firstParsed value) m =
        (Except.ok (metadataMember (firstEvent value) (firstParsed value) m)).map fun t => (false, t) := by
    rw [metadataCallback_one _ (by cases value <;> exact fun h => by cases h)]
    rfl
  rw [@parseWith_members _ metadataCallback (fun name m => { m with rootKey := name })
    (fun value m => .ok (metadataMember (firstEvent value) (firstParsed value) m)) {} { rootIsObject := true } rfl
    (fun _ _ => rfl) hvalue idle_metadataCallback (fun _ m => ⟨true, rfl⟩)]
  exact foldlM_ok (fun _ _ _ => rfl) _

/-- What the first pass keeps of the version. -/
def keptVersion (value : Json) : Json := if firstEvent value = .value then value else .null

theorem version_ne_block : "version".toList ≠ blockKey := by decide

theorem stepMetadata_version (m : Metadata) (member : List Char × Json) :
    (stepMetadata m member).version =
      if member.1 = "version".toList then keptVersion member.2 else m.version := by
  rw [stepMetadata, metadataMember]
  by_cases hversion : member.1 = "version".toList
  · rw [if_pos hversion, if_pos hversion]
    cases member.2 <;> rfl
  · rw [if_neg hversion, if_neg hversion]
    split <;> rfl

theorem isArray_eq (value : Json) : decide (firstEvent value = .arrayStart) = isArray value := by
  cases value <;> rfl

theorem stepMetadata_block (m : Metadata) (member : List Char × Json) :
    stepMetadata m member =
      { stepMetadata m member with
        rootIsObject := m.rootIsObject
        blockMemberOccurrences :=
          if member.1 = blockKey then m.blockMemberOccurrences + 1 else m.blockMemberOccurrences
        blockIsArray := if member.1 = blockKey then isArray member.2 else m.blockIsArray } := by
  rw [stepMetadata, metadataMember]
  by_cases hversion : member.1 = "version".toList
  · have hblock : member.1 ≠ blockKey := fun h => version_ne_block (hversion.symm.trans h)
    rw [if_pos hversion, if_neg hblock, if_neg hblock]
    cases member.2 <;> rfl
  · rw [if_neg hversion]
    by_cases hblock : member.1 = blockKey
    · rw [if_pos ⟨hblock, begins_firstEvent member.2⟩, if_pos hblock, if_pos hblock, isArray_eq]
    · rw [if_neg fun h => hblock h.1, if_neg hblock, if_neg hblock]

/-- The list of block types that a document ends with, by its members. -/
def blockItems (members : List (List Char × Json)) : Option (List Json) :=
  if isTimeBuilder (object members).normal then (lastMember blockKey members).bind items? else none

/-- The error that tells of a changed document. -/
def changed : String := "TimeBuilder changed while parsing"

/-- The check of the version by the variables of the first pass. -/
def isVersion : Json → Bool
  | .string version => decide (trim version = "TimeBuilder".toList)
  | _ => false

theorem isTimeBuilder_normal (members : List (List Char × Json)) :
    isTimeBuilder (object members).normal =
      isVersion (((lastMember "version".toList members).map keptVersion).getD .null) := by
  rw [isTimeBuilder, member?_normal_last members "version"]
  cases lastMember "version".toList members with
  | none => rfl
  | some value => cases value <;> rfl

theorem checkMetadata_eq (m : Metadata) (hroot : m.rootIsObject = true) :
    checkMetadata m =
      if isVersion m.version then
        if ¬ m.blockIsArray ∨ m.blockMemberOccurrences = 0 then .error "block is not an array"
        else .ok m.blockMemberOccurrences
      else .error "unsupported TimeBuilder version" := by
  rw [checkMetadata]
  cases m.version with
  | string version =>
    by_cases hversion : trim version = "TimeBuilder".toList
    · have hkeep : isVersion (.string version) = true := decide_eq_true hversion
      have hpass : ¬ (¬ m.rootIsObject = true ∨ trim version ≠ "TimeBuilder".toList) :=
        fun h => h.elim (fun hno => hno hroot) fun hno => hno hversion
      dsimp only
      rw [if_neg hpass, if_pos hkeep]
    · have hkeep : isVersion (.string version) = false := decide_eq_false hversion
      dsimp only
      rw [if_pos (.inr hversion), if_neg (Bool.eq_false_iff.mp hkeep)]
  | null | boolean | unsigned | integer | float | array | object => rfl

theorem matches_checkMetadata (members : List (List Char × Json)) :
    Matches (· ≠ changed)
      (fun n items => n = countMembers blockKey members ∧ lastMember blockKey members = some (.array items))
      (checkMetadata (members.foldl stepMetadata { rootIsObject := true })) (blockItems members) := by
  have hroot : (members.foldl stepMetadata { rootIsObject := true }).rootIsObject = true :=
    List.foldlRecOn members stepMetadata (motive := fun m => m.rootIsObject = true) rfl
      fun m hm member _ => by rw [stepMetadata_block]; exact hm
  have hversion := @observe_last _ _ "version".toList Metadata.version keptVersion stepMetadata
    stepMetadata_version members { rootIsObject := true }
  have hcount := @observe_count _ blockKey Metadata.blockMemberOccurrences stepMetadata
    (fun m member => by rw [stepMetadata_block]) members { rootIsObject := true }
  have harray := @observe_last _ _ blockKey Metadata.blockIsArray isArray stepMetadata
    (fun m member => by rw [stepMetadata_block]) members { rootIsObject := true }
  rw [checkMetadata_eq _ hroot, blockItems, isTimeBuilder_normal, hversion, hcount, harray]
  dsimp only
  rw [Nat.zero_add]
  split
  · cases hlast : lastMember blockKey members with
    | none => exact .error (by decide)
    | some value =>
      have hsome : countMembers blockKey members ≠ 0 := fun h => by
        rw [lastMember_eq_none.mpr h] at hlast
        cases hlast
      cases value with
      | array items =>
        rw [if_neg (by simp [isArray, hsome])]
        exact .ok ⟨rfl, rfl⟩
      | null | boolean | unsigned | integer | float | string | object => exact .error (by decide)
  · exact .error (by decide)

end TimeBuilder

end WaterStructure
