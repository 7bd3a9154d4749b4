import WaterStructure.Formats.GangBanStreamPlacements
import WaterStructure.Library.SelectedRecords

/-!
# TimeBuilder documents

A document lists its block types, each with the positions of its blocks. The reader parses it four times
and keeps none of it: the first pass counts how often the list of block types occurs, the second one
collects the names and counts how often each block type lists positions, and the last two go over the
positions, first for the bounds and then for the blocks. The registry is what the reader asks of it.
Counters do not overflow here.
-/

namespace WaterStructure

namespace TimeBuilder

open FuHong (Bounds Registry addBounds toSigned)
open GangBan (minimumOf)
open Json (Callback ParseEvent parseWith)
open Json.Records (Cursor Hooks begins selectedCallback)
open NbtTag

def trim (value : List Char) : List Char := trimBy isBlank value

def integer (value : Json) (field : String) : Except String ℤ :=
  match value with
  | .integer number => .ok number
  | .unsigned number => .ok (toSigned 64 number)
  | _ => .error (field ++ " is not an integer")

def i32 (value : Json) (field : String) : Except String ℤ := do
  let number ← integer value field
  if IsInt32 number then return number else .error (field ++ " exceeds int32")

/-! ## Block types -/

/-- The part of `runtime_id` behind the cache. -/
def resolve (registry : Registry) (name : List Char) (aux : ℤ) : RuntimeId :=
  (registry.legacyRuntimeId name (aux % 65536).toNat <|>
    registry.javaRuntimeId (name ++ ' ' :: decimal aux) <|> registry.javaRuntimeId name <|>
    registry.find "minecraft:unknown".toList []).getD
      (registry.registerState ⟨"minecraft:unknown".toList, [], 0⟩)

/-- `mPaletteCache`. -/
abbrev PaletteCache := AList fun _ : List Char => RuntimeId

def cacheKey (name : List Char) (aux : ℤ) : List Char := name ++ '|' :: decimal aux

/-- `TimeBuilderStructure::runtime_id`. -/
def runtimeId (registry : Registry) (cache : PaletteCache) (name : List Char) (aux : ℤ) :
    RuntimeId × PaletteCache :=
  let name := trim name
  match cache.lookup (cacheKey name aux) with
  | some runtime => (runtime, cache)
  | none =>
    let runtime := resolve registry name aux
    (runtime, cache.insert (cacheKey name aux) runtime)

/-! ## The pass over the document -/

/-- The variables of the first pass. -/
structure Metadata where
  rootIsObject : Bool := false
  blockIsArray : Bool := false
  rootKey : List Char := []
  version : Json := .null
  blockMemberOccurrences : ℕ := 0

def blockKey : List Char := "block".toList

/-- An event of a member of the document. -/
def metadataMember (event : ParseEvent) (parsed : Json) (m : Metadata) : Metadata :=
  if m.rootKey = "version".toList then
    if event = .value then { m with version := parsed }
    else if event = .objectStart ∨ event = .arrayStart then { m with version := .null }
    else m
  else if m.rootKey = blockKey ∧ begins event then
    { m with
      blockMemberOccurrences := m.blockMemberOccurrences + 1
      blockIsArray := event = .arrayStart }
  else m

/-- `metadata_callback`. -/
def metadataCallback : Callback Metadata := fun depth event parsed m =>
  if depth = 0 ∧ event = .objectStart then .ok (true, { m with rootIsObject := true })
  else if depth = 1 ∧ event = .key then parsed.toText.map fun rootKey => (true, { m with rootKey })
  else if depth ≠ 1 then .ok (!(depth = 0 && (event = .arrayStart || event = .value)), m)
  else .ok (false, metadataMember event parsed m)

/-- How often the list of block types occurs, after the checks behind the first pass. -/
def checkMetadata (m : Metadata) : Except String ℕ :=
  match m.version with
  | .string version =>
    if ¬ m.rootIsObject ∨ trim version ≠ "TimeBuilder".toList then .error "unsupported TimeBuilder version"
    else if ¬ m.blockIsArray ∨ m.blockMemberOccurrences = 0 then .error "block is not an array"
    else .ok m.blockMemberOccurrences
  | _ => .error "unsupported TimeBuilder version"

/-! ## The pass over the block types -/

structure EntryMetadata where
  name : Json := .null
  aux : Json := .null
  hasName : Bool := false
  hasAux : Bool := false
  hasPos : Bool := false
  finalPosIsArray : Bool := false
  posOccurrences : ℕ := 0
  runtimeId : RuntimeId := 0

/-- The variables of the second pass. -/
structure Entries where
  entries : List EntryMetadata := []
  current : EntryMetadata := {}

/-- A name or an aux value: of a container, only its type is kept. -/
def detached (event : ParseEvent) (parsed : Json) : Json :=
  if event = .value then parsed else if event = .objectStart then .object [] else .array []

/-- A member of a block type that is no list of positions. -/
def entryMember (key : List Char) (event : ParseEvent) (parsed : Json) (current : EntryMetadata) :
    EntryMetadata :=
  if key = "name".toList then { current with hasName := true, name := detached event parsed }
  else if key = "aux".toList then { current with hasAux := true, aux := detached event parsed }
  else current

def entriesHooks : Hooks Entries where
  listKey := "pos".toList
  clearsList := false
  clearsKey := false
  startRecord := fun e => .ok { e with current := {} }
  otherRecord := fun event e =>
    if event = .value ∨ event = .arrayStart then
      .error ("block entry " ++ toString e.entries.length ++ ": entry is not an object")
    else .ok (true, e)
  list := fun array e => { e with current := { e.current with hasPos := true, finalPosIsArray := array } }
  enters := fun _ _ => true
  selects := fun _ _ => false
  item := fun _ e => .ok e
  member := fun key event parsed e =>
    if begins event then .ok (false, { e with current := entryMember key event parsed e.current })
    else .ok (true, e)
  endRecord := fun posOccurrences e =>
    .ok { e with entries := e.entries ++ [{ e.current with posOccurrences }] }

/-- The callback of the second pass. -/
def entriesCallback (blockMemberOccurrences : ℕ) : Callback (Cursor Json.Records.Root Entries) :=
  selectedCallback blockKey blockMemberOccurrences entriesHooks

def inEntry {α : Type} (index : ℕ) (result : Except String α) : Except String α :=
  result.mapError ("block entry " ++ toString index ++ ": " ++ ·)

/-- The name of a block type; without one it is empty. -/
def EntryMetadata.nameText (entry : EntryMetadata) : Except String (List Char) :=
  if entry.hasName then entry.name.toText else .ok []

def EntryMetadata.auxValue (entry : EntryMetadata) : Except String ℤ :=
  if entry.hasAux then integer entry.aux "aux" else .ok 0

/-- The loop body over the block types. -/
def resolveEntry (registry : Registry) (s : List EntryMetadata × PaletteCache)
    (entry : EntryMetadata × ℕ) : Except String (List EntryMetadata × PaletteCache) :=
  inEntry entry.2 do
    let name ← entry.1.nameText
    let aux ← entry.1.auxValue
    if entry.1.hasPos ∧ ¬ entry.1.finalPosIsArray then .error "pos is not an array"
    else
      let found := runtimeId registry s.2 name aux
      return (s.1 ++ [{ entry.1 with runtimeId := found.1, name := .null, aux := .null }], found.2)

/-! ## The passes over the positions -/

/-- The variables of a pass over the positions. -/
structure Positions where
  entryIndex : ℕ := 0
  validPositionCount : ℕ := 0
  bounds : Option Bounds := none
  store : SparseBlockStore Compound

def uint32Max : ℕ := 4294967295

section Positions

variable (registry : Registry) (entries : List EntryMetadata) (materialize : Bool)

def Positions.entry (p : Positions) : EntryMetadata := (entries[p.entryIndex]?).getD {}

/-- What is done with a position. -/
def Positions.take (p : Positions) (world : BlockPos) (runtime : RuntimeId) : Positions :=
  if materialize then
    { p with
      validPositionCount := p.validPositionCount + 1
      store := p.store.put registry.airRuntimeId (world.sub (minimumOf p.bounds)) runtime }
  else
    { p with
      validPositionCount := p.validPositionCount + 1
      bounds := addBounds p.bounds world }

/-- `consume_position`. -/
def consumePosition (position : Json) (p : Positions) : Except String Positions :=
  inEntry p.entryIndex
    (match position with
    | .array (first :: second :: third :: _) => do
      let x ← i32 first "x"
      let y ← i32 second "y"
      let z ← i32 third "z"
      if p.validPositionCount ≥ uint32Max then .error "valid position count exceeds uint32 capacity"
      else return p.take registry materialize ⟨x, y, z⟩ (p.entry entries).runtimeId
    | .array _ => .ok p
    | _ => .error "position is not an array")

def positionsHooks : Hooks Positions where
  listKey := "pos".toList
  clearsList := false
  clearsKey := false
  startRecord := fun p =>
    if p.entryIndex ≥ entries.length then .error "TimeBuilder changed while parsing" else .ok p
  otherRecord := fun _ p => .ok (true, p)
  list := fun _ p => p
  enters := fun posOccurrence p => decide (posOccurrence = (p.entry entries).posOccurrences)
  selects := fun _ _ => true
  item := consumePosition registry entries materialize
  member := fun _ _ _ p => .ok (false, p)
  endRecord := fun _ p => .ok { p with entryIndex := p.entryIndex + 1 }

/-- `stream_positions`; the count of the valid positions is a variable of the result. -/
def streamPositions (blockMemberOccurrences : ℕ) (document : Json) (p : Positions) :
    Except String Positions := do
  let c ← parseWith (selectedCallback blockKey blockMemberOccurrences
    (positionsHooks registry entries materialize)) document
      { outer := {}, acc := { p with entryIndex := 0, validPositionCount := 0 } }
  if c.acc.entryIndex ≠ entries.length then .error "TimeBuilder changed while parsing" else return c.acc

end Positions

/-! ## Reading a document -/

/-- `TimeBuilderStructure`, as far as reading sets it. -/
structure TimeBuilderStructure where
  store : SparseBlockStore Compound
  nonAirBlocks : ℕ

def uint64Max : ℤ := 18446744073709551615

/-- `Bounds::size`, and the check of the volume. -/
def sizeOf (bounds : Option Bounds) : Except String Size :=
  match bounds with
  | none => .error "TimeBuilder bounds are invalid"
  | some bounds => do
    let size ← bounds.size "TimeBuilder"
    if size.width > uint64Max / size.height ∨ size.width * size.height > uint64Max / size.length then
      .error "TimeBuilder volume exceeds uint64"
    else return size

/-- Both passes over the positions. -/
def readPositions (registry : Registry) (entries : List EntryMetadata) (cache : PaletteCache)
    (blockMemberOccurrences : ℕ) (document : Json) : Except String TimeBuilderStructure := do
  let valid ← streamPositions registry entries false blockMemberOccurrences document { store := {} }
  if valid.validPositionCount = 0 ∨ cache.keys = [] then .error "TimeBuilder has no valid blocks"
  else do
    let size ← sizeOf valid.bounds
    let materialized ← streamPositions registry entries true blockMemberOccurrences document
      { valid with store := valid.store.setSize size }
    if materialized.validPositionCount ≠ valid.validPositionCount then
      .error "TimeBuilder changed while parsing"
    else return ⟨materialized.store, materialized.store.nonAirBlocks⟩

/-- The passes of `read`. -/
def readPasses (registry : Registry) (document : Json) : Except String TimeBuilderStructure := do
  let m ← parseWith metadataCallback document {}
  let blockMemberOccurrences ← checkMetadata m
  let c ← parseWith (entriesCallback blockMemberOccurrences) document { outer := {}, acc := {} }
  let found ← c.acc.entries.zipIdx.foldlM (resolveEntry registry) ([], ∅)
  readPositions registry found.1 found.2 blockMemberOccurrences document

/-- `TimeBuilderStructure::read`. -/
def read (registry : Registry) (document : Json) : Except String TimeBuilderStructure :=
  (readPasses registry document).mapError ("parse TimeBuilderV1 failed: " ++ ·)

end TimeBuilder

end WaterStructure
