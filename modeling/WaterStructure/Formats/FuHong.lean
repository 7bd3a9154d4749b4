import WaterStructure.Core.SparseBlockStore
import WaterStructure.Formats.FuHongBlocks

/-!
# FuHong documents of the versions 3 to 5

The reader parses a document twice and keeps none of it. The first pass collects the palette, the origin
of every chunk and the bounds; as the origin of a chunk may follow its blocks, the bounds of a chunk are
collected without it first. The second pass stores the blocks. What both passes do with the chunks is
written once, with what they do at the tuples and at the other members of a chunk as parameters.
-/

namespace WaterStructure

namespace FuHong

open Json NbtTag

inductive Version where
  | V3
  | V4
  | V5
  deriving DecidableEq

def Version.name : Version → String
  | .V3 => "FuHongV3"
  | .V4 => "FuHongV4"
  | .V5 => "FuHongV5"

def inEntry {α : Type} (index : ℕ) (result : Except String α) : Except String α :=
  result.mapError ("entry index " ++ toString index ++ ": " ++ ·)

def inChunk {α : Type} (index : ℕ) (result : Except String α) : Except String α :=
  result.mapError ("chunk index " ++ toString index ++ ": " ++ ·)

/-! ## The chunks of a document -/

/-- The variables that both passes use, and those of one pass. -/
structure Cursor (α : Type) where
  rootIsObject : Bool := false
  inPalette : Bool := false
  inBuild : Bool := false
  inChunk : Bool := false
  inBlockList : Bool := false
  chunkHasBlockList : Bool := false
  rootKey : List Char := []
  chunkKey : List Char := []
  chunkIndex : ℕ := 0
  entryIndex : ℕ := 0
  acc : α

/-- What a pass does at a chunk, at a tuple of its block list, at its other members and at its end.
The first two are given the number of the chunk, a tuple its number in the chunk. -/
structure Hooks (α : Type) where
  startChunk : ℕ → α → Except String α
  tuple : ℕ → ℕ → Json → α → Except String α
  member : List Char → ParseEvent → Json → α → Except String α
  finishChunk : ℕ → Bool → α → Except String α

def blockListMissing {α : Type} (chunkIndex : ℕ) : Except String α :=
  inChunk chunkIndex (.error "block list is missing")

section Build

variable {α : Type} (hooks : Hooks α)

/-- An event of an item of `FuHongBuild`. -/
def chunkEvent (event : ParseEvent) (c : Cursor α) : Except String (Bool × Cursor α) :=
  match event with
  | .objectStart => do
    let acc ← hooks.startChunk c.chunkIndex c.acc
    return (true, { c with
      inChunk := true, inBlockList := false, chunkHasBlockList := false, chunkKey := [],
      entryIndex := 0, acc })
  | .objectEnd => do
    let acc ← hooks.finishChunk c.chunkIndex c.chunkHasBlockList c.acc
    return (false, { c with inChunk := false, chunkIndex := c.chunkIndex + 1, acc })
  | _ => blockListMissing c.chunkIndex

/-- An event of the block list of a chunk. -/
def blockListEvent (event : ParseEvent) (c : Cursor α) : Except String (Bool × Cursor α) :=
  match event with
  | .arrayStart => .ok (true, { c with chunkHasBlockList := true, inBlockList := true })
  | .arrayEnd => .ok (false, { c with inBlockList := false })
  | _ => blockListMissing c.chunkIndex

/-- An event of a member of a chunk. -/
def memberEvent (event : ParseEvent) (parsed : Json) (c : Cursor α) :
    Except String (Bool × Cursor α) :=
  if event = .key then do
    let chunkKey ← parsed.toText
    return (true, { c with chunkKey })
  else if c.chunkKey = "block".toList then blockListEvent event c
  else do
    let acc ← hooks.member c.chunkKey event parsed c.acc
    return (false, { c with acc })

/-- An event of an item of a block list. -/
def tupleEvent (event : ParseEvent) (parsed : Json) (c : Cursor α) :
    Except String (Bool × Cursor α) :=
  if event = .objectEnd ∨ event = .arrayEnd ∨ event = .value then do
    let acc ← hooks.tuple c.chunkIndex c.entryIndex parsed c.acc
    return (false, { c with entryIndex := c.entryIndex + 1, acc })
  else .ok (true, c)

/-- An event inside of `FuHongBuild`. -/
def buildEvent (depth : ℕ) (event : ParseEvent) (parsed : Json) (c : Cursor α) :
    Except String (Bool × Cursor α) :=
  if depth = 2 then chunkEvent hooks event c
  else if ¬ c.inChunk then .ok (false, c)
  else if depth = 3 then memberEvent hooks event parsed c
  else if c.inBlockList ∧ depth = 4 then tupleEvent hooks event parsed c
  else .ok (true, c)

end Build

/-! ## Tuples -/

/-- The first items of a tuple. -/
structure Tuple where
  paletteIndex : Json
  aux : Json
  xs : Json
  ys : Json
  zs : Json
  extras : Option Json

def Tuple.ofJson : Json → Except String Tuple
  | .array (paletteIndex :: aux :: xs :: ys :: zs :: rest) =>
    .ok ⟨paletteIndex, aux, xs, ys, zs, rest.head?⟩
  | _ => .error "tuple is invalid"

def coordinateItems (value : Json) (field : String) : Except String (List Json) :=
  match value.items? with
  | some items => .ok items
  | none => .error (field ++ " is not an array")

/-- The coordinates of a tuple, one entry for each of its cells. -/
def Tuple.coordinates (tuple : Tuple) : Except String (List (Json × Json × Json)) := do
  let xs ← coordinateItems tuple.xs "xs"
  let ys ← coordinateItems tuple.ys "ys"
  let zs ← coordinateItems tuple.zs "zs"
  if xs.length ≠ ys.length ∨ xs.length ≠ zs.length then .error "coordinate array lengths differ"
  else return xs.zip (ys.zip zs)

/-! ## The first pass -/

/-- The bounds of the blocks of a chunk without its origin, and the tuples they come from. -/
structure Relative where
  bounds : Option Bounds := none
  minimumXEntry : ℕ := 0
  maximumXEntry : ℕ := 0
  minimumZEntry : ℕ := 0
  maximumZEntry : ℕ := 0

/-- `add_relative`. -/
def Relative.add (relative : Relative) (position : BlockPos) (sourceEntry : ℕ) : Relative :=
  match relative.bounds with
  | none => ⟨addBounds none position, sourceEntry, sourceEntry, sourceEntry, sourceEntry⟩
  | some bounds =>
    { bounds := addBounds relative.bounds position
      minimumXEntry := if position.x < bounds.minimum.x then sourceEntry else relative.minimumXEntry
      maximumXEntry := if position.x > bounds.maximum.x then sourceEntry else relative.maximumXEntry
      minimumZEntry := if position.z < bounds.minimum.z then sourceEntry else relative.minimumZEntry
      maximumZEntry := if position.z > bounds.maximum.z then sourceEntry else relative.maximumZEntry }

/-- The variables of the first pass. -/
structure Metadata where
  palette : List (List Char) := []
  chunkOrigins : List BlockPos := []
  paletteSeen : Bool := false
  paletteIsArray : Bool := false
  buildSeen : Bool := false
  buildIsArray : Bool := false
  hasStartX : Bool := false
  hasStartZ : Bool := false
  startX : ℤ := 0
  startZ : ℤ := 0
  relative : Relative := {}
  bounds : Option Bounds := none

/-- The loop body over the cells of a tuple. -/
def addCell (entry : ℕ) (m : Metadata) (cell : Json × Json × Json) : Except String Metadata := do
  let x ← i32 cell.1 "xs"
  let y ← i32 cell.2.1 "ys"
  let z ← i32 cell.2.2 "zs"
  return { m with relative := m.relative.add ⟨x, y, z⟩ entry }

def consumeBoundsCells (entry : ℕ) (tuple : Tuple) (m : Metadata) : Except String Metadata := do
  let _ ← integer tuple.paletteIndex "palette index"
  let _ ← integer tuple.aux "aux"
  let cells ← tuple.coordinates
  cells.foldlM (addCell entry) m

def consumeBoundsTuple (entry : ℕ) (value : Json) (m : Metadata) : Except String Metadata :=
  inEntry entry do
    let tuple ← Tuple.ofJson value
    if tuple.paletteIndex.isString then return m else consumeBoundsCells entry tuple m

/-- The bounds of a chunk with its origin; the cells at the sides are checked. -/
def worldBounds (origin : BlockPos) (relative : Relative) (bounds : Bounds) : Except String Bounds := do
  let minimumX ← inEntry relative.minimumXEntry (checkedAdd origin.x bounds.minimum.x "x")
  let maximumX ← inEntry relative.maximumXEntry (checkedAdd origin.x bounds.maximum.x "x")
  let minimumZ ← inEntry relative.minimumZEntry (checkedAdd origin.z bounds.minimum.z "z")
  let maximumZ ← inEntry relative.maximumZEntry (checkedAdd origin.z bounds.maximum.z "z")
  return ⟨⟨minimumX, bounds.minimum.y, minimumZ⟩, ⟨maximumX, bounds.maximum.y, maximumZ⟩⟩

/-- Keep the origin of a chunk, and extend the bounds. -/
def keepOrigin (m : Metadata) (origin : BlockPos) : Except String Metadata :=
  match m.relative.bounds with
  | none => .ok { m with chunkOrigins := m.chunkOrigins ++ [origin] }
  | some bounds => do
    let world ← worldBounds origin m.relative bounds
    return { m with
      chunkOrigins := m.chunkOrigins ++ [origin]
      bounds := addBounds (addBounds m.bounds world.minimum) world.maximum }

/-- `finish_chunk`. -/
def finishChunk (version : Version) (chunkIndex : ℕ) (hasBlockList : Bool) (m : Metadata) :
    Except String Metadata :=
  if ¬ hasBlockList then blockListMissing chunkIndex
  else if version = .V3 ∧ ¬ m.hasStartX then inChunk chunkIndex (.error "startX is missing")
  else if version = .V3 ∧ ¬ m.hasStartZ then inChunk chunkIndex (.error "startZ is missing")
  else
    inChunk chunkIndex (keepOrigin m (if version = .V3 then ⟨m.startX, 0, m.startZ⟩ else ⟨0, 0, 0⟩))

/-- The members of a chunk with its origin. Only the third version has them. -/
def startMember (version : Version) (key : List Char) (event : ParseEvent) (parsed : Json) (m : Metadata) :
    Except String Metadata :=
  if version = .V3 ∧ (key = "startX".toList ∨ key = "startZ".toList) then
    if event ≠ .value then .error (String.ofList key ++ " is not an integer")
    else if key = "startX".toList then do
      let startX ← i32 parsed "startX"
      return { m with startX, hasStartX := true }
    else do
      let startZ ← i32 parsed "startZ"
      return { m with startZ, hasStartZ := true }
  else .ok m

def metadataHooks (version : Version) : Hooks Metadata where
  startChunk := fun _ m => .ok
    { m with hasStartX := false, hasStartZ := false, startX := 0, startZ := 0, relative := {} }
  tuple := fun _ entry value m => consumeBoundsTuple entry value m
  member := startMember version
  finishChunk := finishChunk version

/-- An event of `BlocksList`. -/
def blocksListEvent (event : ParseEvent) (c : Cursor Metadata) : Bool × Cursor Metadata :=
  let acc := { c.acc with paletteSeen := true }
  match event with
  | .arrayStart => (true, { c with inPalette := true, acc := { acc with paletteIsArray := true } })
  | .arrayEnd => (false, { c with inPalette := false, acc })
  | _ => (false, { c with acc })

/-- An event of `FuHongBuild`. -/
def buildListEvent (event : ParseEvent) (c : Cursor Metadata) : Bool × Cursor Metadata :=
  let acc := { c.acc with buildSeen := true }
  match event with
  | .arrayStart => (true, { c with inBuild := true, acc := { acc with buildIsArray := true } })
  | .arrayEnd => (false, { c with inBuild := false, acc })
  | _ => (false, { c with acc })

/-- An event of a member of the root. -/
def metadataRootEvent (event : ParseEvent) (parsed : Json) (c : Cursor Metadata) :
    Except String (Bool × Cursor Metadata) :=
  if event = .key then do
    let rootKey ← parsed.toText
    return (true, { c with rootKey })
  else if c.rootKey = "BlocksList".toList then .ok (blocksListEvent event c)
  else if c.rootKey = "FuHongBuild".toList then .ok (buildListEvent event c)
  else .ok (false, c)

def notAName {α : Type} (palette : List (List Char)) : Except String α :=
  .error ("BlocksList entry " ++ toString palette.length ++ " is not a string")

/-- An item of the palette. -/
def paletteEvent (parsed : Json) (c : Cursor Metadata) : Except String (Bool × Cursor Metadata) :=
  match parsed with
  | .string name => .ok (false, { c with acc := { c.acc with palette := c.acc.palette ++ [name] } })
  | _ => notAName c.acc.palette

/-- `metadata_callback`. -/
def metadataCallback (version : Version) : Callback (Cursor Metadata) := fun depth event parsed c =>
  if depth = 0 then
    if event = .objectStart then .ok (true, { c with rootIsObject := true }) else .ok (false, c)
  else if ¬ c.rootIsObject then .ok (false, c)
  else if depth = 1 then metadataRootEvent event parsed c
  else if c.inPalette ∧ depth = 2 ∧ event = .value then paletteEvent parsed c
  else if c.inPalette ∧ depth = 2 ∧ (event = .objectStart ∨ event = .arrayStart) then
    notAName c.acc.palette
  else if ¬ c.inBuild then .ok (false, c)
  else buildEvent (metadataHooks version) depth event parsed c

/-- What the first pass leaves for the second one. -/
structure Layout where
  palette : List (List Char)
  chunkOrigins : List BlockPos
  minimum : BlockPos
  size : Size

/-- The checks behind the first pass. -/
def layoutOf (version : Version) (rootIsObject : Bool) (m : Metadata) : Except String Layout :=
  if ¬ (rootIsObject ∧ m.paletteSeen ∧ m.paletteIsArray) ∨ m.palette = [] then
    .error "BlocksList is not a non-empty array"
  else if ¬ (m.buildSeen ∧ m.buildIsArray) then .error "FuHongBuild is not an array"
  else
    match m.bounds with
    | none => .error "structure has no valid blocks"
    | some bounds => do
      let size ← bounds.size version.name
      return ⟨m.palette, m.chunkOrigins, bounds.minimum, size⟩

/-- The first pass. -/
def readMetadata (version : Version) (document : Json) : Except String Layout := do
  let c ← parseWith (metadataCallback version) document { acc := {} }
  layoutOf version c.rootIsObject c.acc

/-! ## The second pass -/

/-- The variables of the second pass. -/
structure Payload where
  store : SparseBlockStore Compound
  paletteCache : PaletteCache := ∅
  entityPositions : List BlockPos := []
  materializedBlocks : ℕ := 0

section Second

variable (registry : Registry) (dump : Json → List Char) (layout : Layout)

/-- The extra payload of a cell, as it is stored. -/
def entityAt (blockName : List Char) (extras : Option Json) (index : ℕ) :
    Except String (Option Compound) :=
  match ((extras.bind Json.items?).getD [])[index]?.bind (extraNbt dump blockName) with
  | none => .ok none
  | some compound => (writeCompound compound).map some

/-- Store a block and its entity; the first entity of a cell stays. -/
def Payload.place (air : RuntimeId) (p : Payload) (pos : BlockPos) (runtime : RuntimeId)
    (entity : Option Compound) : Payload :=
  let store := p.store.put air pos runtime
  let fresh := entity.isSome ∧ pos ∉ p.entityPositions
  { p with
    store := if fresh then store.putEntity pos entity else store
    entityPositions := if fresh then pos :: p.entityPositions else p.entityPositions
    materializedBlocks := p.materializedBlocks + 1 }

/-- The place of a cell in the structure. -/
def cellPosition (origin : BlockPos) (cell : Json × Json × Json) : Except String BlockPos := do
  let x ← i32 cell.1 "xs"
  let worldX ← checkedAdd origin.x x "x"
  let y ← i32 cell.2.1 "ys"
  let z ← i32 cell.2.2 "zs"
  let worldZ ← checkedAdd origin.z z "z"
  return localPosition ⟨worldX, y, worldZ⟩ layout.minimum

/-- The loop body over the cells of a tuple. -/
def placeCell (blockName : List Char) (extras : Option Json) (origin : BlockPos) (runtime : RuntimeId)
    (p : Payload) (cell : (Json × Json × Json) × ℕ) : Except String Payload := do
  let pos ← cellPosition layout origin cell.1
  let entity ← entityAt dump blockName extras cell.2
  return p.place registry.airRuntimeId pos runtime entity

def paletteName (index : ℤ) : Except String (List Char) :=
  match if index < 0 then none else layout.palette[index.toNat]? with
  | some name => .ok name
  | none => .error ("palette index " ++ toString index ++ " is out of range")

def consumeCells (chunkIndex : ℕ) (tuple : Tuple) (p : Payload) : Except String Payload := do
  let index ← integer tuple.paletteIndex "palette index"
  let blockName ← paletteName layout index
  let aux ← integer tuple.aux "aux"
  let cells ← tuple.coordinates
  let found := runtimeId registry p.paletteCache blockName aux .empty
  match layout.chunkOrigins[chunkIndex]? with
  | none => .error "vector::_M_range_check"
  | some origin =>
    cells.zipIdx.foldlM (placeCell registry dump layout blockName tuple.extras origin found.1)
      { p with paletteCache := found.2 }

/-- `consume_tuple`. -/
def consumeTuple (chunkIndex entry : ℕ) (value : Json) (p : Payload) : Except String Payload :=
  inEntry entry do
    let tuple ← Tuple.ofJson value
    if tuple.paletteIndex.isString then return p
    else consumeCells registry dump layout chunkIndex tuple p

def payloadHooks : Hooks Payload where
  startChunk := fun chunkIndex p =>
    if chunkIndex ≥ layout.chunkOrigins.length then .error "FuHongBuild changed between parse passes"
    else .ok p
  tuple := consumeTuple registry dump layout
  member := fun _ _ _ p => .ok p
  finishChunk := fun chunkIndex hasBlockList p =>
    if ¬ hasBlockList then blockListMissing chunkIndex else .ok p

def payloadRootEvent (event : ParseEvent) (parsed : Json) (c : Cursor Payload) :
    Except String (Bool × Cursor Payload) :=
  if event = .key then do
    let rootKey ← parsed.toText
    return (true, { c with rootKey })
  else if c.rootKey = "FuHongBuild".toList ∧ event = .arrayStart then .ok (true, { c with inBuild := true })
  else if c.rootKey = "FuHongBuild".toList ∧ event = .arrayEnd then .ok (false, { c with inBuild := false })
  else .ok (false, c)

/-- `payload_callback`. -/
def payloadCallback : Callback (Cursor Payload) := fun depth event parsed c =>
  if depth = 0 then
    if event = .objectStart then .ok (true, { c with rootIsObject := true }) else .ok (false, c)
  else if ¬ c.rootIsObject then .ok (false, c)
  else if depth = 1 then payloadRootEvent event parsed c
  else if ¬ c.inBuild then .ok (false, c)
  else buildEvent (payloadHooks registry dump layout) depth event parsed c

/-- The second pass. -/
def readPayload (document : Json) : Except String Payload := do
  let c ← parseWith (payloadCallback registry dump layout) document
    { acc := { store := SparseBlockStore.setSize {} layout.size } }
  if c.chunkIndex ≠ layout.chunkOrigins.length then .error "FuHongBuild changed between parse passes"
  else return c.acc

end Second

/-- `FuHongStructure`, as far as reading sets it. -/
structure FuHongStructure where
  store : SparseBlockStore Compound
  paletteCache : PaletteCache
  nonAirBlocks : ℕ

/-- `read` of a document. -/
def readDocument (registry : Registry) (dump : Json → List Char) (version : Version) (document : Json) :
    Except String FuHongStructure :=
  let result : Except String FuHongStructure := do
    let layout ← readMetadata version document
    let p ← readPayload registry dump layout document
    if p.materializedBlocks = 0 ∨ p.paletteCache.keys = [] then .error "structure has no valid blocks"
    else return ⟨p.store, p.paletteCache, p.store.nonAirBlocks⟩
  result.mapError ("parse " ++ version.name ++ " failed: " ++ ·)

end FuHong

end WaterStructure
