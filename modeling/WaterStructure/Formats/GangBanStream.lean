import WaterStructure.Core.PlacedBlocks
import WaterStructure.Formats.GangBanBlocks

/-!
# GangBan documents of the versions 5 to 7

A document is one array: a stream of blocks and the palette, in the fifth version with an area between
them. The fifth version writes the fields of a block as entries of their own, a payload behind them; the
later ones give each block an entry, whose position is relative to the block before it. The stream is
read twice, first for the bounds and then for the blocks. The compression of the seventh version is
left out.
-/

namespace WaterStructure

namespace GangBan

open FuHong (Bounds Registry addBounds)
open NbtTag

inductive StreamVersion where
  | V5
  | V6
  | V7
  deriving DecidableEq

def StreamVersion.name : StreamVersion → String
  | .V5 => "GangBanV5"
  | .V6 => "GangBanV6"
  | .V7 => "GangBanV7"

/-- What the stream says of a block. -/
structure Block where
  world : BlockPos
  primary : ℤ
  secondary : ℤ
  payload : Option Json

/-- The variables that both passes over the stream share. -/
structure Stream where
  bounds : Option Bounds := none
  store : SparseBlockStore Compound := {}
  firstEntityPositions : List BlockPos := []

section Place

variable (registry : Registry) (palette : List (List Char))

/-- A block whose name is in the palette, with the entity of a container. -/
def resolveNamed (block : Block) (blockIndex : ℕ) : Except String (RuntimeId × Option Compound) := do
  let name ← paletteName palette block.primary blockIndex
  let nbt ← ((block.payload.bind Json.items?).bind (containerNbt name)).mapM writeCompound
  return (runtimeId registry name (block.secondary % 65536).toNat, nbt)

/-- The block of an entry with its entity, as it is written. A block with an object as its payload is a
command block, and its numbers are not looked up. -/
def resolve (block : Block) (blockIndex : ℕ) : Except String (RuntimeId × Option Compound) :=
  match block.payload with
  | some (.object members) =>
    (writeCompound (commandNbtV5 (.object members) block.secondary)).map fun nbt =>
      (runtimeId registry (commandBlockName block.secondary).toList (block.primary % 65536).toNat, some nbt)
  | _ => resolveNamed registry palette block blockIndex

/-- Store a block and its entity; the first entity of a cell stays. -/
def Stream.put (s : Stream) (pos : BlockPos) (found : RuntimeId × Option Compound) : Stream :=
  let store := s.store.put registry.airRuntimeId pos found.1
  if found.2.isSome ∧ pos ∉ s.firstEntityPositions then
    { s with
      store := store.putEntity pos found.2
      firstEntityPositions := pos :: s.firstEntityPositions }
  else { s with store }

/-- `place`. -/
def place (materialize : Bool) (block : Block) (blockIndex : ℕ) (s : Stream) : Except String Stream := do
  let found ← resolve registry palette block blockIndex
  if ¬ materialize then return { s with bounds := addBounds s.bounds block.world }
  else do
    let pos ← subtract block.world (minimumOf s.bounds)
    return s.put registry pos found

end Place

/-! ## The fifth version -/

/-- The variables of a pass over a stream of fields. -/
structure FieldCursor where
  base : List ℤ := []
  blockIndex : ℕ := 0
  stream : Stream

def isContainer : Json → Bool
  | .array _ => true
  | .object _ => true
  | _ => false

def inBlock {α : Type} (blockIndex : ℕ) (result : Except String α) : Except String α :=
  result.mapError ("block index " ++ toString blockIndex ++ ": " ++ ·)

/-- The block of six fields. -/
def blockOfFields (base : List ℤ) (payload : Option Json) : Block :=
  ⟨⟨base.getD 1 0, base.getD 2 0, base.getD 3 0⟩, base.getD 4 0, base.getD 5 0, payload⟩

section Fields

variable (registry : Registry) (palette : List (List Char)) (materialize : Bool)

def finishBlock (payload : Option Json) (c : FieldCursor) : Except String FieldCursor := do
  let stream ← inBlock c.blockIndex
    (place registry palette materialize (blockOfFields c.base payload) c.blockIndex c.stream)
  return ⟨[], c.blockIndex + 1, stream⟩

/-- An entry that is a field of a block, `left` entries before the area. -/
def takeField (index left : ℕ) (entry : Json) (c : FieldCursor) : Except String FieldCursor :=
  if c.base = [] ∧ left < 6 then
    .error ("block index " ++ toString c.blockIndex ++ " is truncated at stream index " ++ toString index)
  else do
    let field ← inBlock c.blockIndex (jsonI32 entry "V5 block field")
    return { c with base := c.base ++ [field] }

/-- An entry of the stream of the fifth version. -/
def fieldEntry (streamEnd index : ℕ) (entry : Json) (c : FieldCursor) : Except String FieldCursor :=
  if index ≥ streamEnd then .ok c
  else if c.base.length = 6 then
    if isContainer entry then finishBlock registry palette materialize (some entry) c
    else do
      let c ← finishBlock registry palette materialize none c
      takeField index (streamEnd - index) entry c
  else takeField index (streamEnd - index) entry c

/-- The end of a pass: the last block may be without a payload. -/
def finishFields (c : FieldCursor) : Except String (ℕ × Stream) :=
  if c.base.length = 6 then
    (finishBlock registry palette materialize none c).map fun c => (c.blockIndex, c.stream)
  else .ok (c.blockIndex, c.stream)

/-- `process_stream` of the fifth version: the number of blocks, and the variables. -/
def processFields (streamEnd : ℕ) (document : Json) (s : Stream) : Except String (ℕ × Stream) :=
  forEachRootEntry (fieldEntry registry palette materialize streamEnd) document { stream := s } >>=
    finishFields registry palette materialize

end Fields

/-! ## The sixth and the seventh version -/

/-- The variables of a pass over a stream of relative blocks. -/
structure DeltaCursor where
  position : BlockPos := ⟨0, 0, 0⟩
  blockIndex : ℕ := 0
  stream : Stream

/-- An entry with two strings in the places of the numbers of a block. -/
def isText : Json → Bool
  | .array (_ :: _ :: _ :: fourth :: fifth :: _) => fourth.isString && fifth.isString
  | _ => false

section Deltas

variable (registry : Registry) (palette : List (List Char)) (materialize : Bool)

/-- The block of an entry, given the position before it. -/
def deltaBlock (position : BlockPos) : Json → Except String Block
  | .array (first :: second :: third :: fourth :: fifth :: rest) => do
    let dx ← jsonI32 first "dx"
    let dy ← jsonI32 second "dy"
    let dz ← jsonI32 third "dz"
    let world := position.add ⟨dx, dy, dz⟩
    if ¬ (IsInt32 world.x ∧ IsInt32 world.y ∧ IsInt32 world.z) then .error "delta cursor exceeds int32"
    else do
      let primary ← jsonI32 fourth "primary"
      let secondary ← jsonI32 fifth "secondary"
      return ⟨world, primary, secondary, rest.head?⟩
  | .array _ => .error "stream entry has fewer than five fields"
  | _ => .error "stream entry is not an array"

/-- An entry of the stream of the later versions. -/
def deltaEntry (streamEnd index : ℕ) (entry : Json) (c : DeltaCursor) : Except String DeltaCursor :=
  if index ≥ streamEnd then .ok c
  else if isText entry then .ok c
  else
    let result : Except String DeltaCursor := do
      let block ← deltaBlock c.position entry
      let stream ← place registry palette materialize block c.blockIndex c.stream
      return ⟨block.world, c.blockIndex + 1, stream⟩
    result.mapError ("block index " ++ toString c.blockIndex ++ " stream index " ++ toString index ++ ": " ++ ·)

/-- `process_stream` of the later versions. -/
def processDeltas (streamEnd : ℕ) (document : Json) (s : Stream) : Except String (ℕ × Stream) :=
  (forEachRootEntry (deltaEntry registry palette materialize streamEnd) document { stream := s }).map
    fun c => (c.blockIndex, c.stream)

end Deltas

/-! ## Reading a document -/

/-- The variables of the pass that looks for the end of a document. -/
structure Tail where
  documentSize : ℕ := 0
  penultimate : Option Json := none
  last : Option Json := none

def readTail (document : Json) : Except String Tail :=
  forEachRootEntry (fun index entry tail => .ok ⟨index + 1, tail.last, some entry⟩) document {}

/-- The check of the area of the fifth version. -/
def checkArea (tail : Tail) : Except String Unit :=
  match if tail.documentSize < 2 then none else tail.penultimate.bind (Json.member? · "ep") with
  | some (.array [x, y, z]) => do
    let _ ← jsonInteger x "area.ep"
    let _ ← jsonInteger y "area.ep"
    let _ ← jsonInteger z "area.ep"
    return ()
  | _ => .error "V5 area ep is invalid"

/-- `GangBanStructure`, as far as reading sets it. -/
structure GangBanStructure where
  store : SparseBlockStore Compound
  nonAirBlocks : ℕ

/-- `process_stream`. -/
def processStream (registry : Registry) (version : StreamVersion) (palette : List (List Char)) (streamEnd : ℕ)
    (materialize : Bool) (document : Json) (s : Stream) : Except String (ℕ × Stream) :=
  if version = .V5 then processFields registry palette materialize streamEnd document s
  else processDeltas registry palette materialize streamEnd document s

/-- The palette of a document, and where its stream ends. -/
def readEnd (version : StreamVersion) (document : Json) : Except String (List (List Char) × ℕ) := do
  let tail ← readTail document
  match tail.last with
  | none => .error "root array is empty"
  | some last => do
    let palette ← stringPalette last "palette"
    if version = .V5 then do
      checkArea tail
      return (palette, tail.documentSize - 2)
    else return (palette, tail.documentSize - 1)

/-- Both passes over the stream. -/
def readBlocks (registry : Registry) (version : StreamVersion) (palette : List (List Char)) (streamEnd : ℕ)
    (document : Json) : Except String GangBanStructure := do
  let validated ← processStream registry version palette streamEnd false document {}
  if validated.1 = 0 then .error "structure has no blocks"
  else do
    let size ← boundsSize validated.2.bounds
    let materialized ← processStream registry version palette streamEnd true document
      { validated.2 with store := validated.2.store.setSize size }
    if materialized.1 ≠ validated.1 then .error "GangBan command stream changed while parsing"
    else return ⟨materialized.2.store, materialized.2.store.nonAirBlocks⟩

/-- `GangBanStructure::read` of the versions 5 to 7. -/
def readStream (registry : Registry) (version : StreamVersion) (document : Json) :
    Except String GangBanStructure :=
  let result : Except String GangBanStructure := do
    let found ← readEnd version document
    readBlocks registry version found.1 found.2 document
  result.mapError ("parse " ++ version.name ++ " failed: " ++ ·)

end GangBan

end WaterStructure
