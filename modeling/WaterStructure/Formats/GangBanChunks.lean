import WaterStructure.Formats.GangBanStreamPlacements
import WaterStructure.Library.Records

/-!
# GangBan documents of the versions 3 and 4

A document is an array of a header, a palette and the chunks, each an object with its place and a list of
blocks. The reader parses it three times and keeps none of it: the first pass collects the header, the
palette and the places of the chunks, and counts how often each chunk lists blocks; the other two go over
the blocks, first for the bounds and then to store them. The parser of payloads is a parameter. Counters do
not overflow here.
-/

namespace WaterStructure

namespace GangBan

open FuHong (Bounds Registry addBounds)
open Json (ParseEvent parseWith)
open Json.Records (Cursor Hooks begins)

inductive ChunkVersion where
  | V3
  | V4
  deriving DecidableEq

def ChunkVersion.name : ChunkVersion → String
  | .V3 => "GangBanV3"
  | .V4 => "GangBanV4"

/-! ## The palette of the third version -/

theorem length_cutAtFirst {separator : Char} {text before after : List Char}
    (h : cutAtFirst separator text = some (before, after)) : after.length < text.length := by
  rw [cutAtFirst] at h
  obtain ⟨hmem, h⟩ := NestedLoop.then_of_some h
  cases h
  have hne : text.dropWhile (· ≠ separator) ≠ [] := by
    intro hnil
    have hall := List.dropWhile_eq_nil_iff.mp hnil separator hmem
    simp at hall
  have hle := (List.dropWhile_sublist (· ≠ separator) (l := text)).length_le
  have hpos := List.length_pos_of_ne_nil hne
  rw [List.length_tail]
  omega

/-- The two numbers in brackets and the name between them. -/
def paletteEntry (first name second : List Char) : Option (ℤ × List Char) :=
  match fromChars first, fromChars second with
  | some index, some other => if index = other then some (index, name) else none
  | _, _ => none

/-- The entries of a palette string. -/
def paletteEntries (encoded : List Char) : List (ℤ × List Char) :=
  match hopen : cutAtFirst '[' encoded with
  | none => []
  | some (_, rest) =>
    match hclose : cutAtFirst ']' rest with
    | none => []
    | some (first, rest') =>
      match hnext : cutAtFirst '[' rest' with
      | none => []
      | some (name, rest'') =>
        match hend : cutAtFirst ']' rest'' with
        | none => []
        | some (second, after) => (paletteEntry first name second).toList ++ paletteEntries after
termination_by encoded.length
decreasing_by
  have := length_cutAtFirst hopen
  have := length_cutAtFirst hclose
  have := length_cutAtFirst hnext
  have := length_cutAtFirst hend
  omega

/-- `parse_v3_palette`. -/
def parseV3Palette (encoded : List Char) : Except String (List (List Char)) :=
  let entries := paletteEntries encoded
  if entries = [] then .error "V3 palette string has no entries"
  else
    let maximum := entries.foldl (fun maximum entry => max maximum entry.1) 0
    (List.range (maximum.toNat + 1)).mapM fun index =>
      match LastValue.lastValue (fun entry : ℤ × List Char =>
          if entry.1 = index then some entry.2 else none) entries with
      | some name => .ok name
      | none => .error ("V3 palette is missing index " ++ toString index)

/-! ## The first pass -/

structure ChunkMetadata where
  x : ℤ := 0
  z : ℤ := 0
  dataOccurrences : ℕ := 0

/-- What the first pass keeps of the entries before the chunks. -/
structure Head where
  rootIsArray : Bool := false
  header : Option Json := none
  rawPalette : Option Json := none

/-- The variables of the first pass. -/
structure Chunks where
  rootIndex : ℕ := 0
  gridsRaw : Json := .null
  hasGrids : Bool := false
  finalDataIsArray : Bool := false
  chunkMetadata : List ChunkMetadata := []

def invalidChunk {α : Type} (rootIndex : ℕ) : Except String α :=
  .error ("chunk index " ++ toString (rootIndex - 2) ++ " is invalid")

/-- A member of a chunk that does not list blocks. The place of the chunk is kept until it is complete. -/
def gridsMember (key : List Char) (event : ParseEvent) (parsed : Json) (c : Chunks) : Bool × Chunks :=
  if begins event then
    if key = "grids".toList then
      if event = .objectStart then (true, { c with hasGrids := true })
      else (false, { c with hasGrids := true, gridsRaw := if event = .arrayStart then .array [] else parsed })
    else (false, c)
  else if event = .objectEnd ∧ key = "grids".toList then
    (false, { c with hasGrids := true, gridsRaw := parsed })
  else (false, c)

/-- A complete chunk. -/
def finishChunk (dataOccurrences : ℕ) (c : Chunks) : Except String Chunks :=
  if ¬ c.hasGrids ∨ ¬ c.gridsRaw.isObject ∨ dataOccurrences = 0 ∨ ¬ c.finalDataIsArray then
    invalidChunk c.rootIndex
  else do
    let rawX ← c.gridsRaw.required "x"
    let x ← jsonI32 rawX "grids.x"
    let rawZ ← c.gridsRaw.required "z"
    let z ← jsonI32 rawZ "grids.z"
    return { c with
      chunkMetadata := c.chunkMetadata ++ [⟨x, z, dataOccurrences⟩]
      rootIndex := c.rootIndex + 1 }

def metadataHooks : Hooks Chunks where
  listKey := "data".toList
  clearsList := true
  clearsKey := true
  startRecord := fun c => .ok { c with gridsRaw := .null, hasGrids := false, finalDataIsArray := false }
  otherRecord := fun event c =>
    if event = .value ∨ event = .arrayStart then invalidChunk c.rootIndex
    else if event = .objectEnd ∨ event = .arrayEnd then .ok (false, { c with rootIndex := c.rootIndex + 1 })
    else .ok (true, c)
  list := fun array c => { c with finalDataIsArray := array }
  enters := fun _ _ => true
  selects := fun _ _ => false
  item := fun _ c => .ok c
  member := fun key event parsed c => .ok (gridsMember key event parsed c)
  endRecord := finishChunk

/-- The header or the palette is complete. -/
def keepHead (rootIndex : ℕ) (parsed : Json) (head : Head) : Head :=
  if rootIndex = 0 then { head with header := some parsed } else { head with rawPalette := some parsed }

/-- An event of the header or the palette. -/
def headEvent (depth : ℕ) (event : ParseEvent) (parsed : Json) (c : Cursor Head Chunks) :
    Bool × Cursor Head Chunks :=
  if depth = 1 ∧ (event = .value ∨ event = .objectEnd ∨ event = .arrayEnd) then
    (false, { c with
      outer := keepHead c.acc.rootIndex parsed c.outer
      acc := { c.acc with rootIndex := c.acc.rootIndex + 1 } })
  else (true, c)

/-- `metadata_callback`. -/
def metadataCallback : Json.Callback (Cursor Head Chunks) := fun depth event parsed c =>
  if depth = 0 then
    if event = .arrayStart then .ok (true, { c with outer := { c.outer with rootIsArray := true } })
    else .ok (!(event = .objectStart || event = .value), c)
  else if c.acc.rootIndex < 2 then .ok (headEvent depth event parsed c)
  else Json.Records.event metadataHooks (depth - 1) event parsed c

/-- What the first pass leaves: the header, the palette and the chunks. -/
structure Layout where
  header : Json
  rawPalette : Json
  chunks : List ChunkMetadata

/-- The checks behind the first pass. -/
def layoutOf (c : Cursor Head Chunks) : Except String Layout :=
  match c.outer.header, c.outer.rawPalette with
  | some header, some rawPalette =>
    if ¬ c.outer.rootIsArray ∨ c.acc.rootIndex < 3 ∨ c.acc.chunkMetadata = [] ∨ ¬ header.isObject then
      .error "header/chunk array is incomplete"
    else .ok ⟨header, rawPalette, c.acc.chunkMetadata⟩
  | _, _ => .error "header/chunk array is incomplete"

/-- The palette, and what the header of the third version declares. -/
structure Settings where
  palette : List (List Char)
  declared : Option (BlockPos × Size)

def headerNumber (header : Json) (name : String) : Except String ℤ := do
  let raw ← header.required name
  jsonI32 raw ("header." ++ name)

def settingsOf (version : ChunkVersion) (header rawPalette : Json) : Except String Settings :=
  match version with
  | .V3 =>
    match rawPalette with
    | .string encoded => do
      let palette ← parseV3Palette encoded
      let x ← headerNumber header "x"
      let y ← headerNumber header "y"
      let z ← headerNumber header "z"
      let width ← headerNumber header "xcha"
      let height ← headerNumber header "ycha"
      let length ← headerNumber header "zcha"
      if width ≤ 0 ∨ height ≤ 0 ∨ length ≤ 0 then .error "V3 dimensions must be positive"
      else return ⟨palette, some (⟨x, y, z⟩, ⟨width, height, length⟩)⟩
    | _ => .error "V3 palette is not a string"
  | .V4 => (stringPalette rawPalette "V4 palette").map fun palette => ⟨palette, none⟩

/-! ## The passes over the blocks -/

/-- The payload of a block entity, as it is stored. -/
abbrev Payload := List UInt8

/-- The variables of a pass over the blocks. -/
structure Pass where
  rootIndex : ℕ := 0
  chunkIndex : ℕ := 0
  blockIndex : ℕ := 0
  bounds : Option Bounds := none
  store : SparseBlockStore Payload := {}
  firstEntityPositions : List BlockPos := []

/-- What an entry says of a block. -/
structure ChunkBlock where
  world : BlockPos
  name : List Char
  aux : ℕ

/-- The block of an entry, in a chunk at some place. -/
def chunkBlock (palette : List (List Char)) (chunkX chunkZ : ℤ) (blockIndex : ℕ) (entry : Json) :
    Except String ChunkBlock :=
  match entry with
  | .array (first :: second :: third :: fourth :: fifth :: _) => do
    let index ← jsonI32 first "palette index"
    let name ← paletteName palette index blockIndex
    let aux ← jsonU16 second "aux"
    let relativeX ← jsonI32 third "local x"
    let y ← jsonI32 fourth "y"
    let relativeZ ← jsonI32 fifth "local z"
    if ¬ (IsInt32 (chunkX + relativeX) ∧ IsInt32 (chunkZ + relativeZ)) then
      .error "world coordinate exceeds int32"
    else return ⟨⟨chunkX + relativeX, y, chunkZ + relativeZ⟩, name, aux⟩
  | _ => .error "entry has fewer than five fields"

section Blocks

variable (registry : Registry) (parseNbt : List Char → Except String Payload) (version : ChunkVersion)
  (settings : Settings) (metadata : List ChunkMetadata) (materialize : Bool)

/-- `snbt_payload`. -/
def snbtPayload (entry : Json) : Option Payload :=
  match entry with
  | .array (_ :: _ :: _ :: _ :: _ :: .string mark :: .string text :: _) =>
    if mark = "nbt".toList then (parseNbt text).toOption.filter fun payload => payload ≠ [] else none
  | _ => none

/-- Store a block and its entity. In the third version, the first entity of a cell stays. -/
def Pass.put (p : Pass) (pos : BlockPos) (runtime : RuntimeId) (nbt : Option Payload) : Pass :=
  let store := p.store.put registry.airRuntimeId pos runtime
  if nbt = none then { p with store }
  else if version = .V4 then { p with store := store.putEntity pos nbt }
  else if pos ∈ p.firstEntityPositions then { p with store }
  else { p with store := store.putEntity pos nbt, firstEntityPositions := pos :: p.firstEntityPositions }

/-- What is done with a block. -/
def placeBlock (block : ChunkBlock) (entry : Json) (p : Pass) : Except String Pass :=
  if ¬ materialize then .ok { p with bounds := addBounds p.bounds block.world }
  else
    let nbt := snbtPayload parseNbt entry
    let runtime := runtimeId registry block.name block.aux
    let origin := (settings.declared.map Prod.fst).getD (minimumOf p.bounds)
    (subtract block.world origin).map fun pos => p.put registry version pos runtime nbt

def Pass.chunk (p : Pass) : ChunkMetadata := (metadata[p.chunkIndex]?).getD {}

/-- `consume_entry`. -/
def consumeEntry (entry : Json) (p : Pass) : Except String Pass :=
  if p.chunkIndex ≥ metadata.length then .error "GangBan chunk stream changed while parsing"
  else
    let result : Except String Pass := do
      let block ← chunkBlock settings.palette (p.chunk metadata).x (p.chunk metadata).z p.blockIndex entry
      placeBlock registry parseNbt version settings materialize block entry p
    (inBlock p.blockIndex result).map fun p => { p with blockIndex := p.blockIndex + 1 }

def chunkHooks : Hooks Pass where
  listKey := "data".toList
  clearsList := true
  clearsKey := true
  startRecord := fun p =>
    if p.chunkIndex ≥ metadata.length then .error "GangBan chunk stream changed while parsing" else .ok p
  otherRecord := fun _ p => .ok (true, p)
  list := fun _ p => p
  enters := fun _ _ => true
  selects := fun dataOccurrence p => decide (dataOccurrence = (p.chunk metadata).dataOccurrences)
  item := consumeEntry registry parseNbt version settings metadata materialize
  member := fun _ _ _ p => .ok (false, p)
  endRecord := fun _ p => .ok { p with chunkIndex := p.chunkIndex + 1, rootIndex := p.rootIndex + 1 }

/-- An event of the header or the palette, which are passed over. -/
def passHead (depth : ℕ) (event : ParseEvent) (c : Cursor Bool Pass) : Bool × Cursor Bool Pass :=
  if depth = 1 ∧ (event = .value ∨ event = .objectEnd ∨ event = .arrayEnd) then
    (false, { c with acc := { c.acc with rootIndex := c.acc.rootIndex + 1 } })
  else (decide (depth = 1), c)

/-- The callback of a pass over the blocks; the outer variable is `pass_root_is_array`. -/
def chunkCallback : Json.Callback (Cursor Bool Pass) := fun depth event parsed c =>
  if depth = 0 then .ok (true, { c with outer := c.outer || decide (event = .arrayStart) })
  else if c.acc.rootIndex < 2 then .ok (passHead depth event c)
  else
    Json.Records.event (chunkHooks registry parseNbt version settings metadata materialize) (depth - 1) event
      parsed c

/-- `stream_entries`; the number of blocks is a variable of the result. -/
def streamEntries (document : Json) (p : Pass) : Except String Pass := do
  let c ← parseWith (chunkCallback registry parseNbt version settings metadata materialize) document
    { outer := false, acc := { p with rootIndex := 0, chunkIndex := 0, blockIndex := 0 } }
  if ¬ c.outer ∨ c.acc.chunkIndex ≠ metadata.length then .error "GangBan chunk stream changed while parsing"
  else return c.acc

end Blocks

/-! ## Reading a document -/

/-- `GangBanStructure`, as far as reading chunks sets it. -/
structure ChunkStructure where
  store : SparseBlockStore Payload
  nonAirBlocks : ℕ

/-- A store that is ready for the blocks. -/
def sizedStore (settings : Settings) (bounds : Option Bounds) (store : SparseBlockStore Payload) :
    Except String (SparseBlockStore Payload) :=
  match settings.declared with
  | some declared => .ok ((store.setSize declared.2).setIncludeOutOfBounds true)
  | none => (boundsSize bounds).map store.setSize

section Read

variable (registry : Registry) (parseNbt : List Char → Except String Payload) (version : ChunkVersion)

/-- Both passes over the blocks. -/
def readEntries (settings : Settings) (metadata : List ChunkMetadata) (document : Json) :
    Except String ChunkStructure := do
  let validated ← streamEntries registry parseNbt version settings metadata false document {}
  if validated.blockIndex = 0 then .error "structure has no blocks"
  else do
    let store ← sizedStore settings validated.bounds validated.store
    let materialized ← streamEntries registry parseNbt version settings metadata true document
      { validated with store }
    if materialized.blockIndex ≠ validated.blockIndex then .error "GangBan chunk stream changed while parsing"
    else return ⟨materialized.store, materialized.store.nonAirBlocks⟩

/-- The passes of `read` of the versions 3 and 4. -/
def readChunkPasses (document : Json) : Except String ChunkStructure := do
  let c ← parseWith metadataCallback document { outer := {}, acc := {} }
  let layout ← layoutOf c
  let settings ← settingsOf version layout.header layout.rawPalette
  readEntries registry parseNbt version settings layout.chunks document

/-- `GangBanStructure::read` of the versions 3 and 4. -/
def readChunks (document : Json) : Except String ChunkStructure :=
  (readChunkPasses registry parseNbt version document).mapError ("parse " ++ version.name ++ " failed: " ++ ·)

end Read

end GangBan

end WaterStructure
