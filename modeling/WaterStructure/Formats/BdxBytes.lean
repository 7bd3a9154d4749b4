import WaterStructure.Core.MappingRegistry
import WaterStructure.Formats.BdxSpool
import WaterStructure.Formats.BdxStates
import WaterStructure.Library.ByteReader

/-!
# The bytes of a BDX file

The decompressed bytes of a file start with a header; then come the commands. A command that defines a
constant adds a text to a table, and the commands that place blocks refer to these texts, or to a pool
of the registry, by number. The runtime ids of the blocks are found with the tables as they are at the
command, and the ids that have been found for constants are cached.
-/

namespace WaterStructure.Bdx

open ByteReader

def kMaximumConstants : ℕ := 65536

def kMaximumConstantBytes : ℕ := 64 * 1024 * 1024

def kMaximumConstantStringBytes : ℕ := 4 * 1024 * 1024

def kMaximumRuntimeCacheEntries : ℕ := 262144

/-- The variables of the interpreter that say which block a command places. A key of the caches is a pair
of constants, or of a constant and the data of a legacy block. -/
structure Tables where
  constants : List (List Char) := []
  constantBytes : ℕ := 0
  poolId : ℕ := 0
  cachedPoolId : ℕ := 255
  cachedPool : List RuntimeId := []
  legacyRuntimeCache : AList fun _ : ℕ × ℕ => RuntimeId := ∅
  stateRuntimeCache : AList fun _ : ℕ × ℕ => RuntimeId := ∅
  stateDirect : ℕ → Option ((ℕ × ℕ) × RuntimeId) := fun _ => none

section Runtimes

variable (registry : MappingRegistry)

/-- The id of a legacy block, or else of the block of its name. -/
def legacyOrNamed (name : List Char) (data : ℕ) : RuntimeId :=
  (registry.legacyRuntimeId name data).getD ((registry.find name [] 0).getD registry.airRuntimeId)

/-- `legacy_runtime` -/
def Tables.legacyRuntime (tables : Tables) (name data : ℕ) : RuntimeId × Tables :=
  match tables.legacyRuntimeCache.lookup (name, data) with
  | some runtime => (runtime, tables)
  | none =>
    match tables.constants[name]? with
    | none => (registry.airRuntimeId, tables)
    | some text =>
      let runtime := legacyOrNamed registry text data
      (runtime,
        { tables with
          legacyRuntimeCache :=
            if tables.legacyRuntimeCache.keys.length < kMaximumRuntimeCacheEntries then
              tables.legacyRuntimeCache.insert (name, data) runtime
            else tables.legacyRuntimeCache })

/-- The runtime id of a name with the text of its properties. -/
def stateRuntime (name states : List Char) : Except String RuntimeId :=
  (parseBlockStates states).map fun properties =>
    match registry.legacyStateRuntimeId name properties with
    | some runtime => runtime
    | none =>
      match registry.findCompatible ⟨name, properties, 0⟩ with
      | some runtime => runtime
      | none => legacyOrNamed registry name 0

/-- `resolve_state_runtime` -/
def Tables.resolveStateRuntime (tables : Tables) (name : ℕ) (states : List Char) :
    Except String RuntimeId :=
  match tables.constants[name]? with
  | none => .ok registry.airRuntimeId
  | some text => stateRuntime registry text states

/-- The place of a key in the direct cache. -/
def stateSlot (key : ℕ × ℕ) : ℕ := (key.1 * 65536 + key.2) * 2654435761 % 4294967296 % 256

def Tables.keepDirect (tables : Tables) (key : ℕ × ℕ) (runtime : RuntimeId) : Tables :=
  { tables with
    stateDirect := Function.update tables.stateDirect (stateSlot key) (some (key, runtime)) }

def Tables.keepState (tables : Tables) (key : ℕ × ℕ) (runtime : RuntimeId) : Tables :=
  { tables with
    stateRuntimeCache :=
      if tables.stateRuntimeCache.keys.length < kMaximumRuntimeCacheEntries then
        tables.stateRuntimeCache.insert key runtime
      else tables.stateRuntimeCache }

/-- What the caches have for a key. -/
def Tables.cachedState (tables : Tables) (key : ℕ × ℕ) : Option RuntimeId :=
  match tables.stateDirect (stateSlot key) with
  | some (other, runtime) => if other = key then some runtime else tables.stateRuntimeCache.lookup key
  | none => tables.stateRuntimeCache.lookup key

/-- `constant_state_runtime` -/
def Tables.constantStateRuntime (tables : Tables) (name states : ℕ) :
    Except String (RuntimeId × Tables) :=
  match tables.cachedState (name, states) with
  | some runtime => .ok (runtime, tables.keepDirect (name, states) runtime)
  | none =>
    let resolved : Except String RuntimeId := match tables.constants[states]? with
      | none => .ok registry.airRuntimeId
      | some encoded => tables.resolveStateRuntime registry name encoded
    resolved.map fun runtime =>
      (runtime, (tables.keepState (name, states) runtime).keepDirect (name, states) runtime)

/-- `pool_runtime` -/
def Tables.poolRuntime (tables : Tables) (index : ℕ) : Except String (RuntimeId × Tables) :=
  let tables :=
    if tables.cachedPoolId = tables.poolId then tables
    else { tables with cachedPoolId := tables.poolId, cachedPool := registry.legacyPool tables.poolId }
  match tables.cachedPool[index]? with
  | none => .error ("runtime pool " ++ toString tables.poolId ++ " index " ++ toString index ++ " 越界")
  | some runtime => .ok (runtime, tables)

end Runtimes

/-- `read_command_block_data`; the result is the mode. -/
def readCommandBlockData : Reader ℕ := do
  let mode ← u32 "command block mode"
  let _ ← cstring "command block command" kMaximumConstantStringBytes
  let _ ← cstring "command block custom name" kMaximumConstantStringBytes
  let _ ← cstring "command block last output" kMaximumConstantStringBytes
  let _ ← i32 "command block tick delay"
  let _ ← u8 "command block execute flag"
  let _ ← u8 "command block track flag"
  let _ ← u8 "command block conditional flag"
  let _ ← u8 "command block redstone flag"
  pure mode

def readChestItems : ℕ → Reader Unit
  | 0 => pure ()
  | count + 1 => do
    let _ ← cstring "chest item name" kMaximumConstantStringBytes
    let _ ← u8 "chest item count"
    let _ ← u16 "chest item damage"
    let _ ← u8 "chest item slot"
    readChestItems count

/-- `read_chest_nbt` -/
def readChestNbt : Reader Unit := do
  let count ← u8 "chest slot count"
  readChestItems count

/-- The texts of the three kinds of command blocks. -/
def commandBlockName : ℕ → Option (List Char)
  | 0 => some "minecraft:command_block".toList
  | 1 => some "minecraft:repeating_command_block".toList
  | 2 => some "minecraft:chain_command_block".toList
  | _ => none

section Commands

variable (readBlockNbt : Reader Unit) (registry : MappingRegistry) (tables : Tables)

/-- The command that defines a constant. -/
def readConstant : Reader (Command × Tables) := do
  failIf (tables.constants.length ≥ kMaximumConstants) "constant string 表超过 uint16 范围"
  let value ← cstring "constant string" kMaximumConstantStringBytes
  failIf (value.length > kMaximumConstantStringBytes ∨
    tables.constantBytes > kMaximumConstantBytes - value.length) "BDX constant string 表超过大小限制"
  pure (.metadata (.ok ()),
    { tables with
      constants := tables.constants ++ [value]
      constantBytes := tables.constantBytes + value.length })

/-- A block that is given by two constants. -/
def readConstantState : Reader (RuntimeId × Tables) := do
  let name ← u16 "block constant id"
  let states ← u16 "states constant id"
  lift (tables.constantStateRuntime registry name states)

/-- A block that is given by a constant and data. -/
def readLegacy : Reader (RuntimeId × Tables) := do
  let name ← u16 "block constant id"
  let data ← u16 "legacy block data"
  pure (tables.legacyRuntime registry name data)

/-- A block of the pool. -/
def readPool (index : Reader ℕ) : Reader (RuntimeId × Tables) := do
  let index ← index
  lift (tables.poolRuntime registry index)

/-- A block, and the data of a block entity behind it. -/
def placeWith (block : Reader (RuntimeId × Tables)) (entity : Reader Unit) :
    Reader (Command × Tables) := do
  let (runtime, tables) ← block
  entity
  pure (.place (.ok runtime), tables)

/-- A move by a distance that is read. -/
def readMove (axis : Axis) (distance : Reader ℤ) : Reader (Command × Tables) := do
  let delta ← distance
  pure (.move axis delta, tables)

/-- The operands of a command; entities are taken from the input only. -/
def readCommand : ℕ → Reader (Command × Tables)
  | 1 => readConstant tables
  | 5 => do
    let (runtime, tables) ← readConstantState registry tables
    pure (.placeConstant (.ok runtime), tables)
  | 6 => readMove tables .Z (i16 "int16 z")
  | 7 => placeWith (readLegacy registry tables) (pure ())
  | 8 => pure (.move .Z 1, tables)
  | 9 => pure (.stay (.ok ()), tables)
  | 12 => readMove tables .Z (i32 "int32 z")
  | 13 => do
    let name ← u16 "block constant id"
    let states ← cstring "deprecated block states" kMaximumConstantStringBytes
    let runtime ← lift (tables.resolveStateRuntime registry name states)
    pure (.place (.ok runtime), tables)
  | 14 => pure (.move .X 1, tables)
  | 15 => pure (.move .X (-1), tables)
  | 16 => pure (.move .Y 1, tables)
  | 17 => pure (.move .Y (-1), tables)
  | 18 => pure (.nextZ, tables)
  | 19 => pure (.move .Z (-1), tables)
  | 20 => readMove tables .X (i16 "int16 x")
  | 21 => readMove tables .X (i32 "int32 x")
  | 22 => readMove tables .Y (i16 "int16 y")
  | 23 => readMove tables .Y (i32 "int32 y")
  | 24 => readMove tables .Z (i16 "int16 z")
  | 25 => readMove tables .Z (i32 "int32 z")
  | 26 => do
    let _ ← readCommandBlockData
    pure (.stay (.ok ()), tables)
  | 27 => placeWith (readLegacy registry tables) (do let _ ← readCommandBlockData)
  | 28 => readMove tables .X (i8 "int8 x")
  | 29 => readMove tables .Y (i8 "int8 y")
  | 30 => readMove tables .Z (i8 "int8 z")
  | 31 => do
    let poolId ← u8 "runtime pool id"
    pure (.metadata (.ok ()), { tables with poolId })
  | 32 => placeWith (readPool registry tables (u16 "runtime pool index")) (pure ())
  | 33 => do
    let _ ← u32 "runtime pool index"
    pure (.stay (.ok ()), tables)
  | 34 => placeWith (readPool registry tables (u16 "runtime pool index")) (do let _ ← readCommandBlockData)
  | 35 => placeWith (readPool registry tables (u32 "runtime pool index")) (do let _ ← readCommandBlockData)
  | 36 => do
    let data ← u16 "command block data"
    let mode ← readCommandBlockData
    match commandBlockName mode with
    | none => fail "command block mode 越界"
    | some name => pure (.place (.ok (legacyOrNamed registry name data)), tables)
  | 37 => placeWith (readPool registry tables (u16 "runtime pool index")) readChestNbt
  | 38 => placeWith (readPool registry tables (u32 "runtime pool index")) readChestNbt
  | 39 => do
    let length ← u32 "debug data length"
    skip length "debug data"
    pure (.stay (.ok ()), tables)
  | 40 => placeWith (readLegacy registry tables) readChestNbt
  | 41 => placeWith (do
      let block ← do
        let name ← u16 "block constant id"
        let states ← u16 "states constant id"
        pure (name, states)
      let _ ← u16 "NBT prefix"
      lift (tables.constantStateRuntime registry block.1 block.2)) readBlockNbt
  | 88 => pure (.terminate, tables)
  | id => fail ("未知 command id=" ++ toString id)

end Commands

/-- The commands up to the one that terminates the stream. A command takes at least one byte, so the fuel
is the number of bytes. -/
def readCommands (readBlockNbt : Reader Unit) (registry : MappingRegistry) :
    ℕ → Tables → Input → Except String (List Command)
  | 0, _, _ => .ok []
  | _ + 1, _, [] => .ok []
  | fuel + 1, tables, id :: rest =>
    match readCommand readBlockNbt registry tables id.toNat rest with
    | .error error => .error error
    | .ok ((.terminate, _), _) => .ok [.terminate]
    | .ok ((command, tables), rest) =>
      (readCommands readBlockNbt registry fuel tables rest).map (command :: ·)

/-- The header: a magic, the author and a version. -/
def readHeader : Reader Unit := do
  let first ← u8 "metadata magic"
  failIf (first ≠ 66) "BDX metadata 头不是 BDX"
  let second ← u8 "metadata magic"
  failIf (second ≠ 68) "BDX metadata 头不是 BDX"
  let third ← u8 "metadata magic"
  failIf (third ≠ 88) "BDX metadata 头不是 BDX"
  let _ ← cstring "BDX author" kMaximumConstantStringBytes
  let _ ← u8 "BDX version"
  pure ()

/-- `BdxStructure::read` of the decompressed bytes: what has been decoded, and the size. -/
def interpret (readBlockNbt : Reader Unit) (registry : MappingRegistry) (window : ℕ → ℕ) (bytes : Input) :
    Except String (DecodeState × Size) := do
  let (_, rest) ← readHeader bytes
  let commands ← readCommands readBlockNbt registry rest.length {} rest
  parse false window commands

end WaterStructure.Bdx
