import WaterStructure.Core.MappingRegistry
import WaterStructure.Library.Json

/-!
# Reading the mapping assets

`load_block_mappings` reads a file of mappings, the upgrade schemas beside it, and three more files
that may be missing. A check that fails and an exception of the JSON library both end the reading
with an error. The palette is read first; everything else is read after the palette has been
installed in the registry.
-/

namespace WaterStructure

/-- What there is where an asset is looked for. -/
inductive AssetFile where
  | missing
  | unreadable
  | malformed
  | content (root : Json)

/-- The assets: the mappings, what reading the upgrade schemas beside them comes to, and the files
that may be missing. -/
structure MappingAssets where
  mappings : AssetFile
  upgradeSchemas : Except String (BlockState → BlockState)
  schematicReverse : AssetFile
  javaConversionOrder : AssetFile
  javaRuntimeStates : AssetFile

/-- A file that must be there. -/
def AssetFile.open (file : AssetFile) (cannotOpen : String) : Except String Json :=
  match file with
  | .missing => .error cannotOpen
  | .unreadable => .error cannotOpen
  | .malformed => .error "解析方块映射资产失败: parse error"
  | .content root => .ok root

/-- A file that is read only where it exists. -/
def AssetFile.openIfExists (file : AssetFile) (cannotOpen : String) : Except String (Option Json) :=
  match file with
  | .missing => .ok none
  | file => (file.open cannotOpen).map some

/-- The text of an exception. -/
def parseFailure {α : Type} (result : Except String α) : Except String α :=
  result.mapError ("解析方块映射资产失败: " ++ ·)

/-- A number as an id. -/
def runtimeIdOfJson (value : Json) : Except String RuntimeId :=
  (parseFailure value.toInteger).map fun number => UInt32.ofNat (number % 4294967296).toNat

/-- A number as a `std::size_t`. -/
def sizeOfJson (value : Json) : Except String ℕ := (parseFailure value.toInteger).map toSizeT

/-- The name of a property type. -/
def valueTypeOfName (name : List Char) (invalid : String) : Except String BlockStateValueType :=
  if name = "byte".toList then .ok .Byte
  else if name = "short".toList then .ok .Short
  else if name = "int".toList then .ok .Int
  else if name = "long".toList then .ok .Long
  else if name = "string".toList then .ok .String
  else .error (invalid ++ String.ofList name)

/-- The members of an object member; nothing when it is missing or no object. -/
def objectMembers (root : Json) (name : String) : List (List Char × Json) :=
  ((root.member? name).bind Json.members?).getD []

/-- One property of a palette entry. -/
def readPaletteProperty (member : List Char × Json) : Except String BlockStateProperty := do
  if ¬ (member.2.isObject ∧ member.2.contains "type" ∧ member.2.contains "value") then
    .error "方块映射 state 条目无效"
  else
    let value ← parseFailure ((← parseFailure (member.2.required "value")).toText)
    let type ← parseFailure ((← parseFailure (member.2.required "type")).toText)
    return ⟨member.1, ← valueTypeOfName type "方块映射 state 类型无效: ", value⟩

/-- One entry of the palette with its id; the id is the place in the palette unless it is given. -/
def readPaletteEntry (paletteIndex : ℕ) (item : Json) : Except String (RuntimeId × BlockState) := do
  match item.member? "name" with
  | some (.string name) =>
    let version ← parseFailure (item.integerOr "version" 0)
    let states ← (objectMembers item "states").mapM readPaletteProperty
    let sourceRuntimeId ← parseFailure (item.integerOr "source_runtime_id"
      (UInt32.ofNat paletteIndex).toNat)
    return (UInt32.ofNat (sourceRuntimeId % 4294967296).toNat, ⟨name, states, toInt32 version⟩)
  | _ => .error "方块映射 palette 条目无效"

/-- `found_source_air` of an entry. -/
def isSourceAir (state : BlockState) : Bool :=
  (state.name = "air".toList || state.name = "minecraft:air".toList) && state.states.isEmpty

/-- What is known once the palette has been checked. -/
structure MappingPalette where
  root : Json
  upgradeState : BlockState → BlockState
  states : List (RuntimeId × BlockState)
  sourceAirId : RuntimeId

/-- Everything before the registry is changed. -/
def readPalette (assets : MappingAssets) : Except String MappingPalette := do
  let root ← assets.mappings.open "无法打开方块映射资产"
  if root.isObject = false then .error "方块映射资产 schema 无效"
  else
    let schema ← parseFailure (root.integerOr "schema" 0)
    match (root.member? "palette").bind Json.items? with
    | none => .error "方块映射资产 schema 无效"
    | some items =>
      if toInt32 schema ≠ 1 then .error "方块映射资产 schema 无效"
      else
        let upgradeState ← assets.upgradeSchemas
        let states ← items.zipIdx.mapM fun item => readPaletteEntry item.2 item.1
        match states.reverse.find? fun entry => isSourceAir entry.2 with
        | none => .error "方块映射 palette 缺少 minecraft:air"
        | some air => return { root, upgradeState, states, sourceAirId := air.1 }

/-- `schematic_indices`: 65536 ids, when they are given. -/
def readSchematic (root : Json) : Except String (List RuntimeId × Bool) :=
  match (root.member? "schematic_indices").bind Json.items? with
  | none => .ok (List.replicate 65536 0, false)
  | some items =>
    if items.length ≠ 65536 then .error "schematic 映射长度不是 65536"
    else (items.mapM runtimeIdOfJson).map fun ids => (ids, true)

/-- A byte of a schematic block. -/
def byteMember (encoded : Json) (name : String) : Option ℕ :=
  match encoded.member? name with
  | some (.unsigned value) => if value % 4294967296 ≤ 255 then some (value % 4294967296) else none
  | _ => none

def readSchematicReverse (file : AssetFile) : Except String (AList fun _ : RuntimeId => ℕ × ℕ) := do
  match ← file.openIfExists "无法打开 Schematic 反向映射资产" with
  | none => return ∅
  | some root =>
    match root.members? with
    | none => .error "Schematic 反向映射资产不是对象"
    | some members =>
      members.foldlM (fun reverse member => do
        let runtime ← parseFailure (stoul member.1)
        match byteMember member.2 "block", byteMember member.2 "data" with
        | some block, some data =>
          if runtime.2.isEmpty = false ∨ runtime.1 > 4294967295 then
            .error ("Schematic 反向映射条目无效: " ++ String.ofList member.1)
          else return AssocMap.tryEmplace reverse (UInt32.ofNat runtime.1) (block, data)
        | _, _ => .error ("Schematic 反向映射条目无效: " ++ String.ofList member.1)) ∅

/-- `bdx_117_indices`. -/
def readBdx117 (root : Json) : Except String (List RuntimeId) :=
  (((root.member? "bdx_117_indices").bind Json.items?).getD []).mapM runtimeIdOfJson

/-- `java_to_runtime`; of two spellings of a state the last counts. -/
def readJavaToRuntime (root : Json) : Except String (AList fun _ : List Char => RuntimeId) :=
  (objectMembers root "java_to_runtime").foldlM (fun mapping member => do
    return mapping.insert (normalizeJavaState member.1) (← runtimeIdOfJson member.2)) ∅

/-- A map from legacy names to ids; of two spellings of a name the first counts. -/
def readDefaults (root : Json) (name : String) :
    Except String (AList fun _ : List Char => RuntimeId) :=
  (objectMembers root name).foldlM (fun defaults member => do
    return AssocMap.tryEmplace defaults (normalizeLegacyName member.1) (← runtimeIdOfJson member.2)) ∅

/-- The Java states and the order in which they were converted. -/
structure JavaTables where
  mapping : AList fun _ : List Char => RuntimeId
  order : AList fun _ : List Char => ℕ

/-- One entry of the conversion order: a place, or an id with a place. -/
def readOrderEntry (tables : JavaTables) (member : List Char × Json) :
    Except String JavaTables := do
  let normalized := normalizeJavaState member.1
  match member.2 with
  | .unsigned place =>
    return { tables with order := AssocMap.tryEmplace tables.order normalized (toSizeT place) }
  | entry =>
    match entry.member? "runtime", entry.member? "order" with
    | some (.unsigned runtime), some (.unsigned place) =>
      return { mapping := AssocMap.tryEmplace tables.mapping normalized (UInt32.ofNat runtime)
               order := AssocMap.tryEmplace tables.order normalized (toSizeT place) }
    | _, _ => .error ("Java 方块转换顺序值无效: " ++ String.ofList member.1)

def readJavaOrder (file : AssetFile) (mapping : AList fun _ : List Char => RuntimeId) :
    Except String JavaTables := do
  match ← file.openIfExists "无法打开 Java 方块转换顺序资产" with
  | none => return ⟨mapping, ∅⟩
  | some root =>
    match root.members? with
    | none => .error "Java 方块转换顺序资产不是对象"
    | some members => members.foldlM readOrderEntry ⟨mapping, ∅⟩

/-- One property of a Java state. -/
def readJavaProperty (member : List Char × Json) : Except String BlockStateProperty :=
  match member.2.member? "type", member.2.member? "value" with
  | some (.string type), some (.string value) =>
    (valueTypeOfName type "Java runtime state 类型无效: ").map fun type => ⟨member.1, type, value⟩
  | _, _ => .error "Java runtime state 条目无效"

/-- One Java state with its id. -/
def readJavaRuntimeState (item : Json) : Except String (RuntimeId × BlockState) := do
  match item.member? "runtime", item.member? "name" with
  | some (.unsigned runtime), some (.string name) =>
    let states ← match item.member? "states" with
      | none => pure []
      | some (.object members) => members.mapM readJavaProperty
      | some _ => .error "Java runtime states 不是对象"
    return (UInt32.ofNat runtime, ⟨normalizeName name, states, 0⟩)
  | _, _ => .error "Java runtime 反向映射条目无效"

def readJavaRuntimeStates (file : AssetFile) :
    Except String (AList fun _ : RuntimeId => BlockState) := do
  match ← file.openIfExists "无法打开 Java runtime 反向映射资产" with
  | none => return ∅
  | some root =>
    match root.items? with
    | none => .error "Java runtime 反向映射资产不是数组"
    | some items =>
      items.foldlM (fun states item => do
        let entry ← readJavaRuntimeState item
        return AssocMap.tryEmplace states entry.1 entry.2) ∅

/-- A Java state of the mapping has a truth value under this property. -/
def isBooleanProperty (mapping : AList fun _ : List Char => RuntimeId)
    (name property : List Char) : Bool :=
  mapping.entries.any fun entry => (javaProperties entry.1).any fun found =>
    (javaName entry.1 ++ '\n' :: found.1 = name ++ '\n' :: property) &&
      (asciiIequals found.2 "true".toList || asciiIequals found.2 "false".toList)

/-- A byte that is no truth value of its Java state is a number. -/
def retypeState (mapping : AList fun _ : List Char => RuntimeId) (state : BlockState) :
    BlockState :=
  { state with
    states := state.states.map fun property =>
      if property.type = .Byte ∧
          isBooleanProperty mapping (normalizeJavaState state.name) property.name = false then
        { property with type := .Int }
      else property }

/-- The texts of the decoded Java states, without those that two ids share. -/
def roundTripMapping (states : List (RuntimeId × BlockState)) :
    AList fun _ : List Char => RuntimeId :=
  (states.foldl (fun (seen : (AList fun _ : List Char => RuntimeId) × List (List Char)) entry =>
    let encoded := encodeJavaState entry.2
    if encoded ∈ seen.2 then seen
    else
      match seen.1.lookup encoded with
      | none => (seen.1.insert encoded entry.1, seen.2)
      | some runtimeId =>
        if runtimeId = entry.1 then seen else (seen.1.erase encoded, encoded :: seen.2))
    (∅, [])).1

/-- `legacy_to_runtime` of one name. -/
def readLegacyData (values : AList fun _ : ℕ => RuntimeId) (member : List Char × Json) :
    Except String (AList fun _ : ℕ => RuntimeId) := do
  let parsed ← parseFailure (stoul member.1)
  if parsed.2.isEmpty = false ∨ parsed.1 > 65535 then
    .error ("legacy_to_runtime data 无效: " ++ String.ofList member.1)
  else return AssocMap.tryEmplace values parsed.1 (← runtimeIdOfJson member.2)

/-- The values under a legacy state. -/
def readLegacyState {α : Type} (read : Json → Except String α)
    (values : AList fun _ : List Char => α) (member : List Char × Json) :
    Except String (AList fun _ : List Char => α) := do
  return AssocMap.tryEmplace values member.1 (← read member.2)

/-- A map from names to maps; what is no object is skipped, and names that are one in lower case
share their map. -/
def readNested {κ α : Type} [DecidableEq κ] (root : Json) (name : String)
    (read : (AList fun _ : κ => α) → List Char × Json → Except String (AList fun _ : κ => α)) :
    Except String (AList fun _ : List Char => AList fun _ : κ => α) :=
  (objectMembers root name).foldlM (fun nested member => do
    match member.2.members? with
    | none => return nested
    | some members =>
      let key := normalizeLegacyName member.1
      let values ← members.foldlM read ((nested.lookup key).getD ∅)
      return nested.insert key values) ∅

/-- What is read after the palette has been installed. -/
structure MappingTables where
  schematic : List RuntimeId × Bool
  schematicReverse : AList fun _ : RuntimeId => ℕ × ℕ
  bdx117 : List RuntimeId
  javaMapping : AList fun _ : List Char => RuntimeId
  javaDefaults : AList fun _ : List Char => RuntimeId
  javaOrder : AList fun _ : List Char => ℕ
  javaByRuntime : AList fun _ : RuntimeId => BlockState
  legacyByName : AList fun _ : List Char => AList fun _ : ℕ => RuntimeId
  legacyDefaults : AList fun _ : List Char => RuntimeId
  legacyByState : AList fun _ : List Char => AList fun _ : List Char => RuntimeId
  legacyStateOrder : AList fun _ : List Char => AList fun _ : List Char => ℕ

/-- Everything between the two times at which the registry is changed. -/
def readTables (assets : MappingAssets) (root : Json) : Except String MappingTables := do
  let schematic ← readSchematic root
  let schematicReverse ← readSchematicReverse assets.schematicReverse
  let bdx117 ← readBdx117 root
  let toRuntime ← readJavaToRuntime root
  let javaDefaults ← readDefaults root "java_default_runtime"
  let java ← readJavaOrder assets.javaConversionOrder toRuntime
  let javaByRuntime ← readJavaRuntimeStates assets.javaRuntimeStates
  let legacyByName ← readNested root "legacy_to_runtime" readLegacyData
  let legacyDefaults ← readDefaults root "legacy_default_runtime"
  let legacyByState ← readNested root "legacy_state_to_runtime" (readLegacyState runtimeIdOfJson)
  let legacyStateOrder ← readNested root "legacy_state_order" (readLegacyState sizeOfJson)
  return {
    schematic, schematicReverse, bdx117, javaDefaults, legacyByName, legacyDefaults, legacyByState,
    legacyStateOrder
    javaMapping := java.mapping
    javaOrder := java.order
    javaByRuntime := AssocMap.mapValues javaByRuntime (retypeState java.mapping) }

end WaterStructure
