import WaterStructure.Core.MappingAssets

/-!
# Loading the mapping assets into a registry

The registry is changed twice: the palette replaces its block states as soon as the palette has
been checked, and the other tables are replaced at the end. What fails in between leaves the
registry with the block states of the palette, or with a part of them.
-/

namespace WaterStructure

namespace StateTables

/-- Add one state of the palette under its own id; a second state with that id ends the loading. -/
def installState (tables : StateTables) (entry : RuntimeId × BlockState) :
    Except String StateTables :=
  let state := entry.2.normalized
  if (tables.byRuntimeId.lookup entry.1).isSome then
    .error ("方块映射 source_runtime_id 重复: " ++ toString entry.1)
  else
    .ok { tables with
      byKey := AssocMap.tryEmplace tables.byKey state.key entry.1
      byStateKey := AssocMap.tryEmplace tables.byStateKey state.stateKey entry.1
      byName :=
        if (tables.byName.lookup state.name).isNone ∨ state.states.isEmpty then
          tables.byName.insert state.name entry.1
        else tables.byName
      byRuntimeId := tables.byRuntimeId.insert entry.1 state }

/-- The loop over the palette, with the tables it leaves. -/
def installStates (tables : StateTables) :
    List (RuntimeId × BlockState) → Except String Unit × StateTables
  | [] => (.ok (), tables)
  | entry :: rest =>
    match tables.installState entry with
    | .error error => (.error error, tables)
    | .ok next => next.installStates rest

/-- `maximum_source_id`. -/
def maximumId (states : List (RuntimeId × BlockState)) : RuntimeId :=
  states.foldl (fun maximum entry => max maximum entry.1) 0

/-- The first change of the registry: the palette instead of the block states so far. -/
def installPalette (tables : StateTables) (palette : MappingPalette) :
    Except String Unit × StateTables :=
  let cleared := { tables with byKey := ∅, byStateKey := ∅, byName := ∅, byRuntimeId := ∅ }
  match cleared.installStates palette.states with
  | (.error error, tables) => (.error error, tables)
  | (.ok (), tables) =>
    (.ok (), { tables with
      airRuntimeId := palette.sourceAirId
      nextRuntimeId := maximumId palette.states + 1 })

/-- A Java state of the mapping stands for its name, and for its id if no state has that. -/
def nameJavaState (tables : StateTables) (entry : List Char × RuntimeId) : StateTables :=
  let baseName := javaName entry.1
  let found := (tables.byName.lookup baseName).bind tables.byRuntimeId.lookup
  let state := found.getD ⟨baseName, [], 0⟩
  { tables with
    byRuntimeId := AssocMap.tryEmplace tables.byRuntimeId entry.2
      (if state.name.isEmpty then { state with name := baseName } else state)
    byName := if '[' ∈ entry.1 then tables.byName else tables.byName.insert baseName entry.2 }

end StateTables

namespace MappingRegistry

/-- The candidates of the Java states, by name. -/
def candidatesOf (mapping : AList fun _ : List Char => RuntimeId) :
    AList fun _ : List Char => List JavaCandidate :=
  mapping.entries.foldl (fun candidates entry =>
    AssocMap.pushBack candidates (javaName entry.1) ⟨entry.1, entry.2, javaProperties entry.1⟩) ∅

/-- The second change of the registry. -/
def installTables (registry : MappingRegistry) (upgradeState : BlockState → BlockState)
    (tables : MappingTables) : MappingRegistry :=
  let states := { registry.toStateTables with
    airRuntimeId := (tables.javaMapping.lookup "minecraft:air".toList).getD registry.airRuntimeId }
  { toStateTables := tables.javaMapping.entries.foldl
      (fun states entry => states.nameJavaState (entry.1, entry.2)) states
    upgradeState := some upgradeState
    javaByRuntimeId := tables.javaByRuntime
    legacyPools :=
      if tables.bdx117.isEmpty then registry.legacyPools
      else registry.legacyPools.insert 117 tables.bdx117
    legacyByName := tables.legacyByName
    legacyDefaultByName := tables.legacyDefaults
    legacyByState := tables.legacyByState
    legacyStateOrder := tables.legacyStateOrder
    javaMapping := tables.javaMapping
    javaRoundTripMapping := roundTripMapping
      (tables.javaByRuntime.entries.map fun entry => (entry.1, entry.2))
    javaCandidatesByName := candidatesOf tables.javaMapping
    javaDefaultByName := tables.javaDefaults
    javaOrder := tables.javaOrder
    schematicMapping := tables.schematic.1
    schematicReverse := tables.schematicReverse
    hasSchematicMapping := tables.schematic.2 }

/-- `load_block_mappings`: what it returns, and the registry afterwards. -/
def loadBlockMappings (registry : MappingRegistry) (assets : MappingAssets) :
    Except String Unit × MappingRegistry :=
  match readPalette assets with
  | .error error => (.error error, registry)
  | .ok palette =>
    match registry.installPalette palette with
    | (.error error, tables) => (.error error, { registry with toStateTables := tables })
    | (.ok (), tables) =>
      let registry := { registry with toStateTables := tables }
      match readTables assets palette.root with
      | .error error => (.error error, registry)
      | .ok mappings => (.ok (), registry.installTables palette.upgradeState mappings)

/-- One entry of a legacy pool; what is no name with a number is air. -/
def addPoolEntry (loaded : List RuntimeId × MappingRegistry) (item : Json) :
    List RuntimeId × MappingRegistry :=
  match item.items? with
  | some (.string name :: .unsigned _ :: _) =>
    let registered := loaded.2.register ⟨name, [], 0⟩
    (loaded.1 ++ [registered.1], registered.2)
  | some (.string name :: .integer _ :: _) =>
    let registered := loaded.2.register ⟨name, [], 0⟩
    (loaded.1 ++ [registered.1], registered.2)
  | _ => (loaded.1 ++ [loaded.2.airRuntimeId], loaded.2)

/-- `load_legacy_pool`. -/
def loadLegacyPool (registry : MappingRegistry) (file : AssetFile) (poolId : ℕ) :
    Except String Unit × MappingRegistry :=
  match file with
  | .missing => (.error "无法打开 legacy runtime pool", registry)
  | .unreadable => (.error "无法打开 legacy runtime pool", registry)
  | .malformed => (.error "解析 legacy runtime pool 失败", registry)
  | .content root =>
    match root.items? with
    | none => (.error "legacy runtime pool 根节点不是数组", registry)
    | some items =>
      let loaded := items.foldl addPoolEntry ([], registry)
      (.ok (), { loaded.2 with legacyPools := loaded.2.legacyPools.insert poolId loaded.1 })

/-- The registries that callers can have made: by registering states and loading assets. -/
inductive Reachable : MappingRegistry → Prop
  | initial : Reachable initial
  | register (state : BlockState) {registry : MappingRegistry} (h : Reachable registry) :
    Reachable (registry.register state).2
  | loadPool (file : AssetFile) (poolId : ℕ) {registry : MappingRegistry}
    (h : Reachable registry) : Reachable (registry.loadLegacyPool file poolId).2
  | load (assets : MappingAssets) {registry : MappingRegistry} (h : Reachable registry) :
    Reachable (registry.loadBlockMappings assets).2

end MappingRegistry

/-- Loading these assets leaves a registry as it was whenever it fails. -/
def MappingAssets.FailsHarmlessly (assets : MappingAssets) : Prop :=
  ∀ registry error, MappingRegistry.Reachable registry →
    (registry.loadBlockMappings assets).1 = .error error →
      SameAnswers registry (registry.loadBlockMappings assets).2

/-- If the palette passes its checks, no two entries have one id and everything behind the palette
can be read. -/
def MappingAssets.SoundBehindPalette (assets : MappingAssets) : Prop :=
  ∀ palette, readPalette assets = .ok palette →
    (palette.states.map Prod.fst).Nodup ∧ ∃ tables, readTables assets palette.root = .ok tables

namespace StateTables

/-- The palette is installed when its ids are new and different. -/
theorem installStates_ok_iff (states : List (RuntimeId × BlockState)) (tables : StateTables) :
    (tables.installStates states).1 = .ok () ↔
      (states.map Prod.fst).Nodup ∧
        ∀ entry ∈ states, tables.byRuntimeId.lookup entry.1 = none := by
  induction states generalizing tables with
  | nil => simp [installStates]
  | cons entry rest ih =>
    rw [installStates, installState]
    cases hlookup : tables.byRuntimeId.lookup entry.1 with
    | some found =>
      rw [if_pos Option.isSome_some]
      refine ⟨fun h => (nomatch h), fun h => ?_⟩
      rw [h.2 entry List.mem_cons_self] at hlookup
      cases hlookup
    | none =>
      rw [Option.isSome_none, if_neg Bool.false_ne_true, List.map_cons, List.nodup_cons]
      dsimp only
      rw [ih]
      have hfree : (∀ other ∈ rest,
            (tables.byRuntimeId.insert entry.1 entry.2.normalized).lookup other.1 = none) ↔
          entry.1 ∉ rest.map Prod.fst ∧
            ∀ other ∈ rest, tables.byRuntimeId.lookup other.1 = none := by
        constructor
        · intro h
          have hne : ∀ other ∈ rest, other.1 ≠ entry.1 := by
            intro other hother heq
            have hsome := h other hother
            rw [heq, AList.lookup_insert] at hsome
            cases hsome
          refine ⟨fun hmem => ?_, fun other hother => ?_⟩
          · obtain ⟨other, hother, heq⟩ := List.mem_map.mp hmem
            exact hne other hother heq
          · rw [← AList.lookup_insert_ne (hne other hother)]
            exact h other hother
        · rintro ⟨hmem, h⟩ other hother
          have hne : other.1 ≠ entry.1 := fun heq =>
            hmem (heq ▸ List.mem_map_of_mem hother)
          rw [AList.lookup_insert_ne hne, h other hother]
      rw [hfree, List.forall_mem_cons]
      exact ⟨fun h => ⟨⟨h.2.1, h.1⟩, hlookup, h.2.2⟩, fun h => ⟨h.1.2, h.1.1, h.2.2⟩⟩

/-- The palette replaces the block states when its ids are different. -/
theorem installPalette_ok_iff (tables : StateTables) (palette : MappingPalette) :
    (tables.installPalette palette).1 = .ok () ↔ (palette.states.map Prod.fst).Nodup := by
  have hcleared := installStates_ok_iff palette.states
    { tables with byKey := ∅, byStateKey := ∅, byName := ∅, byRuntimeId := ∅ }
  rw [and_iff_left fun _ _ => AList.lookup_empty _] at hcleared
  rw [← hcleared, installPalette]
  split
  case h_1 heq => rw [heq]
  case h_2 heq => rw [heq]

end StateTables

namespace MappingRegistry

/-- A load that fails behind the palette's checks has replaced the block states, in part or all. -/
theorem loadBlockMappings_of_not_sound {assets : MappingAssets} {palette : MappingPalette}
    (hpalette : readPalette assets = .ok palette)
    (hnot : ¬ ((palette.states.map Prod.fst).Nodup ∧
      ∃ tables, readTables assets palette.root = .ok tables)) (registry : MappingRegistry) :
    ∃ error, (registry.loadBlockMappings assets).1 = .error error ∧
      (registry.loadBlockMappings assets).2.toStateTables =
        (registry.installPalette palette).2 := by
  have hok := registry.installPalette_ok_iff palette
  rw [loadBlockMappings, hpalette]
  dsimp only
  split
  case h_1 error tables heq => exact ⟨error, rfl, by rw [heq]⟩
  case h_2 tables heq =>
    split
    case h_1 error htables => exact ⟨error, rfl, by rw [heq]⟩
    case h_2 mappings htables =>
      exact absurd ⟨hok.mp (by rw [heq]), mappings, htables⟩ hnot

/-- A load of assets that are sound behind the palette changes nothing when it fails. -/
theorem loadBlockMappings_of_sound {assets : MappingAssets} (hsound : assets.SoundBehindPalette)
    {registry : MappingRegistry} {error : String}
    (herror : (registry.loadBlockMappings assets).1 = .error error) :
    (registry.loadBlockMappings assets).2 = registry := by
  rw [loadBlockMappings] at herror ⊢
  cases hpalette : readPalette assets with
  | error _ => rfl
  | ok palette =>
    obtain ⟨hnodup, mappings, htables⟩ := hsound palette hpalette
    have hok := (registry.installPalette_ok_iff palette).mpr hnodup
    rw [hpalette] at herror
    dsimp only at herror
    split at herror
    case h_1 heq => rw [heq] at hok; cases hok
    case h_2 heq =>
      rw [htables] at herror
      cases herror

end MappingRegistry

/-- A registry in which one state has been registered, under the id after that of air. -/
def registryWith (name : String) : MappingRegistry :=
  (MappingRegistry.initial.register ⟨name.toList, [], 0⟩).2

/-- Mappings whose palette is only air and whose list of schematic ids is too short. -/
def shortSchematicAssets : MappingAssets where
  mappings := .content (.object [
    ("palette".toList, .array [.object [("name".toList, .string "minecraft:air".toList)]]),
    ("schema".toList, .unsigned 1),
    ("schematic_indices".toList, .array [])])
  upgradeSchemas := .ok id
  schematicReverse := .missing
  javaConversionOrder := .missing
  javaRuntimeStates := .missing

end WaterStructure
