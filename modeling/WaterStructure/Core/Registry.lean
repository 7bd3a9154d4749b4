import WaterStructure.Core.StateKeys
import WaterStructure.Library.AssocMap

/-!
# The registry of block states

`register_state` gives a state the id of a state with the same key, or the next free id. Ids are
32-bit numbers and wrap; the first one is that of air, which the constructor registers. A registry
with upgrade schemas upgrades a state first and then also finds it under a key without a version.
-/

namespace WaterStructure

/-- The maps of the registry that hold block states. -/
structure StateTables where
  nextRuntimeId : RuntimeId
  airRuntimeId : RuntimeId
  byKey : AList fun _ : List Char => RuntimeId
  byStateKey : AList fun _ : List Char => RuntimeId
  byName : AList fun _ : List Char => RuntimeId
  byRuntimeId : AList fun _ : RuntimeId => BlockState

/-- A registry, as far as it does not hold mappings. -/
structure StateRegistry extends StateTables where
  upgradeState : Option (BlockState → BlockState)

namespace StateTables

def empty : StateTables := ⟨1, 0, ∅, ∅, ∅, ∅⟩

/-- Give a state with a new key the next id. -/
def allocate (tables : StateTables) (state : BlockState) : RuntimeId × StateTables :=
  let runtimeId := tables.nextRuntimeId
  (runtimeId,
    { tables with
      nextRuntimeId := runtimeId + 1
      byKey := tables.byKey.insert state.key runtimeId
      byStateKey := AssocMap.tryEmplace tables.byStateKey state.stateKey runtimeId
      byName :=
        if (tables.byName.lookup state.name).isNone ∨ state.states.isEmpty then
          tables.byName.insert state.name runtimeId
        else tables.byName
      byRuntimeId := AssocMap.tryEmplace tables.byRuntimeId runtimeId state })

/-- The locked part of `register_state`, for a state with a normalised name. -/
def insertState (tables : StateTables) (upgraded : Bool) (state : BlockState) :
    RuntimeId × StateTables :=
  match tables.byKey.lookup state.key with
  | some runtimeId => (runtimeId, tables)
  | none =>
    match if upgraded then tables.byStateKey.lookup state.stateKey else none with
    | some runtimeId => (runtimeId, tables)
    | none => tables.allocate state

def find (tables : StateTables) (name : List Char) (states : List BlockStateProperty)
    (version : ℤ) : Option RuntimeId :=
  match tables.byKey.lookup (keyFor name states version) with
  | some runtimeId => some runtimeId
  | none =>
    match if version = 0 then tables.byStateKey.lookup (stateKeyFor name states) else none with
    | some runtimeId => some runtimeId
    | none =>
      if states.isEmpty ∧ version = 0 then tables.byName.lookup (normalizeName name) else none

def state (tables : StateTables) (runtimeId : RuntimeId) : Option BlockState :=
  tables.byRuntimeId.lookup runtimeId

end StateTables

namespace StateRegistry

/-- A state as the registry files it. -/
def filed (registry : StateRegistry) (state : BlockState) : BlockState :=
  match registry.upgradeState with
  | some upgrade => (upgrade state).normalized
  | none => state.normalized

def registerState (registry : StateRegistry) (state : BlockState) : RuntimeId × StateRegistry :=
  let inserted := registry.insertState registry.upgradeState.isSome (registry.filed state)
  (inserted.1, { registry with toStateTables := inserted.2 })

def findCompatible (registry : StateRegistry) (state : BlockState) : Option RuntimeId :=
  let state := registry.filed state
  match registry.byKey.lookup state.key with
  | some runtimeId => some runtimeId
  | none =>
    match registry.byStateKey.lookup state.stateKey with
    | some runtimeId => some runtimeId
    | none => if state.states.isEmpty then registry.byName.lookup state.name else none

/-- The state that the constructor registers. -/
def airState : BlockState := ⟨"minecraft:air".toList, [], 0⟩

/-- `RuntimeRegistry::RuntimeRegistry`. -/
def initial : StateRegistry :=
  let registered := registerState { StateTables.empty with upgradeState := none } airState
  { registered.2 with airRuntimeId := registered.1 }

/-- Register states one after the other; each is returned with its id. -/
def registerAll (registry : StateRegistry) :
    List BlockState → List (BlockState × RuntimeId) × StateRegistry
  | [] => ([], registry)
  | state :: rest =>
    let registered := registry.registerState state
    let others := registered.2.registerAll rest
    ((state, registered.1) :: others.1, others.2)

end StateRegistry

end WaterStructure
