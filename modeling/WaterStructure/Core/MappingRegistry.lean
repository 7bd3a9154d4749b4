import WaterStructure.Core.JavaStates
import WaterStructure.Core.Registry

/-!
# The registry with its mappings

Beside the block states the registry holds what the mapping assets say about legacy blocks,
schematic blocks and Java states. The lookups read these tables and nothing else; the order that a
Java candidate caches is computed from the tables whenever it is asked for.
-/

namespace WaterStructure

/-- A Java state that may stand for another one of its name. -/
structure JavaCandidate where
  encoded : List Char
  runtimeId : RuntimeId
  properties : List (List Char × List Char)

/-- `RuntimeRegistry`. -/
structure MappingRegistry extends StateRegistry where
  javaByRuntimeId : AList fun _ : RuntimeId => BlockState
  legacyPools : AList fun _ : ℕ => List RuntimeId
  legacyByName : AList fun _ : List Char => AList fun _ : ℕ => RuntimeId
  legacyDefaultByName : AList fun _ : List Char => RuntimeId
  legacyByState : AList fun _ : List Char => AList fun _ : List Char => RuntimeId
  legacyStateOrder : AList fun _ : List Char => AList fun _ : List Char => ℕ
  javaMapping : AList fun _ : List Char => RuntimeId
  javaRoundTripMapping : AList fun _ : List Char => RuntimeId
  javaCandidatesByName : AList fun _ : List Char => List JavaCandidate
  javaDefaultByName : AList fun _ : List Char => RuntimeId
  javaOrder : AList fun _ : List Char => ℕ
  schematicMapping : List RuntimeId
  schematicReverse : AList fun _ : RuntimeId => ℕ × ℕ
  hasSchematicMapping : Bool

/-- A name as the legacy tables have it. -/
def normalizeLegacyName (name : List Char) : List Char := (normalizeName name).map toLower

/-- The largest value of `std::size_t`. -/
def sizeMax : ℕ := 18446744073709551615

/-- How well a candidate answers a request: the properties that agree, those that do not or that
only one of the two has, the place in the conversion order, and the id. -/
structure CandidateScore where
  same : ℕ
  penalty : ℕ
  order : ℕ
  runtimeId : RuntimeId

/-- The first is better: more agreement, then less penalty, then order, then the smaller id. -/
def CandidateScore.better (first second : CandidateScore) : Bool :=
  decide (first.same > second.same ∨ first.same = second.same ∧
    (first.penalty < second.penalty ∨ first.penalty = second.penalty ∧
      (first.order < second.order ∨ first.order = second.order ∧
        first.runtimeId < second.runtimeId)))

/-- The best score, the earliest of equals. -/
def CandidateScore.best (scores : List CandidateScore) : Option CandidateScore :=
  scores.foldl (fun best score =>
    match best with
    | none => some score
    | some old => some (if score.better old then score else old)) none

/-- Compare requested properties with those of a candidate. -/
def scoreProperties (agree : List Char → List Char → Bool)
    (requested candidate : List (List Char × List Char)) : ℕ × ℕ :=
  let same := requested.countP fun property =>
    ((candidate.lookup property.1).map fun value => agree value property.2).getD false
  let missing := candidate.countP fun property => (requested.lookup property.1).isNone
  (same, requested.length - same + missing)

namespace MappingRegistry

/-- A registry that holds nothing but air. -/
def initial : MappingRegistry :=
  { StateRegistry.initial with
    javaByRuntimeId := ∅
    legacyPools := ∅
    legacyByName := ∅
    legacyDefaultByName := ∅
    legacyByState := ∅
    legacyStateOrder := ∅
    javaMapping := ∅
    javaRoundTripMapping := ∅
    javaCandidatesByName := ∅
    javaDefaultByName := ∅
    javaOrder := ∅
    schematicMapping := List.replicate 65536 0
    schematicReverse := ∅
    hasSchematicMapping := false }

def register (registry : MappingRegistry) (state : BlockState) : RuntimeId × MappingRegistry :=
  let registered := registry.registerState state
  (registered.1, { registry with toStateRegistry := registered.2 })

def javaState (registry : MappingRegistry) (runtimeId : RuntimeId) : Option BlockState :=
  registry.javaByRuntimeId.lookup runtimeId

def schematicBlock (registry : MappingRegistry) (runtimeId : RuntimeId) : Option (ℕ × ℕ) :=
  registry.schematicReverse.lookup runtimeId

def legacyPool (registry : MappingRegistry) (poolId : ℕ) : List RuntimeId :=
  (registry.legacyPools.lookup poolId).getD []

def legacyPoolRuntimeId (registry : MappingRegistry) (poolId index : ℕ) : Option RuntimeId :=
  (registry.legacyPools.lookup poolId).bind (·[index]?)

def legacyRuntimeId (registry : MappingRegistry) (name : List Char) (data : ℕ) :
    Option RuntimeId :=
  let normalized := normalizeLegacyName name
  match (registry.legacyByName.lookup normalized).bind (·.lookup data) with
  | some runtimeId => some runtimeId
  | none => registry.legacyDefaultByName.lookup normalized

def legacyStateRuntimeId (registry : MappingRegistry) (name : List Char)
    (states : List BlockStateProperty) : Option RuntimeId :=
  (registry.legacyByState.lookup (normalizeLegacyName name)).bind
    (·.lookup (legacyStateSearchKey states))

/-- A block id and its data are bytes. -/
def schematicRuntimeId (registry : MappingRegistry) (blockId data : UInt8) : Option RuntimeId :=
  if registry.hasSchematicMapping then registry.schematicMapping[blockId.toNat * 256 + data.toNat]?
  else none

def javaRuntimeId (registry : MappingRegistry) (blockState : List Char) : Option RuntimeId :=
  let key := normalizeJavaState blockState
  match registry.javaRoundTripMapping.lookup key with
  | some runtimeId => some runtimeId
  | none => registry.javaMapping.lookup key

/-- The score of a Java candidate. -/
def javaScore (registry : MappingRegistry) (requested : List (List Char × List Char))
    (candidate : JavaCandidate) : CandidateScore :=
  let score := scoreProperties fuzzyJavaEqual requested candidate.properties
  { same := score.1
    penalty := score.2
    order := (registry.javaOrder.lookup (canonicalJavaOrderKey candidate.encoded)).getD sizeMax
    runtimeId := candidate.runtimeId }

/-- The score of a legacy state. -/
def legacyScore (registry : MappingRegistry) (name : List Char)
    (requested : List (List Char × List Char)) (candidate : List Char × RuntimeId) :
    CandidateScore :=
  let score := scoreProperties (fun value other => fuzzyJavaValue value = fuzzyJavaValue other)
    requested (parseLegacyProperties candidate.1)
  { same := score.1
    penalty := score.2
    order := ((registry.legacyStateOrder.lookup name).bind (·.lookup candidate.1)).getD sizeMax
    runtimeId := candidate.2 }

def compatibleJavaRuntimeId (registry : MappingRegistry) (blockState : List Char) :
    Option RuntimeId :=
  let requested := normalizeJavaState blockState
  let name := javaName requested
  let properties := javaProperties requested
  match registry.javaRoundTripMapping.lookup requested with
  | some runtimeId => some runtimeId
  | none =>
    match if properties.isEmpty then registry.javaDefaultByName.lookup name else none with
    | some runtimeId => some runtimeId
    | none =>
      match registry.javaMapping.lookup requested with
      | some runtimeId => some runtimeId
      | none =>
        let candidates := (registry.javaCandidatesByName.lookup name).getD []
        match CandidateScore.best (candidates.map (registry.javaScore properties)) with
        | some score => some score.runtimeId
        | none =>
          ((registry.legacyByState.lookup name).bind fun states =>
            CandidateScore.best (states.entries.map fun entry =>
              registry.legacyScore name properties (entry.1, entry.2))).map (·.runtimeId)

end MappingRegistry

/-- The two registries answer every lookup alike, and number the next state alike. -/
structure SameAnswers (first second : MappingRegistry) : Prop where
  find : ∀ name states version, first.find name states version = second.find name states version
  findCompatible : ∀ state, first.findCompatible state = second.findCompatible state
  state : ∀ runtimeId, first.state runtimeId = second.state runtimeId
  airRuntimeId : first.airRuntimeId = second.airRuntimeId
  nextRuntimeId : ∀ state, (first.register state).1 = (second.register state).1
  javaState : ∀ runtimeId, first.javaState runtimeId = second.javaState runtimeId
  schematicBlock : ∀ runtimeId, first.schematicBlock runtimeId = second.schematicBlock runtimeId
  legacyPool : ∀ poolId, first.legacyPool poolId = second.legacyPool poolId
  legacyPoolRuntimeId : ∀ poolId index,
    first.legacyPoolRuntimeId poolId index = second.legacyPoolRuntimeId poolId index
  legacyRuntimeId : ∀ name data, first.legacyRuntimeId name data = second.legacyRuntimeId name data
  legacyStateRuntimeId : ∀ name states,
    first.legacyStateRuntimeId name states = second.legacyStateRuntimeId name states
  schematicRuntimeId : ∀ blockId data,
    first.schematicRuntimeId blockId data = second.schematicRuntimeId blockId data
  javaRuntimeId : ∀ state, first.javaRuntimeId state = second.javaRuntimeId state
  compatibleJavaRuntimeId : ∀ state,
    first.compatibleJavaRuntimeId state = second.compatibleJavaRuntimeId state

theorem SameAnswers.refl (registry : MappingRegistry) : SameAnswers registry registry := by
  constructor <;> intros <;> rfl

end WaterStructure
