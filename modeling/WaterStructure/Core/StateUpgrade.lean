import Mathlib.Data.List.Lex
import Mathlib.Data.Char
import WaterStructure.Core.Types
import WaterStructure.Library.SortedMap
import WaterStructure.Library.VersionedSteps

/-!
# Upgrading block states

The upgrade schemas are applied in the order of their files. A schema that changes a state gives it its own
version; only states with a larger version are passed over, so a state goes through the schema of its own
version once more when it is upgraded again. The hash maps of a schema are lists here, in the order of
iteration.
-/

namespace WaterStructure

namespace StateUpgrade

/-- A property, whose name is the key under which it is kept. -/
structure PropertyValue where
  type : BlockStateValueType
  value : List Char
  deriving DecidableEq

abbrev PropertyMap := SortedMap (List Char) PropertyValue

structure ValueRemap where
  oldValue : PropertyValue
  newValue : PropertyValue

structure FlattenedName where
  front : List Char
  property : List Char
  suffix : List Char
  valueRemaps : AList fun _ : List Char => List Char

structure StateRemap where
  oldProperties : PropertyMap
  newName : List Char
  flattened : FlattenedName
  newProperties : PropertyMap
  copiedProperties : List (List Char)

structure UpgradeSchema where
  id : ℤ
  renamedIds : AList fun _ : List Char => List Char := ∅
  addedProperties : AList fun _ : List Char => PropertyMap := ∅
  removedProperties : AList fun _ : List Char => List (List Char) := ∅
  renamedProperties : AList fun _ : List Char => AList fun _ : List Char => List Char := ∅
  remappedPropertyValues : AList fun _ : List Char => AList fun _ : List Char => List ValueRemap := ∅
  remappedStates : AList fun _ : List Char => List StateRemap := ∅

/-- `property_map` -/
def propertyMap (properties : List BlockStateProperty) : PropertyMap :=
  properties.foldl (fun map property => map.set property.name ⟨property.type, property.value⟩) {}

/-- `property_vector` -/
def propertyVector (properties : PropertyMap) : List BlockStateProperty :=
  properties.entries.map fun entry => ⟨entry.1, entry.2.type, entry.2.value⟩

/-- `value_remaps_for` -/
def valueRemapsFor (schema : UpgradeSchema) (block property : List Char) : Option (List ValueRemap) :=
  (schema.remappedPropertyValues.lookup block).bind fun properties => properties.lookup property

/-- `remap_property_value` -/
def remapPropertyValue (schema : UpgradeSchema) (block property : List Char) (value : PropertyValue) :
    PropertyValue :=
  match valueRemapsFor schema block property with
  | none => value
  | some remaps => ((remaps.find? fun remap => value = remap.oldValue).map ValueRemap.newValue).getD value

/-- A state on its way through the schemas. -/
structure Upgrading where
  name : List Char
  version : ℤ
  properties : PropertyMap

/-- The name that a remap gives, unless the property that it is taken from is missing. -/
def remappedName (remap : StateRemap) (properties : PropertyMap) : Option (List Char) :=
  if remap.newName.isEmpty then
    match properties.lookup remap.flattened.property with
    | some ⟨.String, value⟩ =>
      some (remap.flattened.front ++ (remap.flattened.valueRemaps.lookup value).getD value ++
        remap.flattened.suffix)
    | _ => none
  else some remap.newName

/-- The properties of a remapped state. -/
def remappedProperties (remap : StateRemap) (properties : PropertyMap) : PropertyMap :=
  remap.copiedProperties.foldl
    (fun result name =>
      match properties.lookup name with
      | some value => result.set name value
      | none => result)
    remap.newProperties

/-- The remap fits the properties. -/
def matchesRemap (remap : StateRemap) (properties : PropertyMap) : Bool :=
  decide (remap.oldProperties.entries.length ≤ properties.entries.length) &&
    remap.oldProperties.entries.all fun entry => properties.lookup entry.1 = some entry.2

/-- The first remap of the block that fits. -/
def remapState (schema : UpgradeSchema) (state : Upgrading) : Option Upgrading :=
  ((schema.remappedStates.lookup state.name).getD []).findSome? fun remap =>
    if matchesRemap remap state.properties = true then
      (remappedName remap state.properties).map fun name =>
        { name, version := schema.id, properties := remappedProperties remap state.properties }
    else none

/-- The properties while a schema is applied, and whether it has changed anything. -/
structure Edit where
  properties : PropertyMap
  modified : Bool

def addProperties (added : PropertyMap) (edit : Edit) : Edit :=
  added.entries.foldl
    (fun edit entry =>
      if (edit.properties.lookup entry.1).isSome then edit
      else ⟨edit.properties.emplace entry.1 entry.2, true⟩)
    edit

def removeProperties (removed : List (List Char)) (edit : Edit) : Edit :=
  removed.foldl
    (fun edit name =>
      ⟨edit.properties.erase name, (edit.properties.lookup name).isSome || edit.modified⟩)
    edit

def renameProperties (schema : UpgradeSchema) (block : List Char)
    (renamed : AList fun _ : List Char => List Char) (edit : Edit) : Edit :=
  renamed.entries.foldl
    (fun edit entry =>
      match edit.properties.lookup entry.1 with
      | none => edit
      | some value =>
        ⟨(edit.properties.erase entry.1).set entry.2 (remapPropertyValue schema block entry.1 value), true⟩)
    edit

def remapValues (schema : UpgradeSchema) (block : List Char)
    (remaps : AList fun _ : List Char => List ValueRemap) (edit : Edit) : Edit :=
  remaps.entries.foldl
    (fun edit entry =>
      match edit.properties.lookup entry.1 with
      | none => edit
      | some value =>
        let remapped := remapPropertyValue schema block entry.1 value
        if value = remapped then edit else ⟨edit.properties.set entry.1 remapped, true⟩)
    edit

/-- What a schema without a fitting remap does to the properties. -/
def editProperties (schema : UpgradeSchema) (state : Upgrading) : Edit :=
  let edit : Edit := ⟨state.properties, (schema.renamedIds.lookup state.name).isSome⟩
  let edit := (schema.addedProperties.lookup state.name).elim edit (addProperties · edit)
  let edit := (schema.removedProperties.lookup state.name).elim edit (removeProperties · edit)
  let edit := (schema.renamedProperties.lookup state.name).elim edit (renameProperties schema state.name · edit)
  (schema.remappedPropertyValues.lookup state.name).elim edit (remapValues schema state.name · edit)

/-- One turn over the schemas. -/
def applySchema (schema : UpgradeSchema) (state : Upgrading) : Upgrading :=
  if state.version > schema.id then state
  else
    match remapState schema state with
    | some next => next
    | none =>
      let edit := editProperties schema state
      if edit.modified then
        { name := (schema.renamedIds.lookup state.name).getD state.name
          version := schema.id
          properties := edit.properties }
      else { state with properties := edit.properties }

/-- The variables before the first schema. -/
def Upgrading.start (state : BlockState) : Upgrading := ⟨state.name, state.version, propertyMap state.states⟩

/-- The state behind the last schema. -/
def Upgrading.state (upgrading : Upgrading) : BlockState :=
  ⟨upgrading.name, propertyVector upgrading.properties, upgrading.version⟩

/-- The function that `load_upgrade_schemas` returns. -/
def upgrade (schemas : List UpgradeSchema) (state : BlockState) : BlockState :=
  (schemas.foldl (fun upgrading schema => applySchema schema upgrading) (.start state)).state

/-- The schema changes the state, or says that it does. -/
def Modifies (schema : UpgradeSchema) (state : Upgrading) : Prop :=
  state.version ≤ schema.id ∧
    ((remapState schema state).isSome = true ∨ (editProperties schema state).modified = true)

instance (schema : UpgradeSchema) (state : Upgrading) : Decidable (Modifies schema state) :=
  inferInstanceAs (Decidable (_ ∧ (_ ∨ _)))

/-- The last schema that changes the state. -/
def lastModifier : List UpgradeSchema → Upgrading → Option UpgradeSchema
  | [], _ => none
  | schema :: rest, state =>
    (lastModifier rest (applySchema schema state)).or (if Modifies schema state then some schema else none)

section Edits

/-- As long as nothing is noted as modified, nothing is. -/
def Edit.Quiet (edit next : Edit) : Prop := next.modified = false → next = edit

theorem Edit.Quiet.refl (edit : Edit) : edit.Quiet edit := fun _ => rfl

theorem Edit.Quiet.trans {first second third : Edit} (h : first.Quiet second) (h' : second.Quiet third) :
    first.Quiet third := by
  intro hquiet
  obtain rfl := h' hquiet
  exact h hquiet

theorem Edit.Quiet.of_modified {edit next : Edit} (h : next.modified = true) : edit.Quiet next := by
  intro hquiet
  rw [h] at hquiet
  cases hquiet

theorem quiet_foldl {α : Type} {step : Edit → α → Edit} (h : ∀ (edit : Edit) item, edit.Quiet (step edit item))
    (items : List α) (edit : Edit) : edit.Quiet (items.foldl step edit) := by
  induction items generalizing edit with
  | nil => exact .refl edit
  | cons item rest ih => exact (h edit item).trans (ih (step edit item))

theorem quiet_addProperties (added : PropertyMap) (edit : Edit) : edit.Quiet (addProperties added edit) := by
  refine quiet_foldl (fun edit entry => ?_) added.entries edit
  split
  · exact .refl edit
  · exact .of_modified rfl

theorem quiet_removeProperties (removed : List (List Char)) (edit : Edit) :
    edit.Quiet (removeProperties removed edit) := by
  refine quiet_foldl (fun edit name => ?_) removed edit
  intro hquiet
  obtain ⟨hmissing, hmodified⟩ := Bool.or_eq_false_iff.mp hquiet
  have hsame := SortedMap.erase_of_missing (Option.isNone_iff_eq_none.mp (by simpa using hmissing))
  rw [hmissing, hsame, Bool.false_or]

theorem quiet_renameProperties (schema : UpgradeSchema) (block : List Char)
    (renamed : AList fun _ : List Char => List Char) (edit : Edit) :
    edit.Quiet (renameProperties schema block renamed edit) := by
  refine quiet_foldl (fun edit entry => ?_) renamed.entries edit
  split
  case h_1 => exact .refl edit
  case h_2 => exact .of_modified rfl

theorem quiet_remapValues (schema : UpgradeSchema) (block : List Char)
    (remaps : AList fun _ : List Char => List ValueRemap) (edit : Edit) :
    edit.Quiet (remapValues schema block remaps edit) := by
  refine quiet_foldl (fun edit entry => ?_) remaps.entries edit
  split
  case h_1 => exact .refl edit
  case h_2 =>
    dsimp only
    split
    · exact .refl edit
    · exact .of_modified rfl

theorem quiet_elim {α : Type} {f : α → Edit → Edit} (h : ∀ a (edit : Edit), edit.Quiet (f a edit)) (found : Option α)
    (edit : Edit) : edit.Quiet (found.elim edit (f · edit)) := by
  cases found with
  | none => exact .refl edit
  | some a => exact h a edit

/-- A schema that modifies nothing leaves the properties as they are. -/
theorem editProperties_unmodified {schema : UpgradeSchema} {state : Upgrading}
    (h : (editProperties schema state).modified = false) :
    (editProperties schema state).properties = state.properties := by
  have hadded := quiet_elim quiet_addProperties (schema.addedProperties.lookup state.name)
    ⟨state.properties, (schema.renamedIds.lookup state.name).isSome⟩
  have hremoved := quiet_elim quiet_removeProperties (schema.removedProperties.lookup state.name)
  have hrenamed := quiet_elim (quiet_renameProperties schema state.name)
    (schema.renamedProperties.lookup state.name)
  have hremapped := quiet_elim (quiet_remapValues schema state.name)
    (schema.remappedPropertyValues.lookup state.name)
  exact congrArg Edit.properties (((hadded.trans (hremoved _)).trans (hrenamed _)).trans (hremapped _) h)

end Edits

section Steps

open VersionedSteps

/-- A schema as a step with its version. -/
def schemaStep (schema : UpgradeSchema) : Step Upgrading ℤ where
  id := schema.id
  attempt state :=
    match remapState schema state with
    | some next => some next
    | none =>
      if (editProperties schema state).modified then
        some {
          name := (schema.renamedIds.lookup state.name).getD state.name
          version := schema.id
          properties := (editProperties schema state).properties }
      else none

theorem applySchema_eq (schema : UpgradeSchema) (state : Upgrading) :
    applySchema schema state = (schemaStep schema).apply Upgrading.version state := by
  by_cases hlt : state.version > schema.id
  · rw [applySchema, if_pos hlt, Step.apply_of_lt hlt]
  · rw [applySchema, if_neg hlt, Step.apply, if_neg (show ¬ (schemaStep schema).id < state.version from hlt)]
    dsimp only [schemaStep]
    cases remapState schema state with
    | some next => rfl
    | none =>
      cases hmodified : (editProperties schema state).modified with
      | true => rfl
      | false =>
        dsimp only
        rw [if_neg Bool.false_ne_true, if_neg Bool.false_ne_true, editProperties_unmodified hmodified]
        rfl

theorem modifies_iff (schema : UpgradeSchema) (state : Upgrading) :
    Modifies schema state ↔ (schemaStep schema).Applies Upgrading.version state := by
  refine and_congr_right fun _ => ?_
  dsimp only [schemaStep]
  cases remapState schema state with
  | some next => simp
  | none => cases (editProperties schema state).modified <;> simp

theorem stamps_schemaStep (schema : UpgradeSchema) : Stamps Upgrading.version (schemaStep schema) := by
  intro state next h
  dsimp only [schemaStep] at h
  split at h
  case h_1 remapped hremapped =>
    cases h
    obtain ⟨remap, -, hremap⟩ := List.exists_of_findSome?_eq_some hremapped
    split at hremap
    · obtain ⟨name, -, rfl⟩ := Option.map_eq_some_iff.mp hremap
      rfl
    · cases hremap
  case h_2 =>
    split at h
    · cases h
      rfl
    · cases h

theorem foldl_applySchema (schemas : List UpgradeSchema) (state : Upgrading) :
    schemas.foldl (fun upgrading schema => applySchema schema upgrading) state =
      run Upgrading.version (schemas.map schemaStep) state := by
  rw [run, List.foldl_map]
  exact congrArg (fun step => schemas.foldl step state) (funext fun _ => funext fun _ => applySchema_eq _ _)

theorem lastApplied_map (schemas : List UpgradeSchema) (state : Upgrading) :
    lastApplied Upgrading.version (schemas.map schemaStep) state = (lastModifier schemas state).map schemaStep := by
  induction schemas generalizing state with
  | nil => rfl
  | cons schema rest ih =>
    rw [List.map_cons, lastApplied, lastModifier, ← applySchema_eq, ih, Option.map_or]
    congr 1
    by_cases hmodifies : Modifies schema state
    · rw [if_pos hmodifies, if_pos ((modifies_iff schema state).mp hmodifies)]
      rfl
    · rw [if_neg hmodifies, if_neg fun happlies => hmodifies ((modifies_iff schema state).mpr happlies)]
      rfl

theorem propertyMap_propertyVector (properties : PropertyMap) :
    propertyMap (propertyVector properties) = properties := by
  rw [propertyMap, propertyVector, List.foldl_map]
  exact SortedMap.ext (@SortedMap.entries_foldl_set _ _ _ properties.entries {} properties.sorted)

/-- A state that comes from the schemas goes back into them as it is. -/
theorem start_state (upgrading : Upgrading) : Upgrading.start upgrading.state = upgrading := by
  rw [Upgrading.start, Upgrading.state, propertyMap_propertyVector]

theorem state_injective : Function.Injective Upgrading.state := fun first second h => by
  rw [← start_state first, h, start_state]

end Steps

/-- Upgrading again changes nothing exactly when the last schema that has changed the state leaves the
result as it is. -/
theorem upgrade_upgrade_eq_iff (schemas : List UpgradeSchema)
    (hascending : schemas.Pairwise fun first second => first.id < second.id) (state : BlockState) :
    upgrade schemas (upgrade schemas state) = upgrade schemas state ↔
      ∀ last ∈ lastModifier schemas (.start state),
        upgrade [last] (upgrade schemas state) = upgrade schemas state := by
  have hstamps : ∀ step ∈ schemas.map schemaStep, VersionedSteps.Stamps Upgrading.version step :=
    List.forall_mem_map.mpr fun schema _ => stamps_schemaStep schema
  have hiff := @VersionedSteps.run_run_eq_iff _ _ _ Upgrading.version _ (.start state)
    (List.pairwise_map.mpr hascending) hstamps
  rw [lastApplied_map] at hiff
  rw [upgrade, upgrade, start_state, state_injective.eq_iff, foldl_applySchema, foldl_applySchema, hiff]
  constructor
  · intro hlast last hmem
    rw [upgrade, start_state, List.foldl_cons, List.foldl_nil, applySchema_eq]
    exact congrArg Upgrading.state (hlast _ (Option.mem_map_of_mem schemaStep hmem))
  · intro hlast step hstep
    obtain ⟨last, hmem, rfl⟩ := Option.map_eq_some_iff.mp hstep
    have hsame := hlast last hmem
    rw [upgrade, start_state, List.foldl_cons, List.foldl_nil, applySchema_eq] at hsame
    exact state_injective hsame

/-- A chain of names in one schema. -/
def chain : UpgradeSchema where
  id := 1
  renamedIds := List.toAList [⟨"a".toList, "b".toList⟩, ⟨"b".toList, "c".toList⟩]

theorem upgrade_upgrade_eq_iff_chain :
    upgrade [chain] (upgrade [chain] ⟨"b".toList, [], 0⟩) = upgrade [chain] ⟨"b".toList, [], 0⟩ ↔
      ∀ last ∈ lastModifier [chain] (.start ⟨"b".toList, [], 0⟩),
        upgrade [last] (upgrade [chain] ⟨"b".toList, [], 0⟩) = upgrade [chain] ⟨"b".toList, [], 0⟩ :=
  upgrade_upgrade_eq_iff [chain] (List.pairwise_singleton _ _) ⟨"b".toList, [], 0⟩

/-- A state takes one step of the chain each time. -/
theorem upgrade_not_idempotent :
    ¬ ∀ schemas : List UpgradeSchema, schemas.Pairwise (fun first second => first.id < second.id) →
      ∀ state, upgrade schemas (upgrade schemas state) = upgrade schemas state := by
  intro hall
  have hchain := hall [chain] (List.pairwise_singleton _ _) ⟨"a".toList, [], 0⟩
  exact absurd hchain (by decide)

end StateUpgrade

end WaterStructure
