import WaterStructure.Core.Registry
import WaterStructure.Library.InternTable

/-!
# Registered states keep their identity

A registry without upgrade schemas numbers keys by their first occurrence. Ids therefore tell
states apart exactly as far as keys do, until the 32-bit ids run out.
-/

namespace WaterStructure

open InternTable

/-- The id of the entry with a number; ids start with one and wrap. -/
def runtimeIdOf (index : ℕ) : RuntimeId := UInt32.ofNat (index + 1)

/-- Ids differ as long as there are at most as many as 32 bits tell apart. -/
theorem runtimeIdOf_inj {i j : ℕ} (hi : i < 4294967296) (hj : j < 4294967296)
    (h : runtimeIdOf i = runtimeIdOf j) : i = j := by
  have hnat := congrArg UInt32.toNat h
  simp only [runtimeIdOf, UInt32.toNat_ofNat'] at hnat
  omega

theorem runtimeIdOf_succ (index : ℕ) : runtimeIdOf index + 1 = runtimeIdOf (index + 1) := by
  rw [runtimeIdOf, runtimeIdOf, UInt32.ofNat_add (index + 1) 1]
  rfl

/-- The registry numbers the entries of a table: it finds the key of an entry, and as long as the
ids do not wrap also its state. -/
structure Refines (registry : StateRegistry) (table : Table BlockState (List Char)) : Prop where
  upgradeState : registry.upgradeState = none
  nextRuntimeId : registry.nextRuntimeId = runtimeIdOf table.values.length
  byKey : ∀ key, registry.byKey.lookup key = (table.indices.lookup key).map runtimeIdOf
  state : table.values.length ≤ 4294967296 → ∀ index found, table.values[index]? = some found →
    registry.state (runtimeIdOf index) = some found
  fresh : ∀ runtimeId, registry.state runtimeId ≠ none →
    ∃ index < table.values.length, runtimeId = runtimeIdOf index

variable {registry : StateRegistry} {state : BlockState} {table : Table BlockState (List Char)}
  {states : List BlockState}

/-- A state with a known key changes nothing. -/
theorem StateRegistry.registerState_of_known {runtimeId : RuntimeId}
    (hnone : registry.upgradeState = none) (hkey : registry.byKey.lookup state.key = some runtimeId) :
    registry.registerState state = (runtimeId, registry) := by
  have hinserted : registry.insertState registry.upgradeState.isSome (registry.filed state) =
      (runtimeId, registry.toStateTables) := by
    rw [filed, hnone, StateTables.insertState, BlockState.key_normalized, hkey]
  rw [registerState, hinserted]

/-- A state with a new key is filed under the next id. -/
theorem StateRegistry.registerState_of_new (hnone : registry.upgradeState = none)
    (hkey : registry.byKey.lookup state.key = none) :
    registry.registerState state = (registry.nextRuntimeId,
      { registry with toStateTables := (registry.allocate state.normalized).2 }) := by
  rw [registerState, filed, hnone, StateTables.insertState, BlockState.key_normalized, hkey]
  rfl

/-- Registering a state adds it to the table. -/
theorem Refines.registerState (h : Refines registry table) (state : BlockState) :
    Refines (registry.registerState state).2 (table.add BlockState.key state.normalized) ∧
      ((table.add BlockState.key state.normalized).indices.lookup state.key).map runtimeIdOf =
        some (registry.registerState state).1 := by
  cases hindex : table.indices.lookup state.key with
  | some index =>
    have hkey : registry.byKey.lookup state.key = some (runtimeIdOf index) := by
      rw [h.byKey, hindex, Option.map_some]
    have hadd : table.add BlockState.key state.normalized = table := by
      rw [Table.add, BlockState.key_normalized, hindex]
    rw [StateRegistry.registerState_of_known h.upgradeState hkey, hadd]
    exact ⟨h, by rw [hindex, Option.map_some]⟩
  | none =>
    have hkey : registry.byKey.lookup state.key = none := by rw [h.byKey, hindex, Option.map_none]
    have hadd : table.add BlockState.key state.normalized =
        ⟨table.values ++ [state.normalized],
          table.indices.insert state.key table.values.length⟩ := by
      rw [Table.add, BlockState.key_normalized, hindex]
    rw [StateRegistry.registerState_of_new h.upgradeState hkey, hadd, h.nextRuntimeId]
    have hstate (runtimeId : RuntimeId) :
        (registry.allocate state.normalized).2.state runtimeId =
          if runtimeId = runtimeIdOf table.values.length then
            some ((registry.state runtimeId).getD state.normalized)
          else registry.state runtimeId := by
      rw [StateTables.state, StateTables.allocate, AssocMap.lookup_tryEmplace, h.nextRuntimeId]
      split_ifs with heq
      · rw [heq]; rfl
      · rfl
    refine ⟨⟨h.upgradeState, ?_, fun key => ?_, fun hlength index found hfound => ?_,
      fun runtimeId hsome => ?_⟩, ?_⟩
    · rw [List.length_append, List.length_singleton, ← runtimeIdOf_succ, ← h.nextRuntimeId]
      rfl
    · rw [AssocMap.lookup_insert_eq, apply_ite (Option.map runtimeIdOf), ← h.byKey,
        Option.map_some, ← h.nextRuntimeId, ← BlockState.key_normalized state]
      exact AssocMap.lookup_insert_eq _ _ _ _
    · rw [List.length_append, List.length_singleton] at hlength
      refine (hstate _).trans ?_
      rcases Nat.lt_or_ge index table.values.length with hlt | hge
      · have hne : runtimeIdOf index ≠ runtimeIdOf table.values.length := fun heq => by
          have := runtimeIdOf_inj (by omega) (by omega) heq
          omega
        rw [List.getElem?_append_left hlt] at hfound
        rw [if_neg hne, h.state (by omega) index found hfound]
      · have hlast := (List.getElem?_eq_some_iff.mp hfound).1
        rw [List.length_append, List.length_singleton] at hlast
        obtain rfl : index = table.values.length := by omega
        have hfree : registry.state (runtimeIdOf table.values.length) = none := by
          by_contra hsome
          obtain ⟨other, hother, heq⟩ := h.fresh _ hsome
          have := runtimeIdOf_inj (by omega) (by omega) heq
          omega
        rw [List.getElem?_append_right hge, Nat.sub_self, List.getElem?_cons_zero,
          Option.some.injEq] at hfound
        rw [if_pos rfl, hfree, Option.getD_none, hfound]
    · have hsome : (registry.allocate state.normalized).2.state runtimeId ≠ none := hsome
      rw [List.length_append, List.length_singleton]
      rw [hstate] at hsome
      split_ifs at hsome with heq
      · exact ⟨_, Nat.lt_succ_self _, heq⟩
      · obtain ⟨index, hindex, heq⟩ := h.fresh _ hsome
        exact ⟨index, Nat.lt_succ_of_lt hindex, heq⟩
    · rw [AList.lookup_insert, Option.map_some]

/-- The table of a list of states. -/
def stateTable (states : List BlockState) : Table BlockState (List Char) :=
  (states.map BlockState.normalized).foldl (Table.add BlockState.key) ⟨[], ∅⟩

/-- Registering states adds them to the table, and each has the id of its key. -/
theorem Refines.registerAll (h : Refines registry table) (hc : table.Complete BlockState.key)
    (states : List BlockState) :
    let final := (states.map BlockState.normalized).foldl (Table.add BlockState.key) table
    Refines (registry.registerAll states).2 final ∧
      ((registry.registerAll states).1.map Prod.fst = states) ∧
      ∀ entry ∈ (registry.registerAll states).1,
        (final.indices.lookup entry.1.key).map runtimeIdOf = some entry.2 := by
  induction states generalizing registry table with
  | nil => exact ⟨h, rfl, fun entry hentry => absurd hentry List.not_mem_nil⟩
  | cons state rest ih =>
    obtain ⟨hstep, hid⟩ := h.registerState state
    obtain ⟨hrefines, hstates, hids⟩ := ih hstep (hc.add state.normalized)
    refine ⟨hrefines, congrArg (state :: ·) hstates, fun entry hentry => ?_⟩
    rcases List.mem_cons.mp hentry with rfl | hrest
    · obtain ⟨index, hindex, hvalue⟩ := Option.map_eq_some_iff.mp hid
      have hkept := (Table.foldl_add_complete (rest.map BlockState.normalized)
        (hc.add state.normalized)).2 _ _ hindex
      exact Option.map_eq_some_iff.mpr ⟨index, hkept, hvalue⟩
    · exact hids entry hrest

/-- A new registry has numbered air. -/
theorem refines_initial : Refines StateRegistry.initial (stateTable [StateRegistry.airState]) := by
  have hempty : Refines { StateTables.empty with upgradeState := none } ⟨[], ∅⟩ :=
    ⟨rfl, rfl, fun _ => rfl, fun _ _ _ h => absurd h (by simp), fun _ h => absurd rfl h⟩
  have h := (hempty.registerState StateRegistry.airState).1
  exact ⟨h.upgradeState, h.nextRuntimeId, h.byKey, h.state, h.fresh⟩

/-- The states of a registry after a sequence of calls, each with its id: air, which the
constructor registers, and those of the calls. -/
def registrations (states : List BlockState) : List (BlockState × RuntimeId) :=
  (StateRegistry.airState, StateRegistry.initial.airRuntimeId) ::
    (StateRegistry.initial.registerAll states).1

/-- Registered states keep their identity: two have one id exactly when they are the same, and the
registry has the same state under the id of each. -/
def KeepsIdentity (states : List BlockState) : Prop :=
  (∀ first ∈ registrations states, ∀ second ∈ registrations states,
    first.2 = second.2 ↔ first.1.Same second.1) ∧
  ∀ entry ∈ registrations states, ∃ found,
    (StateRegistry.initial.registerAll states).2.state entry.2 = some found ∧ found.Same entry.1

/-- Keys tell the states apart: two states have one key exactly when they are the same. -/
def KeysTell (states : List BlockState) : Prop :=
  ∀ first ∈ states, ∀ second ∈ states, first.key = second.key ↔ first.Same second

/-- The ids suffice for the different keys of the states. -/
def FitsIds (states : List BlockState) : Prop :=
  (states.map BlockState.key).dedup.length ≤ 4294967296

/-- What the registrations of a sequence of calls are. -/
structure Registered (states : List BlockState) (table : Table BlockState (List Char)) : Prop where
  refines : Refines (StateRegistry.initial.registerAll states).2 table
  entries : (registrations states).map Prod.fst = StateRegistry.airState :: states
  sound : table.Sound BlockState.key
  complete : table.Complete BlockState.key
  index : ∀ entry ∈ registrations states, ∃ index,
    table.indices.lookup entry.1.key = some index ∧ index < table.values.length ∧
      runtimeIdOf index = entry.2
  values : ∀ found ∈ table.values, ∃ state ∈ StateRegistry.airState :: states,
    found = state.normalized
  air : table.indices.lookup StateRegistry.airState.key = some 0
  length : table.values.length =
    ((StateRegistry.airState :: states).map BlockState.key).dedup.length

theorem registered (states : List BlockState) :
    Registered states (stateTable (StateRegistry.airState :: states)) := by
  have hcomplete := Table.foldl_add_complete
    ((StateRegistry.airState :: states).map BlockState.normalized)
    (Table.complete_empty BlockState.key)
  have hsound := (Table.foldl_add ((StateRegistry.airState :: states).map BlockState.normalized) _
    (Table.sound_empty BlockState.key)).1
  have hair := Table.foldl_add_complete ([StateRegistry.airState].map BlockState.normalized)
    (Table.complete_empty BlockState.key)
  obtain ⟨hrefines, hstates, hids⟩ := refines_initial.registerAll hair.1 states
  have hzero := (Table.foldl_add_complete (states.map BlockState.normalized) hair.1).2
    StateRegistry.airState.key 0 (by decide +kernel)
  have hindex : ∀ entry ∈ registrations states,
      ((stateTable (StateRegistry.airState :: states)).indices.lookup entry.1.key).map
        runtimeIdOf = some entry.2 := by
    intro entry hentry
    rcases List.mem_cons.mp hentry with rfl | hrest
    · exact Option.map_eq_some_iff.mpr ⟨0, hzero, by decide⟩
    · exact hids entry hrest
  refine ⟨hrefines, congrArg (_ :: ·) hstates, hsound, hcomplete.1, fun entry hentry => ?_,
    fun found hfound => ?_, hzero, ?_⟩
  · obtain ⟨index, hlookup, hvalue⟩ := Option.map_eq_some_iff.mp (hindex entry hentry)
    obtain ⟨found, hfound, -⟩ := hsound _ _ hlookup
    exact ⟨index, hlookup, (List.getElem?_eq_some_iff.mp hfound).1, hvalue⟩
  · rcases Table.mem_values_foldl_add _ _ hfound with hnil | hmem
    · exact absurd hnil List.not_mem_nil
    · obtain ⟨state, hstate, rfl⟩ := List.mem_map.mp hmem
      exact ⟨state, hstate, rfl⟩
  · have hkeys : BlockState.key ∘ BlockState.normalized = BlockState.key :=
      funext BlockState.key_normalized
    rw [stateTable, Table.length_foldl_add, List.map_map, hkeys]

/-- Each of the states has a registration. -/
theorem Registered.exists_entry (h : Registered states table)
    (hstate : state ∈ StateRegistry.airState :: states) :
    ∃ runtimeId, (state, runtimeId) ∈ registrations states := by
  rw [← h.entries] at hstate
  obtain ⟨entry, hentry, rfl⟩ := List.mem_map.mp hstate
  exact ⟨entry.2, hentry⟩

theorem Registered.mem_states (h : Registered states table) {entry : BlockState × RuntimeId}
    (hentry : entry ∈ registrations states) : entry.1 ∈ StateRegistry.airState :: states :=
  h.entries ▸ List.mem_map_of_mem hentry

/-- One key, one id. -/
theorem Registered.id_eq_of_key_eq (h : Registered states table)
    {first second : BlockState × RuntimeId} (hfirst : first ∈ registrations states)
    (hsecond : second ∈ registrations states) (hkey : first.1.key = second.1.key) :
    first.2 = second.2 := by
  obtain ⟨i, hi, -, hfirstId⟩ := h.index first hfirst
  obtain ⟨j, hj, -, hsecondId⟩ := h.index second hsecond
  rw [hkey, hj, Option.some.injEq] at hi
  rw [← hfirstId, ← hsecondId, hi]

/-- One id, one key, as long as the ids suffice. -/
theorem Registered.key_eq_of_id_eq (h : Registered states table)
    (hfits : FitsIds (StateRegistry.airState :: states)) {first second : BlockState × RuntimeId}
    (hfirst : first ∈ registrations states) (hsecond : second ∈ registrations states)
    (hid : first.2 = second.2) : first.1.key = second.1.key := by
  obtain ⟨i, hi, hilt, hfirstId⟩ := h.index first hfirst
  obtain ⟨j, hj, hjlt, hsecondId⟩ := h.index second hsecond
  have hlength : table.values.length ≤ 4294967296 := by
    rw [h.length]
    exact hfits
  have hij := runtimeIdOf_inj (by omega) (by omega) (hfirstId.trans (hid.trans hsecondId.symm))
  obtain ⟨found, hfound, hfirstKey⟩ := h.sound _ _ hi
  obtain ⟨found', hfound', hsecondKey⟩ := h.sound _ _ hj
  rw [hij, hfound', Option.some.injEq] at hfound
  rw [← hfirstKey, ← hsecondKey, hfound]

/-- Without properties, one name and version make one key. -/
theorem key_eq_of_same_airState (h : state.Same StateRegistry.airState) :
    state.key = StateRegistry.airState.key := by
  have hplain : StateRegistry.airState.Plain :=
    ⟨by decide, fun _ h => absurd h List.not_mem_nil, fun _ h => absurd h List.not_mem_nil,
      fun _ h => absurd h List.not_mem_nil⟩
  exact (hplain.key_eq_of_same h.symm).symm

/-- With more keys than ids, a state is registered under the id of air. -/
theorem fitsIds_of_keepsIdentity (h : KeepsIdentity states) :
    FitsIds (StateRegistry.airState :: states) := by
  have hreg := registered states
  by_contra hmany
  rw [FitsIds, ← hreg.length, Nat.not_le] at hmany
  have hlast := List.getElem?_eq_getElem hmany
  have hlookup := hreg.complete _ _ hlast
  obtain ⟨state, hstate, heq⟩ := hreg.values _ (List.getElem_mem hmany)
  rw [heq, BlockState.key_normalized] at hlookup
  obtain ⟨runtimeId, hentry⟩ := hreg.exists_entry hstate
  obtain ⟨index, hindex, -, hid⟩ := hreg.index _ hentry
  rw [hlookup, Option.some.injEq] at hindex
  have hair : (StateRegistry.airState, StateRegistry.initial.airRuntimeId) ∈
    registrations states := List.mem_cons_self
  have hsame : state.Same StateRegistry.airState := by
    refine (h.1 _ hentry _ hair).mp ?_
    rw [← hid, ← hindex]
    decide
  rw [key_eq_of_same_airState hsame, hreg.air, Option.some.injEq] at hlookup
  omega

/-- When two registered states have one id exactly if they are the same, keys tell them apart. -/
theorem keysTell_of_keepsIdentity (h : KeepsIdentity states) :
    KeysTell (StateRegistry.airState :: states) := by
  have hreg := registered states
  intro first hfirst second hsecond
  obtain ⟨firstId, hfirst⟩ := hreg.exists_entry hfirst
  obtain ⟨secondId, hsecond⟩ := hreg.exists_entry hsecond
  have hid := h.1 _ hfirst _ hsecond
  exact ⟨fun hkey => hid.mp (hreg.id_eq_of_key_eq hfirst hsecond hkey), fun hsame =>
    hreg.key_eq_of_id_eq (fitsIds_of_keepsIdentity h) hfirst hsecond (hid.mpr hsame)⟩

/-- Two states that are not the same: one has a property whose value holds a separator, the other
has the two properties that this value spells. -/
def separatorStates : List BlockState :=
  [⟨"minecraft:a".toList, [⟨"b".toList, .String, "1|c:1=2".toList⟩], 0⟩,
    ⟨"minecraft:a".toList,
      [⟨"b".toList, .String, "1".toList⟩, ⟨"c".toList, .Short, "2".toList⟩], 0⟩]

/-- Properties that differ in their type alone are written in the order of the list. -/
example : ¬ KeysTell
    [⟨"a".toList, [⟨"b".toList, .Byte, "1".toList⟩, ⟨"b".toList, .Int, "1".toList⟩], 0⟩,
      ⟨"a".toList, [⟨"b".toList, .Int, "1".toList⟩, ⟨"b".toList, .Byte, "1".toList⟩], 0⟩] := by
  rw [KeysTell]
  decide +kernel

end WaterStructure
