import WaterStructure.Formats.LitematicStream

/-!
# The stream selects what the tree selects

A document whose whole tree can be read has one first region by name, with its fields. `rootOf` finds them in
the tree, and the reader that goes through the document once finds the same: each of its loops follows the
loop that builds the map of a compound, with the fields that it has kept as a function of this map.
-/

namespace WaterStructure

namespace LitematicStream

open ByteReader NbtReader NbtTag

section Trees

/-- The position that a compound with three coordinates stands for. -/
def xyzOf (fields : Entries) : BlockPos :=
  ⟨(intAt fields "x").getD 0, (intAt fields "y").getD 0, (intAt fields "z").getD 0⟩

def propertyText : Tag → Option (List Char)
  | .byte value => some (if value = 0 then "false".toList else "true".toList)
  | .short value | .int value | .long value => some (decimal value)
  | .string value => some value
  | _ => none

def nameOf : Option Tag → List Char
  | some (.string name) => name
  | _ => unknownName

def propertiesOf : Option Tag → Option (List (List Char × Option (List Char)))
  | some (.compound properties) => some (properties.map fun property => (property.1, propertyText property.2))
  | _ => none

/-- The text of an item of a palette. -/
def paletteName : Tag → List Char
  | .compound fields => encodedName (nameOf (SortedMap.find fields "Name".toList))
      (propertiesOf (SortedMap.find fields "Properties".toList))
  | _ => unknownName

def fieldState (expected : TagType) : Option Tag → RequiredFieldState
  | none => .Missing
  | some tag => if tag.type = expected then .Valid else .WrongType

def xyzField : Option Tag → BlockPos
  | some (.compound fields) => xyzOf fields
  | _ => ⟨0, 0, 0⟩

def paletteOf : Option Tag → List (List Char)
  | some (.list _ items) => items.map paletteName
  | _ => []

def packedStatesOf : Option Tag → List ℤ
  | some (.longArray values) => values
  | _ => []

def entitiesOf : Option Tag → List (BlockEntity Entries)
  | some (.list _ items) => items.filterMap entityOf
  | _ => []

/-- What a region holds. -/
def regionOf (fields : Entries) : StreamedRegion :=
  let position := SortedMap.find fields "Position".toList
  let size := SortedMap.find fields "Size".toList
  let palette := SortedMap.find fields "BlockStatePalette".toList
  let blockStates := SortedMap.find fields "BlockStates".toList
  { positionState := fieldState .Compound position
    sizeState := fieldState .Compound size
    paletteState := fieldState .List palette
    blockStatesState := fieldState .LongArray blockStates
    position := xyzField position
    signedSize := xyzField size
    palette := paletteOf palette
    packedStates := packedStatesOf blockStates
    blockEntities := entitiesOf (SortedMap.find fields "TileEntities".toList) }

/-- The first of the regions by name. -/
def regionsOf : Entries → StreamedRegions
  | [] => {}
  | (name, .compound fields) :: _ => ⟨true, true, name, regionOf fields⟩
  | (name, _) :: _ => ⟨true, false, name, {}⟩

/-- What a document selects. -/
def rootOf (root : Compound) : StreamedRoot :=
  match root.lookup "Regions".toList with
  | none => {}
  | some (.compound regions) => ⟨true, true, regionsOf regions⟩
  | some _ => { regionsPresent := true }

end Trees

section Skipping

theorem readValues_drop {width : ℕ} {message : String} {count : ℕ} {input rest : Input} {values : List ℤ}
    (h : readValues width message count input = .ok (values, rest)) :
    count * width ≤ input.length ∧ rest = input.drop (count * width) := by
  have hloop : ∀ (count : ℕ) (start : List ℤ) (input : Input),
      times (fun values => do
        let value ← signed width message
        pure (values ++ [value])) count start input = .ok (values, rest) →
      count * width ≤ input.length ∧ rest = input.drop (count * width) := by
    intro count
    induction count with
    | zero =>
      intro start input h
      cases h
      rw [Nat.zero_mul]
      exact ⟨Nat.zero_le _, rfl⟩
    | succ count ih =>
      intro start input h
      obtain ⟨next, middle, hnext, h⟩ := exists_of_bind h
      obtain ⟨value, after, hvalue, hnext⟩ := exists_of_bind hnext
      obtain ⟨bits, last, hbits, hvalue⟩ := exists_of_bind hvalue
      cases hnext
      cases hvalue
      rw [number] at hbits
      obtain ⟨hlength, hbits⟩ := NestedLoop.else_of_ok hbits
      cases hbits
      obtain ⟨hle, hrest⟩ := ih _ _ h
      rw [List.length_drop] at hle
      rw [List.drop_drop, Nat.add_comm width] at hrest
      rw [Nat.succ_mul]
      exact ⟨by omega, hrest⟩
  exact hloop count [] input h

theorem follows_skipBytes (width : ℕ) (message : String) (count : ℕ) :
    Follows (readValues width message count) (skipBytes (count * width)) fun _ _ => True := by
  intro input values rest h
  obtain ⟨hle, hrest⟩ := readValues_drop h
  exact ⟨(), (if_neg (Nat.not_lt_of_le hle)).trans (by rw [hrest]), trivial⟩

theorem follows_signed (width : ℕ) (message message' : String) :
    Follows (signed width message) (signed width message') Eq :=
  (follows_number width message message').map fun _ _ h => h ▸ rfl

theorem follows_failIf (condition : Bool) (message message' : String) :
    Follows (failIf condition message) (failIf condition message') Eq := by
  cases condition with
  | true => exact nofun
  | false => exact .refl _

theorem follows_readLength (message message' : String) : Follows (readLength message) (readLength message') Eq := by
  refine (follows_signed 4 message message').bind ?_
  rintro length _ rfl
  refine (follows_failIf _ message message').bind fun _ _ _ => .pure rfl

/-- Skipping an array. -/
theorem follows_skipArray {width : ℕ} {message message' lengthMessage : String} {f : List ℤ → Tag} {type : TagType}
    (htype : ∀ values, (f values).type = type) :
    Follows
      (do
        let length ← readLength message
        let values ← readValues width message' length
        pure (f values))
      (do
        let length ← readLength lengthMessage
        skipBytes (length * width))
      fun tag _ => tag.type = type := by
  refine (follows_readLength message lengthMessage).bind ?_
  rintro length _ rfl
  exact (follows_skipBytes width message' length).map_left fun values _ _ => htype values

/-- Skipping a tag takes the bytes that reading it takes. -/
theorem follows_skip (room : ℕ) (type : TagType) :
    Follows (readPayload room type) (skipPayload room type) fun tag _ => tag.type = type := by
  induction room generalizing type with
  | zero => exact .fail
  | succ room ih =>
    cases type with
    | End => exact .fail
    | String => exact (follows_readString _ _).map fun _ _ _ => rfl
    | List =>
      refine .bind_left _ fun element => .bind_left _ fun length => ?_
      split
      · exact .pure rfl
      · refine (Follows.times (R := fun _ _ => True) (fun _ _ _ => ?_) length trivial).map_left fun _ _ _ => rfl
        exact (ih element).map_left fun _ _ _ => trivial
    | Compound =>
      refine (Follows.entries (R := fun _ _ => True) (fun _ _ _ type _ => ?_) trivial).map_left fun _ _ _ => rfl
      exact (ih type).map_left fun _ _ _ => trivial
    | ByteArray =>
      refine .bind_left _ fun length => ?_
      have hskip := follows_skipBytes 1 "Error reading contents of tag_byte_array" length
      rw [Nat.mul_one] at hskip
      exact hskip.map_left fun _ _ _ => rfl
    | IntArray => exact follows_skipArray fun _ => rfl
    | LongArray => exact follows_skipArray fun _ => rfl
    | _ => exact (Follows.refl _).map fun _ _ _ => rfl

end Skipping

section Entries

variable {σ β : Type} {R : Compound → σ → Prop} {map : Compound} {key : List Char} {type : TagType} {room : ℕ}

/-- A key that is there is skipped. -/
theorem follows_seen {state : σ} (hseen : (map.lookup key).isSome = true) (h : R map state) :
    Follows (treeEntry (readPayload room) map key type)
      (do
        skipPayload room type
        pure state) R :=
  (follows_skip room type).map fun tag _ _ => by
    rw [SortedMap.emplace_of_present hseen]
    exact h

/-- A new key. -/
theorem follows_new {r : Reader β} {Q : Tag → β → Prop} {next : β → σ} (hmissing : map.lookup key = none)
    (hr : Follows (readPayload room type) r Q) (h : ∀ tag b, Q tag b → R (map.set key tag) (next b)) :
    Follows (treeEntry (readPayload room) map key type)
      (do
        let value ← r
        pure (next value)) R :=
  hr.map fun tag b hb => by
    rw [SortedMap.emplace_of_missing hmissing]
    exact h tag b hb

theorem find_set (map : Compound) (key other : List Char) (tag : Tag) :
    SortedMap.find (map.set key tag).entries other =
      if other = key then some tag else SortedMap.find map.entries other := by
  have hset := SortedMap.lookup_set map key other tag
  by_cases h : other = key
  · rw [if_pos h] at hset ⊢
    exact hset
  · rw [if_neg h] at hset ⊢
    exact hset

theorem intAt_set (map : Compound) (key : List Char) (tag : Tag) (name : String) :
    intAt (map.set key tag).entries name = if name.toList = key then intValue tag else intAt map.entries name := by
  rw [intAt, find_set]
  split <;> rfl

variable {name : List Char} {tag : Tag} {expected : TagType} {state : RegionState}

/-- A key that is missing and has not been asked for is another one. -/
theorem ne_of_guard (hmissing : map.lookup key = none) (h : ¬ (key = name ∧ (map.lookup name).isSome = false)) :
    name ≠ key := by
  rintro rfl
  exact h ⟨rfl, by rw [hmissing, Option.isSome_none]⟩

/-- An integer of any width, and nothing for other tags. -/
theorem follows_readIntValue (room : ℕ) (type : TagType) :
    Follows (readPayload room type) (readIntValue room type) fun tag value => value = intValue tag := by
  cases room with
  | zero => exact .fail
  | succ room =>
    cases type with
    | Byte | Short | Int | Long => exact (follows_signed _ _ _).map fun _ _ h => h ▸ rfl
    | End => exact .fail
    | _ =>
      intro input tag rest h
      obtain ⟨_, hskip, htype⟩ := follows_skip _ _ input tag rest h
      refine ⟨none, (bind_of_ok hskip _).trans rfl, ?_⟩
      cases tag <;> first | rfl | cases htype

/-- What has been read of a position. -/
def xyzState (map : Compound) : XyzState where
  result := xyzOf map.entries
  seenX := (map.lookup "x".toList).isSome
  seenY := (map.lookup "y".toList).isSome
  seenZ := (map.lookup "z".toList).isSome

theorem follows_xyzEntry (room : ℕ) (map : Compound) (state : XyzState) (key : List Char) (type : TagType)
    (h : state = xyzState map) :
    Follows (treeEntry (readPayload room) map key type) (xyzEntry room state key type)
      fun map state => state = xyzState map := by
  subst h
  rw [xyzEntry]
  cases hkey : map.lookup key with
  | some tag =>
    rw [if_neg, if_neg, if_neg]
    · exact follows_seen (by rw [hkey, Option.isSome_some]) rfl
    all_goals
      rintro ⟨rfl, hseen⟩
      rw [xyzState, hkey] at hseen
      cases hseen
  | none =>
    have hint := follows_readIntValue room type
    split_ifs with hx hy hz
    · obtain ⟨rfl, -⟩ := hx
      refine follows_new hkey hint ?_
      rintro tag value rfl
      simp [xyzState, xyzOf, intAt_set, SortedMap.lookup_set]
    · obtain ⟨rfl, -⟩ := hy
      refine follows_new hkey hint ?_
      rintro tag value rfl
      simp [xyzState, xyzOf, intAt_set, SortedMap.lookup_set]
    · obtain ⟨rfl, -⟩ := hz
      refine follows_new hkey hint ?_
      rintro tag value rfl
      simp [xyzState, xyzOf, intAt_set, SortedMap.lookup_set]
    · refine follows_new hkey (follows_skip room type) fun tag _ _ => ?_
      have hx := ne_of_guard hkey hx
      have hy := ne_of_guard hkey hy
      have hz := ne_of_guard hkey hz
      simp only [xyzState, xyzOf, intAt_set, SortedMap.lookup_set, if_neg hx, if_neg hy, if_neg hz]

/-- A position is read from a compound. -/
theorem follows_readXyzCompound (room : ℕ) :
    Follows (readPayload room .Compound) (readXyzCompound room) fun tag result =>
      ∃ fields, tag = .compound fields ∧ result = xyzOf fields := by
  cases room with
  | zero => exact .fail
  | succ room =>
    refine .map (.entries (follows_xyzEntry room) rfl) ?_
    rintro map _ rfl
    exact ⟨map.entries, rfl, rfl⟩

theorem follows_readPropertyValue (room : ℕ) (type : TagType) :
    Follows (readPayload room type) (readPropertyValue room type) fun tag value => value = propertyText tag := by
  cases room with
  | zero => exact .fail
  | succ room =>
    cases type with
    | Byte | Short | Int | Long => exact (follows_signed _ _ _).map fun _ _ h => h ▸ rfl
    | String => exact (follows_readString _ _).map fun _ _ h => h ▸ rfl
    | End => exact .fail
    | _ =>
      intro input tag rest h
      obtain ⟨_, hskip, htype⟩ := follows_skip _ _ input tag rest h
      refine ⟨none, (bind_of_ok hskip _).trans rfl, ?_⟩
      cases tag <;> first | rfl | cases htype

theorem follows_propertyEntry (room : ℕ) (map : Compound) (values : EncodedProperties) (name : List Char)
    (type : TagType) (h : values = map.mapValues propertyText) :
    Follows (treeEntry (readPayload room) map name type) (propertyEntry room values name type)
      fun map values => values = map.mapValues propertyText := by
  subst h
  rw [propertyEntry, SortedMap.lookup_mapValues, Option.isSome_map]
  split_ifs with hseen
  · exact follows_seen hseen rfl
  · have hseen := Option.not_isSome_iff_eq_none.mp hseen
    refine follows_new hseen (follows_readPropertyValue room type) ?_
    rintro tag value rfl
    rw [SortedMap.emplace_of_missing (by rw [SortedMap.lookup_mapValues, hseen, Option.map_none]),
      SortedMap.mapValues_set]

theorem follows_readPropertiesCompound (room : ℕ) :
    Follows (readPayload room .Compound) (readPropertiesCompound room) fun tag values =>
      propertiesOf (some tag) = some values.entries := by
  cases room with
  | zero => exact .fail
  | succ room =>
    refine .map_left (.entries (follows_propertyEntry room) rfl) ?_
    rintro map _ rfl
    rfl

/-- What has been read of a palette entry whose name and properties are these. -/
structure PaletteFieldsRead (nameTag propertiesTag : Option Tag) (state : PaletteEntryState) : Prop where
  name : state.name = nameOf nameTag
  seenName : state.seenName = nameTag.isSome
  seenProperties : state.seenProperties = propertiesTag.isSome
  properties : state.properties.map SortedMap.entries = propertiesOf propertiesTag

theorem nameOf_of_type (h : tag.type ≠ .String) : nameOf (some tag) = unknownName := by
  cases tag <;> first | rfl | exact absurd rfl h

theorem propertiesOf_of_type (h : tag.type ≠ .Compound) : propertiesOf (some tag) = none := by
  cases tag <;> first | rfl | exact absurd rfl h

theorem follows_readName (room : ℕ) :
    Follows (readPayload room .String) (readString stringMessage) fun tag name => tag = .string name := by
  cases room with
  | zero => exact .fail
  | succ room => exact (follows_readString _ _).map_left fun _ _ h => h ▸ rfl

theorem lookup_set_self (map : Compound) (key : List Char) (tag : Tag) : (map.set key tag).lookup key = some tag := by
  rw [SortedMap.lookup_set, if_pos rfl]

theorem lookup_set_ne (map : Compound) {key other : List Char} (tag : Tag) (h : other ≠ key) :
    (map.set key tag).lookup other = map.lookup other := by
  rw [SortedMap.lookup_set, if_neg h]

theorem follows_paletteField (room : ℕ) (map : Compound) (state : PaletteEntryState) (key : List Char)
    (type : TagType) (h : PaletteFieldsRead (map.lookup "Name".toList) (map.lookup "Properties".toList) state) :
    Follows (treeEntry (readPayload room) map key type) (paletteField room state key type)
      fun map state => PaletteFieldsRead (map.lookup "Name".toList) (map.lookup "Properties".toList) state := by
  rw [paletteField, h.seenName, h.seenProperties]
  cases hkey : map.lookup key with
  | some tag =>
    rw [if_neg, if_neg]
    · exact follows_seen (by rw [hkey, Option.isSome_some]) h
    all_goals
      rintro ⟨rfl, hseen⟩
      rw [hkey] at hseen
      cases hseen
  | none =>
    split
    case isTrue hname =>
      obtain ⟨rfl, -⟩ := hname
      rw [hkey] at h
      split_ifs with htype
      · subst htype
        refine follows_new hkey (follows_readName room) ?_
        rintro tag name rfl
        rw [lookup_set_self, lookup_set_ne map _ (by decide)]
        exact ⟨rfl, rfl, rfl, h.properties⟩
      · refine follows_new hkey (follows_skip room type) ?_
        rintro tag _ rfl
        rw [lookup_set_self, lookup_set_ne map _ (by decide)]
        exact ⟨h.name.trans (nameOf_of_type htype).symm, rfl, rfl, h.properties⟩
    case isFalse hname =>
      split
      case isTrue hproperties =>
        obtain ⟨rfl, -⟩ := hproperties
        rw [hkey] at h
        split_ifs with htype
        · subst htype
          refine follows_new hkey (follows_readPropertiesCompound room) fun tag values hvalues => ?_
          rw [lookup_set_self, lookup_set_ne map _ (by decide)]
          exact ⟨h.name, rfl, rfl, hvalues.symm⟩
        · refine follows_new hkey (follows_skip room type) ?_
          rintro tag _ rfl
          rw [lookup_set_self, lookup_set_ne map _ (by decide)]
          exact ⟨h.name, rfl, rfl, h.properties.trans (propertiesOf_of_type htype).symm⟩
      case isFalse hproperties =>
        refine follows_new hkey (follows_skip room type) fun tag _ _ => ?_
        rw [lookup_set_ne map _ (ne_of_guard hkey hname), lookup_set_ne map _ (ne_of_guard hkey hproperties)]
        exact h

/-- The text of an item of a palette. -/
theorem follows_readPaletteEntry (room : ℕ) :
    Follows (readPayload room .Compound) (readPaletteEntry room) fun tag name => name = paletteName tag := by
  cases room with
  | zero => exact .fail
  | succ room =>
    refine .map (.entries (follows_paletteField room) ⟨rfl, rfl, rfl, rfl⟩) fun map state h => ?_
    rw [h.name, h.properties]
    rfl

theorem paletteName_of_type (h : tag.type ≠ .Compound) : paletteName tag = unknownName := by
  cases tag <;> first | rfl | exact absurd rfl h

/-- The list of a palette. -/
theorem follows_readPaletteList (room : ℕ) :
    Follows (readPayload room .List) (readPaletteList room) fun tag names =>
      tag.type = .List ∧ names = paletteOf (some tag) := by
  cases room with
  | zero => exact .fail
  | succ room =>
    refine .bind_left _ fun element => (follows_readLength _ _).bind ?_
    rintro length _ rfl
    split
    · exact .pure ⟨rfl, rfl⟩
    · refine (Follows.times (R := fun items names => names = items.map paletteName) ?_ length rfl).map_left ?_
      · rintro items _ rfl
        rw [paletteItem]
        split_ifs with htype
        · subst htype
          refine (follows_readPaletteEntry room).map ?_
          rintro tag _ rfl
          rw [List.map_append, List.map_singleton]
        · refine (follows_skip room element).map ?_
          rintro tag _ rfl
          rw [List.map_append, List.map_singleton, paletteName_of_type htype]
      · rintro items _ rfl
        exact ⟨rfl, rfl⟩

theorem follows_readLongArray (room : ℕ) :
    Follows (readPayload room .LongArray) readLongArray fun tag values =>
      tag.type = .LongArray ∧ values = packedStatesOf (some tag) := by
  cases room with
  | zero => exact .fail
  | succ room =>
    refine .bind_left _ fun length => .map_left (.refl _) ?_
    rintro values _ rfl
    exact ⟨rfl, rfl⟩

theorem entityOf_of_type (h : tag.type ≠ .Compound) : entityOf tag = none := by
  cases tag <;> first | rfl | exact absurd rfl h

/-- The list of the tile entities, each of which may be nested as deeply as a document. -/
theorem follows_readTileEntities {room : ℕ} (hroom : room ≤ maxDepth) :
    Follows (readPayload room .List) (readTileEntities room) fun tag entities =>
      tag.type = .List ∧ entities = entitiesOf (some tag) := by
  cases room with
  | zero => exact .fail
  | succ room =>
    refine .bind_left _ fun element => (follows_readLength _ _).bind ?_
    rintro length _ rfl
    split
    · exact .pure ⟨rfl, rfl⟩
    · refine (Follows.times (R := fun items entities => entities = items.filterMap entityOf) ?_ length rfl).map_left ?_
      · rintro items _ rfl
        rw [tileEntity]
        split_ifs with htype
        · refine (follows_skip room element).map ?_
          rintro tag _ rfl
          rw [List.filterMap_append, List.filterMap_cons_none (entityOf_of_type htype), List.filterMap_nil,
            List.append_nil]
        · obtain rfl := not_not.mp htype
          refine (readPayload_mono (Nat.le_of_lt hroom) .Compound).map ?_
          rintro tag _ rfl
          rw [List.filterMap_append]
          cases hentity : entityOf tag with
          | none =>
            rw [List.filterMap_cons_none hentity]
            rfl
          | some entity =>
            rw [List.filterMap_cons_some hentity]
            rfl
      · rintro items _ rfl
        exact ⟨rfl, rfl⟩

/-- What has been read of a region whose fields are these. -/
structure RegionFieldsRead (positionTag sizeTag paletteTag blockStatesTag entitiesTag : Option Tag)
    (state : RegionState) : Prop where
  positionState : state.region.positionState = fieldState .Compound positionTag
  sizeState : state.region.sizeState = fieldState .Compound sizeTag
  paletteState : state.region.paletteState = fieldState .List paletteTag
  blockStatesState : state.region.blockStatesState = fieldState .LongArray blockStatesTag
  seenTileEntities : state.seenTileEntities = entitiesTag.isSome
  position : state.region.position = xyzField positionTag
  signedSize : state.region.signedSize = xyzField sizeTag
  palette : state.region.palette = paletteOf paletteTag
  packedStates : state.region.packedStates = packedStatesOf blockStatesTag
  blockEntities : state.region.blockEntities = entitiesOf entitiesTag

def RegionRead (map : Compound) (state : RegionState) : Prop :=
  RegionFieldsRead (map.lookup "Position".toList) (map.lookup "Size".toList) (map.lookup "BlockStatePalette".toList)
    (map.lookup "BlockStates".toList) (map.lookup "TileEntities".toList) state

theorem fieldState_some : fieldState expected (some tag) ≠ .Missing := by
  rw [fieldState]
  split <;> exact nofun

/-- A field that is missing and has not been asked for is another one. -/
theorem ne_of_fieldState {state : RequiredFieldState} (hmissing : map.lookup key = none)
    (hstate : state = fieldState expected (map.lookup name)) (h : ¬ (key = name ∧ state = .Missing)) :
    name ≠ key := by
  rintro rfl
  rw [hmissing] at hstate
  exact h ⟨rfl, hstate⟩

/-- A field that is there is not asked for again. -/
theorem not_guard {state : RequiredFieldState} (hkey : map.lookup key = some tag)
    (hstate : state = fieldState expected (map.lookup name)) : ¬ (key = name ∧ state = .Missing) := by
  rintro ⟨rfl, hseen⟩
  rw [hstate, hkey] at hseen
  exact fieldState_some hseen

theorem xyzField_of_type (h : tag.type ≠ .Compound) : xyzField (some tag) = ⟨0, 0, 0⟩ := by
  cases tag <;> first | rfl | exact absurd rfl h

theorem paletteOf_of_type (h : tag.type ≠ .List) : paletteOf (some tag) = [] := by
  cases tag <;> first | rfl | exact absurd rfl h

theorem packedStatesOf_of_type (h : tag.type ≠ .LongArray) : packedStatesOf (some tag) = [] := by
  cases tag <;> first | rfl | exact absurd rfl h

theorem entitiesOf_of_type (h : tag.type ≠ .List) : entitiesOf (some tag) = [] := by
  cases tag <;> first | rfl | exact absurd rfl h

/-- A required field at its first occurrence. -/
theorem follows_readField {read : Reader β} {Q : Tag → β → Prop} {valid : β → RegionState}
    {wrongType : RegionState} (hmissing : map.lookup key = none)
    (hread : Follows (readPayload room expected) read Q)
    (hvalid : ∀ tag value, Q tag value → RegionRead (map.set key tag) (valid value))
    (hwrong : ∀ tag : Tag, tag.type ≠ expected → RegionRead (map.set key tag) wrongType) :
    Follows (treeEntry (readPayload room) map key type) (readField room type expected read valid wrongType)
      RegionRead := by
  rw [readField]
  split_ifs with htype
  · subst htype
    exact follows_new hmissing hread hvalid
  · refine follows_new hmissing (follows_skip room type) ?_
    rintro tag _ rfl
    exact hwrong tag htype

theorem follows_position (h : RegionRead map state) (hkey : map.lookup "Position".toList = none) :
    Follows (treeEntry (readPayload room) map "Position".toList type)
      (readField room type .Compound (readXyzCompound room)
        (fun value => { state with region := { state.region with position := value, positionState := .Valid } })
        { state with region := { state.region with positionState := .WrongType } }) RegionRead := by
  rw [RegionRead, hkey] at h
  refine follows_readField hkey (follows_readXyzCompound room) ?_ fun tag htype => ?_
  rintro _ _ ⟨fields, rfl, rfl⟩
  all_goals
    rw [RegionRead, lookup_set_self, lookup_set_ne map _ (by decide),
      lookup_set_ne map _ (by decide), lookup_set_ne map _ (by decide), lookup_set_ne map _ (by decide)]
  · exact { h with positionState := rfl, position := rfl }
  · exact { h with positionState := (if_neg htype).symm, position := h.position.trans (xyzField_of_type htype).symm }

theorem follows_size (h : RegionRead map state) (hkey : map.lookup "Size".toList = none) :
    Follows (treeEntry (readPayload room) map "Size".toList type)
      (readField room type .Compound (readXyzCompound room)
        (fun value => { state with region := { state.region with signedSize := value, sizeState := .Valid } })
        { state with region := { state.region with sizeState := .WrongType } }) RegionRead := by
  rw [RegionRead, hkey] at h
  refine follows_readField hkey (follows_readXyzCompound room) ?_ fun tag htype => ?_
  rintro _ _ ⟨fields, rfl, rfl⟩
  all_goals
    rw [RegionRead, lookup_set_ne map _ (by decide), lookup_set_self,
      lookup_set_ne map _ (by decide), lookup_set_ne map _ (by decide), lookup_set_ne map _ (by decide)]
  · exact { h with sizeState := rfl, signedSize := rfl }
  · exact { h with sizeState := (if_neg htype).symm, signedSize := h.signedSize.trans (xyzField_of_type htype).symm }

theorem follows_palette (h : RegionRead map state) (hkey : map.lookup "BlockStatePalette".toList = none) :
    Follows (treeEntry (readPayload room) map "BlockStatePalette".toList type)
      (readField room type .List (readPaletteList room)
        (fun value => { state with region := { state.region with palette := value, paletteState := .Valid } })
        { state with region := { state.region with paletteState := .WrongType } }) RegionRead := by
  rw [RegionRead, hkey] at h
  refine follows_readField hkey (follows_readPaletteList room) ?_ fun tag htype => ?_
  rintro tag _ ⟨htype, rfl⟩
  all_goals
    rw [RegionRead, lookup_set_ne map _ (by decide), lookup_set_ne map _ (by decide),
      lookup_set_self, lookup_set_ne map _ (by decide), lookup_set_ne map _ (by decide)]
  · exact { h with paletteState := (if_pos htype).symm, palette := rfl }
  · exact { h with paletteState := (if_neg htype).symm, palette := h.palette.trans (paletteOf_of_type htype).symm }

theorem follows_blockStates (h : RegionRead map state) (hkey : map.lookup "BlockStates".toList = none) :
    Follows (treeEntry (readPayload room) map "BlockStates".toList type)
      (readField room type .LongArray readLongArray
        (fun value => { state with region := { state.region with packedStates := value, blockStatesState := .Valid } })
        { state with region := { state.region with blockStatesState := .WrongType } }) RegionRead := by
  rw [RegionRead, hkey] at h
  refine follows_readField hkey (follows_readLongArray room) ?_ fun tag htype => ?_
  rintro tag _ ⟨htype, rfl⟩
  all_goals
    rw [RegionRead, lookup_set_ne map _ (by decide), lookup_set_ne map _ (by decide),
      lookup_set_ne map _ (by decide), lookup_set_self, lookup_set_ne map _ (by decide)]
  · exact { h with blockStatesState := (if_pos htype).symm, packedStates := rfl }
  · have hpacked := h.packedStates.trans (packedStatesOf_of_type htype).symm
    exact { h with blockStatesState := (if_neg htype).symm, packedStates := hpacked }

theorem follows_tileEntities {room : ℕ} (hroom : room ≤ maxDepth) (h : RegionRead map state)
    (hkey : map.lookup "TileEntities".toList = none) :
    Follows (treeEntry (readPayload room) map "TileEntities".toList type)
      (readField room type .List (readTileEntities room)
        (fun value => { state with region := { state.region with blockEntities := value }, seenTileEntities := true })
        { state with seenTileEntities := true }) RegionRead := by
  rw [RegionRead, hkey] at h
  refine follows_readField hkey (follows_readTileEntities hroom) ?_ fun tag htype => ?_
  rintro tag _ ⟨htype, rfl⟩
  all_goals
    rw [RegionRead, lookup_set_ne map _ (by decide), lookup_set_ne map _ (by decide),
      lookup_set_ne map _ (by decide), lookup_set_ne map _ (by decide), lookup_set_self]
  · exact { h with seenTileEntities := rfl, blockEntities := rfl }
  · exact { h with seenTileEntities := rfl, blockEntities := h.blockEntities.trans (entitiesOf_of_type htype).symm }

theorem follows_regionEntry {room : ℕ} (hroom : room ≤ maxDepth) (map : Compound) (state : RegionState)
    (key : List Char) (type : TagType) (h : RegionRead map state) :
    Follows (treeEntry (readPayload room) map key type) (regionEntry room state key type) RegionRead := by
  rw [regionEntry]
  cases hkey : map.lookup key with
  | some tag =>
    rw [if_neg (not_guard hkey h.positionState), if_neg (not_guard hkey h.sizeState),
      if_neg (not_guard hkey h.paletteState), if_neg (not_guard hkey h.blockStatesState), if_neg]
    · exact follows_seen (by rw [hkey, Option.isSome_some]) h
    · rintro ⟨rfl, hseen⟩
      rw [h.seenTileEntities, hkey] at hseen
      cases hseen
  | none =>
    split
    case isTrue hguard => exact hguard.1 ▸ follows_position h (hguard.1 ▸ hkey)
    case isFalse hposition =>
      split
      case isTrue hguard => exact hguard.1 ▸ follows_size h (hguard.1 ▸ hkey)
      case isFalse hsize =>
        split
        case isTrue hguard => exact hguard.1 ▸ follows_palette h (hguard.1 ▸ hkey)
        case isFalse hpalette =>
          split
          case isTrue hguard => exact hguard.1 ▸ follows_blockStates h (hguard.1 ▸ hkey)
          case isFalse hblockStates =>
            split_ifs with hguard
            · exact hguard.1 ▸ follows_tileEntities hroom h (hguard.1 ▸ hkey)
            · rw [h.seenTileEntities] at hguard
              have hposition := ne_of_fieldState hkey h.positionState hposition
              have hsize := ne_of_fieldState hkey h.sizeState hsize
              have hpalette := ne_of_fieldState hkey h.paletteState hpalette
              have hblockStates := ne_of_fieldState hkey h.blockStatesState hblockStates
              have hguard := ne_of_guard hkey hguard
              refine follows_new hkey (follows_skip room type) fun tag _ _ => ?_
              rw [RegionRead, lookup_set_ne map tag hposition, lookup_set_ne map tag hsize,
                lookup_set_ne map tag hpalette, lookup_set_ne map tag hblockStates, lookup_set_ne map tag hguard]
              exact h

/-- The fields of a region. -/
theorem follows_readRegionCompound {room : ℕ} (hroom : room ≤ maxDepth) :
    Follows (readPayload room .Compound) (readRegionCompound room) fun tag region =>
      ∃ fields, tag = .compound fields ∧ region = regionOf fields := by
  cases room with
  | zero => exact .fail
  | succ room =>
    have hinit : RegionRead {} {} := ⟨rfl, rfl, rfl, rfl, rfl, rfl, rfl, rfl, rfl, rfl⟩
    refine .map (.entries (follows_regionEntry (Nat.le_of_lt hroom)) hinit) fun map state h => ⟨map.entries, rfl, ?_⟩
    exact StreamedRegion.ext h.positionState h.sizeState h.paletteState h.blockStatesState h.position h.signedSize
      h.palette h.packedStates h.blockEntities

/-- Only the first entry counts. -/
theorem regionsOf_cons (first : List Char × Tag) (rest rest' : Entries) :
    regionsOf (first :: rest) = regionsOf (first :: rest') := by
  obtain ⟨name, tag⟩ := first
  cases tag <;> rfl

theorem regionsOf_of_type (h : tag.type ≠ .Compound) (rest : Entries) :
    regionsOf ((name, tag) :: rest) = ⟨true, false, name, {}⟩ := by
  cases tag <;> first | rfl | exact absurd rfl h

theorem regionsOf_guard (name : List Char) (tag : Tag) (rest : Entries) (key : List Char) :
    ((regionsOf ((name, tag) :: rest)).hasEntry = false ∨ key < (regionsOf ((name, tag) :: rest)).selectedName) ↔
      key < name := by
  cases tag <;> simp [regionsOf]

/-- A region that comes first by name is taken for the last one. -/
theorem follows_selected {room : ℕ} (hroom : room ≤ maxDepth) {rest : Entries} (hmissing : map.lookup key = none)
    (hset : ∀ tag, (map.set key tag).entries = (key, tag) :: rest) :
    Follows (treeEntry (readPayload room) map key type)
      (if type = .Compound then do
        let selected ← readRegionCompound room
        pure ⟨true, true, key, selected⟩
      else do
        skipPayload room type
        pure ⟨true, false, key, {}⟩)
      fun map result => result = regionsOf map.entries := by
  split_ifs with htype
  · subst htype
    refine follows_new hmissing (follows_readRegionCompound hroom) ?_
    rintro _ _ ⟨fields, rfl, rfl⟩
    rw [hset]
    rfl
  · refine follows_new hmissing (follows_skip room type) ?_
    rintro tag _ rfl
    rw [hset, regionsOf_of_type htype]

theorem follows_regionsEntry {room : ℕ} (hroom : room ≤ maxDepth) (map : Compound) (result : StreamedRegions)
    (name : List Char) (type : TagType) (h : result = regionsOf map.entries) :
    Follows (treeEntry (readPayload room) map name type) (regionsEntry room result name type)
      fun map result => result = regionsOf map.entries := by
  subst h
  rw [regionsEntry]
  obtain ⟨entries, hsorted⟩ := map
  cases entries with
  | nil =>
    rw [if_pos (.inl rfl)]
    exact follows_selected hroom rfl fun tag => rfl
  | cons first rest =>
    obtain ⟨firstName, firstTag⟩ := first
    split
    case isTrue hguard =>
      have hlt := (regionsOf_guard firstName firstTag rest name).mp hguard
      refine follows_selected hroom (SortedMap.lookup_of_lt ?_) fun tag => if_pos hlt
      have hrest := (List.pairwise_cons.mp hsorted).1
      exact List.forall_mem_cons.mpr ⟨hlt, fun entry hentry => hlt.trans (hrest entry hentry)⟩
    case isFalse hguard =>
      have hle := fun hlt => hguard ((regionsOf_guard firstName firstTag rest name).mpr hlt)
      refine (follows_skip room type).map fun tag _ _ => ?_
      cases hkey : SortedMap.lookup ⟨(firstName, firstTag) :: rest, hsorted⟩ name with
      | some other => rw [SortedMap.emplace_of_present (by rw [hkey, Option.isSome_some])]
      | none =>
        have hne : name ≠ firstName := by
          rintro rfl
          have hpresent := @SortedMap.lookup_of_mem _ _ _ ⟨_, hsorted⟩ _ _ List.mem_cons_self
          exact nomatch hkey.symm.trans hpresent
        have hset : (SortedMap.set ⟨(firstName, firstTag) :: rest, hsorted⟩ name tag).entries =
            (firstName, firstTag) :: SortedMap.setEntry name tag rest := (if_neg hle).trans (if_neg hne)
        rw [SortedMap.emplace_of_missing hkey, hset]
        exact regionsOf_cons _ _ _

/-- All regions. -/
theorem follows_readRegionsCompound {room : ℕ} (hroom : room ≤ maxDepth) :
    Follows (readPayload room .Compound) (readRegionsCompound room) fun tag regions =>
      ∃ entries, tag = .compound entries ∧ regions = regionsOf entries := by
  cases room with
  | zero => exact .fail
  | succ room =>
    refine .map_left (.entries (follows_regionsEntry (Nat.le_of_lt hroom)) rfl) ?_
    rintro map _ rfl
    exact ⟨map.entries, rfl, rfl⟩

theorem rootOf_present (map : Compound) : (rootOf map).regionsPresent = (map.lookup "Regions".toList).isSome := by
  rw [rootOf]
  cases map.lookup "Regions".toList with
  | none => rfl
  | some tag => cases tag <;> rfl

theorem rootOf_of_type (hlookup : map.lookup "Regions".toList = some tag) (h : tag.type ≠ .Compound) :
    rootOf map = { regionsPresent := true } := by
  rw [rootOf, hlookup]
  cases tag <;> first | rfl | exact absurd rfl h

theorem follows_rootEntry (map : Compound) (result : StreamedRoot) (key : List Char) (type : TagType)
    (h : result = rootOf map) :
    Follows (treeEntry (readPayload maxDepth) map key type) (rootEntry result key type)
      fun map result => result = rootOf map := by
  subst h
  rw [rootEntry, rootOf_present]
  cases hkey : map.lookup key with
  | some tag =>
    rw [if_neg]
    · exact follows_seen (by rw [hkey, Option.isSome_some]) rfl
    · rintro ⟨rfl, hseen⟩
      rw [hkey] at hseen
      cases hseen
  | none =>
    split
    case isTrue hregions =>
      obtain ⟨rfl, -⟩ := hregions
      have hroot : rootOf map = {} := by rw [rootOf, hkey]
      split_ifs with htype
      · subst htype
        refine follows_new hkey (follows_readRegionsCompound le_rfl) ?_
        rintro _ _ ⟨entries, rfl, rfl⟩
        rw [rootOf, lookup_set_self]
      · refine follows_new hkey (follows_skip maxDepth type) ?_
        rintro tag _ rfl
        rw [rootOf_of_type (lookup_set_self map _ tag) htype, hroot]
    case isFalse hregions =>
      refine follows_new hkey (follows_skip maxDepth type) fun tag _ _ => ?_
      rw [rootOf, rootOf, lookup_set_ne map _ (ne_of_guard hkey hregions)]

/-- For every document that the whole tree can be read of, the stream gives what the tree selects, and it leaves
the same bytes. -/
theorem readLitematicRoot_tree (input : Input) (name : List Char) (root : Compound) (rest : Input)
    (h : readCompound input = .ok ((name, root), rest)) : readLitematicRoot input = .ok (rootOf root, rest) := by
  have hfollows : Follows readCompound readLitematicRoot fun document result => result = rootOf document.2 := by
    refine .bind_left _ fun type => (follows_failIf _ _ _).bind fun _ _ _ => ?_
    refine (follows_readString _ _).bind fun name _ _ => ?_
    refine (Follows.entries follows_rootEntry rfl).map_left ?_
    rintro map _ rfl
    rfl
  obtain ⟨_, hresult, rfl⟩ := hfollows input _ rest h
  exact hresult

/-- The type and the name of an entry. -/
def entryStart (type : UInt8) (name : String) : List UInt8 :=
  type :: be16 name.length ++ textBytes name.toList

def sampleDocument : List UInt8 :=
  [10, 0, 0] ++ entryStart 10 "Regions" ++
      entryStart 10 "b" ++ [0] ++
      entryStart 10 "a" ++
        entryStart 10 "Position" ++ entryStart 3 "x" ++ be32 7 ++ entryStart 3 "x" ++ be32 8 ++ [0] ++ [0] ++
      entryStart 1 "a" ++ [1] ++ [0] ++
    entryStart 1 "Regions" ++ [5] ++ [0]
/-- Two regions and two tags of their name: the first `a` is taken, and its first `x`. -/
theorem readLitematicRoot_tree_sample : ∃ root : Compound,
    readLitematicRoot sampleDocument = .ok (rootOf root, []) ∧
      (rootOf root).regions.selectedName = ['a'] ∧ (rootOf root).regions.selected.position = ⟨7, 0, 0⟩ := by
  have hread : ((readCompound sampleDocument).toOption.map fun result =>
      (result.2, (rootOf result.1.2).regions.selectedName, (rootOf result.1.2).regions.selected.position)) =
        some ([], ['a'], ⟨7, 0, 0⟩) := by decide +kernel
  cases hdocument : readCompound sampleDocument with
  | error error =>
    rw [hdocument] at hread
    cases hread
  | ok document =>
    obtain ⟨⟨name, root⟩, rest⟩ := document
    rw [hdocument] at hread
    obtain ⟨rfl, hname⟩ := Prod.mk.inj (Option.some.inj hread)
    obtain ⟨hname, hposition⟩ := Prod.mk.inj hname
    exact ⟨root, readLitematicRoot_tree sampleDocument name root [] hdocument, hname, hposition⟩

end Entries

end LitematicStream

end WaterStructure
