import WaterStructure.Core.Text
import WaterStructure.Formats.FormatRegistry

/-!
# What the probe finds

The probe goes over the events of a document and forgets what stands inside of the members and elements
that it looks at. What it has kept at the end is what the rules ask of the finished document.
-/

namespace WaterStructure

namespace FormatRegistry

open Json (SaxEvent events itemsEvents membersEvents)
open LastValue

def probeType : Json → JsonProbeType
  | .null => .Null
  | .boolean _ => .Boolean
  | .unsigned _ => .Integer
  | .integer _ => .Integer
  | .float _ => .Float
  | .string _ => .String
  | .array _ => .Array
  | .object _ => .Object

/-- The text that comes with a value. -/
def probeText : Json → List Char
  | .string value => value
  | _ => []

/-! ## The rules on a finished document -/

/-- A member of this type. -/
def memberIs (value : Json) (name : String) (type : JsonProbeType) : Bool :=
  (value.member? name).map probeType = some type

def isTimeBuilder (document : Json) : Bool :=
  (document.member? "version").any fun version =>
    probeType version = .String && probeText version = "TimeBuilder".toList

def objectFormat (document : Json) : Option StructureId :=
  if isTimeBuilder document then some .TimeBuilderV1
  else if document.contains "FuHongBuild_FinalFormat" then some .FuHongV2
  else if document.contains "FuHongBuild" then
    some (if document.contains "BlockCalculationPos" then .FuHongV3 else .FuHongV4)
  else if document.contains "chunkedBlocks" ∧ document.contains "namespaces" then some .MianYangV1
  else if document.contains "totalBlocks" then some .QingXuV1
  else if document.contains "block" ∧ document.contains "version" then some .TimeBuilderV1
  else if (document.contains "size" ∨ document.contains "dimensions") ∧ document.contains "structure" then
    some .CovStructure
  else none

/-- An element of a RunAway structure. -/
def isRunAway (element : Json) : Bool :=
  probeType element = .Object && memberIs element "name" .String && memberIs element "x" .Integer &&
    memberIs element "y" .Integer && memberIs element "z" .Integer

/-- The rules on the elements of an array: its first, second, last but one and last one. -/
def elementsFormat (items : List Json) (first : Json) (second penultimate : Option Json) (last : Json) :
    Option StructureId :=
  if probeType first = .Array ∧ probeType last = .Array then some .GangBanV6
  else if jsonProbeNumber (probeType first) ∧ penultimate.any (Json.contains · "ep") ∧
      probeType last = .Array then
    some .GangBanV5
  else if probeType first = .Object then
    if items.all isRunAway then some .RunAway
    else if first.contains "name" ∧ first.contains "aux" ∧ first.contains "x" ∧ first.contains "y" ∧
        first.contains "z" then
      some .FuHongV1
    else if items.length ≥ 2 ∧ last.contains "list" then
      some (if penultimate.any (fun element => element.contains "start" && element.contains "end") then
        .GangBanV1 else .GangBanV2)
    else if first.contains "xcha" then
      if second.map probeType = some .String then some .GangBanV3
      else if second.map probeType = some .Array then some .GangBanV4
      else none
    else none
  else none

/-- The format by the rules of `detected`, read off the finished document. -/
def documentFormat : Json → Option StructureId
  | .object members => objectFormat (.object members)
  | .array items =>
    match items.head?, items.getLast? with
    | some first, some last => elementsFormat items first items[1]? items.dropLast.getLast? last
    | _, _ => none
  | _ => none

/-! ## Values that the probe forgets -/

/-- A frame without its key, which only an object has. -/
def Frame.cleared (frame : Frame) : Frame := if frame.type = .Object then { frame with key := [] } else frame

namespace JsonFormatProbe

/-- The callbacks for some events. -/
abbrev run (events : List SaxEvent) (probe : JsonFormatProbe) : Option JsonFormatProbe :=
  events.foldlM handle probe

def withFrames (probe : JsonFormatProbe) (frames : List Frame) : JsonFormatProbe := { probe with frames }

@[simp] theorem withFrames_frames (probe : JsonFormatProbe) (frames : List Frame) :
    (probe.withFrames frames).frames = frames := rfl

@[simp] theorem withFrames_rootType (probe : JsonFormatProbe) (frames : List Frame) :
    (probe.withFrames frames).rootType = probe.rootType := rfl

@[simp] theorem withFrames_self (probe : JsonFormatProbe) : probe.withFrames probe.frames = probe := rfl

/-- What begins here is forgotten: the innermost frame is not the root array, nor an object whose members
are recorded. -/
structure Deep (probe : JsonFormatProbe) (parent : Frame) (outer : List Frame) : Prop where
  frames : probe.frames = parent :: outer
  array : probe.rootType = .Array → outer ≠ []
  object : parent.type = .Object → outer ≠ [] ∧ (probe.rootType = .Array → 2 ≤ outer.length)

variable {probe : JsonFormatProbe} {parent : Frame} {outer : List Frame} {next : JsonFormatProbe}

theorem Deep.withKey (h : Deep probe parent outer) (key : List Char) :
    Deep (probe.withFrames (⟨parent.type, key⟩ :: outer)) ⟨parent.type, key⟩ outer :=
  ⟨rfl, h.array, h.object⟩

/-- Inside of what is forgotten everything is forgotten. -/
theorem Deep.push (h : Deep probe parent outer) (type : JsonProbeType) (frame : Frame) :
    Deep (probe.withFrames (⟨type, []⟩ :: frame :: outer)) ⟨type, []⟩ (frame :: outer) where
  frames := rfl
  array := fun _ => List.cons_ne_nil _ _
  object := fun _ => ⟨List.cons_ne_nil _ _, fun harray => by
    have hpositive := List.length_pos_of_ne_nil (h.array harray)
    rw [List.length_cons]
    omega⟩

theorem Deep.beginValue (h : Deep probe parent outer) (type : JsonProbeType) (text : List Char) :
    probe.beginValue type text = some (probe.withFrames (parent.cleared :: outer)) := by
  have hroot : ¬ (probe.rootType = .Array ∧ probe.frames.length = 1 ∧ parent.type = .Array) := by
    rintro ⟨harray, hlength, -⟩
    have hpositive := List.length_pos_of_ne_nil (h.array harray)
    rw [h.frames, List.length_cons] at hlength
    omega
  rw [JsonFormatProbe.beginValue, h.frames]
  dsimp only
  rw [← h.frames, if_neg hroot]
  by_cases hobject : parent.type = .Object
  · obtain ⟨hne, hinner⟩ := h.object hobject
    have hpositive := List.length_pos_of_ne_nil hne
    have hlength : probe.frames.length = outer.length + 1 := by rw [h.frames, List.length_cons]
    rw [if_neg (not_not_intro hobject), if_neg fun hroot => by omega,
      if_neg fun helement => by have := hinner helement.1; omega, Frame.cleared, if_pos hobject]
    rfl
  · rw [if_pos hobject, Frame.cleared, if_neg hobject, ← h.frames, withFrames_self]

theorem Deep.frames_ne_nil (h : Deep probe parent outer) : probe.frames ≠ [] := by
  rw [h.frames]
  exact List.cons_ne_nil parent outer

theorem Deep.not_element (h : Deep probe parent outer) :
    ¬ (probe.rootType = .Array ∧ probe.frames.length = 1) := by
  rintro ⟨harray, hlength⟩
  have hpositive := List.length_pos_of_ne_nil (h.array harray)
  rw [h.frames, List.length_cons] at hlength
  omega

theorem Deep.value {probe : JsonFormatProbe} {parent : Frame} {outer : List Frame}
    (h : Deep probe parent outer) (type : JsonProbeType) (text : List Char) :
    probe.value type text = some (probe.withFrames (parent.cleared :: outer)) := by
  have hlength : (parent.cleared :: outer).length = probe.frames.length := by
    rw [h.frames, List.length_cons, List.length_cons]
  rw [JsonFormatProbe.value, if_neg h.frames_ne_nil, h.beginValue, Option.map_some, withFrames_rootType,
    withFrames_frames, hlength, if_neg h.not_element]

theorem Deep.startContainer (h : Deep probe parent outer) (type : JsonProbeType)
    (hdepth : probe.frames.length < 256) :
    probe.startContainer type = some (probe.withFrames (⟨type, []⟩ :: parent.cleared :: outer)) := by
  rw [JsonFormatProbe.startContainer, if_neg (not_le.mpr hdepth), beginContainer,
    if_neg h.frames_ne_nil, h.beginValue]
  rfl

/-- A container ends that is no element. -/
theorem endContainer_eq {probe : JsonFormatProbe} {outer : List Frame} {type : JsonProbeType}
    {key : List Char} (helement : ¬ (probe.rootType = .Array ∧ outer.length = 1)) :
    (probe.withFrames (⟨type, key⟩ :: outer)).endContainer type = some (probe.withFrames outer) := by
  refine (if_neg (not_not_intro rfl)).trans (congrArg some (if_neg ?_))
  rintro ⟨harray, hlength⟩
  have hlength : outer.length + 1 = 2 := hlength
  exact helement ⟨harray, by omega⟩

theorem Deep.not_element_outer (h : Deep probe parent outer) :
    ¬ (probe.rootType = .Array ∧ (parent.cleared :: outer).length = 1) := by
  rintro ⟨harray, hlength⟩
  have hpositive := List.length_pos_of_ne_nil (h.array harray)
  rw [List.length_cons] at hlength
  omega

theorem key_eq (hframes : probe.frames = parent :: outer) (hobject : parent.type = .Object) (name : List Char) :
    probe.key name = some (probe.withFrames (⟨.Object, name⟩ :: outer)) := by
  rw [key, hframes]
  dsimp only
  rw [if_neg (not_not_intro hobject), hobject]
  rfl

theorem run_append {first second : List SaxEvent} (h : run first probe = some next) :
    run (first ++ second) probe = run second next := by
  rw [run, List.foldlM_append]
  exact congrArg (· >>= run second) h

variable {event : SaxEvent} {type : JsonProbeType}

theorem run_cons {rest : List SaxEvent} (h : probe.handle event = some next) :
    run (event :: rest) probe = run rest next := by
  rw [run, List.foldlM_cons, h]
  rfl

theorem run_single (h : probe.handle event = some next) : run [event] probe = some next :=
  run_cons h

/-- Values that stand in a container which is forgotten. -/
theorem run_items_deep {items : List Json} {probe : JsonFormatProbe} {parent : Frame} {outer : List Frame}
    (h : Deep probe parent outer) (harray : parent.type = .Array)
    (hitems : ∀ item ∈ items, run item.events probe = some (probe.withFrames (parent.cleared :: outer))) :
    run (itemsEvents items) probe = some probe := by
  induction items with
  | nil => rfl
  | cons item rest ih =>
    have hkept : parent.cleared = parent := by
      rw [Frame.cleared, harray]
      rfl
    have hsame : probe.withFrames (parent.cleared :: outer) = probe := by
      rw [hkept, ← h.frames, withFrames_self]
    rw [itemsEvents, run_append (hitems item List.mem_cons_self), hsame]
    exact ih fun other hother => hitems other (List.mem_cons_of_mem item hother)

/-- What a member leaves behind when its value leaves the key behind. -/
theorem run_members {step : JsonFormatProbe → List Char × Json → JsonFormatProbe}
    {members : List (List Char × Json)} {outer : List Frame} {Inv : JsonFormatProbe → Prop}
    (hframes : ∀ probe, Inv probe → probe.frames = ⟨.Object, []⟩ :: outer)
    (hstep : ∀ probe, Inv probe → ∀ member ∈ members, Inv (step probe member) ∧
      run member.2.events (probe.withFrames (⟨.Object, member.1⟩ :: outer)) = some (step probe member))
    {probe : JsonFormatProbe} (h : Inv probe) :
    run (membersEvents members) probe = some (members.foldl step probe) := by
  induction members generalizing probe with
  | nil => rfl
  | cons member rest ih =>
    obtain ⟨name, value⟩ := member
    obtain ⟨hinv, hrun⟩ := hstep probe h (name, value) List.mem_cons_self
    have hkey : probe.handle (.key name) = some (probe.withFrames (⟨.Object, name⟩ :: outer)) :=
      key_eq (hframes probe h) rfl name
    rw [membersEvents, Json.memberEvents, List.cons_append, run_cons hkey, run_append hrun]
    exact ih (fun probe hprobe member hmember =>
      hstep probe hprobe member (List.mem_cons_of_mem _ hmember)) hinv

/-- A value that is forgotten takes the key with it. -/
theorem run_deep (value : Json) (h : Deep probe parent outer) (hdepth : probe.frames.length + value.depth ≤ 256) :
    run value.events probe = some (probe.withFrames (parent.cleared :: outer)) := by
  induction value using Json.inductionOn generalizing probe parent outer with
  | hnull | hboolean | hunsigned | hinteger | hfloat | hstring => exact run_single (h.value _ _)
  | harray items ih =>
    rw [Json.depth] at hdepth
    have hlength : probe.frames.length = outer.length + 1 := by rw [h.frames, List.length_cons]
    have hinside := h.push .Array parent.cleared
    have hitems := @run_items_deep items _ _ _ hinside rfl fun item hitem => ih item hitem hinside (by
      have := Json.depth_le_itemsDepth hitem
      rw [withFrames_frames, List.length_cons, List.length_cons]
      omega)
    have hstart : probe.handle .startArray =
        some (probe.withFrames (⟨.Array, []⟩ :: parent.cleared :: outer)) := h.startContainer .Array (by omega)
    have hend : (probe.withFrames (⟨.Array, []⟩ :: parent.cleared :: outer)).handle .endArray =
        some (probe.withFrames (parent.cleared :: outer)) :=
      @endContainer_eq probe (parent.cleared :: outer) .Array [] h.not_element_outer
    rw [events, run_cons hstart, run_append hitems]
    exact run_single hend
  | hobject members ih =>
    rw [Json.depth] at hdepth
    have hlength : probe.frames.length = outer.length + 1 := by rw [h.frames, List.length_cons]
    have hinside := h.push .Object parent.cleared
    have hmembers := @run_members (fun probe _ => probe) members (parent.cleared :: outer)
      (fun inner => inner = probe.withFrames (⟨.Object, []⟩ :: parent.cleared :: outer))
      (fun inner hinner => hinner ▸ rfl)
      (fun inner hinner member hmember => by
        refine ⟨hinner, ?_⟩
        rw [hinner]
        refine ih member hmember (hinside.withKey member.1) ?_
        have := Json.depth_le_membersDepth hmember
        rw [withFrames_frames, List.length_cons, List.length_cons]
        omega) _ rfl
    have hstart : probe.handle .startObject =
        some (probe.withFrames (⟨.Object, []⟩ :: parent.cleared :: outer)) :=
      h.startContainer .Object (by omega)
    have hsame : members.foldl (fun probe _ => probe)
        (probe.withFrames (⟨.Object, []⟩ :: parent.cleared :: outer)) =
          probe.withFrames (⟨.Object, []⟩ :: parent.cleared :: outer) := List.foldl_fixed _
    rw [hsame] at hmembers
    have hend : (probe.withFrames (⟨.Object, []⟩ :: parent.cleared :: outer)).handle .endObject =
        some (probe.withFrames (parent.cleared :: outer)) :=
      @endContainer_eq probe (parent.cleared :: outer) .Object [] h.not_element_outer
    rw [events, run_cons hstart, run_append hmembers]
    exact run_single hend

/-! ## Values that the probe looks at -/

/-- After a value: an element of the root array is finished. -/
def finished (probe : JsonFormatProbe) : JsonFormatProbe :=
  if probe.rootType = .Array ∧ probe.frames.length = 1 then probe.finishRootElement else probe

theorem value_of_beginValue {text : List Char} (hne : probe.frames ≠ [])
    (h : probe.beginValue type text = some next) : probe.value type text = some next.finished := by
  rw [JsonFormatProbe.value, if_neg hne, h]
  rfl

theorem startContainer_of_beginValue (hne : probe.frames ≠ []) (hdepth : probe.frames.length < 256)
    (h : probe.beginValue type [] = some next) :
    probe.startContainer type = some (next.withFrames (⟨type, []⟩ :: next.frames)) := by
  rw [JsonFormatProbe.startContainer, if_neg (not_le.mpr hdepth), beginContainer, if_neg hne, h]
  rfl

theorem endContainer_finished (next : JsonFormatProbe) (type : JsonProbeType) (key : List Char) :
    (next.withFrames (⟨type, key⟩ :: next.frames)).endContainer type = some next.finished := by
  refine (if_neg (not_not_intro rfl)).trans (congrArg some ?_)
  rw [finished]
  refine if_congr ?_ rfl rfl
  rw [withFrames_rootType, withFrames_frames, List.length_cons]
  exact and_congr_right fun _ => by omega

/-- A value whose inside is forgotten: only its beginning is looked at. -/
theorem run_value (value : Json) (hne : probe.frames ≠ [])
    (hbegin : probe.beginValue (probeType value) (probeText value) = some next)
    (hlength : next.frames.length = probe.frames.length)
    (hinside : Deep (next.withFrames (⟨probeType value, []⟩ :: next.frames)) ⟨probeType value, []⟩ next.frames)
    (hdepth : probe.frames.length + value.depth ≤ 256) : run value.events probe = some next.finished := by
  have hvalue := value_of_beginValue hne hbegin
  cases value with
  | null | boolean | unsigned | integer | float | string => exact run_single hvalue
  | array items =>
    rw [Json.depth] at hdepth
    have hstart : probe.handle .startArray = some (next.withFrames (⟨.Array, []⟩ :: next.frames)) :=
      startContainer_of_beginValue hne (by omega) hbegin
    have hitems := @run_items_deep items (next.withFrames (⟨.Array, []⟩ :: next.frames)) ⟨.Array, []⟩
        next.frames hinside rfl fun item hitem => run_deep item hinside (by
      have := Json.depth_le_itemsDepth hitem
      rw [withFrames_frames, List.length_cons]
      omega)
    have hend : (next.withFrames (⟨.Array, []⟩ :: next.frames)).handle .endArray = some next.finished :=
      endContainer_finished next .Array []
    rw [events, run_cons hstart, run_append hitems]
    exact run_single hend
  | object members =>
    rw [Json.depth] at hdepth
    have hstart : probe.handle .startObject = some (next.withFrames (⟨.Object, []⟩ :: next.frames)) :=
      startContainer_of_beginValue hne (by omega) hbegin
    have hmembers := @run_members (fun probe _ => probe) members next.frames
      (fun inner => inner = next.withFrames (⟨.Object, []⟩ :: next.frames)) (fun inner hinner => hinner ▸ rfl)
      (fun inner hinner member hmember => by
        refine ⟨hinner, ?_⟩
        rw [hinner]
        refine run_deep member.2 (hinside.withKey member.1) ?_
        have := Json.depth_le_membersDepth hmember
        rw [withFrames_frames, List.length_cons]
        omega) _ rfl
    have hsame : members.foldl (fun probe _ => probe) (next.withFrames (⟨.Object, []⟩ :: next.frames)) =
        next.withFrames (⟨.Object, []⟩ :: next.frames) := List.foldl_fixed _
    have hend : (next.withFrames (⟨.Object, []⟩ :: next.frames)).handle .endObject = some next.finished :=
      endContainer_finished next .Object []
    rw [hsame] at hmembers
    rw [events, run_cons hstart, run_append hmembers]
    exact run_single hend

/-! ## A document that is an object -/

/-- What a member of the document leaves behind. -/
def pushMember (probe : JsonFormatProbe) (member : List Char × Json) : JsonFormatProbe :=
  probe.recordRootKey member.1 (probeType member.2) (probeText member.2)

/-- A key is recorded in the fields that ask for it. -/
theorem recordRootKey_eq (probe : JsonFormatProbe) (key : List Char) (type : JsonProbeType)
    (text : List Char) : probe.recordRootKey key type text = { probe with
      hasVersion := if key = "version".toList then true else probe.hasVersion
      versionIsTimeBuilder :=
        if key = "version".toList then type = .String && text = "TimeBuilder".toList
        else probe.versionIsTimeBuilder
      hasFuHongFinal := if key = "FuHongBuild_FinalFormat".toList then true else probe.hasFuHongFinal
      hasFuHongBuild := if key = "FuHongBuild".toList then true else probe.hasFuHongBuild
      hasBlockCalculationPos := if key = "BlockCalculationPos".toList then true else probe.hasBlockCalculationPos
      hasChunkedBlocks := if key = "chunkedBlocks".toList then true else probe.hasChunkedBlocks
      hasNamespaces := if key = "namespaces".toList then true else probe.hasNamespaces
      hasTotalBlocks := if key = "totalBlocks".toList then true else probe.hasTotalBlocks
      hasBlock := if key = "block".toList then true else probe.hasBlock
      hasSize := if key = "size".toList then true else probe.hasSize
      hasDimensions := if key = "dimensions".toList then true else probe.hasDimensions
      hasStructure := if key = "structure".toList then true else probe.hasStructure } := by
  by_cases hkey : key ∈ ["version", "FuHongBuild_FinalFormat", "FuHongBuild", "BlockCalculationPos", "chunkedBlocks",
      "namespaces", "totalBlocks", "block", "size", "dimensions", "structure"].map String.toList
  · simp only [List.map_cons, List.map_nil, List.mem_cons, List.not_mem_nil, or_false] at hkey
    rcases hkey with rfl | rfl | rfl | rfl | rfl | rfl | rfl | rfl | rfl | rfl | rfl <;> rfl
  · simp only [List.map_cons, List.map_nil, List.mem_cons, List.not_mem_nil, or_false, not_or] at hkey
    simp only [recordRootKey, hkey, if_false]

theorem beginValue_rootMember {probe : JsonFormatProbe} {name : List Char} (hroot : probe.rootType = .Object)
    (type : JsonProbeType) (text : List Char) :
    (probe.withFrames [⟨.Object, name⟩]).beginValue type text =
      some ((probe.withFrames [⟨.Object, []⟩]).recordRootKey name type text) := by
  have helement : ¬ (probe.rootType = .Array ∧ [(⟨.Object, name⟩ : Frame)].length = 1 ∧
      JsonProbeType.Object = .Array) := fun h => by cases h.2.2
  exact (if_neg helement).trans ((if_neg (not_not_intro rfl)).trans (if_pos ⟨hroot, rfl⟩))

/-- The members of the document are recorded in turn. -/
theorem run_rootMembers {members : List (List Char × Json)} {probe : JsonFormatProbe}
    (hframes : probe.frames = [⟨.Object, []⟩]) (hroot : probe.rootType = .Object)
    (hdepth : Json.membersDepth members < 256) :
    run (membersEvents members) probe = some (members.foldl pushMember probe) := by
  refine @run_members pushMember members []
    (fun inner => inner.frames = [⟨.Object, []⟩] ∧ inner.rootType = .Object) (fun inner hinner => hinner.1)
    (fun inner hinner member hmember => ?_) probe ⟨hframes, hroot⟩
  have hpush : (pushMember inner member).frames = [⟨.Object, []⟩] ∧
      (pushMember inner member).rootType = .Object := by
    rw [pushMember, recordRootKey_eq]
    exact hinner
  have hsame : inner.withFrames [⟨.Object, []⟩] = inner := by rw [← hinner.1, withFrames_self]
  have hbegin := @beginValue_rootMember inner member.1 hinner.2 (probeType member.2) (probeText member.2)
  rw [hsame] at hbegin
  have hfinished : (pushMember inner member).finished = pushMember inner member := by
    rw [finished, hpush.2]
    exact if_neg fun h => by cases h.1
  refine ⟨hpush, (run_value member.2 (List.cons_ne_nil _ _) hbegin ?_ ?_ ?_).trans (congrArg some hfinished)⟩
  · rw [withFrames_frames, List.length_singleton]
    exact congrArg List.length hpush.1
  · refine ⟨rfl, fun harray => ?_, fun _ => ⟨?_, fun harray => ?_⟩⟩
    · cases harray.symm.trans hpush.2
    · exact hpush.1 ▸ List.cons_ne_nil _ _
    · cases harray.symm.trans hpush.2
  · have := Json.depth_le_membersDepth hmember
    rw [withFrames_frames, List.length_singleton]
    omega

theorem run_object {members : List (List Char × Json)} (hdepth : Json.membersDepth members < 256) :
    run (Json.object members).events {} =
      some ((members.foldl pushMember { frames := [⟨.Object, []⟩], rootType := .Object }).withFrames []) := by
  have hstart : handle {} .startObject = some { frames := [⟨.Object, []⟩], rootType := .Object } := rfl
  have hmembers := @run_rootMembers members { frames := [⟨.Object, []⟩], rootType := .Object } rfl rfl hdepth
  have hframe : (members.foldl pushMember { frames := [⟨.Object, []⟩], rootType := .Object }).frames =
      [⟨.Object, []⟩] ∧
        (members.foldl pushMember { frames := [⟨.Object, []⟩], rootType := .Object }).rootType = .Object := by
    refine List.foldlRecOn (motive := fun probe : JsonFormatProbe =>
      probe.frames = [⟨.Object, []⟩] ∧ probe.rootType = .Object) members pushMember ⟨rfl, rfl⟩ ?_
    intro probe hprobe member _
    rw [pushMember, recordRootKey_eq]
    exact hprobe
  generalize members.foldl pushMember { frames := [⟨.Object, []⟩], rootType := .Object } = last at *
  have hend : last.handle .endObject = some (last.withFrames []) := by
    have hended := @endContainer_eq last [] .Object [] fun h => by cases h.1.symm.trans hframe.2
    rwa [← hframe.1, withFrames_self] at hended
  rw [events, run_cons hstart, run_append hmembers]
  exact run_single hend

end JsonFormatProbe

theorem probeType_normal (value : Json) : probeType value.normal = probeType value := by
  cases value <;> rfl

theorem probeText_normal (value : Json) : probeText value.normal = probeText value := by
  cases value <;> rfl

/-- A field that the members of one name set says what the last of them sets. -/
theorem field_foldl {σ : Type} {field : σ → Bool} {step : σ → List Char × Json → σ} {name : String}
    {flag : Json → Bool}
    (hstep : ∀ s member, field (step s member) =
      if member.1 = name.toList then flag member.2 else field s)
    (hnormal : ∀ value, flag value.normal = flag value) (members : List (List Char × Json)) {s : σ}
    (hstart : field s = false) :
    field (members.foldl step s) = ((Json.object members).normal.member? name).any flag := by
  have hfold := foldl_observe field (fun member : List Char × Json =>
    (if member.1 = name.toList then some member.2.normal else none).map flag) step members s
    fun s member _ => by
      rw [hstep]
      split
      · exact (hnormal member.2).symm
      · rfl
  rw [hfold, lastValue_map_value, ← Json.member?_normal, hstart]
  cases (Json.object members).normal.member? name <;> rfl

theorem contains_eq_any (value : Json) (name : String) :
    value.contains name = (value.member? name).any fun _ => true := by
  rw [Json.contains]
  cases value.member? name <;> rfl

theorem memberIs_eq_any (value : Json) (name : String) (type : JsonProbeType) :
    memberIs value name type = (value.member? name).any fun member => decide (probeType member = type) := by
  rw [memberIs]
  cases value.member? name with
  | none => rfl
  | some member => exact decide_eq_decide.mpr (Option.some_inj)

namespace JsonFormatProbe

variable {probe : JsonFormatProbe}

/-- A field that is set by the members of a name says whether there is one. -/
theorem has_eq_contains {field : JsonFormatProbe → Bool} {name : String}
    (hstep : ∀ probe member, field (pushMember probe member) =
      if member.1 = name.toList then true else field probe) (members : List (List Char × Json))
    (hstart : field probe = false) :
    field (members.foldl pushMember probe) = (Json.object members).normal.contains name := by
  rw [contains_eq_any]
  exact field_foldl hstep (fun _ => rfl) members hstart

/-- The recorded keys are those of a document. -/
structure Knows (probe : JsonFormatProbe) (document : Json) : Prop where
  versionIsTimeBuilder : probe.versionIsTimeBuilder = isTimeBuilder document
  hasVersion : probe.hasVersion = document.contains "version"
  hasFuHongFinal : probe.hasFuHongFinal = document.contains "FuHongBuild_FinalFormat"
  hasFuHongBuild : probe.hasFuHongBuild = document.contains "FuHongBuild"
  hasBlockCalculationPos : probe.hasBlockCalculationPos = document.contains "BlockCalculationPos"
  hasChunkedBlocks : probe.hasChunkedBlocks = document.contains "chunkedBlocks"
  hasNamespaces : probe.hasNamespaces = document.contains "namespaces"
  hasTotalBlocks : probe.hasTotalBlocks = document.contains "totalBlocks"
  hasBlock : probe.hasBlock = document.contains "block"
  hasSize : probe.hasSize = document.contains "size"
  hasDimensions : probe.hasDimensions = document.contains "dimensions"
  hasStructure : probe.hasStructure = document.contains "structure"

theorem knows_foldl (members : List (List Char × Json)) :
    Knows (members.foldl pushMember { frames := [⟨.Object, []⟩], rootType := .Object })
      (Json.object members).normal where
  versionIsTimeBuilder := by
    refine @field_foldl _ versionIsTimeBuilder pushMember "version" (fun version =>
      probeType version = .String && probeText version = "TimeBuilder".toList)
      (fun probe member => ?_) (fun value => ?_) members _ rfl
    · exact congrArg versionIsTimeBuilder (recordRootKey_eq probe member.1 _ _)
    · rw [probeType_normal, probeText_normal]
  hasVersion := has_eq_contains (fun probe member => congrArg hasVersion (recordRootKey_eq probe ..)) members rfl
  hasFuHongFinal := has_eq_contains (fun probe member => congrArg hasFuHongFinal (recordRootKey_eq probe ..)) members rfl
  hasFuHongBuild := has_eq_contains (fun probe member => congrArg hasFuHongBuild (recordRootKey_eq probe ..)) members rfl
  hasBlockCalculationPos := has_eq_contains (fun probe member => congrArg hasBlockCalculationPos (recordRootKey_eq probe ..)) members rfl
  hasChunkedBlocks := has_eq_contains (fun probe member => congrArg hasChunkedBlocks (recordRootKey_eq probe ..)) members rfl
  hasNamespaces := has_eq_contains (fun probe member => congrArg hasNamespaces (recordRootKey_eq probe ..)) members rfl
  hasTotalBlocks := has_eq_contains (fun probe member => congrArg hasTotalBlocks (recordRootKey_eq probe ..)) members rfl
  hasBlock := has_eq_contains (fun probe member => congrArg hasBlock (recordRootKey_eq probe ..)) members rfl
  hasSize := has_eq_contains (fun probe member => congrArg hasSize (recordRootKey_eq probe ..)) members rfl
  hasDimensions := has_eq_contains (fun probe member => congrArg hasDimensions (recordRootKey_eq probe ..)) members rfl
  hasStructure := has_eq_contains (fun probe member => congrArg hasStructure (recordRootKey_eq probe ..)) members rfl

/-- The rules read the finished document off the recorded keys. -/
theorem Knows.detectedObject {document : Json} (h : Knows probe document) :
    probe.detectedObject = objectFormat document := by
  rw [JsonFormatProbe.detectedObject, objectFormat, h.versionIsTimeBuilder, h.hasFuHongFinal,
    h.hasFuHongBuild, h.hasBlockCalculationPos, h.hasChunkedBlocks, h.hasNamespaces, h.hasTotalBlocks,
    h.hasBlock, h.hasVersion, h.hasSize, h.hasDimensions, h.hasStructure]

theorem rootType_foldl (members : List (List Char × Json)) (probe : JsonFormatProbe) :
    (members.foldl pushMember probe).rootType = probe.rootType := by
  induction members generalizing probe with
  | nil => rfl
  | cons member rest ih =>
    rw [List.foldl_cons, ih, pushMember, recordRootKey_eq]

theorem detected_object (members : List (List Char × Json)) :
    ((members.foldl pushMember { frames := [⟨.Object, []⟩], rootType := .Object }).withFrames []).detected =
      documentFormat (Json.object members).normal :=
  (if_pos (rootType_foldl members _)).trans (knows_foldl members).detectedObject

end JsonFormatProbe

/-! ## A document that is an array -/

namespace JsonRootElementProbe

/-- A key is recorded in the fields that ask for it. -/
theorem record_eq (probe : JsonRootElementProbe) (key : List Char) (valueType : JsonProbeType) :
    probe.record key valueType = { probe with
      hasName := if key = "name".toList then true else probe.hasName
      nameIsString := if key = "name".toList then valueType = .String else probe.nameIsString
      hasAux := if key = "aux".toList then true else probe.hasAux
      hasX := if key = "x".toList then true else probe.hasX
      xIsInteger := if key = "x".toList then valueType = .Integer else probe.xIsInteger
      hasY := if key = "y".toList then true else probe.hasY
      yIsInteger := if key = "y".toList then valueType = .Integer else probe.yIsInteger
      hasZ := if key = "z".toList then true else probe.hasZ
      zIsInteger := if key = "z".toList then valueType = .Integer else probe.zIsInteger
      hasList := if key = "list".toList then true else probe.hasList
      hasStart := if key = "start".toList then true else probe.hasStart
      hasEnd := if key = "end".toList then true else probe.hasEnd
      hasXcha := if key = "xcha".toList then true else probe.hasXcha
      hasEp := if key = "ep".toList then true else probe.hasEp } := by
  by_cases hkey : key ∈ ["name", "aux", "x", "y", "z", "list", "start", "end", "xcha", "ep"].map String.toList
  · simp only [List.map_cons, List.map_nil, List.mem_cons, List.not_mem_nil, or_false] at hkey
    rcases hkey with rfl | rfl | rfl | rfl | rfl | rfl | rfl | rfl | rfl | rfl <;> rfl
  · simp only [List.map_cons, List.map_nil, List.mem_cons, List.not_mem_nil, or_false, not_or] at hkey
    simp only [record, hkey, if_false]

/-- What is recorded of a member of an element. -/
def pushMember (probe : JsonRootElementProbe) (member : List Char × Json) : JsonRootElementProbe :=
  probe.record member.1 (probeType member.2)

/-- What the probe keeps of an element. -/
def ofElement : Json → JsonRootElementProbe
  | .object members => members.foldl pushMember { type := .Object }
  | value => { type := probeType value }

/-- What the rules may ask of an element of the finished document. -/
def shapeOf (value : Json) : JsonRootElementProbe where
  type := probeType value
  hasName := value.contains "name"
  nameIsString := memberIs value "name" .String
  hasAux := value.contains "aux"
  hasX := value.contains "x"
  xIsInteger := memberIs value "x" .Integer
  hasY := value.contains "y"
  yIsInteger := memberIs value "y" .Integer
  hasZ := value.contains "z"
  zIsInteger := memberIs value "z" .Integer
  hasList := value.contains "list"
  hasStart := value.contains "start"
  hasEnd := value.contains "end"
  hasXcha := value.contains "xcha"
  hasEp := value.contains "ep"

variable {field : JsonRootElementProbe → Bool} {name : String} {probe : JsonRootElementProbe}

theorem element_has (hstep : ∀ probe member, field (pushMember probe member) =
      if member.1 = name.toList then true else field probe) (members : List (List Char × Json))
    (hstart : field probe = false) :
    field (members.foldl pushMember probe) = (Json.object members).normal.contains name := by
  rw [contains_eq_any]
  exact field_foldl hstep (fun _ => rfl) members hstart

theorem element_is {type : JsonProbeType} (hstep : ∀ probe member, field (pushMember probe member) =
      if member.1 = name.toList then decide (probeType member.2 = type) else field probe)
    (members : List (List Char × Json)) (hstart : field probe = false) :
    field (members.foldl pushMember probe) = memberIs (Json.object members).normal name type := by
  rw [memberIs_eq_any]
  exact field_foldl hstep (fun value => by rw [probeType_normal]) members hstart

theorem type_foldl (members : List (List Char × Json)) (probe : JsonRootElementProbe) :
    (members.foldl pushMember probe).type = probe.type := by
  induction members generalizing probe with
  | nil => rfl
  | cons member rest ih => rw [List.foldl_cons, ih, pushMember, record_eq]

/-- The probe keeps what the rules may ask. -/
theorem ofElement_eq (value : Json) : ofElement value = shapeOf value.normal := by
  cases value with
  | object members =>
    apply JsonRootElementProbe.ext
    · exact type_foldl members _
    · exact element_has (fun probe member => congrArg hasName (record_eq probe member.1 _)) members rfl
    · exact element_is (fun probe member => congrArg nameIsString (record_eq probe member.1 _)) members rfl
    · exact element_has (fun probe member => congrArg hasAux (record_eq probe member.1 _)) members rfl
    · exact element_has (fun probe member => congrArg hasX (record_eq probe member.1 _)) members rfl
    · exact element_is (fun probe member => congrArg xIsInteger (record_eq probe member.1 _)) members rfl
    · exact element_has (fun probe member => congrArg hasY (record_eq probe member.1 _)) members rfl
    · exact element_is (fun probe member => congrArg yIsInteger (record_eq probe member.1 _)) members rfl
    · exact element_has (fun probe member => congrArg hasZ (record_eq probe member.1 _)) members rfl
    · exact element_is (fun probe member => congrArg zIsInteger (record_eq probe member.1 _)) members rfl
    · exact element_has (fun probe member => congrArg hasList (record_eq probe member.1 _)) members rfl
    · exact element_has (fun probe member => congrArg hasStart (record_eq probe member.1 _)) members rfl
    · exact element_has (fun probe member => congrArg hasEnd (record_eq probe member.1 _)) members rfl
    · exact element_has (fun probe member => congrArg hasXcha (record_eq probe member.1 _)) members rfl
    · exact element_has (fun probe member => congrArg hasEp (record_eq probe member.1 _)) members rfl
  | _ => rfl

theorem runawayShape_shapeOf (value : Json) : (shapeOf value).runawayShape = isRunAway value := by
  have hcontains {name : String} {type : JsonProbeType} :
      (value.contains name && memberIs value name type) = memberIs value name type := by
    rw [Bool.and_eq_right_iff_imp]
    intro his
    rw [contains_eq_any, memberIs_eq_any] at *
    cases hmember : value.member? name with
    | none =>
      rw [hmember] at his
      cases his
    | some member => rfl
  simp only [runawayShape, shapeOf, isRunAway, Bool.and_assoc, hcontains]
  rfl

end JsonRootElementProbe

namespace JsonFormatProbe

/-- An element is looked at. -/
abbrev withElement (probe : JsonFormatProbe) (current : JsonRootElementProbe) : JsonFormatProbe :=
  { probe with current, rootElementActive := true }

/-- What an element of the document leaves behind. -/
def pushElement (probe : JsonFormatProbe) (item : Json) : JsonFormatProbe :=
  (probe.withElement (JsonRootElementProbe.ofElement item)).finishRootElement

/-- The probe is in front of an element of the document. -/
structure AtElement (probe : JsonFormatProbe) : Prop where
  frames : probe.frames = [⟨.Array, []⟩]
  rootType : probe.rootType = .Array
  idle : probe.rootElementActive = false

variable {probe : JsonFormatProbe}

theorem AtElement.pushElement (h : AtElement probe) (item : Json) : AtElement (probe.pushElement item) :=
  ⟨h.frames, h.rootType, rfl⟩

theorem AtElement.beginValue (h : AtElement probe) (type : JsonProbeType) (text : List Char) :
    probe.beginValue type text = some (probe.withElement { type }) := by
  rw [JsonFormatProbe.beginValue, h.frames]
  dsimp only
  rw [if_pos ⟨h.rootType, rfl, rfl⟩, h.idle, ← h.frames]
  rfl

/-- A member of an element is recorded. -/
theorem beginValue_member {probe : JsonFormatProbe} (hroot : probe.rootType = .Array)
    (hactive : probe.rootElementActive = true) (name : List Char) (type : JsonProbeType) (text : List Char) :
    (probe.withFrames [⟨.Object, name⟩, ⟨.Array, []⟩]).beginValue type text =
      some { probe.withFrames [⟨.Object, []⟩, ⟨.Array, []⟩] with
        current := probe.current.record name type } := by
  have helement : ¬ (probe.rootType = .Array ∧ 2 = 1 ∧ JsonProbeType.Object = .Array) := fun h => by
    cases h.2.2
  have hobject : ¬ (probe.rootType = .Object ∧ 2 = 1) := fun h => by cases h.2
  exact (if_neg helement).trans ((if_neg (not_not_intro rfl)).trans ((if_neg hobject).trans
    (if_pos ⟨hroot, rfl, rfl, hactive⟩)))

/-- An element that is no object: nothing inside of it is looked at. -/
theorem run_element_of_ne {item : Json} (h : AtElement probe) (hitem : probeType item ≠ .Object)
    (hdepth : item.depth < 256) : run item.events probe = some (probe.pushElement item) := by
  have hlength : probe.frames.length = 1 := by rw [h.frames, List.length_singleton]
  have hne : probe.frames ≠ [] := by
    rw [h.frames]
    exact List.cons_ne_nil _ _
  have hinside : Deep ((probe.withElement { type := probeType item }).withFrames (⟨probeType item, []⟩ :: probe.frames))
      ⟨probeType item, []⟩ probe.frames :=
    ⟨rfl, fun _ => hne, fun hobject => absurd hobject hitem⟩
  refine (run_value item hne (h.beginValue _ _) rfl hinside (by omega)).trans (congrArg some ?_)
  have hkept : JsonRootElementProbe.ofElement item = { type := probeType item } := by
    cases item with
    | object => exact absurd rfl hitem
    | _ => rfl
  rw [finished, if_pos ⟨h.rootType, hlength⟩, pushElement, hkept]

/-- The members of an element are recorded in turn. -/
theorem run_elementMembers {members : List (List Char × Json)}
    (hframes : probe.frames = [⟨.Object, []⟩, ⟨.Array, []⟩]) (hroot : probe.rootType = .Array)
    (hactive : probe.rootElementActive = true) (hdepth : Json.membersDepth members < 255) :
    run (membersEvents members) probe =
      some { probe with current := members.foldl JsonRootElementProbe.pushMember probe.current } := by
  have hrun := @run_members (fun probe member =>
      ({ probe with current := probe.current.pushMember member } : JsonFormatProbe)) members [⟨.Array, []⟩]
    (fun inner => inner.frames = [⟨.Object, []⟩, ⟨.Array, []⟩] ∧ inner.rootType = .Array ∧
      inner.rootElementActive = true) (fun inner hinner => hinner.1)
    (fun inner hinner member hmember => by
      obtain ⟨hframes, hroot, hactive⟩ := hinner
      have hsame : inner.withFrames [⟨.Object, []⟩, ⟨.Array, []⟩] = inner := by
        rw [← hframes, withFrames_self]
      have hbegin := @beginValue_member inner hroot hactive member.1 (probeType member.2) (probeText member.2)
      rw [hsame] at hbegin
      have hinside : Deep (({ inner with current := inner.current.pushMember member } :
          JsonFormatProbe).withFrames (⟨probeType member.2, []⟩ :: inner.frames))
            ⟨probeType member.2, []⟩ inner.frames := by
        refine ⟨rfl, fun _ => ?_, fun _ => ⟨?_, fun _ => ?_⟩⟩
        · exact hframes ▸ List.cons_ne_nil _ _
        · exact hframes ▸ List.cons_ne_nil _ _
        · rw [hframes]
          exact le_rfl
      refine ⟨⟨hframes, hroot, hactive⟩,
        (run_value member.2 (List.cons_ne_nil _ _) hbegin ?_ hinside ?_).trans (congrArg some ?_)⟩
      · rw [withFrames_frames, List.length_cons, List.length_singleton]
        exact congrArg List.length hframes
      · have := Json.depth_le_membersDepth hmember
        rw [withFrames_frames, List.length_cons, List.length_singleton]
        omega
      · refine if_neg fun h => ?_
        have hlength : inner.frames.length = 1 := h.2
        rw [hframes] at hlength
        cases hlength) probe ⟨hframes, hroot, hactive⟩
  rw [hrun]
  refine congrArg some ?_
  clear hrun hframes hroot hactive hdepth
  induction members generalizing probe with
  | nil => rfl
  | cons member rest ih =>
    rw [List.foldl_cons, ih, List.foldl_cons]

/-- An element of the document. -/
theorem run_element (item : Json) (h : AtElement probe) (hdepth : item.depth < 256) :
    run item.events probe = some (probe.pushElement item) := by
  cases item with
  | object members =>
    rw [Json.depth] at hdepth
    have hlength : probe.frames.length = 1 := by rw [h.frames, List.length_singleton]
    have hne : probe.frames ≠ [] := by
      rw [h.frames]
      exact List.cons_ne_nil _ _
    have hstart : probe.handle .startObject =
        some ((probe.withElement { type := .Object }).withFrames (⟨.Object, []⟩ :: probe.frames)) :=
      startContainer_of_beginValue hne (by omega) (h.beginValue _ _)
    have hmembers : run (membersEvents members)
        ((probe.withElement { type := .Object }).withFrames (⟨.Object, []⟩ :: probe.frames)) =
          some ((probe.withElement (members.foldl JsonRootElementProbe.pushMember { type := .Object })).withFrames
            (⟨.Object, []⟩ :: probe.frames)) :=
      run_elementMembers (by rw [withFrames_frames, h.frames]) h.rootType rfl (by omega)
    have hend : ((probe.withElement (members.foldl JsonRootElementProbe.pushMember
        { type := .Object })).withFrames (⟨.Object, []⟩ :: probe.frames)).handle .endObject =
          some (probe.withElement (members.foldl JsonRootElementProbe.pushMember { type := .Object })).finished :=
      endContainer_finished _ .Object []
    rw [events, run_cons hstart, run_append hmembers]
    refine (run_single hend).trans (congrArg some ?_)
    rw [finished, if_pos ⟨h.rootType, hlength⟩]
    rfl
  | _ => exact run_element_of_ne h (fun hobject => by cases hobject) hdepth

/-- The elements of the document are looked at in turn. -/
theorem run_elements {items : List Json} {probe : JsonFormatProbe} (h : AtElement probe)
    (hdepth : Json.itemsDepth items < 256) :
    run (itemsEvents items) probe = some (items.foldl pushElement probe) := by
  induction items generalizing probe with
  | nil => rfl
  | cons item rest ih =>
    rw [Json.itemsDepth] at hdepth
    rw [itemsEvents, run_append (run_element item h (by omega)), List.foldl_cons]
    exact ih (h.pushElement item) (by omega)

/-- What the probe knows of the elements that it has seen. -/
structure Elements (done : List Json) (probe : JsonFormatProbe) : Prop where
  atElement : AtElement probe
  rootCount : probe.rootCount = min done.length (2 ^ 64 - 1)
  first : ∀ item, done.head? = some item → probe.first = JsonRootElementProbe.ofElement item
  second : ∀ item, done[1]? = some item → probe.second = JsonRootElementProbe.ofElement item
  penultimate : ∀ item, done.dropLast.getLast? = some item →
    probe.penultimate = JsonRootElementProbe.ofElement item
  last : ∀ item, done.getLast? = some item → probe.last = JsonRootElementProbe.ofElement item
  hasPenultimate : probe.hasPenultimate = decide (2 ≤ done.length)
  allRunAway : done ≠ [] →
    probe.allRunAway = done.all fun item => (JsonRootElementProbe.ofElement item).runawayShape

theorem Elements.push {done : List Json} (h : Elements done probe) (item : Json) :
    Elements (done ++ [item]) (probe.pushElement item) := by
  have hcount := h.rootCount
  have hzero : probe.rootCount = 0 ↔ done = [] := by
    rw [← List.length_eq_zero_iff]
    omega
  have hlength : (done ++ [item]).length = done.length + 1 := List.length_append
  refine ⟨h.atElement.pushElement item, ?_, fun other hother => ?_, fun other hother => ?_,
    fun other hother => ?_, fun other hother => ?_, ?_, fun _ => ?_⟩
  · have hpush : (probe.pushElement item).rootCount =
        if probe.rootCount ≠ 2 ^ 64 - 1 then probe.rootCount + 1 else probe.rootCount := rfl
    rw [hpush, hlength]
    split <;> omega
  · have hpush : (probe.pushElement item).first =
        if probe.rootCount = 0 then JsonRootElementProbe.ofElement item else probe.first := rfl
    rw [hpush]
    cases done with
    | nil =>
      cases hother
      exact if_pos (hzero.mpr rfl)
    | cons first rest =>
      rw [if_neg fun h => List.cons_ne_nil _ _ (hzero.mp h)]
      exact h.first other hother
  · have hpush : (probe.pushElement item).second =
        if probe.rootCount = 1 then JsonRootElementProbe.ofElement item else probe.second := rfl
    rw [hpush]
    rcases Nat.lt_trichotomy done.length 1 with hlt | hone | hgt
    · rw [List.getElem?_eq_none (by omega)] at hother
      cases hother
    · rw [List.getElem?_append_right hone.le, hone] at hother
      cases hother
      exact if_pos (by omega)
    · rw [List.getElem?_append_left hgt] at hother
      rw [if_neg (by omega)]
      exact h.second other hother
  · rw [List.dropLast_concat] at hother
    exact h.last other hother
  · rw [List.getLast?_concat] at hother
    cases hother
    rfl
  · have hpush : (probe.pushElement item).hasPenultimate = decide (probe.rootCount ≠ 0) := rfl
    rw [hpush, decide_eq_decide, hlength]
    omega
  · have hpush : (probe.pushElement item).allRunAway =
        if probe.rootCount = 0 then (JsonRootElementProbe.ofElement item).runawayShape
        else probe.allRunAway && (JsonRootElementProbe.ofElement item).runawayShape := rfl
    rw [hpush, List.all_append, List.all_cons, List.all_nil, Bool.and_true]
    by_cases hnil : done = []
    · rw [if_pos (hzero.mpr hnil), hnil, List.all_nil, Bool.true_and]
    · rw [if_neg fun h => hnil (hzero.mp h), h.allRunAway hnil]

theorem elements_nil : Elements [] { frames := [⟨.Array, []⟩], rootType := .Array } where
  atElement := ⟨rfl, rfl, rfl⟩
  rootCount := rfl
  first := fun item h => absurd h (Option.some_ne_none item).symm
  second := fun item h => absurd h (Option.some_ne_none item).symm
  penultimate := fun item h => absurd h (Option.some_ne_none item).symm
  last := fun item h => absurd h (Option.some_ne_none item).symm
  hasPenultimate := rfl
  allRunAway := fun h => absurd rfl h

theorem elements_foldl (items : List Json) :
    Elements items (items.foldl pushElement { frames := [⟨.Array, []⟩], rootType := .Array }) := by
  suffices hall : ∀ rest done probe, Elements done probe →
      Elements (done ++ rest) (rest.foldl pushElement probe) from hall items [] _ elements_nil
  intro rest
  induction rest with
  | nil =>
    intro done probe h
    rwa [List.append_nil]
  | cons item rest ih =>
    intro done probe h
    rw [List.append_cons]
    exact ih (done ++ [item]) _ (h.push item)

/-- Only an object contains a member. -/
theorem probeType_of_contains {value : Json} {name : String} (h : value.contains name = true) :
    probeType value = .Object := by
  cases value with
  | object => rfl
  | _ => cases h

variable {items : List Json}

/-- The rules read the elements off their shapes. -/
theorem Elements.detectedArray (h : Elements items probe) {first last : Json}
    (hfirst : items.head? = some first) (hlast : items.getLast? = some last) :
    probe.detectedArray = elementsFormat (items.map Json.normal) first.normal
      (items[1]?.map Json.normal) (items.dropLast.getLast?.map Json.normal) last.normal := by
  have hne : items ≠ [] := fun hnil => by
    rw [hnil] at hfirst
    cases hfirst
  have hall : probe.allRunAway = (items.map Json.normal).all isRunAway := by
    rw [h.allRunAway hne, List.all_map]
    refine congrArg items.all (funext fun item => ?_)
    rw [JsonRootElementProbe.ofElement_eq, JsonRootElementProbe.runawayShape_shapeOf]
    rfl
  have hcount : probe.rootCount ≥ 2 ↔ items.length ≥ 2 := by
    rw [h.rootCount]
    omega
  have hpenultimate : probe.hasPenultimate = true ↔ items.length ≥ 2 := by
    rw [h.hasPenultimate, decide_eq_true_eq]
  rw [JsonFormatProbe.detectedArray, elementsFormat, h.first first hfirst, h.last last hlast, hall,
    JsonRootElementProbe.ofElement_eq, JsonRootElementProbe.ofElement_eq, List.length_map]
  refine if_congr Iff.rfl rfl ?_
  by_cases htwo : items.length ≥ 2
  · have hlong : items.dropLast ≠ [] := List.ne_nil_of_length_pos (by
      rw [List.length_dropLast]
      omega)
    obtain ⟨penultimate, hpen⟩ : ∃ item, items.dropLast.getLast? = some item :=
      ⟨_, List.getLast?_eq_some_getLast hlong⟩
    obtain ⟨second, hsecond⟩ : ∃ item, items[1]? = some item := ⟨_, List.getElem?_eq_getElem htwo⟩
    rw [h.penultimate penultimate hpen, h.second second hsecond, JsonRootElementProbe.ofElement_eq,
      JsonRootElementProbe.ofElement_eq, hpen, hsecond]
    refine if_congr ?_ rfl (if_congr Iff.rfl (if_congr Iff.rfl rfl (if_congr Iff.rfl rfl
      (if_congr ?_ (congrArg some (if_congr ?_ rfl rfl)) (if_congr ?_ (if_congr ?_ rfl (if_congr ?_ rfl rfl))
        rfl)))) rfl)
    · constructor
      · rintro ⟨-, hnumber, -, -, hep, harray⟩
        exact ⟨hnumber, hep, harray⟩
      · rintro ⟨hnumber, hep, harray⟩
        exact ⟨hcount.mpr htwo, hnumber, hpenultimate.mpr htwo, probeType_of_contains hep, hep, harray⟩
    · constructor
      · rintro ⟨-, -, hlist⟩
        exact ⟨htwo, hlist⟩
      · rintro ⟨-, hlist⟩
        exact ⟨hcount.mpr htwo, probeType_of_contains hlist, hlist⟩
    · rw [Option.map_some, Option.any_some, Bool.and_eq_true]
      constructor
      · rintro ⟨-, -, hstart, hend⟩
        exact ⟨hstart, hend⟩
      · rintro ⟨hstart, hend⟩
        exact ⟨hpenultimate.mpr htwo, probeType_of_contains hstart, hstart, hend⟩
    · exact and_iff_right (hcount.mpr htwo)
    · exact Option.some_inj.symm
    · exact Option.some_inj.symm
  · have hpen : items.dropLast.getLast? = none := by
      rw [List.getLast?_eq_none_iff, ← List.length_eq_zero_iff, List.length_dropLast]
      omega
    have hsecond : items[1]? = none := List.getElem?_eq_none (by omega)
    rw [hpen, hsecond]
    refine (if_neg fun hboth => htwo (hcount.mp hboth.1)).trans (Eq.trans ?_
      (if_neg fun hboth => Bool.false_ne_true hboth.2.1).symm)
    refine if_congr Iff.rfl (if_congr Iff.rfl rfl (if_congr Iff.rfl rfl ?_)) rfl
    rw [if_neg fun hboth => htwo (hcount.mp hboth.1), if_neg fun hboth => htwo (hcount.mp hboth.1),
      if_neg fun hboth => htwo hboth.1]
    exact (ite_self none).symm

/-- The rules read the finished document off the shapes of its elements. -/
theorem detected_array (items : List Json) :
    ((items.foldl pushElement { frames := [⟨.Array, []⟩], rootType := .Array }).withFrames []).detected =
      documentFormat (Json.array items).normal := by
  have h := elements_foldl items
  generalize items.foldl pushElement { frames := [⟨.Array, []⟩], rootType := .Array } = probe at h
  have hnormal : (Json.array items).normal = .array (items.map Json.normal) :=
    congrArg Json.array (Json.normalItems_eq items)
  have hobject : ¬ (probe.withFrames []).rootType = .Object := by
    rw [withFrames_rootType, h.atElement.rootType]
    exact JsonProbeType.noConfusion
  rw [hnormal, documentFormat, detected, if_neg hobject]
  cases items with
  | nil => exact if_pos (.inr h.rootCount)
  | cons first rest =>
    have hcount : ¬ ((probe.withFrames []).rootType ≠ .Array ∨ (probe.withFrames []).rootCount = 0) := by
      rintro (hroot | hzero)
      · exact hroot h.atElement.rootType
      · have hzero : probe.rootCount = 0 := hzero
        rw [h.rootCount, List.length_cons] at hzero
        omega
    obtain ⟨last, hlast⟩ : ∃ last, (first :: rest).getLast? = some last :=
      ⟨_, List.getLast?_eq_some_getLast (List.cons_ne_nil first rest)⟩
    have hrule := h.detectedArray rfl hlast
    rw [if_neg hcount, List.getLast?_map, hlast, List.getElem?_map, ← List.map_dropLast, List.getLast?_map]
    exact hrule

theorem run_array (hdepth : Json.itemsDepth items < 256) :
    run (Json.array items).events {} =
      some ((items.foldl pushElement { frames := [⟨.Array, []⟩], rootType := .Array }).withFrames []) := by
  have hstart : handle {} .startArray = some { frames := [⟨.Array, []⟩], rootType := .Array } := rfl
  have hitems := @run_elements items { frames := [⟨.Array, []⟩], rootType := .Array } ⟨rfl, rfl, rfl⟩ hdepth
  have hlast := (elements_foldl items).atElement
  generalize items.foldl pushElement { frames := [⟨.Array, []⟩], rootType := .Array } = last at *
  have hend : last.handle .endArray = some (last.withFrames []) := by
    have hended := @endContainer_eq last [] .Array [] fun h => Nat.zero_ne_one h.2
    rwa [← hlast.frames, withFrames_self] at hended
  rw [events, run_cons hstart, run_append hitems]
  exact run_single hend

/-- The probe accepts a document, and decides by the rules on the finished one. -/
theorem run_document (document : Json) (hdepth : document.depth ≤ 256) :
    ∃ probe, run document.events {} = some probe ∧ probe.detected = documentFormat document.normal := by
  cases document with
  | object members =>
    rw [Json.depth] at hdepth
    exact ⟨_, run_object (by omega), detected_object members⟩
  | array items =>
    rw [Json.depth] at hdepth
    exact ⟨_, run_array (by omega), detected_array items⟩
  | _ => exact ⟨_, rfl, rfl⟩

end JsonFormatProbe

/-! ## Detection -/

theorem id_of_byId {id : StructureId} {format : FormatInfo} (h : byId id = .ok format) : format.id = id := by
  rw [byId] at h
  cases hfound : formatTable.find? fun value => value.id = id with
  | none =>
    rw [hfound] at h
    cases h
  | some found =>
    rw [hfound] at h
    cases h
    have hid := List.find?_some hfound
    exact of_decide_eq_true hid

theorem objectFormat_ne (document : Json) : objectFormat document ≠ some .MCStructure := by
  rw [objectFormat]
  repeat' split
  all_goals
    intro h
    cases h

theorem elementsFormat_ne (items : List Json) (first : Json) (second penultimate : Option Json) (last : Json) :
    elementsFormat items first second penultimate last ≠ some .MCStructure := by
  rw [elementsFormat]
  repeat' split
  all_goals
    intro h
    cases h

/-- No rule gives the format of the first byte. -/
theorem documentFormat_ne (document : Json) : documentFormat document ≠ some .MCStructure := by
  cases document with
  | object members => exact objectFormat_ne _
  | array items =>
    rw [documentFormat]
    split
    · exact elementsFormat_ne _ _ _ _ _
    · exact (Option.some_ne_none _).symm
  | _ => exact (Option.some_ne_none _).symm

variable {path : List Char}

/-- A file with the extension of JSON and none of the first bytes of the other formats. -/
theorem detectFile_json {sax : SaxParser} {first : UInt8} {rest : List UInt8}
    (hext : lower (extension path) = ".json".toList) (hfirst : first.toNat ∉ [66, 73, 99, 72, 80]) :
    detectFile sax path (first :: rest) =
      if first.toNat = 10 then byId .MCStructure
      else ((probeJson sax (first :: rest)).bind JsonFormatProbe.detected).elim (byExtension path) byId := by
  obtain ⟨tail, htail⟩ : ∃ tail, ((first :: rest).take 8 ++ List.replicate 8 0).map UInt8.toNat =
      first.toNat :: tail := ⟨_, rfl⟩
  have hhead {n : ℕ} {magic : ℕ} {others : List ℕ} (hmagic : magic ∈ [66, 73, 99, 72, 80]) :
      (first.toNat :: tail).take (n + 1) ≠ magic :: others := by
    rw [List.take_succ_cons]
    intro hsame
    rw [(List.cons.inj hsame).1] at hfirst
    exact hfirst hmagic
  have hother {text : String} (hne : ".json".toList ≠ text.toList) : ¬ lower (extension path) = text.toList :=
    fun hsame => hne (hext.symm.trans hsame)
  have hten : (first.toNat :: tail).take 1 = [0x0a] ↔ first.toNat = 10 := by
    rw [List.take_succ_cons, List.take_zero, List.cons.injEq, and_iff_left rfl]
  rw [detectFile, htail]
  dsimp only
  rw [if_neg (hhead (by decide)), if_neg (hhead (by decide)), if_neg (hhead (by decide)),
    if_neg (hhead (by decide)), if_neg (hhead (by decide)), if_neg (hhead (by decide)),
    if_neg fun h => hother (by decide) h.2, if_neg fun h => hother (by decide) h.2,
    if_neg fun h => hother (by decide) h.2, if_neg fun h => hother (by decide) h.2,
    if_neg (hother (by decide)), if_neg (hother (by decide)), if_neg (hother (by decide)),
    if_neg (hother (by decide)), if_pos (Or.inl hext)]
  exact if_congr hten rfl rfl

/-- The first entry of the table with the extension of JSON. -/
theorem byExtension_json (hext : lower (extension path) = ".json".toList) :
    byExtension path = .ok ⟨.MianYangV1, "MianYangV1", [".json"]⟩ := by
  simp only [byExtension, hext]
  rfl

/-- What the rules say of a finished document, and the entry of the extension where they say nothing. -/
def documentAnswer (path : List Char) (document : Json) : Except String FormatInfo :=
  (documentFormat document.normal).elim (byExtension path) byId

theorem documentAnswer_ne (hext : lower (extension path) = ".json".toList) (document : Json) :
    documentAnswer path document ≠ byId .MCStructure := by
  intro hsame
  have hstructure : byId .MCStructure = .ok ⟨.MCStructure, "MCStructure", [".mcstructure"]⟩ := rfl
  rw [documentAnswer, hstructure] at hsame
  cases hformat : documentFormat document.normal with
  | none =>
    rw [hformat] at hsame
    cases (byExtension_json hext).symm.trans hsame
  | some id =>
    rw [hformat] at hsame
    exact documentFormat_ne document.normal (hformat.trans (congrArg some (id_of_byId hsame).symm))

theorem toNat_of_isFirst {c : Char} (h : Json.IsFirst c) :
    (UInt8.ofNat c.toNat).toNat ∉ [66, 73, 99, 72, 80] := by
  rcases h with hdigit | hmem
  · rw [Char.isDigit, Bool.and_eq_true, decide_eq_true_eq, decide_eq_true_eq] at hdigit
    have hlow : 48 ≤ c.toNat := UInt32.le_iff_toNat_le.mp hdigit.1
    have hhigh : c.toNat ≤ 57 := UInt32.le_iff_toNat_le.mp hdigit.2
    rw [UInt8.toNat_ofNat', Nat.mod_eq_of_lt (by omega)]
    simp only [List.mem_cons, List.not_mem_nil, or_false]
    omega
  · simp only [List.mem_cons, List.not_mem_nil, or_false] at hmem
    rcases hmem with rfl | rfl | rfl | rfl | rfl | rfl | rfl | rfl | rfl | rfl | rfl <;> decide

/-- A JSON text in a file with the extension of JSON is detected by the rules on its document, exactly if it
does not begin with a newline. -/
theorem detect_json_iff {sax : SaxParser} {path : List Char} {content : List UInt8} {document : Json}
    (htext : document.IsDocument content) (hsax : sax content = (document.events, true))
    (hdepth : document.depth < 256) (hext : lower (extension path) = ".json".toList) :
    detect sax path (.file content) = documentAnswer path document ↔ content.head? ≠ some 0x0a := by
  obtain ⟨c, rest, rfl, hfirst⟩ := htext.exists_first
  obtain ⟨probe, hrun, hdetected⟩ := JsonFormatProbe.run_document document hdepth.le
  have hprobe : probeJson sax (UInt8.ofNat c.toNat :: rest) = some probe := by
    have hfold : document.events.foldlM JsonFormatProbe.handle {} = some probe := hrun
    rw [probeJson, hsax]
    dsimp only
    rw [hfold]
    rfl
  have hten : (UInt8.ofNat c.toNat).toNat = 10 ↔
      (UInt8.ofNat c.toNat :: rest).head? = some 0x0a := by
    rw [List.head?_cons, Option.some_inj, ← UInt8.toNat_inj]
    rfl
  have hfile : detect sax path (.file (UInt8.ofNat c.toNat :: rest)) =
      if (UInt8.ofNat c.toNat).toNat = 10 then byId .MCStructure else documentAnswer path document := by
    rw [detect, detectFile_json hext (toNat_of_isFirst hfirst), hprobe, Option.bind_some, hdetected,
      documentAnswer]
  rw [hfile, Ne, ← hten]
  constructor
  · intro hsame hnewline
    rw [if_pos hnewline] at hsame
    exact documentAnswer_ne hext document hsame.symm
  · exact fun hnewline => if_neg hnewline

/-- Characters that stand for themselves. -/
theorem stringText_self {text : List Char} (h : ∀ c ∈ text, 0x20 ≤ c.toNat ∧ c ≠ '"' ∧ c ≠ '\\') :
    Json.StringText text text := by
  induction text with
  | nil => exact .nil
  | cons c rest ih =>
    obtain ⟨hcontrol, hquote, hescape⟩ := h c List.mem_cons_self
    exact .plain hcontrol hquote hescape (ih fun d hd => h d (List.mem_cons_of_mem c hd))

/-- The document of a QingXu structure without blocks, and its text behind some whitespace. -/
def noBlocks : Json := .object [("totalBlocks".toList, .unsigned 0)]

def noBlocksText (space : List Char) : List Char := space ++ "\x7b\"totalBlocks\":0\x7d".toList

theorem isDocument_noBlocks {space : List Char} (h : Json.IsWhitespace space) :
    noBlocks.IsDocument ((noBlocksText space).flatMap String.utf8EncodeChar) := by
  refine ⟨_, ?_, rfl⟩
  have hnone : Json.IsWhitespace [] := fun c hc => absurd hc List.not_mem_nil
  have hdigit : ∀ c ∈ ['0'], c.isDigit = true := fun c hc => by
    rw [List.mem_singleton.mp hc]
    rfl
  have hdigits : Json.IsWhole ['0'] := ⟨⟨by decide, hdigit⟩, fun _ => rfl⟩
  have hnumber : Json.NumberText (.unsigned 0) ['0'] := .unsigned hdigits (Nat.two_pow_pos 64)
  have hzero : Json.PaddedText (.unsigned 0) (([] ++ ['0']) ++ []) :=
    .padded hnone (.number hnumber) hnone
  have hname : Json.StringText "totalBlocks".toList "totalBlocks".toList :=
    stringText_self (forall_mem_of_all (by decide))
  have hmember : Json.MemberText ("totalBlocks".toList, .unsigned 0)
      ([] ++ '"' :: ("totalBlocks".toList ++ '"' :: ([] ++ ':' :: ['0']))) :=
    .member hnone hname hnone hzero
  have hvalue := Json.ValueText.object (.last hmember)
  have hpadded := Json.PaddedText.padded h hvalue hnone
  rwa [List.append_nil] at hpadded

/-- Behind a space the document is detected by the rule on its key. -/
theorem detect_json_iff_space :
    detect (fun _ => (noBlocks.events, true)) "a.json".toList
      (.file ((noBlocksText [' ']).flatMap String.utf8EncodeChar)) =
        documentAnswer "a.json".toList noBlocks ↔
      ((noBlocksText [' ']).flatMap String.utf8EncodeChar).head? ≠ some 0x0a :=
  detect_json_iff (isDocument_noBlocks (by
    intro c hc
    exact .inl (List.mem_singleton.mp hc))) rfl (by decide) (by decide)

/-- Behind a newline the document is taken for one of another format. -/
theorem detect_newline : ∃ (sax : SaxParser) (content : List UInt8),
    noBlocks.IsDocument content ∧ sax content = (noBlocks.events, true) ∧ noBlocks.depth < 256 ∧
      lower (extension "a.json".toList) = ".json".toList ∧
      detect sax "a.json".toList (.file content) = byId .MCStructure ∧
      documentAnswer "a.json".toList noBlocks = byId .QingXuV1 ∧
      detect sax "a.json".toList (.file content) ≠ documentAnswer "a.json".toList noBlocks := by
  have hspace : Json.IsWhitespace ['\n'] := by
    intro c hc
    exact .inr (.inr (.inl (List.mem_singleton.mp hc)))
  refine ⟨fun _ => (noBlocks.events, true), _, isDocument_noBlocks hspace, rfl, by decide, by decide, ?_⟩
  decide +kernel

end FormatRegistry

end WaterStructure
