import WaterStructure.Library.JsonSyntax

/-!
# The format of a file

A format is found by the first bytes of a file and by its extension. JSON formats share extensions: their
files are parsed by a probe that keeps the keys of the document or the shapes of a few elements, and
decides by them.
-/

namespace WaterStructure

open Json (SaxEvent)

inductive StructureId where
  | Unknown
  | Schematic
  | SchemV1
  | SchemV2
  | Litematic
  | MCStructure
  | MCWorld
  | BDX
  | Construction
  | AxiomBP
  | MCFunction
  | KBDX
  | IBImport
  | MianYangV1
  | MianYangV2
  | MianYangV3
  | MianYangV4
  | GangBanV1
  | GangBanV2
  | GangBanV3
  | GangBanV4
  | GangBanV5
  | GangBanV6
  | GangBanV7
  | RunAway
  | QingXuV1
  | TimeBuilderV1
  | FuHongV1
  | FuHongV2
  | FuHongV3
  | FuHongV4
  | FuHongV5
  | BDS
  | SIBI
  | BCF
  | TIBI
  | CovStructure
  | NexusNP
  deriving DecidableEq

/-- An entry of the table of formats, as far as it is used to find a format. -/
structure FormatInfo where
  id : StructureId
  name : String
  extensions : List String
  deriving DecidableEq

namespace FormatRegistry

/-- `format_table`. -/
def formatTable : List FormatInfo :=
  [⟨.Schematic, "Schematic", [".schematic"]⟩,
    ⟨.SchemV1, "SchemV1", [".schem"]⟩,
    ⟨.SchemV2, "SchemV2", [".schem"]⟩,
    ⟨.Litematic, "Litematic", [".litematic"]⟩,
    ⟨.MCStructure, "MCStructure", [".mcstructure"]⟩,
    ⟨.MCWorld, "MCWorld", [".mcworld", ".zip"]⟩,
    ⟨.BDX, "BDX", [".bdx"]⟩,
    ⟨.Construction, "Construction", [".construction"]⟩,
    ⟨.AxiomBP, "AxiomBP", [".bp"]⟩,
    ⟨.MCFunction, "MCFunction", [".mcfunction", ".txt"]⟩,
    ⟨.KBDX, "KBDX", [".kbdx"]⟩,
    ⟨.IBImport, "IBImport", [".ibi"]⟩,
    ⟨.MianYangV1, "MianYangV1", [".json"]⟩,
    ⟨.MianYangV2, "MianYangV2", [".json"]⟩,
    ⟨.MianYangV3, "MianYangV3", [".building"]⟩,
    ⟨.MianYangV4, "MianYangV4", [".buildingx"]⟩,
    ⟨.GangBanV1, "GangBanV1", [".json"]⟩,
    ⟨.GangBanV2, "GangBanV2", [".json"]⟩,
    ⟨.GangBanV3, "GangBanV3", [".json"]⟩,
    ⟨.GangBanV4, "GangBanV4", [".json"]⟩,
    ⟨.GangBanV5, "GangBanV5", [".json"]⟩,
    ⟨.GangBanV6, "GangBanV6", [".json"]⟩,
    ⟨.GangBanV7, "GangBanV7", [".reb"]⟩,
    ⟨.RunAway, "RunAway", [".json"]⟩,
    ⟨.QingXuV1, "QingXuV1", [".json"]⟩,
    ⟨.TimeBuilderV1, "TimeBuilderV1", [".json"]⟩,
    ⟨.FuHongV1, "FuHongV1", [".json"]⟩,
    ⟨.FuHongV2, "FuHongV2", [".json"]⟩,
    ⟨.FuHongV3, "FuHongV3", [".json"]⟩,
    ⟨.FuHongV4, "FuHongV4", [".json"]⟩,
    ⟨.FuHongV5, "FuHongV5", [".fhbuild"]⟩,
    ⟨.BDS, "BDS", [".bds"]⟩,
    ⟨.SIBI, "SIBI", [".sibi"]⟩,
    ⟨.BCF, "BCF", [".bcf"]⟩,
    ⟨.TIBI, "TIBI", [".tibi"]⟩,
    ⟨.CovStructure, "CovStructure", [".covstructure"]⟩,
    ⟨.NexusNP, "NexusNP", [".np"]⟩]

/-! ## The probe -/

inductive JsonProbeType where
  | None
  | Null
  | Boolean
  | Integer
  | Float
  | String
  | Array
  | Object
  deriving DecidableEq

/-- `json_probe_number`. -/
def jsonProbeNumber (type : JsonProbeType) : Bool := type = .Integer ∨ type = .Float

@[ext]
structure JsonRootElementProbe where
  type : JsonProbeType := .None
  hasName : Bool := false
  nameIsString : Bool := false
  hasAux : Bool := false
  hasX : Bool := false
  xIsInteger : Bool := false
  hasY : Bool := false
  yIsInteger : Bool := false
  hasZ : Bool := false
  zIsInteger : Bool := false
  hasList : Bool := false
  hasStart : Bool := false
  hasEnd : Bool := false
  hasXcha : Bool := false
  hasEp : Bool := false
  deriving DecidableEq

namespace JsonRootElementProbe

def record (probe : JsonRootElementProbe) (key : List Char) (valueType : JsonProbeType) :
    JsonRootElementProbe :=
  if key = "name".toList then { probe with hasName := true, nameIsString := valueType = .String }
  else if key = "aux".toList then { probe with hasAux := true }
  else if key = "x".toList then { probe with hasX := true, xIsInteger := valueType = .Integer }
  else if key = "y".toList then { probe with hasY := true, yIsInteger := valueType = .Integer }
  else if key = "z".toList then { probe with hasZ := true, zIsInteger := valueType = .Integer }
  else if key = "list".toList then { probe with hasList := true }
  else if key = "start".toList then { probe with hasStart := true }
  else if key = "end".toList then { probe with hasEnd := true }
  else if key = "xcha".toList then { probe with hasXcha := true }
  else if key = "ep".toList then { probe with hasEp := true }
  else probe

def runawayShape (probe : JsonRootElementProbe) : Bool :=
  probe.type = .Object && probe.hasName && probe.nameIsString && probe.hasX && probe.xIsInteger &&
    probe.hasY && probe.yIsInteger && probe.hasZ && probe.zIsInteger

end JsonRootElementProbe

structure Frame where
  type : JsonProbeType
  key : List Char
  deriving DecidableEq

/-- The probe; the innermost frame comes first. -/
structure JsonFormatProbe where
  frames : List Frame := []
  rootType : JsonProbeType := .None
  current : JsonRootElementProbe := {}
  first : JsonRootElementProbe := {}
  second : JsonRootElementProbe := {}
  penultimate : JsonRootElementProbe := {}
  last : JsonRootElementProbe := {}
  rootCount : ℕ := 0
  rootElementActive : Bool := false
  hasPenultimate : Bool := false
  allRunAway : Bool := false
  hasVersion : Bool := false
  versionIsTimeBuilder : Bool := false
  hasFuHongFinal : Bool := false
  hasFuHongBuild : Bool := false
  hasBlockCalculationPos : Bool := false
  hasChunkedBlocks : Bool := false
  hasNamespaces : Bool := false
  hasTotalBlocks : Bool := false
  hasBlock : Bool := false
  hasSize : Bool := false
  hasDimensions : Bool := false
  hasStructure : Bool := false

namespace JsonFormatProbe

def recordRootKey (probe : JsonFormatProbe) (key : List Char) (type : JsonProbeType) (text : List Char) :
    JsonFormatProbe :=
  if key = "version".toList then
    { probe with
      hasVersion := true
      versionIsTimeBuilder := type = .String && text = "TimeBuilder".toList }
  else if key = "FuHongBuild_FinalFormat".toList then { probe with hasFuHongFinal := true }
  else if key = "FuHongBuild".toList then { probe with hasFuHongBuild := true }
  else if key = "BlockCalculationPos".toList then { probe with hasBlockCalculationPos := true }
  else if key = "chunkedBlocks".toList then { probe with hasChunkedBlocks := true }
  else if key = "namespaces".toList then { probe with hasNamespaces := true }
  else if key = "totalBlocks".toList then { probe with hasTotalBlocks := true }
  else if key = "block".toList then { probe with hasBlock := true }
  else if key = "size".toList then { probe with hasSize := true }
  else if key = "dimensions".toList then { probe with hasDimensions := true }
  else if key = "structure".toList then { probe with hasStructure := true }
  else probe

def finishRootElement (probe : JsonFormatProbe) : JsonFormatProbe :=
  if probe.rootElementActive = false then probe
  else
    { probe with
      first := if probe.rootCount = 0 then probe.current else probe.first
      allRunAway :=
        if probe.rootCount = 0 then probe.current.runawayShape
        else probe.allRunAway && probe.current.runawayShape
      second := if probe.rootCount = 1 then probe.current else probe.second
      penultimate := probe.last
      hasPenultimate := probe.rootCount ≠ 0
      last := probe.current
      rootCount := if probe.rootCount ≠ 2 ^ 64 - 1 then probe.rootCount + 1 else probe.rootCount
      current := {}
      rootElementActive := false }

/-- A value begins in a container; `none` stands for a callback that returns false. -/
def beginValue (probe : JsonFormatProbe) (type : JsonProbeType) (text : List Char) :
    Option JsonFormatProbe :=
  match probe.frames with
  | [] => none
  | parent :: outer =>
    if probe.rootType = .Array ∧ probe.frames.length = 1 ∧ parent.type = .Array then
      if probe.rootElementActive then none
      else some { probe with current := { type }, rootElementActive := true }
    else if parent.type ≠ .Object then some probe
    else
      let cleared := { probe with frames := { parent with key := [] } :: outer }
      if probe.rootType = .Object ∧ probe.frames.length = 1 then
        some (cleared.recordRootKey parent.key type text)
      else if probe.rootType = .Array ∧ probe.frames.length = 2 ∧
          (probe.frames.getLast?.map Frame.type) = some .Array ∧ probe.rootElementActive then
        some { cleared with current := probe.current.record parent.key type }
      else some cleared

def beginContainer (probe : JsonFormatProbe) (type : JsonProbeType) : Option JsonFormatProbe :=
  if probe.frames = [] then
    if probe.rootType ≠ .None then none else some { probe with rootType := type }
  else probe.beginValue type []

/-- `start_object` and `start_array`. -/
def startContainer (probe : JsonFormatProbe) (type : JsonProbeType) : Option JsonFormatProbe :=
  if probe.frames.length ≥ 256 then none
  else (probe.beginContainer type).map fun probe => { probe with frames := ⟨type, []⟩ :: probe.frames }

def endContainer (probe : JsonFormatProbe) (type : JsonProbeType) : Option JsonFormatProbe :=
  match probe.frames with
  | [] => none
  | parent :: outer =>
    if parent.type ≠ type then none
    else
      let popped := { probe with frames := outer }
      some (if probe.rootType = .Array ∧ probe.frames.length = 2 then popped.finishRootElement else popped)

def value (probe : JsonFormatProbe) (type : JsonProbeType) (text : List Char) : Option JsonFormatProbe :=
  if probe.frames = [] then
    if probe.rootType ≠ .None then none else some { probe with rootType := type }
  else
    (probe.beginValue type text).map fun probe =>
      if probe.rootType = .Array ∧ probe.frames.length = 1 then probe.finishRootElement else probe

def key (probe : JsonFormatProbe) (name : List Char) : Option JsonFormatProbe :=
  match probe.frames with
  | [] => none
  | parent :: outer =>
    if parent.type ≠ .Object then none
    else some { probe with frames := { parent with key := name } :: outer }

/-- The callbacks. -/
def handle (probe : JsonFormatProbe) : SaxEvent → Option JsonFormatProbe
  | .null => probe.value .Null []
  | .boolean _ => probe.value .Boolean []
  | .numberInteger _ => probe.value .Integer []
  | .numberUnsigned _ => probe.value .Integer []
  | .numberFloat _ => probe.value .Float []
  | .string input => probe.value .String input
  | .binary => probe.value .String []
  | .startObject => probe.startContainer .Object
  | .key name => probe.key name
  | .endObject => probe.endContainer .Object
  | .startArray => probe.startContainer .Array
  | .endArray => probe.endContainer .Array
  | .parseError => none

def detectedObject (probe : JsonFormatProbe) : Option StructureId :=
  if probe.versionIsTimeBuilder then some .TimeBuilderV1
  else if probe.hasFuHongFinal then some .FuHongV2
  else if probe.hasFuHongBuild then
    some (if probe.hasBlockCalculationPos then .FuHongV3 else .FuHongV4)
  else if probe.hasChunkedBlocks ∧ probe.hasNamespaces then some .MianYangV1
  else if probe.hasTotalBlocks then some .QingXuV1
  else if probe.hasBlock ∧ probe.hasVersion then some .TimeBuilderV1
  else if (probe.hasSize ∨ probe.hasDimensions) ∧ probe.hasStructure then some .CovStructure
  else none

def detectedArray (probe : JsonFormatProbe) : Option StructureId :=
  if probe.first.type = .Array ∧ probe.last.type = .Array then some .GangBanV6
  else if probe.rootCount ≥ 2 ∧ jsonProbeNumber probe.first.type ∧ probe.hasPenultimate ∧
      probe.penultimate.type = .Object ∧ probe.penultimate.hasEp ∧ probe.last.type = .Array then
    some .GangBanV5
  else if probe.first.type = .Object then
    if probe.allRunAway then some .RunAway
    else if probe.first.hasName ∧ probe.first.hasAux ∧ probe.first.hasX ∧ probe.first.hasY ∧
        probe.first.hasZ then
      some .FuHongV1
    else if probe.rootCount ≥ 2 ∧ probe.last.type = .Object ∧ probe.last.hasList then
      some (if probe.hasPenultimate ∧ probe.penultimate.type = .Object ∧ probe.penultimate.hasStart ∧
        probe.penultimate.hasEnd then .GangBanV1 else .GangBanV2)
    else if probe.rootCount ≥ 2 ∧ probe.first.hasXcha then
      if probe.second.type = .String then some .GangBanV3
      else if probe.second.type = .Array then some .GangBanV4
      else none
    else none
  else none

def detected (probe : JsonFormatProbe) : Option StructureId :=
  if probe.rootType = .Object then probe.detectedObject
  else if probe.rootType ≠ .Array ∨ probe.rootCount = 0 then none
  else probe.detectedArray

end JsonFormatProbe

/-! ## Detection -/

/-- A parser that calls back on events: the events it reports, and whether it accepts the text. -/
abbrev SaxParser := List UInt8 → List SaxEvent × Bool

/-- `sax_parse` with a fresh probe. -/
def probeJson (sax : SaxParser) (content : List UInt8) : Option JsonFormatProbe :=
  match (sax content).1.foldlM JsonFormatProbe.handle {} with
  | none => none
  | some probe => if (sax content).2 then some probe else none

/-- What is found at a path. -/
inductive FileKind where
  | missing
  | directory (hasLevelDat hasDb : Bool)
  | file (content : List UInt8)

/-- The last part of a path. -/
def filename (path : List Char) : List Char := (path.reverse.takeWhile fun c => c ≠ '/').reverse

/-- `std::filesystem::path::extension`: from the last dot, unless the name begins with it. -/
def extension (path : List Char) : List Char :=
  let name := filename path
  let suffix := (name.reverse.takeWhile fun c => c ≠ '.').reverse
  if name = ['.', '.'] ∨ '.' ∉ name ∨ suffix.length + 1 = name.length then [] else '.' :: suffix

def lower (value : List Char) : List Char := value.map Char.toLower

/-- `by_id`; an id that is in no entry, for which the source would read beyond the table, is an error. -/
def byId (id : StructureId) : Except String FormatInfo :=
  match formatTable.find? fun value => value.id = id with
  | some format => .ok format
  | none => .error "no entry"

/-- The first entry with the extension. -/
def byExtension (path : List Char) : Except String FormatInfo :=
  match formatTable.find? fun format =>
      format.extensions.any fun known => known.toList = lower (extension path) with
  | some format => .ok format
  | none => .error ("无法识别结构文件格式: " ++ String.ofList path)

def detectFile (sax : SaxParser) (path : List Char) (content : List UInt8) : Except String FormatInfo :=
  let header := (content.take 8 ++ List.replicate 8 0).map UInt8.toNat
  let ext := lower (extension path)
  if header.take 2 = [66, 68] then byId .BDX
  else if header.take 2 = [73, 66] then byId .IBImport
  else if header.take 2 = [99, 111] then byId .Construction
  else if header.take 2 = [72, 52] then byId .SIBI
  else if header.take 3 = [66, 67, 70] then byId .BCF
  else if header.take 2 = [80, 75] then byId .MCWorld
  else if header.take 2 = [0x1f, 0x8b] ∧ ext = ".buildingx".toList then byId .MianYangV4
  else if (header.take 1 = [0x78] ∨ header.take 2 = [0x28, 0x15]) ∧ ext = ".building".toList then
    byId .MianYangV3
  else if header.take 1 = [0x78] ∧ ext = ".reb".toList then byId .GangBanV7
  else if header.take 1 = [0x78] ∧ ext = ".fhbuild".toList then byId .FuHongV5
  else if ext = ".tibi".toList then byId .TIBI
  else if ext = ".np".toList then byId .NexusNP
  else if ext = ".bds".toList then byId .BDS
  else if header.take 1 = [0x0a] then byId (if ext = ".bp".toList then .AxiomBP else .MCStructure)
  else
    let probed :=
      if ext = ".json".toList ∨ ext = ".building".toList ∨ ext = ".buildingx".toList ∨
          ext = ".reb".toList ∨ ext = ".covstructure".toList then
        (probeJson sax content).bind JsonFormatProbe.detected
      else none
    probed.elim (byExtension path) byId

def detect (sax : SaxParser) (path : List Char) : FileKind → Except String FormatInfo
  | .missing => .error ("文件不存在: " ++ String.ofList path)
  | .directory hasLevelDat hasDb =>
    if hasLevelDat && hasDb then byId .MCWorld
    else .error ("目录不是有效的 Bedrock world: " ++ String.ofList path)
  | .file content => detectFile sax path content

end FormatRegistry

end WaterStructure
