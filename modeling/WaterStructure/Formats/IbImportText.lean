import WaterStructure.Core.Registry
import WaterStructure.Formats.McFunctionRead
import WaterStructure.Library.Json

/-!
# The command script of an IBImport file

The first segment of a file is a script of `fill` and `setblock` lines. A state that a line names is
looked up and registered, so that reading changes the registry. The JSON library, which unquotes
names and values, is a parameter.
-/

namespace WaterStructure.IbImport

def kMaxCommands : ℕ := 8000000

def kMaxLineBytes : ℕ := 16 * 1024 * 1024

def kMaxStateProperties : ℕ := 128

def kMaxRuntimeCacheEntries : ℕ := 65536

/-- What a streaming parser reports. -/
inductive SaxEvent where
  | scalar (value : Json)
  | startObject
  | key (name : List Char)
  | endObject
  | startArray
  | endArray
  | parseError (what : String)

/-- What the reader uses of the JSON library: parsing a whole text, and the events of a text, the
last of which is an error if the text is no JSON value. -/
structure JsonLibrary where
  parse : List Char → Option Json
  events : List Char → List SaxEvent

def relative (token : List Char) : Option ℤ :=
  let number := match token with
    | '~' :: number => number
    | number => number
  if number.isEmpty then some 0 else fromChars number

def trimCopy (value : List Char) : List Char := trimBy isBlank value

def unquote (json : JsonLibrary) (value : List Char) : List Char :=
  let value := trimCopy value
  if value.length < 2 ∨ value.head? ≠ some '"' ∨ value.getLast? ≠ some '"' then value
  else
    match json.parse value with
    | none => value.tail.dropLast
    | some (.string text) => text
    | some _ => value

/-- One part `name=value` of a property list. -/
def parseProperty (json : JsonLibrary) (part : List Char) : Except String BlockStateProperty :=
  let part := trimCopy part
  if part.isEmpty then .error "IBImport 方块状态属性为空"
  else
    match cutAtFirst '=' part with
    | none => .error "IBImport 方块状态缺少 '='"
    | some ([], _) => .error "IBImport 方块状态缺少 '='"
    | some (name, value) =>
      let name := unquote json name
      let value := trimCopy value
      if name.isEmpty ∨ value.isEmpty then .error "IBImport 方块状态属性无效"
      else if value = "true".toList then .ok ⟨name, .Byte, ['1']⟩
      else if value = "false".toList then .ok ⟨name, .Byte, ['0']⟩
      else if value.head? = some '"' then .ok ⟨name, .String, unquote json value⟩
      else
        match fromChars value with
        | some number => .ok ⟨name, .Int, decimal number⟩
        | none => .ok ⟨name, .String, value⟩

/-- A text that is no bracketed list has no properties. -/
def parseStateProperties (json : JsonLibrary) (state : List Char) :
    Except String (List BlockStateProperty) :=
  let state := trimCopy state
  if state.length < 2 ∨ state.head? ≠ some '[' ∨ state.getLast? ≠ some ']' then .ok []
  else
    let body := state.tail.dropLast
    if (trimCopy body).isEmpty then .ok []
    else
      match McFunction.splitParts false false [] body with
      | none => .error "IBImport 方块状态引号未闭合"
      | some parts =>
        if parts.length > kMaxStateProperties then .error "IBImport 方块状态属性过多"
        else parts.mapM (parseProperty json)

/-- The variables of the script loop, with the registry. -/
structure ScriptState where
  registry : StateRegistry
  batch : McFunction.Batch := {}
  cache : McFunction.RuntimeCache := ∅
  lineNumber : ℕ := 0

/-- The id of a name and a state text. The state is registered whether or not it is found. -/
def resolveRuntime (json : JsonLibrary) (script : ScriptState) (name state : List Char) :
    Except String (RuntimeId × ScriptState) :=
  match script.cache.lookup (name ++ state) with
  | some runtime => .ok (runtime, script)
  | none =>
    match parseStateProperties json state with
    | .error error => .error error
    | .ok properties =>
      let found := script.registry.find name properties 0
      let registered := script.registry.registerState ⟨name, properties, 0⟩
      let runtime := found.getD registered.1
      .ok (runtime, { script with
        registry := registered.2
        cache :=
          if script.cache.entries.length < kMaxRuntimeCacheEntries then
            script.cache.insert (name ++ state) runtime
          else script.cache })

/-- An error of a line. -/
def lineError (lineNumber : ℕ) (text : String) : String :=
  "IBImport 第 " ++ toString lineNumber ++ " 行" ++ text

/-- The next fields of a line; `none` when there are too few. -/
def takeFields : ℕ → List Char → Option (List (List Char) × List Char)
  | 0, line => some ([], line)
  | count + 1, line =>
    (nextField line).bind fun field =>
      (takeFields count field.2).map fun rest => (field.1 :: rest.1, rest.2)

/-- Read coordinates, each on its axis. -/
def readCoordinates (lineNumber : ℕ) (tokens : List (List Char × String)) :
    Except String (List ℤ) :=
  tokens.mapM fun token =>
    match relative token.1 with
    | some value => .ok value
    | none =>
      .error (lineError lineNumber (" " ++ token.2 ++ " 坐标无效: " ++ String.ofList token.1))

/-- A line of the script that is a command, behind its first word. -/
def readCommand (json : JsonLibrary) (script : ScriptState) (fill : Bool) (rest : List Char) :
    Except String ScriptState :=
  match takeFields 3 rest with
  | none => .error (lineError script.lineNumber "坐标参数不完整")
  | some (first, rest) =>
    match takeFields (if fill then 4 else 1) rest with
    | none =>
      .error (lineError script.lineNumber (if fill then " fill 参数不完整" else " setblock 缺少方块名"))
    | some (fields, rest) =>
      let second := if fill then fields.take 3 else first
      let name := fields.getLastD []
      match readCoordinates script.lineNumber ((first ++ second).zip
        ["X", "Y", "Z", "X", "Y", "Z"]) with
      | .error error => .error error
      | .ok coordinates =>
        match resolveRuntime json script name (trimCopy rest) with
        | .error error => .error error
        | .ok (runtime, script) =>
          if script.batch.commands.length ≥ kMaxCommands then
            .error ("IBImport 命令数量超过限制 " ++ toString kMaxCommands)
          else
            .ok { script with
              batch := script.batch.push (McFunction.cuboidOf true coordinates runtime) }

/-- One turn of the loop over the script. -/
def readLine (json : JsonLibrary) (script : ScriptState) (line : List Char) :
    Except String ScriptState :=
  let script := { script with lineNumber := script.lineNumber + 1 }
  if line.length > kMaxLineBytes then
    .error (lineError script.lineNumber ("超过 " ++ toString kMaxLineBytes ++ " bytes 限制"))
  else
    match nextField line with
    | none => .ok script
    | some (op, rest) =>
      if op.map toLower = "fill".toList then readCommand json script true rest
      else if op.map toLower = "setblock".toList then readCommand json script false rest
      else .ok script

def readScript (json : JsonLibrary) (script : ScriptState) (text : List Char) :
    Except String ScriptState :=
  (McFunction.lines text).foldlM (readLine json) script

end WaterStructure.IbImport
