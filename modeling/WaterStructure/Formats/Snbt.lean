import WaterStructure.Core.JavaStates
import WaterStructure.Library.NestedLoop
import WaterStructure.Library.TagTree

/-!
# The parser of textual NBT

A recursive parser that tells values apart by their first character, and unquoted ones by their last.
Text is a list of bytes, given as characters. What is left of the text is passed along; a failure states
how far the parser has come. The numbers of floating-point tags come from `std::strtod`.
-/

namespace WaterStructure

open NbtTag

namespace Snbt

/-- Whether an unquoted text is a finite number as a whole, and its value as a double; and a double as a
float. -/
structure FloatReading where
  strtod : List Char → Option UInt64
  narrow : UInt64 → UInt32

section Tokens

variable {α : Type} (total : ℕ)

def fail (message : String) (rest : List Char) : Except String α :=
  .error (message ++ " (SNBT offset " ++ toString (total - rest.length) ++ ")")

def skipSpace (rest : List Char) : List Char := rest.dropWhile isBlank

/-- Whether the expected character is next, and what is left. -/
def consume (expected : Char) (rest : List Char) : Bool × List Char :=
  match skipSpace rest with
  | [] => (false, [])
  | c :: tail => if c = expected then (true, tail) else (false, c :: tail)

def expect (expected : Char) (message : String) (rest : List Char) : Except String (List Char) :=
  let (consumed, rest) := consume expected rest
  if consumed then .ok rest else fail total message rest

def hexDigit : List Char → Except String (ℕ × List Char)
  | [] => fail total "Unicode 转义被截断" []
  | c :: rest =>
    if '0' ≤ c ∧ c ≤ '9' then .ok (c.toNat - '0'.toNat, rest)
    else if 'a' ≤ c ∧ c ≤ 'f' then .ok (c.toNat - 'a'.toNat + 10, rest)
    else if 'A' ≤ c ∧ c ≤ 'F' then .ok (c.toNat - 'A'.toNat + 10, rest)
    else fail total "Unicode 转义包含非法十六进制字符" rest

def unicodeEscape (rest : List Char) : Except String (ℕ × List Char) := do
  let (first, rest) ← hexDigit total rest
  let (second, rest) ← hexDigit total rest
  let (third, rest) ← hexDigit total rest
  let (fourth, rest) ← hexDigit total rest
  return (((first * 16 + second) * 16 + third) * 16 + fourth, rest)

def byteChar (value : ℕ) : Char := Char.ofNat (value % 256)

def appendUtf8 (codepoint : ℕ) : Except String (List Char) :=
  if codepoint ≤ 0x7f then .ok [byteChar codepoint]
  else if codepoint ≤ 0x7ff then .ok [byteChar (0xc0 ||| codepoint / 64), byteChar (0x80 ||| codepoint % 64)]
  else if codepoint ≤ 0xffff then
    .ok [byteChar (0xe0 ||| codepoint / 4096), byteChar (0x80 ||| codepoint / 64 % 64),
      byteChar (0x80 ||| codepoint % 64)]
  else if codepoint ≤ 0x10ffff then
    .ok [byteChar (0xf0 ||| codepoint / 262144), byteChar (0x80 ||| codepoint / 4096 % 64),
      byteChar (0x80 ||| codepoint / 64 % 64), byteChar (0x80 ||| codepoint % 64)]
  else .error "Unicode codepoint 越界"

/-- The rest of an escape with `u`; two surrogates stand for one character. -/
def unicodeText (rest : List Char) : Except String (List Char × List Char) := do
  let (codepoint, rest) ← unicodeEscape total rest
  if 0xd800 ≤ codepoint ∧ codepoint ≤ 0xdbff then
    if rest.take 2 = ['\\', 'u'] then do
      let (low, rest) ← unicodeEscape total (rest.drop 2)
      if low < 0xdc00 ∨ low > 0xdfff then fail total "Unicode 低代理项无效" rest
      else do
        let text ← appendUtf8 (0x10000 + (codepoint - 0xd800) * 1024 + (low - 0xdc00))
        return (text, rest)
    else fail total "Unicode 高代理项缺少低代理项" rest
  else if 0xdc00 ≤ codepoint ∧ codepoint ≤ 0xdfff then fail total "Unicode 低代理项缺少高代理项" rest
  else do
    let text ← appendUtf8 codepoint
    return (text, rest)

/-- What an escaped character stands for; any other one stands for itself. -/
def unescaped (c : Char) : Char :=
  if c = 'b' then Char.ofNat 8
  else if c = 'f' then Char.ofNat 12
  else if c = 'n' then '\n'
  else if c = 'r' then '\r'
  else if c = 't' then '\t'
  else c

/-- The loop of `quoted_string`; each round takes at least one character. -/
def quotedLoop (quote : Char) : ℕ → List Char → List Char → Except String (List Char × List Char)
  | 0, _, rest => fail total "字符串没有结束引号" rest
  | _ + 1, _, [] => fail total "字符串没有结束引号" []
  | rounds + 1, output, c :: rest =>
    if c = quote then .ok (output, rest)
    else if c ≠ '\\' then quotedLoop quote rounds (output ++ [c]) rest
    else match rest with
      | [] => fail total "字符串转义被截断" []
      | escaped :: rest =>
        if escaped = 'u' then do
          let (text, rest) ← unicodeText total rest
          quotedLoop quote rounds (output ++ text) rest
        else quotedLoop quote rounds (output ++ [unescaped escaped]) rest

def isQuote (c : Char) : Bool := c = '"' || c = '\''

def quotedString (rest : List Char) : Except String (List Char × List Char) :=
  match skipSpace rest with
  | [] => fail total "期望引号字符串" []
  | quote :: rest =>
    if isQuote quote then quotedLoop total quote rest.length [] rest
    else fail total "期望引号字符串" (quote :: rest)

/-- A character that ends an unquoted text. -/
def endsToken (key : Bool) (c : Char) : Bool :=
  c = ',' || c = '\x7d' || c = ']' || (key && c = ':') || isBlank c

def bareToken (key : Bool) (rest : List Char) : Except String (List Char × List Char) :=
  let rest := skipSpace rest
  let token := rest.takeWhile fun c => !endsToken key c
  if token = [] then fail total (if key then "compound key 为空" else "标签值为空") rest
  else .ok (token, rest.dropWhile fun c => !endsToken key c)

def parseKey (rest : List Char) : Except String (List Char × List Char) :=
  match skipSpace rest with
  | [] => bareToken total true []
  | c :: rest => if isQuote c then quotedString total (c :: rest) else bareToken total true (c :: rest)

end Tokens

/-! ## Numbers -/

instance (width : ℕ) (value : ℤ) : Decidable (IsSigned width value) := inferInstanceAs (Decidable (_ ∧ _))

/-- `std::from_chars` to a signed type of so many bytes, reading the whole text. -/
def fromCharsSigned (width : ℕ) (token : List Char) : Option ℤ := do
  let value ← match token with
    | '-' :: digits => (digitsValue digits).map (- ·)
    | digits => digitsValue digits
  if IsSigned width value then some value else none

section Values

variable (floats : FloatReading) (total : ℕ)

def parseIntegerValue (width : ℕ) (token : List Char) (type : String) (rest : List Char) : Except String ℤ :=
  match fromCharsSigned width token with
  | some value => .ok value
  | none => fail total (type ++ " 数值无效") rest

def looksNumeric (number : List Char) : Bool :=
  match number with
  | [] => false
  | c :: _ => c = '+' || c = '-' || ('0' ≤ c && c ≤ '9')

/-- The value of an unquoted text; `rest` is what is left behind it. -/
def numericOrString (token rest : List Char) : Except String Tag :=
  if token = "true".toList ∨ token = "TRUE".toList then .ok (.byte 1)
  else if token = "false".toList ∨ token = "FALSE".toList then .ok (.byte 0)
  else
    match token.getLast? with
    | none => fail total "标签值为空" rest
    | some suffix =>
      let number := if toLower suffix = 'b' ∨ toLower suffix = 's' ∨ toLower suffix = 'l' ∨
        toLower suffix = 'f' ∨ toLower suffix = 'd' then token.dropLast else token
      if !looksNumeric number then .ok (.string token)
      else if toLower suffix = 'b' then (parseIntegerValue total 1 number "byte" rest).map .byte
      else if toLower suffix = 's' then (parseIntegerValue total 2 number "short" rest).map .short
      else if toLower suffix = 'l' then (parseIntegerValue total 8 number "long" rest).map .long
      else if toLower suffix = 'f' ∨ toLower suffix = 'd' ∨
          number.any fun c => c = '.' || c = 'e' || c = 'E' then
        match floats.strtod number with
        | none => fail total "浮点数值无效" rest
        | some value => if toLower suffix = 'f' then .ok (.float (floats.narrow value)) else .ok (.double value)
      else (parseIntegerValue total 4 number "int" rest).map .int

/-- The items of an array of one type. -/
structure ArrayType where
  item : Tag → Option ℤ
  array : List ℤ → Tag
  name : String

def byteItem : Tag → Option ℤ
  | .byte value => some value
  | _ => none

def intItem : Tag → Option ℤ
  | .int value => some value
  | _ => none

def longItem : Tag → Option ℤ
  | .long value => some value
  | _ => none

/-- The array whose prefix has this letter. -/
def arrayType (letter : Char) : ArrayType :=
  if letter = 'B' ∨ letter = 'b' then ⟨byteItem, .byteArray, "byte"⟩
  else if letter = 'I' ∨ letter = 'i' then ⟨intItem, .intArray, "int"⟩
  else ⟨longItem, .longArray, "long"⟩

/-- Whether the prefix of an array is next. -/
def arrayPrefix (rest : List Char) : Option (Char × List Char) :=
  match rest with
  | letter :: ';' :: _ =>
    if letter = 'B' ∨ letter = 'b' ∨ letter = 'I' ∨ letter = 'i' ∨ letter = 'L' ∨ letter = 'l' then
      some (letter, rest.tail)
    else none
  | _ => none

/-- `push_back`: the first item of a list decides the type of the others. -/
def pushBack (element : TagType) (items : List Tag) (value : Tag) : Option (TagType × List Tag) :=
  if items = [] then some (value.type, [value])
  else if value.type = element then some (element, items ++ [value])
  else none

/-- How a value is read; the parsers of containers are given it. -/
abbrev ValueParser := List Char → Except String (Tag × List Char)

/-- The loop of every container: an item, and then the closing character or a comma. Each round takes at
least one character. -/
def itemsLoop {σ : Type} (close : Char) (missing truncated : String)
    (item : σ → List Char → Except String (σ × List Char)) : ℕ → σ → List Char → Except String (σ × List Char)
  | 0, _, rest => fail total truncated rest
  | rounds + 1, state, rest => do
    let (state, rest) ← item state rest
    let (closed, rest) := consume close rest
    if closed then return (state, rest)
    else
      let rest ← expect total ',' missing rest
      itemsLoop close missing truncated item rounds state rest

/-- An entry of a compound. -/
def compoundItem (parseValue : ValueParser) (compound : SortedMap (List Char) Tag) (rest : List Char) :
    Except String (SortedMap (List Char) Tag × List Char) := do
  let (key, rest) ← parseKey total rest
  let rest ← expect total ':' "compound key 后缺少冒号" rest
  let (value, rest) ← parseValue rest
  return (compound.set key value, rest)

def parseCompound (parseValue : ValueParser) (rest : List Char) : Except String (Tag × List Char) := do
  let rest ← expect total '\x7b' "期望 compound 起始符" rest
  let (closed, rest) := consume '\x7d' rest
  if closed then return (.compound [], rest)
  else
    let (compound, rest) ← itemsLoop total '\x7d' "compound 项之间缺少逗号" "compound key 为空"
      (compoundItem total parseValue) rest.length SortedMap.empty rest
    return (.compound compound.entries, rest)

/-- An item of a typed array. -/
def arrayItem (parseValue : ValueParser) (type : ArrayType) (values : List ℤ) (rest : List Char) :
    Except String (List ℤ × List Char) := do
  let (value, rest) ← parseValue rest
  match type.item value with
  | none => fail total (type.name ++ " array 包含非 " ++ type.name ++ " 值") rest
  | some value => return (values ++ [value], rest)

def parseTypedArray (parseValue : ValueParser) (letter : Char) (rest : List Char) :
    Except String (Tag × List Char) := do
  let rest ← expect total ';' "typed array 缺少分号" rest
  let type := arrayType letter
  let (closed, rest) := consume ']' rest
  if closed then return (type.array [], rest)
  else
    let (values, rest) ← itemsLoop total ']' (type.name ++ " array 项之间缺少逗号") "标签值被截断"
      (arrayItem total parseValue type) rest.length [] rest
    return (type.array values, rest)

/-- An item of a list; the state is the type of the items, and the items. -/
def listItem (parseValue : ValueParser) (state : TagType × List Tag) (rest : List Char) :
    Except String ((TagType × List Tag) × List Char) := do
  let (value, rest) ← parseValue rest
  match pushBack state.1 state.2 value with
  | none => fail total "NBT list 包含不同 tag 类型" rest
  | some state => return (state, rest)

def parseList (parseValue : ValueParser) (rest : List Char) : Except String (Tag × List Char) := do
  let rest ← expect total '[' "期望 list 起始符" rest
  let rest := skipSpace rest
  match arrayPrefix rest with
  | some (letter, rest) => parseTypedArray total parseValue letter rest
  | none =>
    let (closed, rest) := consume ']' rest
    if closed then return (.list .End [], rest)
    else
      let (list, rest) ← itemsLoop total ']' "list 项之间缺少逗号" "标签值被截断" (listItem total parseValue)
        rest.length (.End, []) rest
      return (.list list.1 list.2, rest)

/-- `parse_value`, for a text with at most so many levels of containers. -/
def parseValue : ℕ → ValueParser
  | 0, rest => fail total "标签值被截断" rest
  | levels + 1, rest =>
    match skipSpace rest with
    | [] => fail total "标签值被截断" []
    | c :: tail =>
      if c = '\x7b' then parseCompound total (parseValue levels) (c :: tail)
      else if c = '[' then parseList total (parseValue levels) (c :: tail)
      else if isQuote c then (quotedString total (c :: tail)).map fun found => (.string found.1, found.2)
      else do
        let (token, rest) ← bareToken total false (c :: tail)
        let tag ← numericOrString floats total token rest
        return (tag, rest)

end Values

/-- A level of containers takes a character, so a text has no more levels than characters. -/
def parse (floats : FloatReading) (input : List Char) : Except String Tag := do
  let (result, rest) ← parseValue floats input.length input.length (skipSpace input)
  let rest := skipSpace rest
  if rest ≠ [] then fail input.length "根标签后存在多余内容" rest
  else return result

end Snbt

end WaterStructure
