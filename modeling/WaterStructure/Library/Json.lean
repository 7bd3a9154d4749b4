import Mathlib.Data.Rat.Floor
import Mathlib.Data.List.Sigma

/-!
# JSON values and checked access to them

A parsed JSON text. An object lists its members in the order in which they are visited. Reading a
value as a type it does not have throws, with the text of the exception as the error.
-/

/-- A JSON value. Numbers are kept as they were written: without a sign, with one, or with a
fraction or an exponent. -/
inductive Json where
  | null
  | boolean (value : Bool)
  | unsigned (value : ℕ)
  | integer (value : ℤ)
  | float (value : ℚ)
  | string (value : List Char)
  | array (items : List Json)
  | object (members : List (List Char × Json))

namespace Json

def isObject : Json → Bool
  | .object _ => true
  | _ => false

def isString : Json → Bool
  | .string _ => true
  | _ => false

/-- The items of an array. -/
def items? : Json → Option (List Json)
  | .array items => some items
  | _ => none

/-- The members of an object. -/
def members? : Json → Option (List (List Char × Json))
  | .object members => some members
  | _ => none

/-- The member of an object under a name; nothing when the value is no object. -/
def member? (value : Json) (name : String) : Option Json :=
  (value.members?.getD []).lookup name.toList

def contains (value : Json) (name : String) : Bool := (value.member? name).isSome

/-- Read a number or a truth value as an integer, dropping a fraction. -/
def toInteger : Json → Except String ℤ
  | .boolean value => .ok (if value then 1 else 0)
  | .unsigned value => .ok value
  | .integer value => .ok value
  | .float value => .ok (value.num.tdiv value.den)
  | _ => .error "type must be number"

/-- Read a string. -/
def toText : Json → Except String (List Char)
  | .string value => .ok value
  | _ => .error "type must be string"

/-- The member under a name, read as an integer, or a default when there is none. Only an object
can be asked. -/
def integerOr (value : Json) (name : String) (default : ℤ) : Except String ℤ :=
  match value.members? with
  | none => .error "cannot use value()"
  | some _ =>
    match value.member? name with
    | none => .ok default
    | some member => member.toInteger

/-- The member under a name; it must be there. -/
def required (value : Json) (name : String) : Except String Json :=
  match value.member? name with
  | none => .error "key not found"
  | some member => .ok member

end Json
