import Mathlib.Algebra.Group.Int.Defs

/-!
# Request bodies

The control plane reads and answers JSON. A body is read field by field, and a field that is absent
or of the wrong kind reads as absent; so a value is described by what can be read from it, and by
how it is written when it is used as a label.
-/

namespace RfxVoiced

/-- A JSON value. A number is an integer, when it is one of at most 64 bits, or else it is known by
the text it is written as. -/
inductive Value
  | null
  | bool (b : Bool)
  | int (n : ℤ)
  | float (text : String)
  | string (s : String)
  | array (items : List Value)
  | object (fields : List (String × Value))

namespace Value

/-- A field of an object. -/
def get (v : Value) (key : String) : Option Value :=
  match v with
  | .object fields => (fields.find? fun f => f.1 = key).map Prod.snd
  | _ => none

def asBool : Value → Option Bool
  | .bool b => some b
  | _ => none

def asStr : Value → Option String
  | .string s => some s
  | _ => none

def asArray : Value → Option (List Value)
  | .array items => some items
  | _ => none

/-- A number from 0 to 2^64 - 1. -/
def asU64 : Value → Option ℕ
  | .int n => if 0 ≤ n ∧ n < 2 ^ 64 then some n.toNat else none
  | _ => none

/-! ### Writing a value -/

/-- One hexadecimal digit. -/
def hexDigit (n : ℕ) : Char := ("0123456789abcdef".toList)[n]?.getD '0'

/-- A character as it stands inside a JSON string. -/
def escapeChar (c : Char) : List Char :=
  match c with
  | '"' => ['\\', '"']
  | '\\' => ['\\', '\\']
  | '\n' => ['\\', 'n']
  | '\r' => ['\\', 'r']
  | '\t' => ['\\', 't']
  | c =>
    if c.toNat = 8 then ['\\', 'b']
    else if c.toNat = 12 then ['\\', 'f']
    else if c.toNat < 32 then
      ['\\', 'u', '0', '0', hexDigit (c.toNat / 16), hexDigit (c.toNat % 16)]
    else [c]

def quote (s : String) : String := "\"" ++ String.ofList (s.toList.flatMap escapeChar) ++ "\""

mutual

/-- The value written out, without blanks. -/
def write : Value → String
  | .null => "null"
  | .bool b => if b then "true" else "false"
  | .int n => toString n
  | .float text => text
  | .string s => quote s
  | .array items => "[" ++ String.intercalate "," (writeItems items) ++ "]"
  | .object fields => "\x7b" ++ String.intercalate "," (writeFields fields) ++ "\x7d"

def writeItems : List Value → List String
  | [] => []
  | v :: items => write v :: writeItems items

def writeFields : List (String × Value) → List String
  | [] => []
  | (key, v) :: fields => (quote key ++ ":" ++ write v) :: writeFields fields

end

/-! ### Fields of a request -/

/-- A number field, cut down to 32 bits. -/
def u32Of (v : Value) (key : String) : Option UInt32 :=
  ((v.get key).bind asU64).map UInt32.ofNat

/-- A flag, which is off when it is absent. -/
def flag (v : Value) (key : String) : Bool := ((v.get key).bind asBool).getD false

end Value

end RfxVoiced
