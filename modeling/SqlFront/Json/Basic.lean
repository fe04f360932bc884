import SqlFront.Number.Layout

/-!
# JSON values

A value keeps the order of its fields. Whole numbers and floating point numbers are told apart by
how they are written: only the latter have a point or an exponent.
-/

set_option autoImplicit false

namespace SqlFront

inductive Json
  | null
  | bool (value : Bool)
  | integer (value : Int)
  | decimal (value : Binary64)
  | string (value : String)
  | array (values : List Json)
  | object (fields : List (String × Json))

namespace Json

def field? (name : String) : Json → Option Json
  | .object fields => fields.lookup name
  | _ => none

mutual

def depth : Json → Nat
  | .array vs => depthValues vs + 1
  | .object fs => depthFields fs + 1
  | _ => 0

def depthValues : List Json → Nat
  | [] => 0
  | v :: vs => max (depth v) (depthValues vs)

def depthFields : List (String × Json) → Nat
  | [] => 0
  | (_, v) :: fs => max (depth v) (depthFields fs)

end

/-! ## Writing -/

def hexDigit (n : Nat) : Char := (Nat.toDigits 16 (n % 16)).headD '0'

def character (c : Char) : List Char :=
  if c = '"' ∨ c = '\\' then ['\\', c]
  else if c = '\x08' then ['\\', 'b']
  else if c = '\x0c' then ['\\', 'f']
  else if c = '\n' then ['\\', 'n']
  else if c = '\r' then ['\\', 'r']
  else if c = '\t' then ['\\', 't']
  else if c.toNat < 0x20 then ['\\', 'u', '0', '0', hexDigit (c.toNat / 16), hexDigit c.toNat]
  else [c]

def stringText (s : String) : String :=
  "\"" ++ String.ofList (s.toList.flatMap character) ++ "\""

def decimalText (x : Binary64) : String := if x.isFinite then NumberLayout.json.text x else "null"

mutual

def compact : Json → String
  | .null => "null"
  | .bool b => if b then "true" else "false"
  | .integer i => toString i
  | .decimal x => decimalText x
  | .string s => stringText s
  | .array values => "[" ++ ",".intercalate (compactValues values) ++ "]"
  | .object fields => "\x7b" ++ ",".intercalate (compactFields fields) ++ "\x7d"

def compactValues : List Json → List String
  | [] => []
  | v :: vs => compact v :: compactValues vs

def compactFields : List (String × Json) → List String
  | [] => []
  | (name, v) :: fields => (stringText name ++ ":" ++ compact v) :: compactFields fields

end

def block (indent : String) (opening closing : String) (entries : List String) : String :=
  if entries.isEmpty then opening ++ closing
  else
    let inner := indent ++ "  "
    opening ++ "\n" ++ ",\n".intercalate (entries.map (inner ++ ·)) ++ "\n" ++ indent ++ closing

mutual

def pretty (indent : String) : Json → String
  | .array values => block indent "[" "]" (prettyValues (indent ++ "  ") values)
  | .object fields => block indent "\x7b" "\x7d" (prettyFields (indent ++ "  ") fields)
  | v => compact v

def prettyValues (indent : String) : List Json → List String
  | [] => []
  | v :: vs => pretty indent v :: prettyValues indent vs

def prettyFields (indent : String) : List (String × Json) → List String
  | [] => []
  | (name, v) :: fields =>
    (stringText name ++ ": " ++ pretty indent v) :: prettyFields indent fields

end

end Json

end SqlFront
