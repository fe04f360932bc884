import SqlFront.Number.Basic
import SqlFront.Text.Name
import SqlFront.Text.Table.Unprintable

/-!
# Expressions

An expression is read only as far as sharding needs it: a name, a literal or a placeholder.
Everything composite is kept as the text it has in the source. Messages show an expression with its
strings in double quotes and escaped.
-/

set_option autoImplicit false

namespace SqlFront

inductive Expression
  | identifier (name : String)
  | property (owner name : String)
  | number (value : Number)
  | text (value : String)
  /-- The placeholder `?` that `index` others precede. -/
  | placeholder (index : Nat)
  /-- The text of an expression that is not taken apart. -/
  | raw (source : String)
deriving DecidableEq

namespace Expression

def columnName? : Expression → Option String
  | .identifier name => some (unquoted name)
  | .property _ name => some (unquoted name)
  | .raw source => some source
  | _ => none

def isShardingValue : Expression → Bool
  | .number _ => true
  | .text _ => true
  | .placeholder _ => true
  | _ => false

def sameExpression : Expression → Expression → Bool
  | .number a, .number b => a.sameNumber b
  | a, b => a == b

end Expression

/-! ## As messages show it

Quotes, backslashes and the common control characters have short escapes, and a character without
a shape of its own is shown by its number. -/

namespace Escaped

def isUnprintable (c : Char) : Bool :=
  if 0x20 ≤ c.toNat ∧ c.toNat < 0x7f then false
  else Table.unprintable.any (fun r => r.1 ≤ c.toNat && c.toNat ≤ r.2)

def character (c : Char) : List Char :=
  if c = '\x00' then ['\\', '0']
  else if c = '\t' then ['\\', 't']
  else if c = '\n' then ['\\', 'n']
  else if c = '\r' then ['\\', 'r']
  else if c = '"' ∨ c = '\\' then ['\\', c]
  else if isUnprintable c then ['\\', 'u', '\x7b'] ++ Nat.toDigits 16 c.toNat ++ ['\x7d']
  else [c]

def text (s : String) : String := "\"" ++ String.ofList (s.toList.flatMap character) ++ "\""

end Escaped

namespace Expression

def numberInspection : Number → String
  | .integer v => "Integer(" ++ toString v.toInt ++ ")"
  | .decimal v => "Decimal(" ++ NumberLayout.inspection.text v ++ ")"

def inspection : Expression → String
  | .identifier name => "Identifier \x7b name: " ++ Escaped.text name ++ " \x7d"
  | .property owner name =>
    "Property \x7b owner: " ++ Escaped.text owner ++ ", name: " ++ Escaped.text name ++ " \x7d"
  | .number value => "Number \x7b value: " ++ numberInspection value ++ " \x7d"
  | .text value => "Text \x7b value: " ++ Escaped.text value ++ " \x7d"
  | .placeholder index => "Placeholder \x7b index: " ++ toString index ++ " \x7d"
  | .raw source => "Ignore \x7b expression: " ++ Escaped.text source ++ " \x7d"

end Expression

end SqlFront
