import SqlFront.Number.Layout
import SqlFront.Text.Character
import SqlFront.Toml.Basic

/-!
# Writing TOML

A table becomes a header with a line for each of its entries, and after them come the tables
inside it. A table that holds nothing but tables needs no header.

A string is written in the first of these forms that shows it best: in double quotes, in single
quotes as it is, between three double quotes, between three single quotes as it is, and at last
with escapes.
-/

set_option autoImplicit false

namespace SqlFront.Toml

/-! ## Strings -/

/-- A character that is written as an escape: a control character, but neither tab nor line break. -/
def isControl (c : Char) : Bool :=
  (c.toNat < 0x20 && c != '\t' && c != '\n') || c.toNat == 0x7f

def longestRun (of : Char) : Nat → List Char → Nat
  | run, [] => run
  | run, c :: cs => if c = of then longestRun of (run + 1) cs else max run (longestRun of 0 cs)

inductive Quoting
  | basic | literal | longBasic | longLiteral
deriving DecidableEq

namespace Quoting

def delimiter : Quoting → String
  | .basic => "\""
  | .literal => "'"
  | .longBasic => "\"\"\""
  | .longLiteral => "'''"

def isLong : Quoting → Bool
  | .longBasic => true
  | .longLiteral => true
  | _ => false

def isLiteral : Quoting → Bool
  | .literal => true
  | .longLiteral => true
  | _ => false

def best (cs : List Char) : Quoting :=
  let lines := cs.contains '\n'
  let escapes := cs.any isControl
  let backslash := cs.contains '\\'
  let double := longestRun '"' 0 cs
  let single := longestRun '\'' 0 cs
  if !escapes && !backslash && double == 0 && !lines then .basic
  else if !escapes && single == 0 && !lines then .literal
  else if !escapes && !backslash && double ≤ 2 then .longBasic
  else if !escapes && single ≤ 2 then .longLiteral
  else if lines then .longBasic
  else .basic

end Quoting

def fourDigits (n : Nat) : List Char :=
  [n / 0x1000, n / 0x100, n / 0x10, n].map fun d =>
    ((Nat.toDigits 16 (d % 16)).headD '0').toUpper

/-- The characters of a string with escapes. `quotes` double quotes may stand side by side, and
`run` of them come before. -/
def escaped (long : Bool) (quotes : Nat) : Nat → List Char → List Char
  | _, [] => []
  | run, c :: cs =>
    if c = '"' then
      if run < quotes then '"' :: escaped long quotes (run + 1) cs
      else '\\' :: '"' :: escaped long quotes 0 cs
    else
      let own :=
        if c = '\\' then ['\\', '\\']
        else if c = '\x08' then ['\\', 'b']
        else if c = '\t' then ['\\', 't']
        else if c = '\x0c' then ['\\', 'f']
        else if c = '\r' then ['\\', 'r']
        else if c = '\n' then (if long then ['\n'] else ['\\', 'n'])
        else if isControl c then '\\' :: 'u' :: fourDigits c.toNat
        else [c]
      own ++ escaped long quotes 0 cs

def stringText (s : String) : String :=
  let cs := s.toList
  let q := Quoting.best cs
  let opening := if q.isLong && cs.contains '\n' then "\n" else ""
  let body := if q.isLiteral then cs else escaped q.isLong (if q.isLong then 2 else 0) 0 cs
  q.delimiter ++ opening ++ String.ofList body ++ q.delimiter

/-! ## Values -/

def isKeyCharacter (c : Char) : Bool :=
  Character.isLetter c || Character.isDigit c || c == '_' || c == '-'

def keyText (name : String) : String :=
  if name.toList ≠ [] ∧ name.toList.all isKeyCharacter then name else stringText name

def arrayText : List String → String
  | [] => "[]"
  | [v] => "[" ++ v ++ "]"
  | vs => "[\n" ++ String.join (vs.map fun v => "    " ++ v ++ ",\n") ++ "]"

def tableText (entries : List String) : String :=
  if entries.isEmpty then "\x7b\x7d" else "\x7b " ++ ", ".intercalate entries ++ " \x7d"

def decimalText (x : Binary64) : String :=
  if x.isFinite then NumberLayout.json.text x
  else if x.isNaN then "nan"
  else if x.negative then "-inf"
  else "inf"

mutual

def text : Toml → String
  | .string s => stringText s
  | .integer i => toString i
  | .decimal x => decimalText x
  | .boolean b => if b then "true" else "false"
  | .array vs => arrayText (texts vs)
  | .table es => tableText (entryTexts es)

def texts : List Toml → List String
  | [] => []
  | v :: vs => text v :: texts vs

def entryTexts : List (String × Toml) → List String
  | [] => []
  | (name, v) :: es => (keyText name ++ " = " ++ text v) :: entryTexts es

end

/-! ## Documents -/

def isSection : Toml → Bool
  | .table _ => true
  | .array (.table _ :: _) => true
  | _ => false

def plainLines (es : List (String × Toml)) : String :=
  String.join ((entryTexts (es.filter fun e => !isSection e.2)).map (· ++ "\n"))

def pathText (path : List String) : String := ".".intercalate (path.map keyText)

def tableSection (path : List String) (es : List (String × Toml)) : List String :=
  if !es.isEmpty && es.all (fun e => isSection e.2) then []
  else ["[" ++ pathText path ++ "]\n" ++ plainLines es]

mutual

def sections (path : List String) : List (String × Toml) → List String
  | [] => []
  | (name, .table inner) :: es =>
    tableSection (path ++ [name]) inner ++ sections (path ++ [name]) inner ++ sections path es
  | (name, .array vs) :: es => elementSections (path ++ [name]) vs ++ sections path es
  | _ :: es => sections path es

def elementSections (path : List String) : List Toml → List String
  | [] => []
  | .table es :: vs =>
    ("[[" ++ pathText path ++ "]]\n" ++ plainLines es) ::
      (sections path es ++ elementSections path vs)
  | _ :: vs => elementSections path vs

end

def document (es : List (String × Toml)) : String :=
  let root := plainLines es
  "\n".intercalate ((if root.isEmpty then [] else [root]) ++ sections [] es)

end SqlFront.Toml
