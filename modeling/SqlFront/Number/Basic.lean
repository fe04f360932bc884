import SqlFront.Number.Layout
import SqlFront.Text.Character

/-!
# Numbers in SQL text

A number is an integer of 64 bits or, where it is written with a fraction, with an exponent or
too large, a floating point number. The functions here read texts that need not be tokens.
-/

set_option autoImplicit false

namespace SqlFront

inductive Number
  | integer (value : Int64)
  | decimal (value : Binary64)
deriving DecidableEq

namespace Number

def truncate : Number → Int
  | .integer v => v.toInt
  | .decimal v => v.truncate

def plainText : Number → String
  | .integer v => toString v.toInt
  | .decimal v => NumberLayout.plain.text v

def sameNumber : Number → Number → Bool
  | .integer a, .integer b => a == b
  | .decimal a, .decimal b => a.sameNumber b
  | _, _ => false

/-! ## Reading -/

def digitValue (c : Char) : Nat :=
  if Character.isDigit c then c.toNat - '0'.toNat
  else if 'a' ≤ c ∧ c ≤ 'f' then c.toNat - 'a'.toNat + 10
  else if 'A' ≤ c ∧ c ≤ 'F' then c.toNat - 'A'.toNat + 10
  else 16

def digitsValue (base : Nat) (cs : List Char) : Nat :=
  cs.foldl (fun n c => n * base + digitValue c) 0

def splitSign : List Char → Bool × List Char
  | '-' :: cs => (true, cs)
  | '+' :: cs => (false, cs)
  | cs => (false, cs)

def natural? (base : Nat) (cs : List Char) : Option Nat :=
  if cs ≠ [] ∧ cs.all (fun c => digitValue c < base) then some (digitsValue base cs) else none

def ofInt? (i : Int) : Option Int64 :=
  if -0x8000000000000000 ≤ i ∧ i < 0x8000000000000000 then some (Int64.ofInt i) else none

def int64? (base : Nat) (cs : List Char) : Option Int64 :=
  let (negative, body) := splitSign cs
  (natural? base body).bind fun n => ofInt? (if negative then -(n : Int) else n)

def exponent? : List Char → Option Int
  | [] => some 0
  | c :: cs =>
    if c = 'e' ∨ c = 'E' then
      let (negative, body) := splitSign cs
      (natural? 10 body).map fun n => if negative then -(n : Int) else n
    else none

def unsignedDecimal? (negative : Bool) (cs : List Char) : Option Binary64 :=
  let whole := cs.takeWhile Character.isDigit
  let rest := cs.drop whole.length
  let (fraction, rest) :=
    if charAt rest 0 = '.' then
      let fraction := (rest.drop 1).takeWhile Character.isDigit
      (fraction, rest.drop (1 + fraction.length))
    else ([], rest)
  if whole ++ fraction = [] then none
  else
    (exponent? rest).map fun e =>
      Binary64.ofDecimal negative (digitsValue 10 (whole ++ fraction)) (e - fraction.length)

def binary64? (cs : List Char) : Option Binary64 :=
  let (negative, body) := splitSign cs
  let word := String.ofList (body.map Char.toLower)
  if word = "inf" ∨ word = "infinity" then some (Binary64.infinity negative)
  else if word = "nan" then some Binary64.nan
  else unsignedDecimal? negative body

def ofInteger? (text : String) : Option Number :=
  match int64? 10 text.toList with
  | some v => some (.integer v)
  | none => (binary64? text.toList).map .decimal

def ofHex? (text : String) : Option Number :=
  match text.toList with
  | '0' :: x :: cs =>
    if x = 'x' ∨ x = 'X' then
      match cs with
      | '-' :: cs => (int64? 16 cs).map fun v => .integer (-v)
      | cs => (int64? 16 cs).map .integer
    else none
  | _ => none

def ofFloat? (text : String) : Option Number :=
  let isSuffix (c : Char) : Bool := c == 'f' || c == 'F' || c == 'd' || c == 'D'
  (binary64? (text.toList.reverse.dropWhile isSuffix).reverse).map .decimal

end Number

end SqlFront
