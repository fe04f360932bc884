import SqlFront.Number.Binary64

/-!
# TOML values

A value of a TOML text. A table keeps the order of its entries.
-/

set_option autoImplicit false

namespace SqlFront

inductive Toml
  | string (value : String)
  | integer (value : Int)
  | decimal (value : Binary64)
  | boolean (value : Bool)
  | array (values : List Toml)
  | table (entries : List (String × Toml))

namespace Toml

variable {α : Type}

def asString? : Toml → Option String
  | .string s => some s
  | _ => none

def asBoolean? : Toml → Option Bool
  | .boolean b => some b
  | _ => none

def asCount? : Toml → Option Nat
  | .integer i => if 0 ≤ i ∧ i < 0x10000000000000000 then some i.toNat else none
  | _ => none

def asList? (element : Toml → Option α) : Toml → Option (List α)
  | .array vs => vs.mapM element
  | _ => none

mutual

def fits : Toml → Bool
  | .integer i =>
    -0x80000000000000000000000000000000 ≤ i && i < 0x100000000000000000000000000000000
  | .array vs => allFit vs
  | .table es => entriesFit es
  | _ => true

def allFit : List Toml → Bool
  | [] => true
  | v :: vs => v.fits && allFit vs

def entriesFit : List (String × Toml) → Bool
  | [] => true
  | (_, v) :: es => v.fits && entriesFit es

end

/-- What a record gives besides the fields `known` does not count, but its integers have to fit. -/
def othersFit (known : List String) : Toml → Bool
  | .table es => entriesFit (es.filter fun e => !known.contains e.1)
  | _ => true

def isEmpty : Toml → Bool
  | .array vs => vs.isEmpty
  | .table es => es.isEmpty
  | _ => false

/-- A field of a record. The record is a table, or an array that gives the fields in their
declared order; `none` stands for a value that is no record. -/
def field? (place : Nat) (name : String) : Toml → Option (Option Toml)
  | .table es => some (es.lookup name)
  | .array vs => some vs[place]?
  | _ => none

def fieldOr (absent : α) (read : Toml → Option α) (place : Nat) (name : String) (record : Toml) :
    Option α :=
  (record.field? place name).bind fun
    | some v => read v
    | none => some absent

end Toml

end SqlFront
