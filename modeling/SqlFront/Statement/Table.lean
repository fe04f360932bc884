import SqlFront.Text.Name

/-!
# Tables and columns

A table list keeps the references of a statement to its tables, in order and each only once. Two
references are the same when name and alias are, without regard to the case of ASCII letters.
-/

set_option autoImplicit false

namespace SqlFront

structure Table where
  name : String
  alias? : Option String
deriving DecidableEq

structure Column where
  name : String
  table : String
deriving DecidableEq

def sameName? : Option String → Option String → Bool
  | some a, some b => sameName a b
  | none, none => true
  | _, _ => false

namespace Table

def same (a b : Table) : Bool := sameName a.name b.name && sameName? a.alias? b.alias?

end Table

structure Tables where
  entries : List Table
deriving DecidableEq

namespace Tables

def empty : Tables := ⟨[]⟩

def add (ts : Tables) (t : Table) : Tables :=
  if ts.entries.any (fun u => u.same t) then ts else ⟨ts.entries ++ [t]⟩

def extend (ts other : Tables) : Tables := other.entries.foldl add ts

def addName (names : List String) (name : String) : List String :=
  if names.any (fun n => sameName n name) then names else names ++ [name]

def names (ts : Tables) : List String := (ts.entries.map Table.name).foldl addName []

def isSingle (ts : Tables) : Bool := ts.names.length == 1

def singleName? (ts : Tables) : Option String :=
  if ts.isSingle then ts.entries.head?.map Table.name else none

def containsName (ts : Tables) (name : String) : Bool :=
  ts.entries.any (fun t => sameName t.name name)

def find? (ts : Tables) (name : String) : Option Table :=
  (ts.entries.find? (fun t => sameName t.name name)).or
    (ts.entries.find? (fun t => t.alias?.any (fun a => sameName a name)))

end Tables

end SqlFront
