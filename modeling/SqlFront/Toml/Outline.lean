import SqlFront.KeyedList
import SqlFront.Toml.Basic

/-!
# The outline of a TOML document

A document is a sequence of lines that open a table or add an entry to the open one. A table may
be opened only once, a key may be added only once, and a table that has a header of its own is not
extended by dotted keys.
-/

set_option autoImplicit false

namespace SqlFront.Toml

inductive Line
  /-- `[path]` -/
  | table (path : List String)
  /-- `[[path]]` -/
  | element (path : List String)
  /-- `path = value` -/
  | entry (path : List String) (value : Toml)

inductive Origin
  /-- It has a header of its own. -/
  | opened
  /-- The header of a table inside it names it. -/
  | implied
  /-- A dotted key names it. -/
  | dotted
deriving DecidableEq

inductive Outline
  | value (v : Toml)
  | table (origin : Origin) (entries : List (String × Outline))
  /-- The tables of an array; only the last one is extended. -/
  | elements (before : List (List (String × Outline))) (last : List (String × Outline))

namespace Outline

def atPath (change : List (String × Outline) → Option (List (String × Outline))) :
    List String → List (String × Outline) → Option (List (String × Outline))
  | [], es => change es
  | k :: ks, es =>
    match KeyedList.get? k es with
    | none => (atPath change ks []).map fun inner => KeyedList.put k (.table .implied inner) es
    | some (.value _) => none
    | some (.table origin inner) =>
      (atPath change ks inner).map fun inner => KeyedList.put k (.table origin inner) es
    | some (.elements before last) =>
      (atPath change ks last).map fun last => KeyedList.put k (.elements before last) es

def openTable (k : String) (es : List (String × Outline)) : Option (List (String × Outline)) :=
  match KeyedList.get? k es with
  | none => some (KeyedList.put k (.table .opened []) es)
  | some (.table .implied inner) => some (KeyedList.put k (.table .opened inner) es)
  | some _ => none

def openElement (k : String) (es : List (String × Outline)) : Option (List (String × Outline)) :=
  match KeyedList.get? k es with
  | none => some (KeyedList.put k (.elements [] []) es)
  | some (.elements before last) =>
    some (KeyedList.put k (.elements (before ++ [last]) []) es)
  | some _ => none

/-- Adds a value under a dotted key. No table with a header of its own is on the way; an array of
tables may be, but its last table does not get the value itself. -/
def addEntry (v : Toml) :
    List String → List (String × Outline) → Option (List (String × Outline))
  | [], _ => none
  | [k], es =>
    if (KeyedList.get? k es).isSome then none else some (KeyedList.put k (.value v) es)
  | k :: ks, es =>
    match KeyedList.get? k es with
    | none => (addEntry v ks []).map fun inner => KeyedList.put k (.table .dotted inner) es
    | some (.table origin inner) =>
      if origin = .opened then none
      else (addEntry v ks inner).map fun inner => KeyedList.put k (.table origin inner) es
    | some (.elements before last) =>
      if ks.length = 1 then none
      else (addEntry v ks last).map fun last => KeyedList.put k (.elements before last) es
    | some (.value _) => none

def splitLast? (path : List String) : Option (List String × String) :=
  path.getLast?.map fun k => (path.dropLast, k)

def addLine (state : List String × List (String × Outline)) :
    Line → Option (List String × List (String × Outline))
  | .table path => do
    let (above, k) ← splitLast? path
    return (path, ← atPath (openTable k) above state.2)
  | .element path => do
    let (above, k) ← splitLast? path
    return (path, ← atPath (openElement k) above state.2)
  | .entry path v => do
    return (state.1, ← atPath (addEntry v path) state.1 state.2)

mutual

def toToml : Outline → Toml
  | .value v => v
  | .table _ es => .table (entriesToToml es)
  | .elements before last => .array (tablesToToml before ++ [.table (entriesToToml last)])

def entriesToToml : List (String × Outline) → List (String × Toml)
  | [] => []
  | (k, o) :: es => (k, toToml o) :: entriesToToml es

def tablesToToml : List (List (String × Outline)) → List Toml
  | [] => []
  | es :: rest => .table (entriesToToml es) :: tablesToToml rest

end

end Outline

def ofEntries? (entries : List (List String × Toml)) : Option Toml :=
  (entries.foldlM (fun es (e : List String × Toml) => Outline.addEntry e.2 e.1 es) []).map
    fun es => .table (Outline.entriesToToml es)

def ofLines? (lines : List Line) : Option Toml :=
  (lines.foldlM Outline.addLine ([], [])).map fun state => .table (Outline.entriesToToml state.2)

end SqlFront.Toml
