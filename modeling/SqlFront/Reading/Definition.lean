import SqlFront.Clause.TableReference
import SqlFront.Statement.Basic

/-!
# Reading definitions of tables and indexes

The first word of the statement is known; reading goes on behind it.
-/

set_option autoImplicit false

namespace SqlFront.Reading
open SqlFront.Parser SqlFront.Clause

def tableDefinition? : Keyword → Option DefinitionKind
  | .CREATE => some .createTable
  | .ALTER => some .alterTable
  | .DROP => some .dropTable
  | .TRUNCATE => some .truncateTable
  | _ => none

def indexDefinition? : Keyword → Option DefinitionKind
  | .CREATE => some .createIndex
  | .ALTER => some .alterIndex
  | .DROP => some .dropIndex
  | _ => none

def skipExistence : Parser Findings Unit := do
  if ← skipKeyword .IF then
    let _ ← skipKeyword .NOT
    expectKeyword .EXISTS

def definedTables : Parser Findings Unit := do
  skipExistence
  discard <| commaSeparated bareTable

def indexHasTable : DefinitionKind → Parser Findings Bool
  | .createIndex => do
    expectKeyword .ON
    return true
  | .dropIndex => skipKeyword .ON
  | _ => return false

def definedIndex (kind : DefinitionKind) : Parser Findings Unit := do
  skipExistence
  let start := (← current).start
  let name ← nameHere
  if ← indexHasTable kind then
    bareTable
    modifyDraft fun f => f.addEdit (.index start name f.tables.singleName?)
  else modifyDraft fun f => f.addEdit (.index start name none)

def definition (first : Keyword) : Parser Findings DefinitionKind := do
  skipUntil (keywordTypes [.TABLE, .INDEX])
  if ← skipKeyword .TABLE then
    match tableDefinition? first with
    | some kind =>
      definedTables
      return kind
    | none => failAt Cursor.refusal
  else if ← isAt (.keyword .INDEX) then
    match indexDefinition? first with
    | some kind =>
      advance
      definedIndex kind
      return kind
    | none => failAt Cursor.refusal
  else failAt fun c => .malformed c.current.start (.notTableOrIndex first)

def definitionStatement (first : Keyword) : Parser Unit Statement := do
  let (f, kind) ← inside { kind := .ddl } (definition first)
  return .definition f kind

end SqlFront.Reading
