import SqlFront.Clause.TableReference
import SqlFront.Statement.Basic

/-!
# Reading access control, transaction control and administration
-/

set_option autoImplicit false

namespace SqlFront.Reading
open SqlFront.Parser SqlFront.Clause

/-! ## Access control -/

def accessKind? : Keyword → Option AccessKind
  | .GRANT => some .grant
  | .REVOKE => some .revoke
  | .DENY => some .deny
  | .CREATE => some .create
  | .ALTER => some .alter
  | .DROP => some .drop
  | .RENAME => some .rename
  | _ => none

def principalOf? : Keyword → Option Principal
  | .USER => some .user
  | .ROLE => some .role
  | .LOGIN => some .login
  | _ => none

def privilegeTable (rule : ShardingRule) (t : Token) : Parser Findings Unit := do
  let name := unquoted t.literals
  if rule.containsTable name || rule.hasDefault then
    modifyDraft fun f => (f.addEdit (.table t.start t.literals)).addTable ⟨name, none⟩

def privilegeTarget (rule : ShardingRule) : Parser Findings Unit := do
  skipUntil [.keyword .ON]
  if ← skipKeyword .ON then
    let _ ← skipKeyword .TABLE
    if ← skipSymbol .star then return ()
    else
      let t ← current
      advance
      if ← skipSymbol .dot then
        if ← skipSymbol .star then return ()
        else
          let t ← current
          advance
          privilegeTable rule t
      else privilegeTable rule t

def principal? : Parser Findings (Option Principal) := do
  match (← current).type.keyword?.bind principalOf? with
  | some p =>
    advance
    return some p
  | none => return none

def access (rule : ShardingRule) (kind : AccessKind) : Parser Findings (Option Principal) := do
  match kind with
  | .grant | .revoke | .deny =>
    privilegeTarget rule
    return none
  | _ => principal?

def accessStatement (rule : ShardingRule) (first : Keyword) : Parser Unit Statement := do
  match accessKind? first with
  | some kind =>
    let (f, p?) ← inside { kind := .dcl } (access rule kind)
    return .access f kind p?
  | none => failAt Cursor.refusal

/-! ## Transaction control -/

def transactionStatement (kind : TransactionKind) : Parser Unit Statement := do
  advance
  return .transaction { kind := .tcl } kind

/-! ## Administration -/

def skipSource : Parser Findings Bool := skipIf (keywordTypes [.FROM, .IN])

def shown : Parser Findings AdministrationKind := do
  let _ ← skipKeyword .FULL
  if ← skipKeyword .DATABASES then return .showDatabases
  else if ← skipKeyword .TABLES then
    if ← skipSource then return .showTables (some (← nameHere)) else return .showTables none
  else if ← skipIf (keywordTypes [.COLUMNS, .FIELDS]) then
    let _ ← skipSource
    bareTable
    return .showColumns
  else if ← skipKeyword .CREATE then
    expectKeyword .TABLE
    bareTable
    return .showCreateTable
  else if ← skipIf (keywordTypes [.INDEX, .INDEXES, .KEYS]) then
    let _ ← skipSource
    bareTable
    return .showIndex
  else return .showOther

inductive AdministrationWord
  | use | describe | show
deriving DecidableEq

def administration (word : AdministrationWord) : Parser Findings AdministrationKind := do
  advance
  match word with
  | .use => return .use (← nameHere)
  | .describe =>
    bareTable
    return .describe
  | .show => shown

def administrationStatement (word : AdministrationWord) : Parser Unit Statement := do
  let (f, kind) ← inside { kind := .dal } (administration word)
  return .administration f kind

end SqlFront.Reading
