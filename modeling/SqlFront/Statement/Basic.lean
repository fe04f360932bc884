import SqlFront.Statement.Insertion
import SqlFront.Statement.Query

/-!
# Statements
-/

set_option autoImplicit false

namespace SqlFront

inductive DefinitionKind
  | createTable | alterTable | dropTable | truncateTable | createIndex | alterIndex | dropIndex
deriving DecidableEq

inductive AccessKind
  | grant | revoke | deny | create | alter | drop | rename
deriving DecidableEq

inductive Principal
  | user | role | login
deriving DecidableEq

inductive TransactionKind
  | set | commit | rollback | savepoint | begin
deriving DecidableEq

inductive AdministrationKind
  | use (schema : String)
  | describe
  | showDatabases
  | showTables (schema? : Option String)
  | showColumns
  | showCreateTable
  | showIndex
  | showOther
deriving DecidableEq

inductive Statement
  | select (s : SelectStatement)
  | insert (s : InsertStatement)
  | update (f : Findings)
  | delete (f : Findings)
  | definition (f : Findings) (kind : DefinitionKind)
  | access (f : Findings) (kind : AccessKind) (principal? : Option Principal)
  | transaction (f : Findings) (kind : TransactionKind)
  | administration (f : Findings) (kind : AdministrationKind)

namespace Statement

def findings : Statement → Findings
  | .select s => s.query.findings
  | .insert s => s.findings
  | .update f => f
  | .delete f => f
  | .definition f _ => f
  | .access f _ _ => f
  | .transaction f _ => f
  | .administration f _ => f

def mapFindings (g : Findings → Findings) : Statement → Statement
  | .select s => .select { s with query := { s.query with findings := g s.query.findings } }
  | .insert s => .insert { s with findings := g s.findings }
  | .update f => .update (g f)
  | .delete f => .delete (g f)
  | .definition f k => .definition (g f) k
  | .access f k p => .access (g f) k p
  | .transaction f k => .transaction (g f) k
  | .administration f k => .administration (g f) k

def same : Statement → Statement → Bool
  | .select a, .select b => a.same b
  | .insert a, .insert b => a.same b
  | .update a, .update b => a.same b
  | .delete a, .delete b => a.same b
  | .definition a k, .definition b l => a.same b && k == l
  | .access a k p, .access b l r => a.same b && k == l && p == r
  | .transaction a k, .transaction b l => a.same b && k == l
  | .administration a k, .administration b l => a.same b && k == l
  | _, _ => false

end Statement

end SqlFront
