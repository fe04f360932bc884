import SqlFront.Reading.Change
import SqlFront.Reading.Control
import SqlFront.Reading.Definition
import SqlFront.Reading.Select

/-!
# Reading a statement

The first word of a text says what statement it is. Definitions and access control are told apart
by the second word.
-/

set_option autoImplicit false

namespace SqlFront.Reading
open SqlFront.Parser

def definitionWords : List Keyword := [.CREATE, .ALTER, .DROP, .TRUNCATE]

def definitionObjects : List Keyword := [.TABLE, .INDEX, .UNIQUE, .TEMPORARY]

def privilegeWords : List Keyword := [.GRANT, .REVOKE, .DENY]

def principalWords : List Keyword := [.CREATE, .ALTER, .DROP, .RENAME]

def principalObjects : List Keyword := [.USER, .ROLE, .LOGIN]

def isOneOf (words : List Keyword) (t : TokenType) : Bool := t.keyword?.any words.contains

def isDefinition (first : Keyword) (second : TokenType) : Bool :=
  definitionWords.contains first && isOneOf definitionObjects second

def isAccess (first : Keyword) (second : TokenType) : Bool :=
  privilegeWords.contains first ||
    (principalWords.contains first && isOneOf principalObjects second)

def bySecondWord (rule : ShardingRule) (first : Keyword) : Parser Unit Statement := do
  advance
  let second := (← current).type
  if isDefinition first second then definitionStatement first
  else if isAccess first second then accessStatement rule first
  else failAt Cursor.refusal

def statement (rule : ShardingRule) (catalog : Catalog) : Parser Unit Statement := do
  match (← current).type with
  | .keyword .SELECT => selectStatement rule catalog
  | .keyword .INSERT => insertStatement rule catalog
  | .keyword .UPDATE => updateStatement rule
  | .keyword .DELETE => deleteStatement rule
  | .keyword .SET => transactionStatement .set
  | .keyword .COMMIT => transactionStatement .commit
  | .keyword .ROLLBACK => transactionStatement .rollback
  | .keyword .SAVEPOINT => transactionStatement .savepoint
  | .keyword .BEGIN => transactionStatement .begin
  | .keyword .USE => administrationStatement .use
  | .keyword .DESC => administrationStatement .describe
  | .keyword .DESCRIBE => administrationStatement .describe
  | .keyword .SHOW => administrationStatement .show
  | .keyword first => bySecondWord rule first
  | _ => failAt Cursor.refusal

def text (rule : ShardingRule) (catalog : Catalog) : Parser Unit Statement := do
  advance
  statement rule catalog

end SqlFront.Reading

namespace SqlFront

def parse (d : Dialect) (rule : ShardingRule) (catalog : Catalog) (sql : String) :
    Except Fault Statement :=
  match Reading.text rule catalog ⟨Cursor.ofText d sql, ()⟩ with
  | .ok s _ => .ok (s.mapFindings fun f => { f with edits := Edit.sorted f.edits })
  | .error fault _ => .error fault

end SqlFront
