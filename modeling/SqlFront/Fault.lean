import SqlFront.Lexeme.Piece
import SqlFront.Statement.Expression
import SqlFront.Text.LowerCase

/-!
# Faults

A fault has a kind, a cause and, where it is about a text, a place in it. The wording of every
cause is in this module.
-/

set_option autoImplicit false

namespace SqlFront

inductive Expectation
  | token (type : TokenType)
  | integerOrPlaceholder
  | rowCount
  | stated (message : String)
deriving DecidableEq

inductive SyntaxCause
  | unexpected (expected : Expectation) (type : TokenType) (literals : String)
  | columnIndex (number : Number)
  | notColumn (found : Expression)
  | rowLength (columns values : Nat)
  | notTableOrIndex (behind : Keyword)
  | stated (message : String)
deriving DecidableEq

inductive UnsupportedCause
  | token (type : TokenType) (literals : String)
  | severalTables
  | schemaTable (literals : String)
  | joinedSubQuery
  | generatedKeyValue (column : String) (found : Expression)
  | shardingKeyUpdate (column : String)
  | stated (message : String)
deriving DecidableEq

inductive ConfigurationCause
  | unknownDialect (name : String)
  | notBoolean (text : String)
  | notCapacity (text : String)
  | emptyLogLevel
  | zeroCapacity
  | emptyTableName
  | duplicateTable (name : String)
  | keyNotColumn (key table : String)
  | notSettings (reason : String)
  | capacityTooLarge (capacity : Nat)
  | stated (message : String)
deriving DecidableEq

inductive InternalCause
  | unregisteredKeyword (word : String)
  | insertWithoutTable
  /-- A repetition went on without reading anything. -/
  | stalled
  | stated (message : String)
deriving DecidableEq

inductive Fault
  | lexical (offset : Nat) (cause : LexicalCause)
  | malformed (offset : Nat) (cause : SyntaxCause)
  | unsupported (offset : Nat) (cause : UnsupportedCause)
  | configuration (cause : ConfigurationCause)
  | internal (cause : InternalCause)
  | unreadable (reason : String)
deriving DecidableEq

namespace Expectation

def message : Expectation → String
  | .token t => "expected " ++ t.describe
  | .integerOrPlaceholder => "expected INT or '?'"
  | .rowCount => "expected row count"
  | .stated m => m

end Expectation

namespace SyntaxCause

def message : SyntaxCause → String
  | .unexpected e t literals =>
    e.message ++ ", found " ++ t.describe ++ " '" ++ literals ++ "'"
  | .columnIndex n => "invalid column index " ++ n.plainText
  | .notColumn e => "expected column name, found " ++ e.inspection
  | .rowLength columns values =>
    "column count " ++ toString columns ++ " doesn't match value count " ++ toString values
  | .notTableOrIndex k => "expected TABLE or INDEX after " ++ k.spelling
  | .stated m => m

end SyntaxCause

namespace UnsupportedCause

def message : UnsupportedCause → String
  | .token t literals => t.describe ++ " '" ++ literals ++ "'"
  | .severalTables => "Cannot support Multiple-Table."
  | .schemaTable literals => "Cannot support SQL for \x60schema.table\x60: " ++ literals
  | .joinedSubQuery => "Cannot support sub query for join"
  | .generatedKeyValue column e =>
    "generated key " ++ column ++ " must be a literal or parameter, found " ++ e.inspection
  | .shardingKeyUpdate column => "Cannot update sharding key " ++ column
  | .stated m => m

end UnsupportedCause

namespace ConfigurationCause

def message : ConfigurationCause → String
  | .unknownDialect name => "Unsupported dialect: " ++ name
  | .notBoolean text => "SHARDSQL_ENABLE_CACHING must be a boolean, got '" ++ text ++ "'"
  | .notCapacity text => "SHARDSQL_CACHE_CAPACITY must be a number, got '" ++ text ++ "'"
  | .emptyLogLevel => "Log level cannot be empty"
  | .zeroCapacity => "Cache capacity must be greater than 0 when caching is enabled"
  | .emptyTableName => "Logic table name cannot be empty"
  | .duplicateTable name => "Duplicate logic table '" ++ name ++ "'"
  | .keyNotColumn key table =>
    "Generate key column '" ++ key ++ "' is not a column of '" ++ table ++ "'"
  | .notSettings reason => "cannot parse settings: " ++ reason
  | .capacityTooLarge capacity => "cache capacity " ++ toString capacity ++ " is too large"
  | .stated m => m

end ConfigurationCause

namespace InternalCause

def message : InternalCause → String
  | .unregisteredKeyword word => "'" ++ word ++ "' is not a registered keyword"
  | .insertWithoutTable => "INSERT statement without table"
  | .stalled => "reading makes no progress"
  | .stated m => m

end InternalCause

namespace Fault

def offset? : Fault → Option Nat
  | .lexical n _ => some n
  | .malformed n _ => some n
  | .unsupported n _ => some n
  | _ => none

def message : Fault → String
  | .lexical n c => "SQL lexical error at offset " ++ toString n ++ ": " ++ c.message
  | .malformed n c => "SQL syntax error at offset " ++ toString n ++ ": " ++ c.message
  | .unsupported n c => "Unsupported SQL at offset " ++ toString n ++ ": " ++ c.message
  | .configuration c => "Configuration error: " ++ c.message
  | .internal c => "Internal error: " ++ c.message
  | .unreadable reason => "I/O error: " ++ reason

def isLexical : Fault → Bool
  | .lexical _ _ => true
  | _ => false

def isMalformed : Fault → Bool
  | .malformed _ _ => true
  | _ => false

def isUnsupported : Fault → Bool
  | .unsupported _ _ => true
  | _ => false

def ofLexical (f : LexicalFault) : Fault := .lexical f.offset f.cause

end Fault

namespace Dialect

def ofText (text : String) : Except Fault Dialect :=
  match ofShortName? (lowerCase text) with
  | some d => .ok d
  | none => .error (.configuration (.unknownDialect text))

def requireKeyword (d : Dialect) (word : String) : Except Fault Keyword :=
  match d.keyword? word with
  | some k => .ok k
  | none => .error (.internal (.unregisteredKeyword word))

end Dialect

end SqlFront
