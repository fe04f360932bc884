import SqlFront.Text.Name
import SqlFront.Token.Keyword

/-!
# Dialects

A dialect is described by two records: how its text is cut into tokens, and which words its
statements know. Everything that differs between two dialects is in these records and in the list
of its own keywords.
-/

set_option autoImplicit false

namespace SqlFront

inductive Direction
  | ascending | descending
deriving DecidableEq

def Direction.spelling : Direction → String
  | .ascending => "ASC"
  | .descending => "DESC"

inductive Dialect
  | mysql | oracle | postgresql | sqlserver | h2
deriving DecidableEq

structure Lexis where
  /-- The opening of a hint, a comment that would otherwise mean something to the database. -/
  hintOpening : Option String := none
  /-- A `#` begins a comment up to the end of the line. -/
  poundComment : Bool := false
  /-- An `@` begins a variable. -/
  atVariables : Bool := false
  /-- An `N` before a single quote belongs to the string. -/
  nationalStrings : Bool := false
  /-- The characters that open a quoted identifier, besides the backquote. -/
  identifierQuotes : List Char := []

inductive RowLimitStyle
  /-- The limit is left alone. -/
  | unread
  /-- `LIMIT n OFFSET m`, and with `comma` also `LIMIT m, n`. -/
  | limit (comma : Bool)
  /-- `TOP n` before the select list. -/
  | top
deriving DecidableEq

structure Grammar where
  distinctSynonyms : List Keyword := []
  selectOptions : List Keyword := []
  beforeSelectItem : List Keyword := []
  joins : List Keyword := []
  afterGroupBy : List Keyword := []
  nullsOrder : Direction := .ascending
  rowLimit : RowLimitStyle := .unread
  refusedBeforeInto : List Keyword := []
  betweenTableAndValues : List Keyword := []
  valuesSynonyms : List Keyword := []
  insertSet : Bool := false
  onDuplicateKey : Bool := false
  indexHints : Bool := false
  updateModifiers : List Keyword := []
  deleteModifiers : List Keyword := [.FROM]
  setOperations : List Keyword := [.UNION, .INTERSECT, .EXCEPT]
  orderBySiblings : Bool := false

namespace Dialect

def all : List Dialect := [.mysql, .oracle, .postgresql, .sqlserver, .h2]

def name : Dialect → String
  | .mysql => "mysql"
  | .oracle => "oracle"
  | .postgresql => "postgresql"
  | .sqlserver => "sqlserver"
  | .h2 => "h2"

def ofName? (name : String) : Option Dialect := all.find? (fun d => d.name == name)

def ofShortName? (name : String) : Option Dialect :=
  if name == "postgres" || name == "pg" then some .postgresql
  else if name == "mssql" then some .sqlserver
  else ofName? name

def lexis : Dialect → Lexis
  | .mysql => { hintOpening := some "/*!", poundComment := true, atVariables := true }
  | .oracle => { hintOpening := some "/*+", identifierQuotes := ['"'] }
  | .postgresql => { identifierQuotes := ['"'] }
  | .sqlserver => { atVariables := true, nationalStrings := true, identifierQuotes := ['['] }
  | .h2 => {}

def keywords : Dialect → List Keyword
  | .mysql =>
    [.LIMIT, .OFFSET, .VALUE, .SHOW, .DESCRIBE, .DATABASES, .TABLES, .COLUMNS, .FIELDS, .INDEXES,
      .KEYS, .DUPLICATE, .LOW_PRIORITY, .DELAYED, .HIGH_PRIORITY, .IGNORE, .QUICK, .PARTITION,
      .FORCE, .ROLLUP, .REGEXP, .STRAIGHT_JOIN, .SQL_SMALL_RESULT, .SQL_BIG_RESULT,
      .SQL_BUFFER_RESULT, .SQL_CACHE, .SQL_NO_CACHE, .SQL_CALC_FOUND_ROWS]
  | .oracle => [.SIBLINGS, .MINUS, .CONNECT_BY_ROOT, .ROWNUM, .FIRST, .LAST]
  | .postgresql => [.LIMIT, .OFFSET, .FETCH, .ONLY, .FIRST, .LAST, .RETURNING]
  | .sqlserver => [.TOP, .OFFSET, .FETCH, .PERCENT, .TIES]
  | .h2 => [.LIMIT, .OFFSET]

def grammar : Dialect → Grammar
  | .mysql =>
    { selectOptions := [.HIGH_PRIORITY, .STRAIGHT_JOIN, .SQL_SMALL_RESULT, .SQL_BIG_RESULT,
        .SQL_BUFFER_RESULT, .SQL_CACHE, .SQL_NO_CACHE, .SQL_CALC_FOUND_ROWS]
      joins := [.STRAIGHT_JOIN]
      afterGroupBy := [.WITH, .ROLLUP]
      rowLimit := .limit true
      refusedBeforeInto := [.LOW_PRIORITY, .DELAYED, .HIGH_PRIORITY, .IGNORE]
      betweenTableAndValues := [.PARTITION]
      valuesSynonyms := [.VALUE]
      insertSet := true
      onDuplicateKey := true
      indexHints := true
      updateModifiers := [.LOW_PRIORITY, .IGNORE]
      deleteModifiers := [.LOW_PRIORITY, .QUICK, .IGNORE, .FROM] }
  | .oracle =>
    { distinctSynonyms := [.UNIQUE]
      beforeSelectItem := [.CONNECT_BY_ROOT]
      nullsOrder := .descending
      refusedBeforeInto := [.ALL, .FIRST]
      setOperations := [.UNION, .INTERSECT, .EXCEPT, .MINUS]
      orderBySiblings := true }
  | .postgresql => { nullsOrder := .descending, rowLimit := .limit false }
  | .sqlserver => { rowLimit := .top }
  | .h2 => { rowLimit := .limit true }

def vocabulary (d : Dialect) : List Keyword := Keyword.shared ++ d.keywords

def keyword? (d : Dialect) (word : String) : Option Keyword :=
  let spelling := upperCase word
  d.vocabulary.find? (fun k => k.spelling == spelling)

def sortedVocabulary (d : Dialect) : List Keyword :=
  d.vocabulary.mergeSort (fun a b => !decide (b.spelling < a.spelling))

end Dialect

end SqlFront
