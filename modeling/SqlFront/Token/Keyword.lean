/-!
# Keywords

The words that SQL dialects reserve. A constructor carries the spelling of its keyword, in upper
case; which of the keywords a text may use is decided by the vocabulary of its dialect.
-/

set_option autoImplicit false

namespace SqlFront

inductive Keyword
  | SCHEMA | DATABASE | TABLE | COLUMN | VIEW | INDEX | TRIGGER | PROCEDURE | TABLESPACE
  | FUNCTION | SEQUENCE | CURSOR | GENERATED | PRIMARY | UNIQUE | FOREIGN | KEY | CHECK
  | REFERENCES | CONSTRAINT | TEMPORARY | CASCADE | RESTRICT | ADD | MODIFY | SELECT | DELETE
  | INSERT | UPDATE | VALUES | SET | FROM | WHERE | INTO | CREATE | ALTER | DROP | TRUNCATE
  | RENAME | GRANT | REVOKE | DENY | USER | ROLE | LOGIN | AS | DISTINCT | ALL | AND | OR | NOT
  | NULL | IS | IN | BETWEEN | LIKE | EXISTS | ESCAPE | ANY | SOME | JOIN | INNER | OUTER | LEFT
  | RIGHT | FULL | CROSS | NATURAL | ON | USING | ORDER | GROUP | BY | ASC | DESC | HAVING
  | NULLS | UNION | INTERSECT | EXCEPT | CASE | WHEN | THEN | ELSE | END | AVG | MAX | MIN | SUM
  | COUNT | COMMIT | ROLLBACK | SAVEPOINT | BEGIN | TRANSACTION | USE | TRUE | FALSE | DEFAULT
  | IF | FOR | WITH | CAST | INTERVAL | LIMIT | OFFSET | VALUE | SHOW | DESCRIBE | DATABASES
  | TABLES | COLUMNS | FIELDS | INDEXES | KEYS | DUPLICATE | LOW_PRIORITY | DELAYED
  | HIGH_PRIORITY | IGNORE | QUICK | PARTITION | FORCE | ROLLUP | REGEXP | STRAIGHT_JOIN
  | SQL_SMALL_RESULT | SQL_BIG_RESULT | SQL_BUFFER_RESULT | SQL_CACHE | SQL_NO_CACHE
  | SQL_CALC_FOUND_ROWS | SIBLINGS | MINUS | CONNECT_BY_ROOT | ROWNUM | FIRST | LAST | ONLY
  | FETCH | RETURNING | TOP | PERCENT | TIES
deriving DecidableEq

namespace Keyword

def spelling : Keyword → String
  | .SCHEMA => "SCHEMA"
  | .DATABASE => "DATABASE"
  | .TABLE => "TABLE"
  | .COLUMN => "COLUMN"
  | .VIEW => "VIEW"
  | .INDEX => "INDEX"
  | .TRIGGER => "TRIGGER"
  | .PROCEDURE => "PROCEDURE"
  | .TABLESPACE => "TABLESPACE"
  | .FUNCTION => "FUNCTION"
  | .SEQUENCE => "SEQUENCE"
  | .CURSOR => "CURSOR"
  | .GENERATED => "GENERATED"
  | .PRIMARY => "PRIMARY"
  | .UNIQUE => "UNIQUE"
  | .FOREIGN => "FOREIGN"
  | .KEY => "KEY"
  | .CHECK => "CHECK"
  | .REFERENCES => "REFERENCES"
  | .CONSTRAINT => "CONSTRAINT"
  | .TEMPORARY => "TEMPORARY"
  | .CASCADE => "CASCADE"
  | .RESTRICT => "RESTRICT"
  | .ADD => "ADD"
  | .MODIFY => "MODIFY"
  | .SELECT => "SELECT"
  | .DELETE => "DELETE"
  | .INSERT => "INSERT"
  | .UPDATE => "UPDATE"
  | .VALUES => "VALUES"
  | .SET => "SET"
  | .FROM => "FROM"
  | .WHERE => "WHERE"
  | .INTO => "INTO"
  | .CREATE => "CREATE"
  | .ALTER => "ALTER"
  | .DROP => "DROP"
  | .TRUNCATE => "TRUNCATE"
  | .RENAME => "RENAME"
  | .GRANT => "GRANT"
  | .REVOKE => "REVOKE"
  | .DENY => "DENY"
  | .USER => "USER"
  | .ROLE => "ROLE"
  | .LOGIN => "LOGIN"
  | .AS => "AS"
  | .DISTINCT => "DISTINCT"
  | .ALL => "ALL"
  | .AND => "AND"
  | .OR => "OR"
  | .NOT => "NOT"
  | .NULL => "NULL"
  | .IS => "IS"
  | .IN => "IN"
  | .BETWEEN => "BETWEEN"
  | .LIKE => "LIKE"
  | .EXISTS => "EXISTS"
  | .ESCAPE => "ESCAPE"
  | .ANY => "ANY"
  | .SOME => "SOME"
  | .JOIN => "JOIN"
  | .INNER => "INNER"
  | .OUTER => "OUTER"
  | .LEFT => "LEFT"
  | .RIGHT => "RIGHT"
  | .FULL => "FULL"
  | .CROSS => "CROSS"
  | .NATURAL => "NATURAL"
  | .ON => "ON"
  | .USING => "USING"
  | .ORDER => "ORDER"
  | .GROUP => "GROUP"
  | .BY => "BY"
  | .ASC => "ASC"
  | .DESC => "DESC"
  | .HAVING => "HAVING"
  | .NULLS => "NULLS"
  | .UNION => "UNION"
  | .INTERSECT => "INTERSECT"
  | .EXCEPT => "EXCEPT"
  | .CASE => "CASE"
  | .WHEN => "WHEN"
  | .THEN => "THEN"
  | .ELSE => "ELSE"
  | .END => "END"
  | .AVG => "AVG"
  | .MAX => "MAX"
  | .MIN => "MIN"
  | .SUM => "SUM"
  | .COUNT => "COUNT"
  | .COMMIT => "COMMIT"
  | .ROLLBACK => "ROLLBACK"
  | .SAVEPOINT => "SAVEPOINT"
  | .BEGIN => "BEGIN"
  | .TRANSACTION => "TRANSACTION"
  | .USE => "USE"
  | .TRUE => "TRUE"
  | .FALSE => "FALSE"
  | .DEFAULT => "DEFAULT"
  | .IF => "IF"
  | .FOR => "FOR"
  | .WITH => "WITH"
  | .CAST => "CAST"
  | .INTERVAL => "INTERVAL"
  | .LIMIT => "LIMIT"
  | .OFFSET => "OFFSET"
  | .VALUE => "VALUE"
  | .SHOW => "SHOW"
  | .DESCRIBE => "DESCRIBE"
  | .DATABASES => "DATABASES"
  | .TABLES => "TABLES"
  | .COLUMNS => "COLUMNS"
  | .FIELDS => "FIELDS"
  | .INDEXES => "INDEXES"
  | .KEYS => "KEYS"
  | .DUPLICATE => "DUPLICATE"
  | .LOW_PRIORITY => "LOW_PRIORITY"
  | .DELAYED => "DELAYED"
  | .HIGH_PRIORITY => "HIGH_PRIORITY"
  | .IGNORE => "IGNORE"
  | .QUICK => "QUICK"
  | .PARTITION => "PARTITION"
  | .FORCE => "FORCE"
  | .ROLLUP => "ROLLUP"
  | .REGEXP => "REGEXP"
  | .STRAIGHT_JOIN => "STRAIGHT_JOIN"
  | .SQL_SMALL_RESULT => "SQL_SMALL_RESULT"
  | .SQL_BIG_RESULT => "SQL_BIG_RESULT"
  | .SQL_BUFFER_RESULT => "SQL_BUFFER_RESULT"
  | .SQL_CACHE => "SQL_CACHE"
  | .SQL_NO_CACHE => "SQL_NO_CACHE"
  | .SQL_CALC_FOUND_ROWS => "SQL_CALC_FOUND_ROWS"
  | .SIBLINGS => "SIBLINGS"
  | .MINUS => "MINUS"
  | .CONNECT_BY_ROOT => "CONNECT_BY_ROOT"
  | .ROWNUM => "ROWNUM"
  | .FIRST => "FIRST"
  | .LAST => "LAST"
  | .ONLY => "ONLY"
  | .FETCH => "FETCH"
  | .RETURNING => "RETURNING"
  | .TOP => "TOP"
  | .PERCENT => "PERCENT"
  | .TIES => "TIES"

def shared : List Keyword :=
  [.SCHEMA, .DATABASE, .TABLE, .COLUMN, .VIEW, .INDEX, .TRIGGER, .PROCEDURE, .TABLESPACE,
    .FUNCTION, .SEQUENCE, .CURSOR, .GENERATED, .PRIMARY, .UNIQUE, .FOREIGN, .KEY, .CHECK,
    .REFERENCES, .CONSTRAINT, .TEMPORARY, .CASCADE, .RESTRICT, .ADD, .MODIFY, .SELECT, .DELETE,
    .INSERT, .UPDATE, .VALUES, .SET, .FROM, .WHERE, .INTO, .CREATE, .ALTER, .DROP, .TRUNCATE,
    .RENAME, .GRANT, .REVOKE, .DENY, .USER, .ROLE, .LOGIN, .AS, .DISTINCT, .ALL, .AND, .OR, .NOT,
    .NULL, .IS, .IN, .BETWEEN, .LIKE, .EXISTS, .ESCAPE, .ANY, .SOME, .JOIN, .INNER, .OUTER, .LEFT,
    .RIGHT, .FULL, .CROSS, .NATURAL, .ON, .USING, .ORDER, .GROUP, .BY, .ASC, .DESC, .HAVING,
    .NULLS, .UNION, .INTERSECT, .EXCEPT, .CASE, .WHEN, .THEN, .ELSE, .END, .AVG, .MAX, .MIN, .SUM,
    .COUNT, .COMMIT, .ROLLBACK, .SAVEPOINT, .BEGIN, .TRANSACTION, .USE, .TRUE, .FALSE, .DEFAULT,
    .IF, .FOR, .WITH, .CAST, .INTERVAL]

def dialectal : List Keyword :=
  [.LIMIT, .OFFSET, .VALUE, .SHOW, .DESCRIBE, .DATABASES, .TABLES, .COLUMNS, .FIELDS, .INDEXES,
    .KEYS, .DUPLICATE, .LOW_PRIORITY, .DELAYED, .HIGH_PRIORITY, .IGNORE, .QUICK, .PARTITION,
    .FORCE, .ROLLUP, .REGEXP, .STRAIGHT_JOIN, .SQL_SMALL_RESULT, .SQL_BIG_RESULT,
    .SQL_BUFFER_RESULT, .SQL_CACHE, .SQL_NO_CACHE, .SQL_CALC_FOUND_ROWS, .SIBLINGS, .MINUS,
    .CONNECT_BY_ROOT, .ROWNUM, .FIRST, .LAST, .ONLY, .FETCH, .RETURNING, .TOP, .PERCENT, .TIES]

def all : List Keyword := shared ++ dialectal

end Keyword

end SqlFront
