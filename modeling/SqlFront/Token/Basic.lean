import SqlFront.Token.Keyword

/-!
# Tokens

A token is a piece of SQL text with its type and its place, counted in characters from the start
of the text. The literals of a string token leave out its quotes, so its place is not determined
by its literals.
-/

set_option autoImplicit false

namespace SqlFront

/-!
## Symbols

Operators and separators, each with its one spelling.
-/

inductive Symbol
  | leftParen | rightParen | leftBrace | rightBrace | leftBracket | rightBracket | semicolon
  | comma | dot | doubleDot | plus | minus | star | slash | question | equal | greater | less
  | bang | tilde | caret | percent | colon | doubleColon | colonEqual | lessEqual | greaterEqual
  | nullSafeEqual | lessGreater | bangEqual | bangGreater | bangLess | ampersand | bar
  | doubleAmpersand | doubleBar | shiftLeft | shiftRight | at | pound
deriving DecidableEq

namespace Symbol

def all : List Symbol :=
  [.leftParen, .rightParen, .leftBrace, .rightBrace, .leftBracket, .rightBracket, .semicolon,
    .comma, .dot, .doubleDot, .plus, .minus, .star, .slash, .question, .equal, .greater, .less,
    .bang, .tilde, .caret, .percent, .colon, .doubleColon, .colonEqual, .lessEqual, .greaterEqual,
    .nullSafeEqual, .lessGreater, .bangEqual, .bangGreater, .bangLess, .ampersand, .bar,
    .doubleAmpersand, .doubleBar, .shiftLeft, .shiftRight, .at, .pound]

def spelling : Symbol → String
  | .leftParen => "("
  | .rightParen => ")"
  | .leftBrace => "\x7b"
  | .rightBrace => "\x7d"
  | .leftBracket => "["
  | .rightBracket => "]"
  | .semicolon => ";"
  | .comma => ","
  | .dot => "."
  | .doubleDot => ".."
  | .plus => "+"
  | .minus => "-"
  | .star => "*"
  | .slash => "/"
  | .question => "?"
  | .equal => "="
  | .greater => ">"
  | .less => "<"
  | .bang => "!"
  | .tilde => "~"
  | .caret => "^"
  | .percent => "%"
  | .colon => ":"
  | .doubleColon => "::"
  | .colonEqual => ":="
  | .lessEqual => "<="
  | .greaterEqual => ">="
  | .nullSafeEqual => "<=>"
  | .lessGreater => "<>"
  | .bangEqual => "!="
  | .bangGreater => "!>"
  | .bangLess => "!<"
  | .ampersand => "&"
  | .bar => "|"
  | .doubleAmpersand => "&&"
  | .doubleBar => "||"
  | .shiftLeft => "<<"
  | .shiftRight => ">>"
  | .at => "@"
  | .pound => "#"

def ofSpelling? (text : String) : Option Symbol := all.find? (fun s => s.spelling == text)

end Symbol

/-! ## Tokens -/

inductive Literal
  | int | float | hex | chars | identifier | variable
deriving DecidableEq

namespace Literal

def spelling : Literal → String
  | .int => "INT"
  | .float => "FLOAT"
  | .hex => "HEX"
  | .chars => "CHARS"
  | .identifier => "IDENTIFIER"
  | .variable => "VARIABLE"

end Literal

/-- What a token is. `endOfText` stands behind the last piece of a text, and `error` is the type
of the token before the first one. -/
inductive TokenType
  | keyword (k : Keyword)
  | symbol (s : Symbol)
  | literal (l : Literal)
  | endOfText
  | error
deriving DecidableEq

namespace TokenType

def keyword? : TokenType → Option Keyword
  | .keyword k => some k
  | _ => none

def isKeyword (t : TokenType) : Bool := t.keyword?.isSome

def isSymbol : TokenType → Bool
  | .symbol _ => true
  | _ => false

def isLiteral : TokenType → Bool
  | .literal _ => true
  | _ => false

def describe : TokenType → String
  | .keyword k => k.spelling
  | .symbol s => "'" ++ s.spelling ++ "'"
  | .literal l => l.spelling
  | .endOfText => "END"
  | .error => "ERROR"

end TokenType

def keywordTypes (ks : List Keyword) : List TokenType := ks.map .keyword

structure Token where
  type : TokenType
  literals : String
  start : Nat
  stop : Nat
deriving DecidableEq

namespace Token

def unread : Token := ⟨.error, "", 0, 0⟩

def atEnd (length : Nat) : Token := ⟨.endOfText, "", length, length⟩

def describe (t : Token) : String :=
  t.type.describe ++ " '" ++ t.literals ++ "' [" ++ toString t.start ++ ".." ++ toString t.stop ++
    ")"

end Token

end SqlFront
