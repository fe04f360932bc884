import SqlFront.Lexeme.Basic

/-!
# The pieces of a text

From one place on, a text goes on with ignored text, with a lexeme, or not at all. The character
before the place matters for one thing: `.5` and `-.5` are numbers unless a name ends there.
-/

set_option autoImplicit false

namespace SqlFront

inductive Piece
  | ignored (length : Nat)
  | lexeme (x : Lexeme)
  | atEnd
deriving DecidableEq

structure LexicalFault where
  offset : Nat
  cause : LexicalCause
deriving DecidableEq

namespace Piece

def beginsWord (lexis : Lexis) (c : Char) : Bool :=
  Character.isLetter c || c == '\x60' || c == '_' || c == '$' || lexis.identifierQuotes.contains c

def beginsNumber (lexis : Lexis) (before : Option Char) (rest : List Char) : Bool :=
  let c := charAt rest 0
  let c' := charAt rest 1
  let afterWord := before.any (beginsWord lexis)
  if Character.isDigit c then true
  else if c == '.' then Character.isDigit c' && !afterWord
  else if c == '-' then
    Character.isDigit c' || (c' == '.' && Character.isDigit (charAt rest 2) && !afterWord)
  else false

def here (r : Except LexicalCause Lexeme) : Except LexicalFault Piece :=
  match r with
  | .ok x => .ok (.lexeme x)
  | .error cause => .error ⟨0, cause⟩

def nationalString (rest : List Char) : Except LexicalFault Piece :=
  match Lexeme.quotedString (rest.drop 1) with
  | .ok x => .ok (.lexeme { x with length := x.length + 1 })
  | .error cause => .error ⟨1, cause⟩

def significant (d : Dialect) (before : Option Char) (rest : List Char) :
    Except LexicalFault Piece :=
  let c := charAt rest 0
  let c' := charAt rest 1
  if d.lexis.atVariables && c == '@' then .ok (.lexeme (Lexeme.variableName rest))
  else if d.lexis.nationalStrings && (c == 'N' || c == 'n') && c' == '\'' then nationalString rest
  else if beginsWord d.lexis c then here (Lexeme.word d rest)
  else if c == '0' && (c' == 'x' || c' == 'X') then .ok (.lexeme (Lexeme.hexNumber rest))
  else if beginsNumber d.lexis before rest then .ok (.lexeme (Lexeme.number rest))
  else if Character.isSymbol c then here (Lexeme.symbol rest)
  else if c == '\'' || c == '"' then here (Lexeme.quotedString rest)
  else if rest.isEmpty then .ok .atEnd
  else .error ⟨0, .illegalCharacter c⟩

def next (d : Dialect) (before : Option Char) (rest : List Char) : Except LexicalFault Piece :=
  match Ignored.stretch d.lexis rest with
  | .error cause => .error ⟨0, cause⟩
  | .ok 0 => significant d before rest
  | .ok n => .ok (.ignored n)

end Piece

end SqlFront
