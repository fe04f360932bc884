import SqlFront.Dialect.Basic
import SqlFront.Text.Character

/-!
# Ignored text

Blanks, comments and hints separate tokens and mean nothing themselves. Every function here looks
at the characters from one place on and answers how many of them are ignored.
-/

set_option autoImplicit false

namespace SqlFront

/-! ## Why a text cannot be cut into tokens -/

inductive LexicalCause
  | unterminatedComment
  | unterminatedHint
  | missingTerminator (terminator : Char)
  | illegalSymbol (found : Char)
  | illegalCharacter (found : Char)
  | stated (message : String)
deriving DecidableEq

namespace LexicalCause

def message : LexicalCause → String
  | .unterminatedComment => "unterminated comment"
  | .unterminatedHint => "unterminated hint"
  | .missingTerminator q => "missing terminating " ++ toString q ++ " character"
  | .illegalSymbol c => "illegal symbol '" ++ toString c ++ "'"
  | .illegalCharacter c => "illegal input character '" ++ toString c ++ "'"
  | .stated m => m

end LexicalCause

end SqlFront

namespace SqlFront.Ignored

/-! ## Blanks, comments and hints -/

def blanks (rest : List Char) : Nat := (rest.takeWhile Character.isBlank).length

/-- The length of a comment up to the end of its line, line break included, given the length of
its opening. An end mark ends a line too. -/
def line (opening : Nat) (rest : List Char) : Nat :=
  let body := (rest.drop opening).takeWhile (fun c => c != '\n' && c != endMark)
  min (opening + body.length + 1) rest.length

def closing? : List Char → Option Nat
  | [] => none
  | [_] => none
  | c :: c' :: rest =>
    if c = '*' ∧ c' = '/' then some 2 else (closing? (c' :: rest)).map (· + 1)

def block (opening : Nat) (cause : LexicalCause) (rest : List Char) : Except LexicalCause Nat :=
  match closing? (rest.drop opening) with
  | some n => .ok (opening + n)
  | none => .error cause

def comment (rest : List Char) : Except LexicalCause Nat :=
  let c := charAt rest 0
  let c' := charAt rest 1
  if (c = '/' ∧ c' = '/') ∨ (c = '-' ∧ c' = '-') then .ok (line 2 rest)
  else if c = '#' then .ok (line 1 rest)
  else if c = '/' ∧ c' = '*' then block 2 .unterminatedComment rest
  else .ok 0

def hint (opening : Nat) (rest : List Char) : Except LexicalCause Nat :=
  block opening .unterminatedHint rest

def isComment (lexis : Lexis) (rest : List Char) : Bool :=
  let c := charAt rest 0
  let c' := charAt rest 1
  (c == '/' && c' == '/') || (c == '-' && c' == '-') || (c == '/' && c' == '*') ||
    (lexis.poundComment && c == '#')

def hintOpening? (lexis : Lexis) (rest : List Char) : Option String :=
  lexis.hintOpening.filter (fun h => h.toList.isPrefixOf rest)

/-- The length of one stretch of ignored text in front: a hint, a comment or a run of blanks. It
is 0 where a token has to begin. -/
def stretch (lexis : Lexis) (rest : List Char) : Except LexicalCause Nat :=
  match hintOpening? lexis rest with
  | some opening => hint opening.length rest
  | none => if isComment lexis rest then comment rest else .ok (blanks rest)

end SqlFront.Ignored
