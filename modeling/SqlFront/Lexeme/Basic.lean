import SqlFront.Lexeme.Ignored
import SqlFront.Text.Character
import SqlFront.Token.Basic

/-!
# Lexemes

A lexeme is a token without its place. Each function reads one kind of lexeme from the characters
in front and can be asked at any place of a text; which kind a place begins is decided elsewhere.
-/

set_option autoImplicit false

namespace SqlFront.Quoted

/-! ## Quoted text

Inside quotes the closing character is written twice. The quoted text ends at the first closing
character that is not doubled. -/

def closing? (q : Char) : List Char → Option Nat
  | [] => none
  | [c] => if c = q ∧ q ≠ endMark then some 1 else none
  | c :: c' :: rest =>
    if c = q then
      if c' = q then (closing? q rest).map (· + 2) else some 1
    else (closing? q (c' :: rest)).map (· + 1)

def length? (q : Char) (rest : List Char) : Option Nat := (closing? q rest.tail).map (· + 1)

def terminator (opening : Char) : Char := if opening = '[' then ']' else opening

end SqlFront.Quoted

namespace SqlFront

structure Lexeme where
  type : TokenType
  literals : String
  length : Nat
deriving DecidableEq

namespace Lexeme

def ofFront (kind : Literal) (length : Nat) (rest : List Char) : Lexeme :=
  ⟨.literal kind, String.ofList (rest.take length), length⟩

def place (x : Lexeme) (start : Nat) : Token := ⟨x.type, x.literals, start, start + x.length⟩

/-! ## Variables, words, quoted identifiers -/

def variableName (rest : List Char) : Lexeme :=
  let signs := if charAt rest 1 = '@' then 2 else 1
  ofFront .variable (signs + ((rest.drop signs).takeWhile Character.isVariable).length) rest

def startsWithWord (word : String) (rest : List Char) : Bool :=
  (rest.take word.length).map Char.toLower == foldCase word &&
    !Character.isWord (charAt rest word.length)

def startsWithBy (rest : List Char) : Bool :=
  let rest := rest.dropWhile Character.isBlank
  let rest :=
    if startsWithWord "SIBLINGS" rest
    then (rest.drop "SIBLINGS".length).dropWhile Character.isBlank else rest
  startsWithWord "BY" rest

def needsBy (word : String) : Bool := sameName word "ORDER" || sameName word "GROUP"

def wordType (d : Dialect) (word : String) (following : List Char) : TokenType :=
  if needsBy word && !startsWithBy following then .literal .identifier
  -- Every dialect has the two words that need `BY`, so that none is missing here.
  else match d.keyword? word with
    | some k => .keyword k
    | none => .literal .identifier

def bareWord (d : Dialect) (rest : List Char) : Lexeme :=
  let word := rest.takeWhile Character.isWord
  ⟨wordType d (String.ofList word) (rest.drop word.length), String.ofList word, word.length⟩

def quotedWord (rest : List Char) : Except LexicalCause Lexeme :=
  let q := Quoted.terminator (charAt rest 0)
  match Quoted.length? q rest with
  | some n => .ok (ofFront .identifier n rest)
  | none => .error (.missingTerminator q)

def word (d : Dialect) (rest : List Char) : Except LexicalCause Lexeme :=
  let c := charAt rest 0
  if c = '\x60' ∨ c = '"' ∨ c = '[' then quotedWord rest else .ok (bareWord d rest)

/-! ## Numbers -/

def digits (rest : List Char) : Nat := (rest.takeWhile Character.isDigit).length

def hexNumber (rest : List Char) : Lexeme :=
  let front := if charAt rest 2 = '-' then 3 else 2
  ofFront .hex (front + ((rest.drop front).takeWhile Character.isHexDigit).length) rest

def fractionLength (rest : List Char) : Nat :=
  if charAt rest 0 = '.' then 1 + digits (rest.drop 1) else 0

def exponentLength (rest : List Char) : Nat :=
  if charAt rest 0 = 'e' ∨ charAt rest 0 = 'E' then
    let front := if charAt rest 1 = '+' ∨ charAt rest 1 = '-' then 2 else 1
    front + digits (rest.drop front)
  else 0

def suffixLength (rest : List Char) : Nat :=
  let c := charAt rest 0
  if c = 'f' ∨ c = 'F' ∨ c = 'd' ∨ c = 'D' then 1 else 0

def number (rest : List Char) : Lexeme :=
  let sign := if charAt rest 0 = '-' then 1 else 0
  let whole := sign + digits (rest.drop sign)
  let fraction := whole + fractionLength (rest.drop whole)
  let exponent := fraction + exponentLength (rest.drop fraction)
  let length := exponent + suffixLength (rest.drop exponent)
  ofFront (if length = whole then .int else .float) length rest

/-! ## Strings and symbols -/

def quotedString (rest : List Char) : Except LexicalCause Lexeme :=
  let q := charAt rest 0
  match Quoted.length? q rest with
  | some n => .ok ⟨.literal .chars, slice rest 1 (n - 1), n⟩
  | none => .error (.missingTerminator q)

def longestSymbol? (rest : List Char) : Nat → Option (Symbol × Nat)
  | 0 => none
  | n + 1 =>
    match Symbol.ofSpelling? (String.ofList (rest.take (n + 1))) with
    | some s => some (s, n + 1)
    | none => longestSymbol? rest n

def symbol (rest : List Char) : Except LexicalCause Lexeme :=
  match longestSymbol? rest (rest.takeWhile Character.isSymbol).length with
  | some (s, n) => .ok ⟨.symbol s, String.ofList (rest.take n), n⟩
  | none => .error (.illegalSymbol (charAt rest 0))

end Lexeme

end SqlFront
