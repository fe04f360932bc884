import SqlFront.Cursor
import SqlFront.Statement.Findings

/-!
# Parsers

A parser moves a cursor and fills in a draft of what it reads. When it fails, cursor and draft
stay as they were at the point of failure.
-/

set_option autoImplicit false

namespace SqlFront

structure Workspace (σ : Type) where
  cursor : Cursor
  draft : σ

abbrev Parser (σ α : Type) : Type := EStateM Fault (Workspace σ) α

namespace Parser

variable {σ τ α β : Type}

/-! ## Cursor and draft -/

def cursor : Parser σ Cursor := do return (← get).cursor

def draft : Parser σ σ := do return (← get).draft

def modifyDraft (f : σ → σ) : Parser σ Unit := modify fun w => { w with draft := f w.draft }

def failAt (f : Cursor → Fault) : Parser σ α := do throw (f (← cursor))

def current : Parser σ Token := do return (← cursor).current

def dialect : Parser σ Dialect := do return (← cursor).dialect

def grammar : Parser σ Grammar := do return (← dialect).grammar

def onFindings [HasFindings σ] (p : Parser Findings α) : Parser σ α := fun w =>
  match p ⟨w.cursor, findings w.draft⟩ with
  | .ok a w' => .ok a ⟨w'.cursor, setFindings w.draft w'.draft⟩
  | .error e w' => .error e ⟨w'.cursor, setFindings w.draft w'.draft⟩

def inside (own : τ) (p : Parser τ α) : Parser σ (τ × α) := fun w =>
  match p ⟨w.cursor, own⟩ with
  | .ok a w' => .ok (w'.draft, a) ⟨w'.cursor, w.draft⟩
  | .error e w' => .error e ⟨w'.cursor, w.draft⟩

/-! ## Single tokens -/

def advance : Parser σ Unit := do
  match (← cursor).advance with
  | .ok c => modify fun w => { w with cursor := c }
  | .error e => throw e

def peekType : Parser σ TokenType := do
  match (← cursor).peek with
  | .ok t => return t.type
  | .error e => throw e

def isAhead (t : TokenType) : Parser σ Bool := do return (← peekType) == t

def isAt (t : TokenType) : Parser σ Bool := do return (← cursor).isAt t

def isAtAny (ts : List TokenType) : Parser σ Bool := do return (← cursor).isAtAny ts

def skipIf (ts : List TokenType) : Parser σ Bool := do
  if ← isAtAny ts then
    advance
    return true
  else return false

def skipKeyword (k : Keyword) : Parser σ Bool := skipIf [.keyword k]

def skipSymbol (s : Symbol) : Parser σ Bool := skipIf [.symbol s]

def expect (t : TokenType) : Parser σ Unit := do
  if ← isAt t then advance else failAt fun c => c.unexpected (.token t)

def expectKeyword (k : Keyword) : Parser σ Unit := expect (.keyword k)

def expectSymbol (s : Symbol) : Parser σ Unit := expect (.symbol s)

def refuseIf (ts : List TokenType) : Parser σ Unit := do
  if ← isAtAny ts then failAt Cursor.refusal

def skipOrRefuse (ts : List TokenType) : Parser σ Unit := do
  if ← skipIf ts then return () else failAt Cursor.refusal

/-! ## Repetition -/

def repeatFor (step : α → Parser σ (α ⊕ β)) : Nat → α → Parser σ β
  | 0, _ => throw (.internal .stalled)
  | n + 1, a => do
    match ← step a with
    | .inl a => repeatFor step n a
    | .inr b => return b

/-- Repeats `step` from `a` on until it answers a result. Every repetition has to move the cursor,
which bounds their number. -/
def repeatFrom (a : α) (step : α → Parser σ (α ⊕ β)) : Parser σ β := do
  repeatFor step (← cursor).moves a

def whileM (condition : Parser σ Bool) (body : Parser σ Unit) : Parser σ Unit :=
  repeatFrom () fun _ => do
    if ← condition then
      body
      return .inl ()
    else return .inr ()

def separated (separators : List TokenType) (item : Parser σ α) : Parser σ (List α) :=
  repeatFrom [] fun before => do
    let x ← item
    if ← skipIf separators then return .inl (before ++ [x]) else return .inr (before ++ [x])

def commaSeparated (item : Parser σ α) : Parser σ (List α) := separated [.symbol .comma] item

/-! ## Runs of tokens -/

def skipAll (ts : List TokenType) : Parser σ Unit := whileM (skipIf ts) (return ())

def skipUntil (ts : List TokenType) : Parser σ Unit :=
  whileM (do return !(← isAtAny ts) && !(← cursor).isAtEnd) advance

def countPlaceholder : Parser Findings Nat := do
  let index := (← draft).placeholders
  modifyDraft Findings.countPlaceholder
  return index

def skipToken : Parser Findings Unit := do
  if ← isAt (.symbol .question) then
    let _ ← countPlaceholder
  advance

/-- Skips the tokens up to the parenthesis that closes the current one, and answers the text
between the two. Placeholders on the way are counted. Without a closing parenthesis everything up
to the end of the text is skipped; on any other token nothing happens. -/
def skipParentheses : Parser Findings String := do
  if ← isAt (.symbol .leftParen) then
    let start := (← current).stop
    advance
    repeatFrom 0 fun depth => do
      let t ← current
      match t.type with
      | .symbol .question =>
        let _ ← countPlaceholder
        advance
        return .inl depth
      | .symbol .leftParen =>
        advance
        return .inl (depth + 1)
      | .symbol .rightParen =>
        advance
        if depth = 0 then return .inr ((← cursor).slice start t.start)
        else return .inl (depth - 1)
      | .endOfText =>
        let c ← cursor
        return .inr (c.slice start c.text.length)
      | _ =>
        advance
        return .inl depth
  else return ""

def isAtSubQuery : Parser σ Bool := do
  if ← isAt (.symbol .leftParen) then isAhead (.keyword .SELECT) else return false

end Parser

end SqlFront
