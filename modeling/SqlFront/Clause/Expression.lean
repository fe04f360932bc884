import SqlFront.Parser

/-!
# Reading expressions

A single name, literal or placeholder is read as what it is, and `owner.name` as a property. A
chain of operands with operators between them, a call or a parenthesised group is kept as text.
Behind an expression or a table an alias may stand.
-/

set_option autoImplicit false

namespace SqlFront.Clause
open SqlFront.Parser

/-! ## Aliases -/

section Alias

variable {σ : Type}

def nameHere : Parser σ String := do
  let name := unquoted (← current).literals
  advance
  return name

/-- An alias behind an item of a select list or behind a table: `AS` with any token that is not a
symbol, or an identifier or a string alone. -/
def alias? : Parser σ (Option String) := do
  if ← skipKeyword .AS then
    if (← current).type.isSymbol then return none else return some (← nameHere)
  else if ← isAtAny [.literal .identifier, .literal .chars] then return some (← nameHere)
  else return none

end Alias

/-! ## Expressions -/

def operators : List TokenType :=
  [.symbol .plus, .symbol .minus, .symbol .star, .symbol .slash, .symbol .percent,
    .symbol .ampersand, .symbol .bar, .symbol .doubleAmpersand, .symbol .doubleBar,
    .symbol .caret, .symbol .dot]

/-- A negative number. Right behind an operand it continues the expression: `a-2` is cut into `a`
and `-2`. -/
def isNegativeNumber (t : Token) : Bool :=
  (t.type == .literal .int || t.type == .literal .float) && t.literals.toList.head? == some '-'

def skipOperand : Parser Findings Unit := do
  if ← isAt (.symbol .question) then
    let _ ← countPlaceholder
  if ← isAt (.symbol .leftParen) then
    let _ ← skipParentheses
  else
    advance
    let _ ← skipParentheses

def skipOperations : Parser Findings Unit := whileM (skipIf operators) skipOperand

def skipContinuation : Parser Findings Bool := do
  if ← isAtAny operators then
    skipOperations
    return true
  else if isNegativeNumber (← current) then
    advance
    return true
  else return false

def rawFrom (start : Nat) : Parser Findings Expression := do
  let c ← cursor
  return .raw (trimmed (c.slice start c.previousStop))

def literal (t : Token) : Expression :=
  let number? : Option Number :=
    match t.type with
    | .literal .int => Number.ofInteger? t.literals
    | .literal .float => Number.ofFloat? t.literals
    | .literal .hex => Number.ofHex? t.literals
    | _ => none
  match t.type with
  | .literal .chars => .text t.literals
  | .literal .identifier => .identifier (unquoted t.literals)
  | _ => match number? with
    | some v => .number v
    | none => .raw t.literals

def primary : Parser Findings Expression := do
  if ← isAt (.symbol .question) then return .placeholder (← countPlaceholder)
  else return literal (← current)

def operandChain : Parser Findings Expression := do
  let t ← current
  if ← isAt (.symbol .leftParen) then
    let _ ← skipParentheses
    skipOperations
    rawFrom t.start
  else
    let e ← primary
    advance
    if ← skipSymbol .dot then
      let name := (← current).literals
      advance
      if ← skipContinuation then rawFrom t.start else return .property t.literals name
    else if ← isAt (.symbol .leftParen) then
      let _ ← skipParentheses
      skipOperations
      rawFrom t.start
    else if ← skipContinuation then rawFrom t.start
    else return e

/-- An expression. The owner of a property that names a table of the statement is a place to
edit. -/
def expression : Parser Findings Expression := do
  let start := (← current).start
  let e ← operandChain
  match e with
  | .property owner _ =>
    if (← draft).tables.containsName (unquoted owner) then
      modifyDraft fun f => f.addEdit (.table start owner)
  | _ => pure ()
  return e

/-! ## Assignments of UPDATE -/

def assignmentSign : Parser Findings Unit := do
  if !(← skipIf [.symbol .equal, .symbol .colonEqual]) then expectSymbol .equal

def assignment : Parser Findings Unit := do
  if ← isAt (.symbol .leftParen) then
    let _ ← skipParentheses
  else
    let _ ← expression
  assignmentSign
  let _ ← expression
  whileM (skipSymbol .doubleColon) advance

def updateAssignments : Parser Findings Unit := do
  expectKeyword .SET
  discard <| commaSeparated assignment

end SqlFront.Clause
