import SqlFront.Fault
import SqlFront.Token.Stream

/-!
# Cursors

A cursor stands on a token of a text and moves forward token by token. It begins before the first
token, stays at the end once it is there, and cannot go past a place where no token begins.
-/

set_option autoImplicit false

namespace SqlFront

structure Cursor where
  dialect : Dialect
  text : List Char
  current : Token
  /-- The end of the token before the current one. -/
  previousStop : Nat
  /-- The tokens ahead, and what follows the last of them. -/
  ahead : TokenStream

namespace Cursor

def ofText (d : Dialect) (text : String) : Cursor :=
  ⟨d, text.toList, .unread, 0, .ofText d text.toList⟩

def peek (c : Cursor) : Except Fault Token :=
  match c.ahead.tokens with
  | t :: _ => .ok t
  | [] => c.ahead.ending.mapError Fault.ofLexical

def advance (c : Cursor) : Except Fault Cursor :=
  (c.peek).map fun t =>
    { c with
      current := t
      previousStop := c.current.stop
      ahead := { c.ahead with tokens := c.ahead.tokens.tail } }

def isAtEnd (c : Cursor) : Bool := c.current.type == .endOfText

def isAt (c : Cursor) (t : TokenType) : Bool := c.current.type == t

def isAtAny (c : Cursor) (ts : List TokenType) : Bool := ts.contains c.current.type

def slice (c : Cursor) (start stop : Nat) : String := SqlFront.slice c.text start stop

def unexpected (c : Cursor) (e : Expectation) : Fault :=
  .malformed c.current.start (.unexpected e c.current.type c.current.literals)

def refusal (c : Cursor) : Fault :=
  .unsupported c.current.start (.token c.current.type c.current.literals)

def moves (c : Cursor) : Nat := c.ahead.tokens.length + 2

end Cursor

end SqlFront
