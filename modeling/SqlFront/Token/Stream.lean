import SqlFront.Lexeme.Piece

/-!
# Token streams

The tokens of a text in order, and what follows the last of them: the end of the text, or the
place where no token begins. Reading on past either gives the same answer again.
-/

set_option autoImplicit false

namespace SqlFront

structure TokenStream where
  tokens : List Token
  ending : Except LexicalFault Token

namespace TokenStream

def push (t : Token) (s : TokenStream) : TokenStream := { s with tokens := t :: s.tokens }

/-- The tokens from the place `offset` on. The first argument bounds the number of pieces; each
piece has a character at least, so the number of characters left is enough. -/
def scan (d : Dialect) : Nat → Option Char → Nat → List Char → TokenStream
  | 0, _, offset, _ => ⟨[], .ok (Token.atEnd offset)⟩
  | n + 1, before, offset, rest =>
    match Piece.next d before rest with
    | .error fault => ⟨[], .error { fault with offset := offset + fault.offset }⟩
    | .ok .atEnd => ⟨[], .ok (Token.atEnd offset)⟩
    | .ok (.ignored k) => scan d n (rest.take k).getLast? (offset + k) (rest.drop k)
    | .ok (.lexeme x) =>
      (scan d n (rest.take x.length).getLast? (offset + x.length) (rest.drop x.length)).push
        (x.place offset)

def ofText (d : Dialect) (text : List Char) : TokenStream := scan d text.length none 0 text

def all (s : TokenStream) : Except LexicalFault (List Token) :=
  match s.ending with
  | .ok last => .ok (s.tokens ++ [last])
  | .error fault => .error fault

end TokenStream

end SqlFront
