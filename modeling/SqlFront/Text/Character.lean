/-!
# Character classes of SQL text

The classes decide where a token begins and how far it runs. They are plain sets of characters:
letters and digits are the ASCII ones, and blanks are the control characters, the space and the
characters from U+007F to U+00A0.
-/

set_option autoImplicit false

namespace SqlFront

def endMark : Char := '\x1a'

namespace Character

def isBlank (c : Char) : Bool :=
  (c.val ≤ 0x20 && c != endMark) || (0x7f ≤ c.val && c.val ≤ 0xa0)

def isEnd (c : Char) : Bool := c == endMark

def isLetter (c : Char) : Bool :=
  ('a'.val ≤ c.val && c.val ≤ 'z'.val) || ('A'.val ≤ c.val && c.val ≤ 'Z'.val)

def isDigit (c : Char) : Bool := '0'.val ≤ c.val && c.val ≤ '9'.val

def isHexDigit (c : Char) : Bool :=
  isDigit c || ('a'.val ≤ c.val && c.val ≤ 'f'.val) || ('A'.val ≤ c.val && c.val ≤ 'F'.val)

def symbolCharacters : List Char :=
  ['(', ')', '[', ']', '{', '}', '+', '-', '*', '/', '%', '^', '=', '>', '<', '~', '!', '?', '&',
    '|', '.', ':', '#', ',', ';']

def isSymbol (c : Char) : Bool := symbolCharacters.contains c

def isWord (c : Char) : Bool := isLetter c || isDigit c || c == '_' || c == '$' || c == '#'

def isVariable (c : Char) : Bool := isWord c || c == '.'

end Character

def charAt (text : List Char) (n : Nat) : Char := text.getD n endMark

def slice (text : List Char) (start stop : Nat) : String :=
  String.ofList ((text.take stop).drop start)

/-! ## White space

White space is the property of that name in the character standard, which differs from the blanks
between tokens: it has U+3000 and lacks U+007F. -/

def isWhiteSpace (c : Char) : Bool :=
  let n := c.toNat
  (0x9 ≤ n && n ≤ 0xd) || n == 0x20 || n == 0x85 || n == 0xa0 || n == 0x1680 ||
    (0x2000 ≤ n && n ≤ 0x200a) || n == 0x2028 || n == 0x2029 || n == 0x202f || n == 0x205f ||
    n == 0x3000

def trimmed (text : String) : String :=
  let rest := text.toList.dropWhile isWhiteSpace
  String.ofList (rest.reverse.dropWhile isWhiteSpace).reverse

def trimmedEnd (text : String) : String :=
  String.ofList (text.toList.reverse.dropWhile isWhiteSpace).reverse

def isBlankText (text : String) : Bool := text.toList.all isWhiteSpace

end SqlFront
