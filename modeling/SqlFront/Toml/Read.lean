import SqlFront.Number.Basic
import SqlFront.Toml.Outline
import SqlFront.Toml.Write

/-!
# Reading TOML

A text is read from left to right into the lines of a document; each function answers what it has
read and the characters behind it. Arrays and tables stand inside each other only so deep, and a
key has only so many parts. Dates and times are not read.
-/

set_option autoImplicit false

namespace SqlFront.Toml

/-! ## White space and comments -/

def isBlank (c : Char) : Bool := c == ' ' || c == '\t'

def skipBlanks (cs : List Char) : List Char := cs.dropWhile isBlank

def isText (c : Char) : Bool := !isControl c && c != '\n'

def lineBreak? : List Char → Option (List Char)
  | '\n' :: cs => some cs
  | '\r' :: '\n' :: cs => some cs
  | _ => none

def endOfLine? (cs : List Char) : Option (List Char) :=
  let rest :=
    match skipBlanks cs with
    | '#' :: cs => cs.dropWhile isText
    | cs => cs
  if rest.isEmpty then some [] else lineBreak? rest

def skipFiller (comment : Bool) : List Char → List Char
  | [] => []
  | '\r' :: '\n' :: cs => skipFiller false cs
  | c :: cs =>
    if c = '\n' then skipFiller false cs
    else if comment then (if isText c then skipFiller true cs else c :: cs)
    else if isBlank c then skipFiller false cs
    else if c = '#' then skipFiller true cs
    else c :: cs

/-! ## Strings -/

def character? (n : Nat) : Option Char :=
  if n < 0xd800 ∨ (0xe000 ≤ n ∧ n < 0x110000) then some (Char.ofNat n) else none

def numbered? (count : Nat) (cs : List Char) : Option (Char × List Char) :=
  let digits := cs.take count
  if digits.length = count then
    (Number.natural? 16 digits).bind fun n => (character? n).map fun c => (c, cs.drop count)
  else none

def escape? : List Char → Option (Char × List Char)
  | 'b' :: cs => some ('\x08', cs)
  | 't' :: cs => some ('\t', cs)
  | 'n' :: cs => some ('\n', cs)
  | 'f' :: cs => some ('\x0c', cs)
  | 'r' :: cs => some ('\r', cs)
  | 'e' :: cs => some ('\x1b', cs)
  | '"' :: cs => some ('"', cs)
  | '\\' :: cs => some ('\\', cs)
  | 'x' :: cs => numbered? 2 cs
  | 'u' :: cs => numbered? 4 cs
  | 'U' :: cs => numbered? 8 cs
  | _ => none

def prepend (c : Char) (read : Option (List Char × List Char)) : Option (List Char × List Char) :=
  read.map fun (s, rest) => (c :: s, rest)

def basicString? : Nat → List Char → Option (List Char × List Char)
  | 0, _ => none
  | n + 1, cs =>
    match cs with
    | [] => none
    | '"' :: rest => some ([], rest)
    | '\\' :: rest => (escape? rest).bind fun (c, rest) => prepend c (basicString? n rest)
    | c :: rest => if isText c then prepend c (basicString? n rest) else none

def literalString? : List Char → Option (List Char × List Char)
  | [] => none
  | c :: rest =>
    if c = '\'' then some ([], rest)
    else if isText c then prepend c (literalString? rest)
    else none

/-- The end of a string over several lines: three quotes, before which two quotes may belong to
the string. -/
def longEnd? (quote : Char) (cs : List Char) : Option (List Char × List Char) :=
  let run := min (cs.takeWhile (· == quote)).length 5
  if 3 ≤ run then some (List.replicate (run - 3) quote, cs.drop run) else none

def skipFolded : List Char → List Char
  | [] => []
  | '\r' :: '\n' :: cs => skipFolded cs
  | c :: cs => if isBlank c || c == '\n' then skipFolded cs else c :: cs

/-- The rest of a string over several lines, of at most `n` characters. Escapes are read where
`escapes` holds. A line break stays as it is. -/
def longString? (quote : Char) (escapes : Bool) : Nat → List Char → Option (List Char × List Char)
  | 0, _ => none
  | n + 1, cs =>
    match longEnd? quote cs with
    | some result => some result
    | none =>
      match cs with
      | [] => none
      | '\r' :: '\n' :: rest => prepend '\r' (prepend '\n' (longString? quote escapes n rest))
      | c :: rest =>
        if escapes && c == '\\' then
          if (lineBreak? (skipBlanks rest)).isSome then
            longString? quote escapes n (skipFolded rest)
          else (escape? rest).bind fun (c, rest) => prepend c (longString? quote escapes n rest)
        else if isText c || c == '\n' then prepend c (longString? quote escapes n rest)
        else none

def shortString? : List Char → Option (String × List Char)
  | '"' :: rest =>
    (basicString? (rest.length + 1) rest).map fun (s, rest) => (String.ofList s, rest)
  | '\'' :: rest => (literalString? rest).map fun (s, rest) => (String.ofList s, rest)
  | _ => none

def string? (cs : List Char) : Option (String × List Char) :=
  let long (quote : Char) (escapes : Bool) : Option (String × List Char) :=
    let body := (lineBreak? (cs.drop 3)).getD (cs.drop 3)
    (longString? quote escapes (body.length + 1) body).map fun (s, rest) =>
      (String.ofList s, rest)
  match cs with
  | '"' :: '"' :: '"' :: _ => long '"' true
  | '\'' :: '\'' :: '\'' :: _ => long '\'' false
  | _ => shortString? cs

/-! ## Keys -/

def keyPart? (cs : List Char) : Option (String × List Char) :=
  let bare := cs.takeWhile isKeyCharacter
  if bare.isEmpty then shortString? cs else some (String.ofList bare, cs.drop bare.length)

def keyOf? : Nat → List Char → Option (List String × List Char)
  | 0, _ => none
  | n + 1, cs =>
    (keyPart? (skipBlanks cs)).bind fun (part, rest) =>
      match skipBlanks rest with
      | '.' :: rest => (keyOf? n rest).map fun (parts, rest) => (part :: parts, rest)
      | rest => some ([part], rest)

def maxKeyParts : Nat := 80

def key? (cs : List Char) : Option (List String × List Char) := keyOf? maxKeyParts cs

/-! ## Numbers -/

def isGrouped (base : Nat) : List Char → Bool
  | [] => false
  | [c] => Number.digitValue c < base
  | c :: '_' :: cs => Number.digitValue c < base && isGrouped base cs
  | c :: cs => Number.digitValue c < base && isGrouped base cs

def grouped? (base : Nat) (cs : List Char) : Option Nat :=
  if isGrouped base cs then some (Number.digitsValue base (cs.filter (· != '_'))) else none

def isWhole (cs : List Char) : Bool := isGrouped 10 cs && (cs.length == 1 || cs.head? != some '0')

def integer? (cs : List Char) : Option Int :=
  match cs with
  | '0' :: 'x' :: cs => (grouped? 16 cs).map Int.ofNat
  | '0' :: 'o' :: cs => (grouped? 8 cs).map Int.ofNat
  | '0' :: 'b' :: cs => (grouped? 2 cs).map Int.ofNat
  | cs =>
    let (negative, body) := Number.splitSign cs
    if isWhole body then (grouped? 10 body).map fun n => if negative then -(n : Int) else n
    else none

/-- A floating point number: a whole number with a fraction, an exponent or both, or a word. Digits
alone do not give infinity. -/
def decimal? (cs : List Char) : Option Binary64 :=
  let (negative, body) := Number.splitSign cs
  if body = "inf".toList then some (Binary64.infinity negative)
  else if body = "nan".toList then some Binary64.nan
  else
    let isPart (c : Char) : Bool := Character.isDigit c || c == '_'
    let whole := body.takeWhile isPart
    let rest := body.drop whole.length
    let (fractionFits, rest) :=
      match rest with
      | '.' :: rest => (isGrouped 10 (rest.takeWhile isPart), rest.dropWhile isPart)
      | rest => (true, rest)
    let exponentFits :=
      match rest with
      | [] => body.length != whole.length
      | c :: rest => (c == 'e' || c == 'E') && isGrouped 10 (Number.splitSign rest).2
    if isWhole whole && fractionFits && exponentFits then
      (Number.binary64? (cs.filter (· != '_'))).filter Binary64.isFinite
    else none

def isPlain (c : Char) : Bool :=
  Character.isLetter c || Character.isDigit c || c == '_' || c == '+' || c == '-' || c == '.' ||
    c == ':'

def plain? (cs : List Char) : Option (Toml × List Char) :=
  let word := cs.takeWhile isPlain
  let value? : Option Toml :=
    if word = "true".toList then some (.boolean true)
    else if word = "false".toList then some (.boolean false)
    else
      match integer? word with
      | some i => some (.integer i)
      | none => (decimal? word).map .decimal
  value?.map fun v => (v, cs.drop word.length)

/-! ## Values -/

def maxDepth : Nat := 80

mutual

/-- A value, read in at most `n` steps, in which `room` arrays and tables may stand inside each
other. -/
def value? : Nat → Nat → List Char → Option (Toml × List Char)
  | 0, _, _ => none
  | n + 1, room, cs =>
    match cs with
    | '"' :: _ => (string? cs).map fun (s, rest) => (.string s, rest)
    | '\'' :: _ => (string? cs).map fun (s, rest) => (.string s, rest)
    | '[' :: rest =>
      match room with
      | 0 => none
      | room + 1 => (values? n room rest).map fun (vs, rest) => (.array vs, rest)
    | '\x7b' :: rest =>
      match room with
      | 0 => none
      | room + 1 =>
        (pairs? n room rest).bind fun (es, rest) => (ofEntries? es).map fun t => (t, rest)
    | cs => plain? cs

def values? : Nat → Nat → List Char → Option (List Toml × List Char)
  | 0, _, _ => none
  | n + 1, room, cs =>
    match skipFiller false cs with
    | ']' :: rest => some ([], rest)
    | cs =>
      (value? n room cs).bind fun (v, rest) =>
        match skipFiller false rest with
        | ',' :: rest => (values? n room rest).map fun (vs, rest) => (v :: vs, rest)
        | ']' :: rest => some ([v], rest)
        | _ => none

/-- The entries of a table up to its closing brace; a comma may stand behind the last one. Line
breaks and comments may stand everywhere but inside a key. -/
def pairs? : Nat → Nat → List Char → Option (List (List String × Toml) × List Char)
  | 0, _, _ => none
  | n + 1, room, cs =>
    match skipFiller false cs with
    | '\x7d' :: rest => some ([], rest)
    | cs =>
      (pair? n room (skipFiller false) cs).bind fun (e, rest) =>
        match skipFiller false rest with
        | ',' :: rest => (pairs? n room rest).map fun (es, rest) => (e :: es, rest)
        | '\x7d' :: rest => some ([e], rest)
        | _ => none

def pair? : Nat → Nat → (List Char → List Char) → List Char →
    Option ((List String × Toml) × List Char)
  | 0, _, _, _ => none
  | n + 1, room, skip, cs =>
    (key? cs).bind fun (path, rest) =>
      match skip rest with
      | '=' :: rest => (value? n room (skip rest)).map fun (v, rest) => ((path, v), rest)
      | _ => none

end

/-! ## Documents -/

def header? (closing : List Char) (cs : List Char) : Option (List String × List Char) :=
  (key? cs).bind fun (path, rest) =>
    if closing.isPrefixOf rest then some (path, rest.drop closing.length) else none

def line? (cs : List Char) : Option (Line × List Char) :=
  match cs with
  | '[' :: '[' :: rest => (header? [']', ']'] rest).map fun (path, rest) => (.element path, rest)
  | '[' :: rest => (header? [']'] rest).map fun (path, rest) => (.table path, rest)
  | cs =>
    (pair? (2 * cs.length + 2) maxDepth skipBlanks cs).map fun ((path, v), rest) =>
      (.entry path v, rest)

def lines? : Nat → List Char → Option (List Line)
  | 0, _ => none
  | n + 1, cs =>
    match skipFiller false cs with
    | [] => some []
    | cs =>
      (line? cs).bind fun (line, rest) =>
        (endOfLine? rest).bind fun rest => (lines? n rest).map (line :: ·)

def read? (text : String) : Option Toml :=
  let cs :=
    match text.toList with
    | '\ufeff' :: cs => cs
    | cs => cs
  (lines? (cs.length + 1) cs).bind ofLines?

end SqlFront.Toml
