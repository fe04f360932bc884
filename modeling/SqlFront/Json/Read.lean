import SqlFront.Json.Basic
import SqlFront.Number.Basic

/-!
# Reading JSON

A text is read from left to right; each function answers a value and the characters behind it.
A text that nests too deep is refused.
-/

set_option autoImplicit false

namespace SqlFront.Json

def isSpace (c : Char) : Bool := c == ' ' || c == '\t' || c == '\n' || c == '\r'

def skipSpace (cs : List Char) : List Char := cs.dropWhile isSpace

def isNumberCharacter (c : Char) : Bool :=
  Character.isDigit c || c == '-' || c == '+' || c == '.' || c == 'e' || c == 'E'

def readNumber? (cs : List Char) : Option (Json × List Char) :=
  let text := cs.takeWhile isNumberCharacter
  let rest := cs.dropWhile isNumberCharacter
  let (negative, body) := Number.splitSign text
  if text.any (fun c => c == '.' || c == 'e' || c == 'E') || text == ['-', '0'] then
    (Number.binary64? text).map fun x => (.decimal x, rest)
  else
    (Number.natural? 10 body).map fun n => (.integer (if negative then -(n : Int) else n), rest)

def readUnit? : List Char → Option (Nat × List Char)
  | a :: b :: c :: d :: rest =>
    (Number.natural? 16 [a, b, c, d]).map fun n => (n, rest)
  | _ => none

def readEscapedUnit? (cs : List Char) : Option (Char × List Char) :=
  (readUnit? cs).bind fun (high, rest) =>
    if 0xd800 ≤ high ∧ high < 0xdc00 then
      match rest with
      | '\\' :: 'u' :: rest =>
        (readUnit? rest).bind fun (low, rest) =>
          if 0xdc00 ≤ low ∧ low < 0xe000 then
            some (Char.ofNat (0x10000 + (high - 0xd800) * 0x400 + (low - 0xdc00)), rest)
          else none
      | _ => none
    else if 0xdc00 ≤ high ∧ high < 0xe000 then none
    else some (Char.ofNat high, rest)

def shortEscape? : Char → Option Char
  | '"' => some '"'
  | '\\' => some '\\'
  | '/' => some '/'
  | 'b' => some '\x08'
  | 'f' => some '\x0c'
  | 'n' => some '\n'
  | 'r' => some '\r'
  | 't' => some '\t'
  | _ => none

def readString? : Nat → List Char → Option (List Char × List Char)
  | 0, _ => none
  | n + 1, cs =>
    match cs with
    | [] => none
    | '"' :: rest => some ([], rest)
    | '\\' :: 'u' :: rest =>
      (readEscapedUnit? rest).bind fun (c, rest) =>
        (readString? n rest).map fun (s, rest) => (c :: s, rest)
    | '\\' :: e :: rest =>
      (shortEscape? e).bind fun c => (readString? n rest).map fun (s, rest) => (c :: s, rest)
    | c :: rest =>
      if c.toNat < 0x20 ∨ c = '\\' then none
      else (readString? n rest).map fun (s, rest) => (c :: s, rest)

def readWord? (cs : List Char) : Option (Json × List Char) :=
  let word := String.ofList (cs.takeWhile Character.isLetter)
  let rest := cs.dropWhile Character.isLetter
  if word = "null" then some (.null, rest)
  else if word = "true" then some (.bool true, rest)
  else if word = "false" then some (.bool false, rest)
  else none

mutual

def readValue? : Nat → List Char → Option (Json × List Char)
  | 0, _ => none
  | n + 1, cs =>
    match skipSpace cs with
    | '"' :: rest =>
      (readString? (rest.length + 1) rest).map fun (s, rest) => (.string (String.ofList s), rest)
    | '[' :: rest =>
      match skipSpace rest with
      | ']' :: rest => some (.array [], rest)
      | rest => (readValues? n rest).map fun (vs, rest) => (.array vs, rest)
    | '\x7b' :: rest =>
      match skipSpace rest with
      | '\x7d' :: rest => some (.object [], rest)
      | rest => (readFields? n rest).map fun (fs, rest) => (.object fs, rest)
    | c :: rest =>
      if Character.isLetter c then readWord? (c :: rest) else readNumber? (c :: rest)
    | [] => none

def readValues? : Nat → List Char → Option (List Json × List Char)
  | 0, _ => none
  | n + 1, cs =>
    (readValue? n cs).bind fun (v, rest) =>
      match skipSpace rest with
      | ',' :: rest => (readValues? n rest).map fun (vs, rest) => (v :: vs, rest)
      | ']' :: rest => some ([v], rest)
      | _ => none

def readFields? : Nat → List Char → Option (List (String × Json) × List Char)
  | 0, _ => none
  | n + 1, cs =>
    match skipSpace cs with
    | '"' :: rest =>
      (readString? (rest.length + 1) rest).bind fun (name, rest) =>
        match skipSpace rest with
        | ':' :: rest =>
          (readValue? n rest).bind fun (v, rest) =>
            match skipSpace rest with
            | ',' :: rest =>
              (readFields? n rest).map fun (fs, rest) => ((String.ofList name, v) :: fs, rest)
            | '\x7d' :: rest => some ([(String.ofList name, v)], rest)
            | _ => none
        | _ => none
    | _ => none

end

def maxDepth : Nat := 127

def read? (text : String) : Option Json :=
  let cs := text.toList
  (readValue? (cs.length + 1) cs).bind fun (v, rest) =>
    if (skipSpace rest).isEmpty && v.depth ≤ maxDepth then some v else none

end SqlFront.Json
