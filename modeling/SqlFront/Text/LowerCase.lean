import SqlFront.Text.Table.Cased
import SqlFront.Text.Table.Lower

/-!
# Lower case

The lower case of a text by the character standard. Each letter is mapped on its own, with two
exceptions: the capital I with a dot becomes two characters, and a capital sigma at the end of a
word becomes the final form of the small letter.
-/

set_option autoImplicit false

namespace SqlFront.LowerCase

def inRanges (ranges : List (Nat × Nat)) (c : Char) : Bool :=
  ranges.any (fun r => r.1 ≤ c.toNat && c.toNat ≤ r.2)

def letter (c : Char) : Char :=
  if c.toNat < 0x80 then c.toLower
  else
    match Table.lowerRuns.find? (fun r =>
        r.first ≤ c.toNat && c.toNat ≤ r.last && (c.toNat - r.first) % r.step == 0) with
    | some r => Char.ofNat ((c.toNat : Int) + r.distance).toNat
    | none => c

def casedNext (cs : List Char) : Bool :=
  ((cs.dropWhile (inRanges Table.caseIgnorable)).head?).any (inRanges Table.cased)

def characters : List Char → List Char → List Char
  | _, [] => []
  | before, c :: cs =>
    let low :=
      if c = 'Σ' then [if casedNext before && !casedNext cs then 'ς' else 'σ']
      else if c = 'İ' then ['i', '\u0307']
      else [letter c]
    low ++ characters (c :: before) cs

end SqlFront.LowerCase

namespace SqlFront

def lowerCase (text : String) : String := String.ofList (LowerCase.characters [] text.toList)

end SqlFront
