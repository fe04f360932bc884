import SqlFront.Number.Binary64

/-!
# Layouts of floating point numbers

The digits of a number are the shortest ones; a layout says where an exponent is written and what
stands behind the digits of a whole number, and which of two equally near numbers is written.
-/

set_option autoImplicit false

namespace SqlFront

/-! ## Shortest decimal digits

Among the decimal numbers that read back as a given floating point number, the shortest one is
written, and of the shortest ones the nearest. Two of them may be equally near, and then the writer
chooses. The numbers that read back form an interval around the number, which holds its ends when
the fraction is even. -/

structure DecimalDigits where
  digits : Nat
  exponent : Int
deriving DecidableEq

inductive Tie
  | evenDigit
  | fromZero
deriving DecidableEq

namespace DecimalDigits

def count (n : Nat) : Nat := (Nat.toDigits 10 n).length

def powerOfTen (e : Int) : Nat × Nat := (Nat.pow 10 e.toNat, Nat.pow 10 (-e).toNat)

def floorLog10 (num den : Nat) : Int :=
  if den ≤ num then (count (num / den) : Int) - 1
  else
    let e := count (den / num) - 1
    if den ≤ Nat.pow 10 e * num then -(e : Int) else -(e : Int) - 1

/-- The bounds of the numbers that are read as the same floating point number, in quarters of its
last place. -/
def bounds (x : Binary64) : Nat × Nat :=
  let m := 4 * x.significand
  (if x.fractionBits = 0 ∧ 1 < x.exponentBits then m - 1 else m - 2, m + 2)

def onGrid? (tie : Tie) (x : Binary64) (k : Int) : Option Nat :=
  let (ten, tenth) := powerOfTen k
  let (two, half) := Binary64.powerOfTwo (x.scale - 2)
  -- one step of the grid against a quarter of the last place
  let step := ten * half
  let quarter := tenth * two
  let value := 4 * x.significand * quarter
  let (low, high) := bounds x
  let reads (c : Nat) : Bool :=
    if x.significand % 2 = 0 then low * quarter ≤ c * step && c * step ≤ high * quarter
    else low * quarter < c * step && c * step < high * quarter
  let below := value / step
  let above := below + 1
  let aboveIsNearer : Bool :=
    let twice := 2 * (value % step)
    step < twice || (twice == step && (tie == .fromZero || below % 2 == 1))
  if reads below && reads above then some (if aboveIsNearer then above else below)
  else if reads below then some below
  else if reads above then some above
  else none

def search (tie : Tie) (x : Binary64) : Nat → Int → DecimalDigits
  | 0, k => ⟨0, k⟩
  | n + 1, k =>
    match onGrid? tie x k with
    | some c => ⟨c, k⟩
    | none => search tie x n (k - 1)

def normalize : Nat → DecimalDigits → DecimalDigits
  | 0, d => d
  | n + 1, d => if d.digits % 10 = 0 then normalize n ⟨d.digits / 10, d.exponent + 1⟩ else d

def shortest (tie : Tie) (x : Binary64) : DecimalDigits :=
  let (up, down) := Binary64.powerOfTwo x.scale
  normalize 17 (search tie x 17 (floorLog10 (x.significand * up) down))

end DecimalDigits

/-! ## Layouts -/

structure NumberLayout where
  /-- The powers of ten of the first digit for which no exponent is written; `none` for all. -/
  positional : Option (Int × Int)
  /-- A whole number ends in `.0`. -/
  pointZero : Bool
  /-- A positive exponent has a plus sign. -/
  exponentPlus : Bool
  tie : Tie

namespace NumberLayout

def json : NumberLayout := ⟨some (-5, 15), true, true, .evenDigit⟩

def inspection : NumberLayout := ⟨some (-4, 15), true, false, .fromZero⟩

def plain : NumberLayout := ⟨none, false, false, .fromZero⟩

def zeros (n : Nat) : String := String.ofList (List.replicate n '0')

def positionalText (pointZero : Bool) (text : String) (first : Int) : String :=
  if first < 0 then "0." ++ zeros ((-first).toNat - 1) ++ text
  else
    let whole := first.toNat + 1
    if text.length ≤ whole then
      text ++ zeros (whole - text.length) ++ (if pointZero then ".0" else "")
    else
      String.ofList (text.toList.take whole) ++ "." ++ String.ofList (text.toList.drop whole)

def exponentText (plus : Bool) (text : String) (first : Int) : String :=
  let fraction := String.ofList (text.toList.drop 1)
  String.ofList (text.toList.take 1) ++ (if fraction.isEmpty then "" else "." ++ fraction) ++ "e" ++
    (if plus && 0 < first then "+" else "") ++ toString first

def digitsText (layout : NumberLayout) (d : DecimalDigits) : String :=
  let text := toString d.digits
  let first := d.exponent + text.length - 1
  match layout.positional with
  | none => positionalText layout.pointZero text first
  | some (low, high) =>
    if low ≤ first ∧ first ≤ high then positionalText layout.pointZero text first
    else exponentText layout.exponentPlus text first

def text (layout : NumberLayout) (x : Binary64) : String :=
  if x.isNaN then "NaN"
  else
    let sign := if x.negative then "-" else ""
    if !x.isFinite then sign ++ "inf"
    else if x.magnitudeBits = 0 then sign ++ (if layout.pointZero then "0.0" else "0")
    else sign ++ layout.digitsText (DecimalDigits.shortest layout.tie x)

end NumberLayout

end SqlFront
