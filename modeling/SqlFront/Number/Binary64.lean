/-!
# Binary floating point numbers of 64 bits

A number is its bit pattern: a sign, 11 bits of exponent and 52 bits of fraction. A ratio of
natural numbers is rounded to the nearest of these numbers, and a half to the one with an even
fraction; all of it is exact arithmetic on natural numbers.
-/

set_option autoImplicit false

namespace SqlFront

structure Binary64 where
  bits : UInt64
deriving DecidableEq

namespace Binary64

def signBit : Nat := 0x8000000000000000

def exponentUnit : Nat := 0x10000000000000

def negative (x : Binary64) : Bool := signBit ≤ x.bits.toNat

def magnitudeBits (x : Binary64) : Nat := x.bits.toNat % signBit

def exponentBits (x : Binary64) : Nat := x.magnitudeBits / exponentUnit

def fractionBits (x : Binary64) : Nat := x.magnitudeBits % exponentUnit

def isFinite (x : Binary64) : Bool := x.exponentBits < 2047

def isNaN (x : Binary64) : Bool := 2047 * exponentUnit < x.magnitudeBits

def significand (x : Binary64) : Nat :=
  if x.exponentBits = 0 then x.fractionBits else exponentUnit + x.fractionBits

def scale (x : Binary64) : Int := (max x.exponentBits 1 : Nat) - 1075

def ofMagnitudeBits (negative : Bool) (bits : Nat) : Binary64 :=
  ⟨UInt64.ofNat (bits + if negative then signBit else 0)⟩

def zero (negative : Bool) : Binary64 := ofMagnitudeBits negative 0

def infinity (negative : Bool) : Binary64 := ofMagnitudeBits negative (2047 * exponentUnit)

def nan : Binary64 := ofMagnitudeBits false (2047 * exponentUnit + exponentUnit / 2)

def powerOfTwo (e : Int) : Nat × Nat := (Nat.pow 2 e.toNat, Nat.pow 2 (-e).toNat)

def roundHalfEven (num den : Nat) : Nat :=
  let whole := num / den
  let twice := 2 * (num % den)
  if den < twice ∨ (twice = den ∧ whole % 2 = 1) then whole + 1 else whole

def floorLog2 (num den : Nat) : Int :=
  let e : Int := (Nat.log2 num : Int) - (Nat.log2 den : Int)
  let (up, down) := powerOfTwo e
  if den * up ≤ num * down then e else e - 1

def ofRatio (negative : Bool) (num den : Nat) : Binary64 :=
  if num = 0 then zero negative
  else
    let scale := max (floorLog2 num den - 52) (-1074)
    let (up, down) := powerOfTwo scale
    let bits := (scale + 1074).toNat * exponentUnit + roundHalfEven (num * down) (den * up)
    if 2047 * exponentUnit ≤ bits then infinity negative else ofMagnitudeBits negative bits

/-- The number nearest to `digits · 10 ^ exponent`. Far outside the range of finite numbers the
power of ten is not computed. -/
def ofDecimal (negative : Bool) (digits : Nat) (exponent : Int) : Binary64 :=
  let position := (Nat.log2 digits : Int) + 3 * exponent
  if digits = 0 then zero negative
  else if 0 ≤ exponent ∧ 1024 < position then infinity negative
  else if exponent < 0 ∧ position < -1200 then zero negative
  else ofRatio negative (digits * Nat.pow 10 exponent.toNat) (Nat.pow 10 (-exponent).toNat)

def sameNumber (x y : Binary64) : Bool :=
  !x.isNaN && !y.isNaN && (x == y || (x.magnitudeBits == 0 && y.magnitudeBits == 0))

def truncate (x : Binary64) : Int :=
  if x.isNaN then 0
  else
    let bound : Nat := if x.negative then signBit else signBit - 1
    let (up, down) := powerOfTwo x.scale
    let magnitude := if x.isFinite then min (x.significand * up / down) bound else bound
    if x.negative then -(magnitude : Int) else magnitude

end Binary64

end SqlFront
