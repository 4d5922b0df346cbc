/-!
# Binary floating-point numbers, exactly

A finite number in double precision is `m · 2 ^ q` with a natural `m` and an
integer `q`, up to its sign.  This file takes such numbers apart and puts the
nearest one together from a quotient of naturals, all in exact arithmetic:
reading decimals, dividing integers and remainders are built on these two
directions.
-/

namespace Logo.Binary64

/-- The number of bits of a stored significand, without its leading one. -/
def significandBits : Nat := 52

/-- The least exponent `q` of a finite number `m · 2 ^ q`. -/
def leastExponent : Int := -1074

def infinityBits : Nat := 0x7FF0000000000000

def notANumber : Float := 0.0 / 0.0

def isNegative (x : Float) : Bool := x.toBits.toNat / Nat.pow 2 63 == 1

/-- The pair `(m, q)` with `|x| = m · 2 ^ q`, for a finite number. -/
def magnitude? (x : Float) : Option (Nat × Int) :=
  let bits := x.toBits.toNat % Nat.pow 2 63
  let exponent : Nat := bits / Nat.pow 2 significandBits
  let fraction := bits % Nat.pow 2 significandBits
  if exponent = 0x7FF then none
  else if exponent = 0 then some (fraction, leastExponent)
  else some (Nat.pow 2 significandBits + fraction,
    (exponent : Int) - 1 + leastExponent)

/-- A quotient of naturals, rounded to the nearest natural; a half goes to the
even neighbour. -/
def roundQuotient (numerator denominator : Nat) : Nat :=
  let quotient := numerator / denominator
  let twice := 2 * (numerator % denominator)
  if twice < denominator then quotient
  else if denominator < twice then quotient + 1
  else quotient + quotient % 2

/-- `numerator / denominator / 2 ^ exponent` as a quotient of naturals. -/
def scaled (numerator denominator : Nat) (exponent : Int) : Nat × Nat :=
  if exponent < 0 then (numerator * Nat.pow 2 (-exponent).toNat, denominator)
  else (numerator, denominator * Nat.pow 2 exponent.toNat)

/-- The exponent at which a positive quotient has a significand of full width,
or the least exponent when the quotient is too small for that. -/
def exponentFor (numerator denominator : Nat) : Int :=
  let guess : Int := (numerator.log2 : Int) - denominator.log2 - significandBits
  let (n, d) := scaled numerator denominator guess
  let exponent := if n / d < Nat.pow 2 significandBits then guess - 1 else guess
  max exponent leastExponent

/-- The bit pattern of the number nearest to a quotient, a tie going to the even
significand.  Quotients too large to round to a finite number give infinity. -/
def nearestBits (numerator denominator : Nat) : Nat :=
  if numerator = 0 then 0
  else
    let exponent := exponentFor numerator denominator
    let (n, d) := scaled numerator denominator exponent
    min infinityBits
      ((exponent - leastExponent).toNat * Nat.pow 2 significandBits +
        roundQuotient n d)

def nearest (numerator denominator : Nat) : Float :=
  Float.ofBits (UInt64.ofNat (nearestBits numerator denominator))

def withSign (negative : Bool) (x : Float) : Float := if negative then -x else x

def ofScaled (negative : Bool) (m : Nat) (q : Int) : Float :=
  withSign negative
    (if q < 0 then nearest m (Nat.pow 2 (-q).toNat)
      else nearest (m * Nat.pow 2 q.toNat) 1)

/-- The number nearest to an integer, if the integer is not too large to have
one. -/
def ofInt? (n : Int) : Option Float :=
  if nearestBits n.natAbs 1 < infinityBits then
    some (withSign (n < 0) (nearest n.natAbs 1))
  else none

def truncate? (x : Float) : Option Int :=
  (magnitude? x).map fun (m, q) =>
    let whole : Nat :=
      if q < 0 then m / Nat.pow 2 (-q).toNat else m * Nat.pow 2 q.toNat
    if isNegative x then -(whole : Int) else whole

/-- How an integer compares with a number; `none` when the number is not a
number. -/
def compareInt (n : Int) (x : Float) : Option Ordering :=
  match magnitude? x with
  | some (m, q) =>
    let signed : Int := if isNegative x then -(m : Int) else m
    some (if q < 0 then compare (n * Nat.pow 2 (-q).toNat) signed
      else compare n (signed * Nat.pow 2 q.toNat))
  | none => if x.isNaN then none else some (if isNegative x then .gt else .lt)

/-- The remainder of `x` by `y` with the sign of `x`, which is always a number
in double precision; `none` when there is none because `x` is infinite or `y` is
zero. -/
def remainder? (x y : Float) : Option Float :=
  if x.isNaN || y.isNaN then some (x + y)
  else
    match magnitude? x, magnitude? y with
    | some _, none => some x
    | some (m, q), some (m', q') =>
      if m' = 0 then none
      else
        let least := min q q'
        let rest :=
          (m * Nat.pow 2 (q - least).toNat) % (m' * Nat.pow 2
            (q' - least).toNat)
        some (ofScaled (isNegative x) rest least)
    | none, _ => none

end Logo.Binary64
