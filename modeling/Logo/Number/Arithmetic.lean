import Logo.Binary64.Hypotenuse
import Logo.Number.Basic

/-!
# Arithmetic on numbers

Operations on two integers stay with integers, except for division; as soon as
one operand is in double precision, so is the result.  The operands are
converted from left to right, before anything else is looked at.
-/

namespace Logo

namespace Number

def lift (onIntegers : Int → Int → Int) (onReals : Float → Float → Float)
    (a b : Number) :
    Except ArithmeticFault Number :=
  match a, b with
  | .integer m, .integer n => .ok (.integer (onIntegers m n))
  | _, _ => do
    let x ← a.toReal
    let y ← b.toReal
    return .real (onReals x y)

def add : Number → Number → Except ArithmeticFault Number :=
  lift (· + ·) (· + ·)

def sub : Number → Number → Except ArithmeticFault Number :=
  lift (· - ·) (· - ·)

def mul : Number → Number → Except ArithmeticFault Number :=
  lift (· * ·) (· * ·)

def neg : Number → Number
  | .integer n => .integer (-n)
  | .real x => .real (-x)
  | .marked _ => .real Binary64.notANumber

/-- The quotient in double precision.  Two integers are divided exactly and
rounded once. -/
def div (a b : Number) : Except ArithmeticFault Number :=
  match a, b with
  | .integer m, .integer n =>
    if n = 0 then .error .divisionByZero
    else if Binary64.infinityBits ≤ Binary64.nearestBits m.natAbs n.natAbs then
      .error .quotientTooLarge
    else
      .ok (.real
        (Binary64.withSign ((m < 0) != (n < 0))
          (Binary64.nearest m.natAbs n.natAbs)))
  | _, _ => do
    let x ← a.toReal
    let y ← b.toReal
    if y == 0.0 then throw .realDivisionByZero
    return .real (x / y)

/-- The remainder with the sign of the dividend, in double precision. -/
def remainder (a b : Number) : Except ArithmeticFault Number := do
  let x ← a.toReal
  let y ← b.toReal
  match Binary64.remainder? x y with
  | some r => return .real r
  | none => throw .outOfDomain

def pi : Float := 3.141592653589793

def radians (x : Float) : Float := x * (pi / 180.0)

def degrees (x : Float) : Float := x * (180.0 / pi)

/-- A value that is not a number, of an operand that is one, lies outside the
domain. -/
def defined (x value : Float) : Except ArithmeticFault Float :=
  if value.isNaN && !x.isNaN then .error .outOfDomain else .ok value

def ofDegrees (f : Float → Float) (a : Number) :
    Except ArithmeticFault Number := do
  let angle := radians (← a.toReal)
  return .real (← defined angle (f angle))

def arcTangent (a : Number) : Except ArithmeticFault Number := do
  return .real (degrees (← a.toReal).atan)

/-- A natural as a fraction from a half up to but not including one, and a power
of two.  A fraction that rounds to one is taken for a half, of the next
power. -/
def fractionAndPower (n : Nat) : Float × Nat :=
  let power := n.log2 + 1
  let fraction := Binary64.nearest n (Nat.pow 2 power)
  if fraction < 1.0 then (fraction, power) else (0.5, power + 1)

/-- The natural logarithm.  An integer too large for double precision is split
into a fraction and a power of two. -/
def naturalLog : Number → Except ArithmeticFault Number
  | .integer n =>
    if n ≤ 0 then .error .outOfDomain
    else
      match Binary64.ofInt? n with
      | some x => .ok (.real x.log)
      | none =>
        let (fraction, power) := fractionAndPower n.natAbs
        .ok (.real (fraction.log + (2.0 : Float).log * Float.ofNat power))
  | .real x =>
    if x.isNaN then .ok (.real x)
    else if x > 0.0 then .ok (.real x.log)
    else .error .outOfDomain
  | .marked _ => .ok (.real Binary64.notANumber)

def isOdd (y : Float) : Bool :=
  match Binary64.remainder? y.abs 2.0 with
  | some r => r == 1.0
  | none => false

/-- A power with an operand that is infinite or not a number. -/
def specialPower (x y : Float) : Float :=
  if x.isNaN then (if y == 0.0 then 1.0 else x)
  else if y.isNaN then (if x == 1.0 then 1.0 else y)
  else if x.isInf then
    if y > 0.0 then (if isOdd y then x else x.abs)
    else if y == 0.0 then 1.0
    else if isOdd y && x < 0.0 then -0.0 else 0.0
  else if x.abs == 1.0 then 1.0
  else if y > 0.0 && x.abs > 1.0 then y
  else if y < 0.0 && x.abs < 1.0 then -y
  else 0.0

/-- A power in double precision.  Zero has no negative power, and a negative
number no power with an exponent that is not whole. -/
def power (a b : Number) : Except ArithmeticFault Number := do
  let x ← a.toReal
  let y ← b.toReal
  if !x.isFinite || !y.isFinite then return .real (specialPower x y)
  let value := x.pow y
  if value.isNaN then throw .outOfDomain
  if value.isInf then throw (if x == 0.0 then .outOfDomain else .outOfRange)
  return .real value

def hypotenuse (a b : Number) : Except ArithmeticFault Number := do
  let x ← a.toReal
  let y ← b.toReal
  return .real (Binary64.hypotenuse x y)

end Number

/-! ## Counting

All three loops of the language count: from one value by steps until a last
value is passed.  The values are computed one by one, as the loop gets to
them. -/

/-- The value a loop is at, the last value it may take, and its step. -/
structure Counter where
  value : Number
  last : Number
  step : Number
deriving Repr

namespace Counter

def upTo (last : Int) : Counter := ⟨1, .integer last, 1⟩

def isLive (counter : Counter) : Bool :=
  if Number.lt 0 counter.step then counter.value.le counter.last
  else counter.last.le counter.value

def next (counter : Counter) : Except ArithmeticFault Counter := do
  return { counter with value := ← counter.value.add counter.step }

end Counter

end Logo
