import Logo.Binary64

/-!
# The length of a hypotenuse

The length over two legs is the root of the sum of their squares.  The legs are
first scaled by a power of two, so that nothing overflows and the larger one
lies between a half and one.  Squares are summed with what each rounding loses
kept apart, and the root is corrected once by what its own square misses of the
sum.  That leaves an error far below the last digit, so the length is the
nearest number but for ties, which fall as the corrections do, and for lengths
that are rounded once more because they are too small to have all their digits.
-/

namespace Logo.Binary64

/-- A number as a sum of two with half of the digits each, the larger one
first. -/
def halves (x : Float) : Float × Float :=
  let spread := x * 134217729.0
  let high := spread - (spread - x)
  (high, x - high)

/-- What rounding loses when a number is added to a sum that is at least as
large. -/
def loss (sum x : Float) : Float := (sum - (sum + x)) + x

/-- A sum of squares.  It starts from one, so that it is never smaller than what
is added, and the losses are kept apart by the size of what was added. -/
structure SquareSum where
  sum : Float
  great : Float
  middle : Float
  small : Float

namespace SquareSum

def start : SquareSum := ⟨1.0, 0.0, 0.0, 0.0⟩

/-- Adds something of the size of a square. -/
def addGreat (s : SquareSum) (x : Float) : SquareSum :=
  { s with sum := s.sum + x, great := s.great + loss s.sum x }

/-- Adds something of half the digits of a square. -/
def addMiddle (s : SquareSum) (x : Float) : SquareSum :=
  { s with sum := s.sum + x, middle := s.middle + loss s.sum x }

/-- Adds the square of a number.  The square of its lower half is too small to
reach the sum. -/
def addSquare (s : SquareSum) (x : Float) : SquareSum :=
  let (high, low) := halves x
  let s := (s.addGreat (high * high)).addMiddle (2.0 * high * low)
  { s with small := s.small + low * low }

def subtractSquare (s : SquareSum) (x : Float) : SquareSum :=
  let (high, low) := halves x
  let s := (s.addGreat (-high * high)).addMiddle (-2.0 * high * low)
  { s with
    sum := s.sum + -low * low, small := s.small + loss s.sum (-low * low) }

def total (s : SquareSum) : Float :=
  s.sum - 1.0 + (s.great + s.middle + s.small)

end SquareSum

/-- The length over two legs of which the larger one lies between a half and
one. -/
def scaledHypotenuse (x y : Float) : Float :=
  let squares := (SquareSum.start.addSquare x).addSquare y
  let root := squares.total.sqrt
  root + (squares.subtractSquare root).total / (2.0 * root)

def relativeHypotenuse (larger x y : Float) : Float :=
  let square (leg : Float) : Float := (leg / larger) * (leg / larger)
  larger *
    ((SquareSum.start.addGreat (square x)).addGreat (square y)).total.sqrt

/-- The length of the hypotenuse over two legs.  For legs below `2 ^ -1024`
there is no power of two to scale them by, and they are compared with the larger
one instead. -/
def hypotenuse (x y : Float) : Float :=
  if x.isInf || y.isInf then Float.ofBits (UInt64.ofNat infinityBits)
  else if x.isNaN || y.isNaN then notANumber
  else
    let larger := if x.abs < y.abs then y.abs else x.abs
    match magnitude? larger with
    | none => larger
    | some (m, q) =>
      let exponent := (m.log2 : Int) + 1 + q
      if m = 0 then larger
      else if exponent < -1023 then relativeHypotenuse larger x y
      else
        let scale := ofScaled false 1 (-exponent)
        scaledHypotenuse (x * scale) (y * scale) / scale

end Logo.Binary64
