import Logo.Binary64

/-!
# Decimal digits of a binary number

Two ways to choose digits for a positive number `m · 2 ^ q`: the fewest that
still read back as the same number, and a given count of them, correctly
rounded.  Both return a significand and an exponent in scientific notation, and
both are computed in exact natural arithmetic.
-/

namespace Logo.Decimal

open Logo.Binary64

/-- A decimal `d₁.d₂d₃… · 10 ^ exponent` whose digits, without the point, are
those of `significand`. -/
structure Scientific where
  significand : Nat
  exponent : Int
deriving Repr, DecidableEq

/-- The digits of a natural, most significant first. -/
def digits (n : Nat) : List Char := (toString n).toList

def tenfold (numerator denominator : Nat) (power : Int) : Nat × Nat :=
  if power < 0 then (numerator, denominator * Nat.pow 10 (-power).toNat)
  else (numerator * Nat.pow 10 power.toNat, denominator)

/-- The exponent `e` with `10 ^ e ≤ numerator / denominator < 10 ^ (e + 1)`, for
a positive quotient.  The binary logarithm bounds it from above, and each turn
lowers the bound by one. -/
def decimalExponent (numerator denominator : Nat) : Int :=
  settle 4
    (((numerator.log2 : Int) - denominator.log2 + 1) * 30103 / 100000 + 1)
where
  settle : Nat → Int → Int
    | 0, e => e
    | turns + 1, e =>
      let (n, d) := tenfold numerator denominator (-e)
      if n < d then settle turns (e - 1) else e

def quotient (m : Nat) (q : Int) : Nat × Nat :=
  if q < 0 then (m, Nat.pow 2 (-q).toNat) else (m * Nat.pow 2 q.toNat, 1)

/-- A significand of `count` digits, or the power of ten just above all of
these. -/
def carried (count significand : Nat) (exponent : Int) : Scientific :=
  if significand = Nat.pow 10 count then ⟨Nat.pow 10 (count - 1), exponent + 1⟩
  else ⟨significand, exponent⟩

/-- The decimal with `count` digits nearest to `m · 2 ^ q`, a tie going to the
even digit. -/
def rounded (count : Nat) (m : Nat) (q : Int) : Scientific :=
  let (n, d) := quotient m q
  let exponent := decimalExponent n d
  let (n, d) := tenfold n d ((count : Int) - 1 - exponent)
  carried count (roundQuotient n d) exponent

def readsBack (m : Nat) (q : Int) (candidate : Nat) (power : Int) : Bool :=
  let (n, d) := tenfold candidate 1 power
  let (n', d') := quotient m q
  nearestBits n d == nearestBits n' d'

/-- A decimal with `count` digits that reads back as `m · 2 ^ q`, if there is
one.  The number has two neighbours among these decimals; the nearer is tried
first, and the even one of two that are equally near. -/
def readable? (m : Nat) (q exponent : Int) (count : Nat) : Option Scientific :=
  let power := exponent - ((count : Int) - 1)
  let (n, d) := quotient m q
  let (n, d) := tenfold n d (-power)
  let below := n / d
  let nearer := roundQuotient n d
  let farther := if nearer = below then below + 1 else below
  if readsBack m q nearer power then some (carried count nearer exponent)
  else if readsBack m q farther power then some (carried count farther exponent)
  else none

/-- The fewest digits that read back as `m · 2 ^ q`.  Seventeen always do, so
the search ends there at the latest. -/
def fewest (m : Nat) (q : Int) : Scientific :=
  let (n, d) := quotient m q
  let exponent := decimalExponent n d
  ((List.range 17).findSome? fun i => readable? m q exponent (i + 1)).getD
    (rounded 17 m q)

end Logo.Decimal
