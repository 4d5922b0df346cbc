import Logo.Decimal.Digits

/-!
# Written forms of binary numbers

Once its digits are chosen, a number is written with its point in place when its
exponent is small enough, and in scientific notation otherwise.  A `Layout`
holds the choices that differ from one written form to another.
-/

namespace Logo.Decimal

open Logo.Binary64

/-- How a number is written: how many digits it has (all that it needs when
`count` is absent), from which decimal exponent on it is written in scientific
notation, and whether a whole number keeps a zero behind its point. -/
structure Layout where
  count : Option Nat
  scientificFrom : Int
  wholeMark : Bool
deriving Repr, DecidableEq

/-- The form in which values are shown to the user: as many digits as it takes
to read the number back, and a point in every number that is not scientific. -/
def Layout.plain : Layout := ⟨none, 16, true⟩

/-- At most `count` digits, and no point in a whole number. -/
def Layout.general (count : Nat) : Layout := ⟨some count, count, false⟩

/-- Numbers below `10 ^ -4` are written in scientific notation in every
layout. -/
def leastPositional : Int := -4

def exponentMark (exponent : Int) : List Char :=
  let size := digits exponent.natAbs
  'e' :: (if exponent < 0 then '-' else '+') :: List.replicate
    (2 - size.length) '0' ++ size

/-- Digits with the point after the first `place` of them, which is negative for
leading zeros. -/
def positional (wholeMark : Bool) (ds : List Char) (place : Int) : List Char :=
  if place ≤ 0 then '0' :: '.' :: List.replicate (-place).toNat '0' ++ ds
  else
    let whole :=
      ds.take place.toNat ++ List.replicate (place.toNat - ds.length) '0'
    match ds.drop place.toNat with
    | [] => if wholeMark then whole ++ ['.', '0'] else whole
    | fraction => whole ++ '.' :: fraction

def Layout.write (layout : Layout) (s : Scientific) : List Char :=
  let ds := (digits s.significand).take 1 ++
    (((digits s.significand).drop 1).reverse.dropWhile (· = '0')).reverse
  if s.exponent < leastPositional ∨ layout.scientificFrom ≤ s.exponent then
    match ds with
    | [] => exponentMark s.exponent
    | [d] => d :: exponentMark s.exponent
    | d :: fraction => d :: '.' :: fraction ++ exponentMark s.exponent
  else positional layout.wholeMark ds (s.exponent + 1)

def Layout.text (layout : Layout) (x : Float) : String :=
  let sign := if isNegative x then "-" else ""
  match magnitude? x with
  | none => if x.isNaN then "nan" else sign ++ "inf"
  | some (0, _) => sign ++ (if layout.wholeMark then "0.0" else "0")
  | some (m, q) =>
    let s := match layout.count with
      | some count => rounded count m q
      | none => fewest m q
    sign ++ String.ofList (layout.write s)

end Logo.Decimal
