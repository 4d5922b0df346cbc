import Logo.Decimal.Layout
import Logo.Number.Basic
import Logo.Text.Classes
import Logo.Text.Printable

/-!
# Numbers as text

Numbers are written with all the digits they need, or with at most six.  They
are read in two ways: a constant of a program has a sign, digits and perhaps a
point, while a text that a host turns into a number may also have blanks around
it, single underscores between its digits, digits of other scripts, and for
double precision an exponent or the name of a special number.
-/

namespace Logo

open Logo.Decimal

namespace Number

/-- The text of an integer, unless it has too many digits. -/
def integerText (n : Int) : Except ArithmeticFault String :=
  if Nat.pow 10 digitLimit ≤ n.natAbs then .error (.tooManyDigits none)
  else .ok (toString n)

def text : Number → Except ArithmeticFault String
  | .integer n => integerText n
  | .real x => .ok (Layout.plain.text x)
  | .marked _ => .ok (Layout.plain.text Binary64.notANumber)

/-- At most six digits, in double precision. -/
def brief (a : Number) : Except ArithmeticFault String := do
  return (Layout.general 6).text (← a.toReal)

/-- Some numbers in parentheses; a single one has a comma behind it. -/
def listText (numbers : List Number) : Except ArithmeticFault String := do
  let texts ← numbers.mapM text
  return "(" ++ ", ".intercalate texts ++
    (if texts.length = 1 then ",)" else ")")

end Number

namespace Decimal

/-- The digits a text starts with and the rest of the text.  Right after a
digit, a single underscore may stand before the next one. -/
def numeral (afterDigit : Bool) : List Char → List Nat × List Char
  | [] => ([], [])
  | c :: rest =>
    match Text.digit? c with
    | some d =>
      let (ds, others) := numeral true rest
      (d :: ds, others)
    | none =>
      if afterDigit && c = '_' && (rest.head?.bind Text.digit?).isSome then
        numeral false rest
      else ([], c :: rest)

def value (ds : List Nat) : Nat := ds.foldl (fun n d => 10 * n + d) 0

def sign : List Char → Bool × List Char
  | '-' :: rest => (true, rest)
  | '+' :: rest => (false, rest)
  | rest => (false, rest)

def integer? (text : String) : Option Int :=
  let (negative, rest) := sign (Text.trim Text.isNumberPadding text.toList)
  match numeral false rest with
  | ([], _) => none
  | (ds, []) =>
    if digitLimit < ds.length then none
    else some (if negative then -(value ds : Int) else value ds)
  | _ => none

/-- The number nearest to `n · 10 ^ power`.  Powers that are out of reach are
not computed. -/
def nearestDecimal (n : Nat) (power : Int) : Float :=
  let size := power + (digits n).length
  if n = 0 ∨ size < -400 then 0.0
  else if 400 < size then Float.ofBits (UInt64.ofNat Binary64.infinityBits)
  else
    let (numerator, denominator) := tenfold n 1 power
    Binary64.nearest numerator denominator

/-- The exponent that ends a number: a mark, an optional sign and digits, or
nothing at all. -/
def exponent? : List Char → Option Int
  | [] => some 0
  | mark :: rest =>
    if mark.toLower = 'e' then
      let (negative, rest) := sign rest
      match numeral false rest with
      | ([], _) => none
      | (ds, []) => some (if negative then -(value ds : Int) else value ds)
      | _ => none
    else none

/-- The magnitude in double precision that a text without blanks and sign
denotes. -/
def magnitude? (text : List Char) : Option Float :=
  let name := text.map Char.toLower
  if name = "inf".toList ∨ name = "infinity".toList then
    some (Float.ofBits (UInt64.ofNat Binary64.infinityBits))
  else if name = "nan".toList then some Binary64.notANumber
  else
    let (whole, rest) := numeral false text
    let (fraction, rest) := match rest with
      | '.' :: rest => numeral false rest
      | rest => ([], rest)
    if whole.isEmpty && fraction.isEmpty then none
    else
      (exponent? rest).map fun power =>
        nearestDecimal (value (whole ++ fraction)) (power - fraction.length)

def real? (text : String) : Option Float :=
  let (negative, rest) := sign (Text.trim Text.isNumberPadding text.toList)
  (magnitude? rest).map (Binary64.withSign negative)

end Decimal

namespace Number

/-- The value of a constant of the program: an integer when it is written
without a point. -/
def constant (text : String) : Except ArithmeticFault Number :=
  let (negative, unsigned) := Decimal.sign text.toList
  if !unsigned.isEmpty && unsigned.all Char.isDigit then
    if digitLimit < unsigned.length then
      .error (.tooManyDigits (some unsigned.length))
    else
      let n := Decimal.value (unsigned.filterMap Text.digit?)
      .ok (.integer (if negative then -(n : Int) else n))
  else
    match Decimal.real? text with
    | some x => .ok (.real x)
    | none => .error (.unreadable (Text.quoted text))

end Number

end Logo
