import Logo.Binary64

/-!
# Numbers of the language

A number is either an integer of any size or a number in double precision, and
it stays of its kind until an operation needs the other one.  Turning an integer
into double precision fails when the integer is too large; such failures are
`ArithmeticFault`s.

What is not a number equals nothing, not even itself.  Still it can be
recognised when it comes back from where it was kept, in a variable or as a
coordinate, by a mark that it gets there.
-/

namespace Logo

/-- What something that is not a number is recognised by: the turtle that was
listening alone when it was first kept, or zero, and how many had got marks
under that number before. -/
structure Mark where
  listener : Nat
  serial : Nat
deriving Repr, DecidableEq

inductive Number where
  | integer (n : Int)
  | real (x : Float)
  /-- Not a number, but recognisable. -/
  | marked (mark : Mark)
deriving Repr, Inhabited

inductive ArithmeticFault where
  /-- An integer is too large to become a number in double precision. -/
  | integerTooLarge
  /-- An integer is divided by the integer zero. -/
  | divisionByZero
  /-- A number is divided by zero in double precision. -/
  | realDivisionByZero
  /-- The quotient of two integers is too large for double precision. -/
  | quotientTooLarge
  /-- A function is not defined at its operands. -/
  | outOfDomain
  /-- The value of a function is too large for double precision. -/
  | outOfRange
  /-- A random number is wanted below a negative limit. -/
  | negativeLimit
  /-- An integer has more decimal digits than are ever written or read; the
  count is known when the digits were given. -/
  | tooManyDigits (count : Option Nat)
  /-- A text is not a number. -/
  | unreadable (quoted : String)
deriving Repr, DecidableEq

/-- Integers of more decimal digits than this are neither read nor written. -/
def digitLimit : Nat := 4300

def ArithmeticFault.message : ArithmeticFault → String
  | .integerTooLarge => "int too large to convert to float"
  | .divisionByZero => "division by zero"
  | .realDivisionByZero => "float division by zero"
  | .quotientTooLarge => "integer division result too large for a float"
  | .outOfDomain => "math domain error"
  | .outOfRange => "math range error"
  | .negativeLimit => "random needs a non-negative limit"
  | .tooManyDigits count =>
    let found := match count with
      | some n => ": value has " ++ toString n ++ " digits"
      | none => ""
    "Exceeds the limit (" ++ toString digitLimit ++
      " digits) for integer string conversion" ++
      found ++ "; use sys.set_int_max_str_digits() to increase the limit"
  | .unreadable quoted => "could not convert string to float: " ++ quoted

namespace Number

instance : OfNat Number n := ⟨.integer n⟩

/-- A number in double precision; an integer is rounded to the nearest one. -/
def toReal : Number → Except ArithmeticFault Float
  | .integer n =>
    match Binary64.ofInt? n with
    | some x => .ok x
    | none => .error .integerTooLarge
  | .real x => .ok x
  | .marked _ => .ok Binary64.notANumber

/-- Zero counts as false and everything else, including what is not a number, as
true. -/
def isTrue : Number → Bool
  | .integer n => n != 0
  | .real x => !(x == 0.0)
  | .marked _ => true

def ofBool (b : Bool) : Number := .integer (if b then 1 else 0)

/-- Whether a number is finite, asked in double precision: too large an integer
fails. -/
def isFinite (a : Number) : Except ArithmeticFault Bool := do
  let x ← a.toReal
  return x.isFinite

def truncate? : Number → Option Int
  | .integer n => some n
  | .real x => Binary64.truncate? x
  | .marked _ => none

/-- How two numbers compare, exactly; `none` when one of them is not a
number. -/
def compare? : Number → Number → Option Ordering
  | .integer m, .integer n => some (compare m n)
  | .integer m, .real y => Binary64.compareInt m y
  | .real x, .integer n => (Binary64.compareInt n x).map Ordering.swap
  | .real x, .real y =>
    if x < y then some .lt else if y < x then some .gt
    else if x == y then some .eq else none
  | _, _ => none

def lt (a b : Number) : Bool := a.compare? b == some .lt

def le (a b : Number) : Bool :=
  a.compare? b == some .lt || a.compare? b == some .eq

def eq (a b : Number) : Bool := a.compare? b == some .eq

/-- Whether two numbers are equal, or the same thing that is not a number. -/
def same (a b : Number) : Bool :=
  match a, b with
  | .marked mark, .marked other => mark == other
  | _, _ => a.eq b

end Number

end Logo
