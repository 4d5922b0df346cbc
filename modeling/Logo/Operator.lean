import Logo.Turtle.Basic

/-!
# Operators

The arithmetic and logical operators.  None of them touches a turtle, so all of
them may be evaluated where nothing may change.  Angles are in degrees, like
everywhere in the language.
-/

namespace Logo

inductive Operator where
  | sum
  | difference
  | product
  | quotient
  | remainder
  | minus
  | random
  | sine
  | cosine
  | tangent
  | arcTangent
  | naturalLog
  | power
  | pi
  | lessThan
  | greaterThan
  | equal
  | notEqual
  | and
  | or
  | not
deriving Repr, DecidableEq

namespace Operator

def all : List Operator :=
  [.sum, .difference, .product, .quotient, .remainder, .minus, .random, .sine,
    .cosine, .tangent, .arcTangent, .naturalLog, .power, .pi, .lessThan,
    .greaterThan, .equal, .notEqual, .and, .or, .not]

def symbol : Operator → String
  | .sum => "Sum"
  | .difference => "Difference"
  | .product => "Product"
  | .quotient => "Quotient"
  | .remainder => "Remainder"
  | .minus => "Minus"
  | .random => "Random"
  | .sine => "Sine"
  | .cosine => "Cosine"
  | .tangent => "Tangent"
  | .arcTangent => "ArcTangent"
  | .naturalLog => "NaturalLog"
  | .power => "Power"
  | .pi => "Pi"
  | .lessThan => "LessThan"
  | .greaterThan => "GreaterThan"
  | .equal => "Equal"
  | .notEqual => "NotEqual"
  | .and => "And"
  | .or => "Or"
  | .not => "Not"

def arity : Operator → Nat
  | .pi => 0
  | .minus | .random | .sine | .cosine | .tangent | .arcTangent | .naturalLog
  | .not => 1
  | _ => 2

/-- Whether a group may fold the operator over more operands than it takes. -/
def isReducible : Operator → Bool
  | .sum | .difference | .product | .quotient | .and | .or => true
  | _ => false

/-- Whether a random number is drawn.  A limit below zero is refused before
that. -/
def draws : Operator → List Number → Bool
  | .random, [limit] => !limit.lt 0
  | _, _ => false

theorem eq_random_of_draws {operator : Operator} {operands : List Number}
    (hdraws : operator.draws operands = true) : operator = .random := by
  unfold draws at hdraws
  split at hdraws
  · rfl
  · cases hdraws

/-- The value at exactly as many operands as the operator takes.  `draw` is a
random number between zero and one, of which only `random` makes use. -/
def apply (operator : Operator) (draw : Float) (operands : List Number) :
    Except Trouble Number :=
  match operator, operands with
  | .sum, [a, b] => arithmetically (a.add b)
  | .difference, [a, b] => arithmetically (a.sub b)
  | .product, [a, b] => arithmetically (a.mul b)
  | .quotient, [a, b] => arithmetically (a.div b)
  | .remainder, [a, b] => arithmetically (a.remainder b)
  | .minus, [a] => .ok a.neg
  | .random, [limit] =>
    if limit.lt 0 then .error (.arithmetic .negativeLimit)
    else arithmetically ((Number.real draw).mul limit)
  | .sine, [angle] => arithmetically (angle.ofDegrees Float.sin)
  | .cosine, [angle] => arithmetically (angle.ofDegrees Float.cos)
  | .tangent, [angle] => arithmetically (angle.ofDegrees Float.tan)
  | .arcTangent, [a] => arithmetically a.arcTangent
  | .naturalLog, [a] => arithmetically a.naturalLog
  | .power, [a, b] => arithmetically (a.power b)
  | .pi, [] => .ok (.real Number.pi)
  | .lessThan, [a, b] => .ok (.ofBool (a.lt b))
  | .greaterThan, [a, b] => .ok (.ofBool (b.lt a))
  | .equal, [a, b] => .ok (.ofBool (a.eq b))
  | .notEqual, [a, b] => .ok (.ofBool (!a.eq b))
  | .and, [a, b] => .ok (.ofBool (a.isTrue && b.isTrue))
  | .or, [a, b] => .ok (.ofBool (a.isTrue || b.isTrue))
  | .not, [a] => .ok (.ofBool !a.isTrue)
  | _, _ => .error .operandCount

def fold (operator : Operator) (draw : Float) :
    List Number → Except Trouble Number
  | [] => .error .operandCount
  | first :: rest => rest.foldlM (fun a b => operator.apply draw [a, b]) first

/-- The value at any number of operands: more than the operator takes are
folded. -/
def value (operator : Operator) (draw : Float) (operands : List Number) :
    Except Trouble Number :=
  if operator.arity < operands.length then operator.fold draw operands
  else operator.apply draw operands

end Operator

end Logo
