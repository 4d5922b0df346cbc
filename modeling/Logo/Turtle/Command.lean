import Logo.Turtle.Basic

/-!
# Commands to a turtle

A command either changes the turtle or asks it something.  A question answers
with a number.  A change has a value too, its outcome, which is found from the
operands and from the poses before and after the change: usually the last
operand, sometimes the distance travelled or the angle turned.
-/

namespace Logo

inductive TurtleCommand where
  | forward
  | backward
  | left
  | right
  | setHeading
  | setTowards
  | setPosition
  | home
  | clearScreen
  | penDown
  | penUp
  | showTurtle
  | hideTurtle
  | setPenColor
  | setPenSize
  | setShape
  | stamp
  | xCoordinate
  | yCoordinate
  | heading
  | isPenDown
  | isShowing
  | penColor
  | shape
  | ident
deriving Repr, DecidableEq

namespace TurtleCommand

def all : List TurtleCommand :=
  [.forward, .backward, .left, .right, .setHeading, .setTowards, .setPosition,
    .home, .clearScreen, .penDown, .penUp, .showTurtle, .hideTurtle,
    .setPenColor, .setPenSize, .setShape, .stamp,
    .xCoordinate, .yCoordinate, .heading, .isPenDown, .isShowing, .penColor,
    .shape, .ident]

def symbol : TurtleCommand → String
  | .forward => "Forward"
  | .backward => "Backward"
  | .left => "Left"
  | .right => "Right"
  | .setHeading => "SetHeading"
  | .setTowards => "SetTowards"
  | .setPosition => "SetPosition"
  | .home => "Home"
  | .clearScreen => "ClearScreen"
  | .penDown => "PenDown"
  | .penUp => "PenUp"
  | .showTurtle => "ShowTurtle"
  | .hideTurtle => "HideTurtle"
  | .setPenColor => "SetPenColor"
  | .setPenSize => "SetPenSize"
  | .setShape => "SetShape"
  | .stamp => "Stamp"
  | .xCoordinate => "XCoordinate"
  | .yCoordinate => "YCoordinate"
  | .heading => "Heading"
  | .isPenDown => "IsPenDown"
  | .isShowing => "IsShowing"
  | .penColor => "GetPenColor"
  | .shape => "GetShape"
  | .ident => "ID"

def arity : TurtleCommand → Nat
  | .forward | .backward | .left | .right | .setHeading => 1
  | .setPenColor | .setPenSize | .setShape => 1
  | .setTowards | .setPosition => 2
  | _ => 0

def description (command : TurtleCommand) (operands : List Number) :
    Except ArithmeticFault String := do
  return command.symbol ++ (← Number.listText operands)

def isQuery : TurtleCommand → Bool
  | .xCoordinate | .yCoordinate | .heading | .isPenDown | .isShowing => true
  | .penColor | .shape | .ident => true
  | _ => false

end TurtleCommand

def Number.toIndex (number : Number) : Except Trouble Nat := do
  let finite ← arithmetically number.isFinite
  match number.truncate? with
  | some n =>
    if finite && !number.lt 0 && number.eq (.integer n) then return n.toNat
    else refuse .notAnIndex number
  | none => refuse .notAnIndex number

namespace Turtle

def advance (turtle : Turtle) (distance : Number) :
    Except ArithmeticFault Turtle := do
  let cosine ← Number.defined turtle.heading turtle.heading.cos
  let x ← turtle.x.add (← distance.mul (.real cosine))
  let sine ← Number.defined turtle.heading turtle.heading.sin
  let y ← turtle.y.add (← distance.mul (.real sine))
  return turtle.moveTo x y

def turn (turtle : Turtle) (anticlockwise : Bool) (angle : Number) :
    Except ArithmeticFault Turtle := do
  let radians := Number.radians (← angle.toReal)
  return { turtle with
    heading :=
      if anticlockwise then turtle.heading + radians
      else turtle.heading - radians }

/-- Looks towards a point; the turtle's own place leaves its heading alone. -/
def face (turtle : Turtle) (x y : Number) : Except ArithmeticFault Turtle := do
  if x.same turtle.x && y.same turtle.y then return turtle
  let dy ← (← y.sub turtle.y).toReal
  let dx ← (← x.sub turtle.x).toReal
  return { turtle with heading := Float.atan2 dy dx }

def goHome (turtle : Turtle) : Turtle :=
  { turtle.moveTo (.real 0.0) (.real 0.0) with heading := 0.0 }

end Turtle

namespace TurtleCommand

/-- Carries a command out: the turtle afterwards, and the answer if the command
is a question. -/
def update (command : TurtleCommand) (operands : List Number)
    (turtle : Turtle) :
    Except Trouble (Turtle × Option Number) :=
  match command, operands with
  | .forward, [distance] => do
    return (← arithmetically (turtle.advance distance), none)
  | .backward, [distance] => do
    return (← arithmetically (turtle.advance distance.neg), none)
  | .left, [angle] => do
    return (← arithmetically (turtle.turn true angle), none)
  | .right, [angle] => do
    return (← arithmetically (turtle.turn false angle), none)
  | .setHeading, [angle] => do
    let x ← arithmetically angle.toReal
    return ({ turtle with heading := Number.radians x }, none)
  | .setTowards, [x, y] => do return (← arithmetically (turtle.face x y), none)
  | .setPosition, [x, y] => .ok (turtle.moveTo x y, none)
  | .home, [] => .ok (turtle.goHome, none)
  | .clearScreen, [] => .ok ({ turtle.goHome with strokes := [] }, none)
  | .penDown, [] => .ok ({ turtle with penDown := true }, none)
  | .penUp, [] => .ok ({ turtle with penDown := false }, none)
  | .showTurtle, [] => .ok ({ turtle with visible := true }, none)
  | .hideTurtle, [] => .ok ({ turtle with visible := false }, none)
  | .setPenColor, [index] => do
    return ({ turtle with penColor := ← index.toIndex }, none)
  | .setPenSize, [size] =>
    if size.lt 0 then refuse .penWidth size
    else .ok ({ turtle with penSize := size }, none)
  | .setShape, [index] => do
    return ({ turtle with shape := ← index.toIndex }, none)
  | .stamp, [] =>
    .ok ({ turtle with stamps := turtle.pose :: turtle.stamps }, none)
  | .xCoordinate, [] => .ok (turtle, some turtle.x)
  | .yCoordinate, [] => .ok (turtle, some turtle.y)
  | .heading, [] => .ok (turtle, some (.real (Number.degrees turtle.heading)))
  | .isPenDown, [] => .ok (turtle, some (.ofBool turtle.penDown))
  | .isShowing, [] => .ok (turtle, some (.ofBool turtle.visible))
  | .penColor, [] => .ok (turtle, some (.integer turtle.penColor))
  | .shape, [] => .ok (turtle, some (.integer turtle.shape))
  | .ident, [] => .ok (turtle, some (.integer turtle.ident))
  | _, _ => .error .operandCount

def outcome (command : TurtleCommand) (operands : List Number)
    (before after : Pose) :
    Except ArithmeticFault Number :=
  match command with
  | .setHeading | .setTowards =>
    .ok (.real (Number.degrees (after.heading - before.heading)))
  | .setPosition | .home | .clearScreen => before.distanceTo after
  | .penDown | .showTurtle | .stamp => .ok 1
  | .penUp | .hideTurtle => .ok 0
  | _ => .ok (operands.getLastD 0)

end TurtleCommand

end Logo
