import Logo.Number.Arithmetic
import Logo.Number.Text

/-!
# Turtles

A turtle has a place and a heading, a pen that draws while it is down, and a
record of what it has drawn and stamped.  Headings are angles in radians,
anticlockwise from the positive x-axis; the language itself speaks of degrees.
-/

namespace Logo

structure Pose where
  x : Number
  y : Number
  heading : Float
deriving Repr

def Pose.distanceTo (here there : Pose) : Except ArithmeticFault Number := do
  let dx ← there.x.sub here.x
  let dy ← there.y.sub here.y
  dx.hypotenuse dy

/-- One stroke of the pen, with the colour and the size the pen had then. -/
structure Stroke where
  startX : Number
  startY : Number
  endX : Number
  endY : Number
  color : Nat
  size : Number
deriving Repr

/-- A turtle.  Its strokes and its stamps are kept newest first. -/
structure Turtle where
  ident : Nat
  x : Number
  y : Number
  heading : Float
  penDown : Bool
  visible : Bool
  shape : Nat
  penColor : Nat
  penSize : Number
  moved : Bool
  strokes : List Stroke
  stamps : List Pose
deriving Repr

namespace Turtle

/-- A turtle as it hatches: at the origin, looking along the x-axis, with its
pen down. -/
def hatched (ident : Nat) : Turtle where
  ident := ident
  x := .real 0.0
  y := .real 0.0
  heading := 0.0
  penDown := true
  visible := true
  shape := 0
  penColor := 1
  penSize := .real 1.0
  moved := false
  strokes := []
  stamps := []

def pose (turtle : Turtle) : Pose := ⟨turtle.x, turtle.y, turtle.heading⟩

/-- Every change of place: it draws a stroke when the pen is down, however
short. -/
def moveTo (turtle : Turtle) (x y : Number) : Turtle :=
  let stroke : Stroke :=
    ⟨turtle.x, turtle.y, x, y, turtle.penColor, turtle.penSize⟩
  { turtle with
    strokes :=
      if turtle.penDown then stroke :: turtle.strokes else turtle.strokes
    x := x
    y := y
    moved := true }

def trail (turtle : Turtle) : List Stroke := turtle.strokes.reverse

def stampedPoses (turtle : Turtle) : List Pose := turtle.stamps.reverse

def description (turtle : Turtle) : Except ArithmeticFault String := do
  let x ← turtle.x.brief
  let y ← turtle.y.brief
  return "<Turtle " ++ toString turtle.ident ++ " at (" ++ x ++
    ", " ++ y ++ ")>"

end Turtle

/-- What a turtle or the flock turns down.  Numbers are held as the text in
which they are shown. -/
inductive Refusal where
  | noSuchTurtle (number : String)
  | noSuchColor (index : String)
  | colorParts
  | paletteGap (next : Nat)
  | notAnIndex (number : String)
  | penWidth (number : String)
deriving Repr, DecidableEq

def Refusal.message : Refusal → String
  | .noSuchTurtle number =>
      "Turtles are numbered from 1, so " ++ number ++ " is no turtle."
  | .noSuchColor index => "There is no color " ++ index ++ " in the palette."
  | .colorParts => "Colors take red, green, and blue from 0 to 255."
  | .paletteGap next =>
      "Palette entries must be filled in order; next is " ++
        toString next ++ "."
  | .notAnIndex number => number ++ " will not do as an index."
  | .penWidth number => "A pen cannot be " ++ number ++ " pixels wide."

/-- What can go wrong while a command is carried out. -/
inductive Trouble where
  | refused (refusal : Refusal)
  | arithmetic (fault : ArithmeticFault)
  /-- A command was given another number of operands than it takes. -/
  | operandCount
deriving Repr, DecidableEq

def arithmetically (result : Except ArithmeticFault α) : Except Trouble α :=
  result.mapError .arithmetic

/-- Turns a number down.  Writing the number may itself fail, and then that is
the trouble. -/
def refuse (refusal : String → Refusal) (number : Number) :
    Except Trouble α := do
  let shown ← arithmetically number.text
  throw (.refused (refusal shown))

end Logo
