import Logo.Turtle.Command

/-!
# The flock

The flock owns every turtle and knows which of them are presently listening.  A
turtle hatches the first time something addresses it by its number.  The flock
also owns the palette and the colour of the background.
-/

namespace Logo

structure Color where
  red : UInt8
  green : UInt8
  blue : UInt8
  alpha : UInt8
deriving Repr, DecidableEq

def Color.solid (red green blue : UInt8) : Color := ⟨red, green, blue, 255⟩

/-- An opaque colour, if all three parts lie between 0 and 255. -/
def Color.ofParts? (red green blue : Int) : Option Color :=
  if [red, green, blue].all fun part => 0 ≤ part && part ≤ 255 then
    some (.solid (UInt8.ofNat red.toNat) (UInt8.ofNat green.toNat)
      (UInt8.ofNat blue.toNat))
  else none

/-- White, black, red, green, blue, yellow, orange and purple. -/
def Color.initialPalette : Array Color :=
  #[.solid 255 255 255, .solid 0 0 0, .solid 255 0 0, .solid 0 255 0,
    .solid 0 0 255, .solid 255 255 0, .solid 255 165 0, .solid 160 32 240]

/-- All turtles in the order of their numbers, the numbers of those that listen
in the order in which they were addressed, the palette, and the background as an
index into it. -/
structure Flock where
  turtles : List Turtle
  active : List Nat
  palette : Array Color
  background : Nat
deriving Repr

namespace Flock

def fresh : Flock := ⟨[.hatched 1], [1], Color.initialPalette, 0⟩

def size (flock : Flock) : Nat := flock.turtles.length

def get? (flock : Flock) (ident : Nat) : Option Turtle :=
  flock.turtles.find? (·.ident == ident)

def contains (flock : Flock) (ident : Nat) : Bool := (flock.get? ident).isSome

/-- The turtles that listen, or the number of the first one that does not
exist. -/
def listeners (flock : Flock) : Except Nat (List Turtle) :=
  flock.active.mapM fun ident =>
    match flock.get? ident with
    | some turtle => .ok turtle
    | none => .error ident

def withTurtle (turtle : Turtle) : List Turtle → List Turtle
  | [] => [turtle]
  | other :: rest =>
    if turtle.ident < other.ident then turtle :: other :: rest
    else other :: withTurtle turtle rest

def hatch (flock : Flock) (ident : Nat) : Flock :=
  if flock.contains ident then flock
  else { flock with turtles := withTurtle (.hatched ident) flock.turtles }

def put (flock : Flock) (turtle : Turtle) : Flock :=
  { flock with
    turtles :=
      flock.turtles.map fun other =>
        if other.ident = turtle.ident then turtle else other }

/-- The number of a turtle: a whole number from one on, of either kind. -/
def identOf (number : Number) : Except Trouble Nat := do
  let finite ← arithmetically number.isFinite
  match number.truncate? with
  | some n =>
    if finite && number.eq (.integer n) && !number.lt 1 then return n.toNat
    else refuse .noSuchTurtle number
  | none => refuse .noSuchTurtle number

def summon (flock : Flock) (number : Number) :
    Except Trouble (Nat × Flock) := do
  let ident ← identOf number
  return (ident, flock.hatch ident)

/-- Calls several turtles one after the other.  Those called before a number
that is no turtle's have hatched all the same. -/
def summonAll (flock : Flock) : List Number → Except Trouble (List Nat) × Flock
  | [] => (.ok [], flock)
  | number :: rest =>
    match flock.summon number with
    | .error trouble => (.error trouble, flock)
    | .ok (ident, flock) =>
      match flock.summonAll rest with
      | (.ok idents, flock) => (.ok (ident :: idents), flock)
      | (.error trouble, flock) => (.error trouble, flock)

/-- From now on exactly these turtles listen, unless one of the numbers is no
turtle's. -/
def tell (flock : Flock) (numbers : List Number) :
    Except Trouble (List Nat) × Flock :=
  match flock.summonAll numbers with
  | (.ok idents, flock) => (.ok idents, { flock with active := idents })
  | (.error trouble, flock) => (.error trouble, flock)

/-- An index into the palette, which may still lie beyond its end. -/
def colorIndex (number : Number) : Except Trouble Nat := do
  let finite ← arithmetically number.isFinite
  match number.truncate? with
  | some n =>
    if finite && !number.lt 0 then return n.toNat
    else refuse .noSuchColor number
  | none => refuse .noSuchColor number

def color (flock : Flock) (number : Number) : Except Trouble Color := do
  match flock.palette[← colorIndex number]? with
  | some color => return color
  | none => refuse .noSuchColor number

def setPalette (flock : Flock) (number red green blue : Number) :
    Except Trouble (Nat × Flock) := do
  let index ← colorIndex number
  let parts :=
    do Color.ofParts? (← red.truncate?) (← green.truncate?) (← blue.truncate?)
  match parts with
  | none => throw (.refused .colorParts)
  | some color =>
    if index < flock.palette.size then
      return (index,
        { flock with palette := flock.palette.setIfInBounds index color })
    else if index = flock.palette.size then
      return (index, { flock with palette := flock.palette.push color })
    else throw (.refused (.paletteGap flock.palette.size))

def setBackground (flock : Flock) (number : Number) :
    Except Trouble (Nat × Flock) := do
  let _ ← flock.color number
  let index ← colorIndex number
  return (index, { flock with background := index })

def clearMotion (flock : Flock) : Flock :=
  { flock with
    turtles := flock.turtles.map fun turtle => { turtle with moved := false } }

end Flock

end Logo
