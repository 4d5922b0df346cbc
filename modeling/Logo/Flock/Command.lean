import Logo.Flock.Basic

/-!
# Commands to the flock

A few commands address the flock as a whole instead of one turtle at a time.
-/

namespace Logo

inductive FlockCommand where
  | setBackground
  | setPalette
  | clearStamps
  | turtles
deriving Repr, DecidableEq

namespace FlockCommand

def all : List FlockCommand :=
  [.setBackground, .setPalette, .clearStamps, .turtles]

def symbol : FlockCommand → String
  | .setBackground => "SetBackground"
  | .setPalette => "SetPalette"
  | .clearStamps => "ClearStamps"
  | .turtles => "Turtles"

def arity : FlockCommand → Nat
  | .setBackground => 1
  | .setPalette => 4
  | .clearStamps => 0
  | .turtles => 0

def description (command : FlockCommand) (operands : List Number) :
    Except ArithmeticFault String := do
  return command.symbol ++ (← Number.listText operands)

def isQuery : FlockCommand → Bool
  | .turtles => true
  | _ => false

/-- Carries a command out: the flock afterwards, and the answer if the command
is a question. -/
def update (command : FlockCommand) (operands : List Number) (flock : Flock) :
    Except Trouble (Flock × Option Number) :=
  match command, operands with
  | .setBackground, [index] => do return ((← flock.setBackground index).2, none)
  | .setPalette, [index, red, green, blue] => do
    return ((← flock.setPalette index red green blue).2, none)
  | .clearStamps, [] =>
    .ok ({ flock with
      turtles := flock.turtles.map fun turtle => { turtle with stamps := [] } },
      none)
  | .turtles, [] => .ok (flock, some (.integer flock.size))
  | _, _ => .error .operandCount

def outcome (command : FlockCommand) (operands : List Number) : Number :=
  match command with
  | .setPalette => operands.headD 0
  | .clearStamps => 1
  | _ => operands.getLastD 0

end FlockCommand

end Logo
