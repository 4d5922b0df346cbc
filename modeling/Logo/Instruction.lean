import Logo.Flock.Command
import Logo.Operator

/-!
# Instructions

The vocabulary translates a word into the symbol of an instruction.  An
instruction is a command to a turtle or to the flock, an operator, or one of the
special forms, which take bracketed lists in fixed places.
-/

namespace Logo

inductive Form where
  /-- Gives a variable a value. -/
  | make
  /-- Runs a list a number of times. -/
  | repeatTimes
  /-- Runs a list with a variable counting from one up to a limit. -/
  | countTo
  /-- Runs a list with a variable counting from one number to another by
  steps. -/
  | countBy
  /-- Runs a list if a condition holds. -/
  | ifThen
  /-- Runs one list or another. -/
  | ifElse
  /-- Defines a procedure. -/
  | define
  /-- Says which turtles listen. -/
  | tell
  /-- Runs a list for some turtles. -/
  | ask
  /-- Runs a list for the turtles that satisfy a condition. -/
  | askWith
deriving Repr, DecidableEq

namespace Form

def all : List Form :=
  [.make, .repeatTimes, .countTo, .countBy, .ifThen, .ifElse, .define, .tell,
    .ask, .askWith]

def symbol : Form → String
  | .make => "MakeVariable"
  | .repeatTimes => "Repeat"
  | .countTo => "DoTimes"
  | .countBy => "For"
  | .ifThen => "If"
  | .ifElse => "IfElse"
  | .define => "MakeUserInstruction"
  | .tell => "Tell"
  | .ask => "Ask"
  | .askWith => "AskWith"

end Form

inductive Instruction where
  | form (form : Form)
  | command (command : TurtleCommand)
  | flock (command : FlockCommand)
  | operator (operator : Operator)
deriving Repr, DecidableEq

namespace Instruction

def all : List Instruction :=
  Form.all.map .form ++ TurtleCommand.all.map .command ++
    FlockCommand.all.map .flock ++ Operator.all.map .operator

def symbol : Instruction → String
  | .form f => f.symbol
  | .command c => c.symbol
  | .flock c => c.symbol
  | .operator o => o.symbol

def ofSymbol? (symbol : String) : Option Instruction :=
  all.find? (·.symbol == symbol)

end Instruction

end Logo
