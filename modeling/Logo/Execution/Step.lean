import Logo.Execution.Action
import Logo.Number.Arithmetic

/-!
# Executing expressions

Executing an expression yields a number.  The instructions are described here
one by one, over a given way to execute the expressions inside them.  Turtles
take turns: with several turtles listening, each command is carried out for one
turtle before the next one starts, and `ask` runs its whole list for one turtle
before the next.
-/

namespace Logo

/-- How deeply a program may be nested as it is read, how deeply its expressions
may be nested as they are executed, procedures included, and how many further
turns a loop may take. -/
structure Limits where
  nesting : Nat
  depth : Nat
  turns : Nat

def Limits.standard : Limits := ⟨1000, 1000, Nat.pow 2 62⟩

namespace Execution

open Logo.Action

/-- Executes some expressions in order and yields the value of the last one. -/
def inOrder (execute : Expr → Action Number) (result : Number) :
    List Expr → Action Number
  | [] => pure result
  | expr :: rest => do inOrder execute (← execute expr) rest

def each (execute : Expr → Action Number) : List Expr → Action (List Number)
  | [] => pure []
  | expr :: rest => do
    let number ← execute expr
    let numbers ← each execute rest
    return number :: numbers

def lookup (expr : Expr) (name : String) : Action Number := do
  match (← get).bindings.entries.get? name with
  | some (.integer n) => return .integer n
  | some (.double x) => return .real x
  | some (.marked mark) => return .marked mark
  | some entry => mishap (.notANumber entry.type name) expr
  | none => complain (.undefined name false (some (.expr expr)))

def operation (expr : Expr) (operator : Operator) (operands : List Number) :
    Action Number := do
  let random ← if operator.draws operands then draw else pure 0.0
  pinning operator.symbol expr (operator.value random operands)

/-- Carries a command out for one turtle.  A question leaves the turtle as it
is. -/
def commandOne (expr : Expr) (word : String) (command : TurtleCommand)
    (ident : Nat) (operands : List Number) : Action Number := do
  let before ← turtle ident
  match ← pinning word expr (command.update operands before) with
  | (_, some answer) => return answer
  | (after, none) =>
    let after := { after with x := ← keep after.x, y := ← keep after.y }
    modify fun world => { world with flock := world.flock.put after }
    bare (command.outcome operands before.pose after.pose)

/-- Carries a command out for each listening turtle, evaluating the operands
anew while only that turtle listens. -/
def commandEach (expr : Expr) (word : String) (command : TurtleCommand)
    (operands : Action (List Number)) (result : Number) :
    List Nat → Action Number
  | [] => pure result
  | ident :: rest => do
    let number ← focused [.integer ident] do
      commandOne expr word command ident (← operands)
    commandEach expr word command operands number rest

def flockCommand (expr : Expr) (word : String) (command : FlockCommand)
    (operands : List Number) : Action Number := do
  let (flock, answer) ← pinning word expr
    (command.update operands (← get).flock)
  modify fun world => { world with flock := flock }
  return answer.getD (command.outcome operands)

/-- A number of turns: the integer part of a finite number. -/
def tally (expr : Expr) (number : Number) : Action Int := do
  let finite ← bare number.isFinite
  match number.truncate? with
  | some n =>
      if finite then return n
      else mishap (.endlessCount (← bare number.text)) expr
  | none => mishap (.endlessCount (← bare number.text)) expr

/-- The further turns of a loop, behind its first one. -/
def turnsAfter (name : String) (body : Action Number) :
    (turns : Nat) → Counter → Number → Action Number
  | 0, _, _ => throw .unfinished
  | turns + 1, counter, result => do
    let counter ← bare counter.next
    if counter.isLive then
      let _ ← Action.bind name counter.value
      turnsAfter name body turns counter (← body)
    else return result

/-- Runs a list once for each value of a counter, with a local variable holding
the value. -/
def count (turns : Nat) (name : String) (counter : Counter)
    (body : Action Number) :
    Action Number :=
  if counter.isLive then
    withLocal name counter.value do
      turnsAfter name body turns counter (← body)
  else pure 0

/-- Checks the numbers of a list of turtles.  Addressing a turtle that does not
exist hatches it, which a pure attempt may not do. -/
def address (mode : Mode) (expr list : Expr) : List Number → Action Unit
  | [] => pure ()
  | number :: rest => do
    match mode with
    | .effectful =>
      let (_, flock) ← pinning list.head.text list ((← get).flock.summon number)
      modify fun world => { world with flock := flock }
    | .pureAttempt =>
      let ident ← pinning list.head.text list (Flock.identOf number)
      if (← get).flock.contains ident then pure ()
      else complain (.impure (.expr expr))
    address mode expr list rest

/-- Runs a list for some turtles, one after the other. -/
def dispatch (body : Action Number) (result : Number) :
    List Number → Action Number
  | [] => pure result
  | number :: rest => do
    let value ← focused [number] body
    dispatch body value rest

/-- The turtles for which a condition holds.  Nothing is kept of what is
computed on the way. -/
def satisfying (condition : Action Number) : List Nat → Action (List Number)
  | [] => pure []
  | ident :: rest => do
    let value ← focused [.integer ident] (unmarking condition)
    let chosen ← satisfying condition rest
    return if value.isTrue then .integer ident :: chosen else chosen

def procedure (expr : Expr) (name : String) (inputs : Nat) :
    Action Procedure := do
  match (← get).bindings.entries.get? name with
  | some (.function (.procedure procedure)) =>
    if procedure.params.length = inputs then return procedure
    else mishap (.inputCount name procedure.params.length) expr
  | some (.function value) => throw (.broken (.notAProcedure value))
  | some _ => mishap (.notAnInstruction name) expr
  | none => complain (.undefined name false (some (.expr expr)))

/-- Executes one expression, given a way to execute the expressions inside of
it. -/
def step (turns : Nat) (execute : Mode → Expr → Action Number) (mode : Mode)
    (expr : Expr) :
    Action Number :=
  if mode = .pureAttempt ∧ ¬ expr.isPure then complain (.impure (.expr expr))
  else
    let run := execute mode
    match expr with
    | .literal _ value => pure value
    | .variable head => lookup expr head.variableName
    | .command head command args => do
      commandEach expr head.text command (each run args) 0 (← listeners)
    | .flock head command args => do
      flockCommand expr head.text command (← each run args)
    | .operation _ operator args => do operation expr operator (← each run args)
    | .block _ body => inOrder run 0 body
    | .make _ target value => do
      let number ← run value
      Action.bind target.variableName number
    | .repeatTimes _ limit _ body => do
      let last ← tally limit (← run limit)
      count turns "repcount" (.upTo last) (inOrder run 0 body)
    | .countTo _ target limit _ body => do
      let last ← tally limit (← run limit)
      count turns target.variableName (.upTo last) (inOrder run 0 body)
    | .countBy _ target first last step _ body => do
      let first ← run first
      let last ← run last
      let size ← run step
      if size.isTrue then
        count turns target.variableName ⟨first, last, size⟩ (inOrder run 0 body)
      else mishap .zeroStep step
    | .ifThen _ condition _ body => do
      if (← run condition).isTrue then inOrder run 0 body else return 0
    | .ifElse _ condition _ thenPart _ elsePart => do
      if (← run condition).isTrue then inOrder run 0 thenPart
      else inOrder run 0 elsePart
    | .define _ name params _ body => do
      let procedure : Procedure :=
        ⟨name.procedureName, params.map (·.variableName), body⟩
      modify fun world =>
        { world with
          bindings :=
            world.bindings.install procedure.name
              (.function (.procedure procedure)) }
      return 1
    | .call head args => do
      let procedure ← procedure expr head.procedureName args.length
      let inputs ← each run args
      withLocals (procedure.params.zip inputs) (inOrder run 0 procedure.body)
    | .tell _ brackets list => do
      let numbers ← each run list
      address mode expr (.block brackets list) numbers
      let _ ← tell numbers
      return numbers.getLastD 0
    | .ask _ brackets list _ body => do
      let numbers ← each run list
      address mode expr (.block brackets list) numbers
      dispatch (inOrder run 0 body) 0 numbers
    | .askWith _ _ condition _ body => do
      let idents := (← get).flock.turtles.map (·.ident)
      let chosen ← satisfying
        (inOrder (execute .pureAttempt) 0 condition) idents
      dispatch (inOrder run 0 body) 0 chosen

/-- Executes an expression whose nesting, procedures included, stays below a
depth. -/
def execute (turns : Nat) : (depth : Nat) → Mode → Expr → Action Number
  | 0 => fun _ _ => throw .tooDeep
  | depth + 1 => step turns (execute turns depth)

/-- Executes a whole program.  A program that is nested too deeply gets a
complaint of its own. -/
def program (limits : Limits) (mode : Mode) (body : List Expr) :
    Action Number := fun world =>
  match inOrder (execute limits.turns limits.depth mode) 0 body world with
  | .error .tooDeep world =>
      .error (.complaint (.mishap .tooDeep (some (.program body)))) world
  | result => result

end Execution

end Logo
