import Logo.World

/-!
# Actions on the world

An action reads and changes the world and yields a value or fails.  When it
fails, the world stays as far along as it got.  Scopes that were opened on the
way are closed in either case.
-/

namespace Logo

/-- The two ways to run an expression.  A pure attempt must not leave a lasting
mark on the world; expressions that cannot promise that refuse it. -/
inductive Mode where
  | effectful
  | pureAttempt
deriving Repr, DecidableEq

abbrev Action := EStateM Fault World

namespace Action

def complain (complaint : Complaint) : Action α := throw (.complaint complaint)

def mishap (mishap : Mishap) (place : Expr) : Action α :=
  complain (.mishap mishap (some (.expr place)))

/-- Arithmetic that no instruction answers for. -/
def bare (result : Except ArithmeticFault α) : Action α :=
  match result with
  | .ok a => pure a
  | .error fault => throw (.arithmetic fault)

def unpinned : Trouble → Fault
  | .refused refusal => .complaint (.mishap (.refused refusal) none)
  | .arithmetic fault => .arithmetic fault
  | .operandCount => .broken .operandCount

/-- A trouble that is blamed on an expression, under the word that it is known
by. -/
def pinned (word : String) (place : Expr) : Trouble → Fault
  | .refused refusal =>
      .complaint (.mishap (.refused refusal) (some (.expr place)))
  | .arithmetic fault =>
      .complaint (.mishap (.failed word fault) (some (.expr place)))
  | .operandCount => .broken .operandCount

def pinning (word : String) (place : Expr)
    (result : Except Trouble α) : Action α :=
  match result with
  | .ok a => pure a
  | .error trouble => throw (pinned word place trouble)

/-- Runs an action and then another one, whether the first succeeded or not. -/
def andFinally (action : Action α) (cleanup : Action Unit) :
    Action α := fun world =>
  match action world with
  | .ok a world =>
    match cleanup world with
    | .ok _ world => .ok a world
    | .error fault world => .error fault world
  | .error fault world =>
    match cleanup world with
    | .ok _ world => .error fault world
    | .error later world => .error later world

def onBindings (change : Bindings → Except Fault Bindings) :
    Action Unit := fun world =>
  match change world.bindings with
  | .ok bindings => .ok () { world with bindings := bindings }
  | .error fault => .error fault world

def keep (number : Number) : Action Number := modifyGet (·.keep number)

/-- Runs an action that keeps nothing, so its marks may be given out again. -/
def unmarking (action : Action α) : Action α := do
  let marks := (← get).marks
  action.andFinally (modify fun world => { world with marks := marks })

def bind (name : String) (number : Number) : Action Number := do
  let number ← keep number
  onBindings (·.set name (.number number) (Value.number number).type)
  return number

def withLocal (name : String) (number : Number) (action : Action α) :
    Action α := do
  let number ← keep number
  onBindings (·.setLocal name (.number number) (Value.number number).type)
  action.andFinally (onBindings (·.removeLocal name))

def withLocals : List (String × Number) → Action α → Action α
  | [], action => action
  | (name, number) :: rest, action =>
      withLocal name number (withLocals rest action)

def tell (numbers : List Number) : Action (List Nat) := fun world =>
  match world.flock.tell numbers with
  | (.ok idents, flock) => .ok idents { world with flock := flock }
  | (.error trouble, flock) =>
      .error (unpinned trouble) { world with flock := flock }

def focused (numbers : List Number) (action : Action α) : Action α := do
  let prior := (← get).flock.active
  let _ ← tell numbers
  action.andFinally <| modify fun world =>
    { world with flock := { world.flock with active := prior } }

def listeners : Action (List Nat) := do
  match (← get).flock.listeners with
  | .ok turtles => return turtles.map (·.ident)
  | .error ident => throw (.broken (.missingTurtle ident))

def turtle (ident : Nat) : Action Turtle := do
  match (← get).flock.get? ident with
  | some turtle => return turtle
  | none => throw (.broken (.missingTurtle ident))

def draw : Action Float := modifyGet fun world =>
  let (number, draws) := world.draws.next
  (number, { world with draws := draws })

end Action

end Logo
