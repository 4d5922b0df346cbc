import Logo.Proofs.Bindings.Scope
import Logo.Proofs.Execution.Keeps
import Logo.Proofs.Flock.Members

/-!
# What the single actions do

Binding a name, opening a scope, letting one turtle listen and carrying out a
command are described here by the worlds they lead to, so that nothing else has
to look inside of them.
-/

namespace Logo

open Logo.Action Execution

def World.entered (world : World) (name : String) (number : Number) : World :=
  { (world.keep number).2 with
    bindings := world.bindings.opened name (.ofNumber (world.keep number).1) }

/-- The world behind the end of a scope that was opened in another world. -/
def World.left (outer inner : World) (name : String) : World :=
  { inner with bindings := outer.bindings.closed inner.bindings name }

/-- The world in which one turtle listens alone, hatched if need be. -/
def World.focusedOn (world : World) (ident : Nat) : World :=
  { world with flock := { world.flock.hatch ident with active := [ident] } }

def World.listening (world : World) (idents : List Nat) : World :=
  { world with flock := { world.flock with active := idents } }

/-- The world in which the turtles listen again that listened in another
world. -/
def World.refocused (inner outer : World) : World :=
  { inner with flock := { inner.flock with active := outer.flock.active } }

theorem World.focusedOn_eq_listening
    {world : World} {ident : Nat} (hident : world.flock.contains ident = true) :
    world.focusedOn ident = world.listening [ident] := by
  unfold World.focusedOn
  rw [Flock.hatch_eq_self hident]
  rfl

namespace Action

theorem keep_eq (number : Number) (world : World) :
    keep number world = .ok (world.keep number).1 (world.keep number).2 := rfl

theorem onBindings_of_ok
    {change : Bindings → Except Fault Bindings} {world : World}
    {bindings : Bindings} (hchange : change world.bindings = .ok bindings) :
    onBindings change world = .ok () { world with bindings := bindings } := by
  unfold onBindings
  rw [hchange]

theorem bind_eq (name : String) (number : Number) (world : World) :
    Action.bind name number world =
      .ok (world.keep number).1
        { (world.keep number).2 with
          bindings :=
            world.bindings.install name
              (.ofNumber (world.keep number).1) } := by
  have hset :
      onBindings
          (·.set name (.number (world.keep number).1)
            (Value.number (world.keep number).1).type)
          (world.keep number).2 =
        .ok ()
          { (world.keep number).2 with
            bindings :=
              world.bindings.install name (.ofNumber (world.keep number).1) } :=
    onBindings_of_ok (Bindings.set_number world.bindings name _)
  unfold Action.bind
  rw [bind_eq_of_ok (keep_eq number world), bind_eq_of_ok hset]
  rfl

theorem withLocal_eq
    (name : String) (number : Number) (action : Action α) (world : World) :
    withLocal name number action world =
      action.andFinally (onBindings (·.removeLocal name))
        (world.entered name number) := by
  have hopen :
      onBindings
          (·.setLocal name (.number (world.keep number).1)
            (Value.number (world.keep number).1).type)
          (world.keep number).2 =
        .ok () (world.entered name number) :=
    onBindings_of_ok (Bindings.setLocal_number world.bindings name _)
  unfold withLocal
  rw [bind_eq_of_ok (keep_eq number world), bind_eq_of_ok hopen]

/-- Ending a scope succeeds where the frames are those that its opening left. -/
theorem removeLocal_eq_left
    {outer inner : World} {name : String} {number : Number}
    (hframes : inner.bindings.frames =
      (outer.entered name number).bindings.frames) :
    onBindings (·.removeLocal name) inner = .ok () (outer.left inner name) :=
  onBindings_of_ok (Bindings.removeLocal_eq_closed hframes)

theorem finalState_withLocal
    {name : String} {number : Number} {action : Action α} {world : World}
    (hframes :
      (finalState (action (world.entered name number))).bindings.frames =
        (world.entered name number).bindings.frames) :
    finalState (withLocal name number action world) =
      world.left (finalState (action (world.entered name number))) name := by
  rw [withLocal_eq]
  exact finalState_andFinally (removeLocal_eq_left hframes)

theorem focused_of_error
    {number : Number} {trouble : Trouble}
    (hident : Flock.identOf number = .error trouble)
    (action : Action α) (world : World) :
    focused [number] action world = .error (unpinned trouble) world := by
  have htell : tell [number] world = .error (unpinned trouble) world := by
    unfold tell
    rw [Flock.tell_single_of_error hident]
  unfold focused
  rw [get_bind, bind_eq_of_error htell]

theorem focused_of_identOf
    {number : Number} {ident : Nat}
    (hident : Flock.identOf number = .ok ident)
    (action : Action α) (world : World) :
    focused [number] action world =
      action.andFinally (modify (·.refocused world))
        (world.focusedOn ident) := by
  have htell : tell [number] world = .ok [ident] (world.focusedOn ident) := by
    unfold tell
    rw [Flock.tell_single_of_identOf hident]
    rfl
  unfold focused
  rw [get_bind, bind_eq_of_ok htell]
  rfl

theorem finalState_focused
    {number : Number} {ident : Nat}
    (hident : Flock.identOf number = .ok ident)
    (action : Action α) (world : World) :
    finalState (focused [number] action world) =
      (finalState (action (world.focusedOn ident))).refocused world := by
  rw [focused_of_identOf hident, finalState_andFinally_modify]

end Action

namespace Execution

/-- A command leaves the world alone, up to marks, unless it changes the
turtle. -/
theorem finalState_commandOne
    (expr : Expr) (word : String) (command : TurtleCommand) (ident : Nat)
    (operands : List Number) (world : World) :
    finalState (commandOne expr word command ident operands world) = world ∨
      ∃ before after x y marks,
        world.flock.get? ident = some before ∧
          command.update operands before = .ok (after, none) ∧
          finalState (commandOne expr word command ident operands world) =
            { world with
              flock := world.flock.put { after with x := x, y := y }
              marks := marks } := by
  cases hget : world.flock.get? ident with
  | none =>
      left
      have hturtle :
          turtle ident world =
            .error (.broken (.missingTurtle ident)) world := by
        unfold turtle
        rw [get_bind, hget]
        rfl
      unfold commandOne
      rw [bind_eq_of_error hturtle]
      rfl
  | some before =>
      have hturtle : turtle ident world = .ok before world := by
        unfold turtle
        rw [get_bind, hget]
        rfl
      unfold commandOne
      rw [bind_eq_of_ok hturtle]
      cases hupdate : command.update operands before with
      | error trouble => exact .inl rfl
      | ok result =>
          obtain ⟨after, answer⟩ := result
          cases answer with
          | some number => exact .inl rfl
          | none =>
              have houtcome (pose : Pose) (last : World) :
                  finalState
                    (bare (command.outcome operands before.pose pose) last) =
                    last :=
                ((bare_observes _).reads last).symm
              exact .inr ⟨before, after, _, _, _, rfl, hupdate, houtcome _ _⟩

/-- A command to the flock leaves the world alone unless it changes the
flock. -/
theorem finalState_flockCommand
    (expr : Expr) (word : String) (command : FlockCommand)
    (operands : List Number) (world : World) :
    finalState (flockCommand expr word command operands world) = world ∨
      ∃ flock answer,
        command.update operands world.flock = .ok (flock, answer) ∧
          finalState (flockCommand expr word command operands world) =
            { world with flock := flock } := by
  unfold flockCommand
  rw [get_bind]
  cases hupdate : command.update operands world.flock with
  | error trouble => exact .inl rfl
  | ok result =>
      obtain ⟨flock, answer⟩ := result
      exact .inr ⟨flock, answer, rfl, rfl⟩

/-- Commands have no effect on the table. -/
theorem bindings_commandOne
    (expr : Expr) (word : String) (command : TurtleCommand) (ident : Nat)
    (operands : List Number) (world : World) :
    (finalState (commandOne expr word command ident operands world)).bindings =
      world.bindings := by
  rcases finalState_commandOne expr word command ident operands world with
    hsame | ⟨_, _, _, _, _, -, -, hfinal⟩
  · rw [hsame]
  · rw [hfinal]

theorem bindings_flockCommand
    (expr : Expr) (word : String) (command : FlockCommand)
    (operands : List Number) (world : World) :
    (finalState (flockCommand expr word command operands world)).bindings =
      world.bindings := by
  rcases finalState_flockCommand expr word command operands world with
    hsame | ⟨_, _, -, hfinal⟩
  · rw [hsame]
  · rw [hfinal]

theorem execute_repeatTimes
    (turns depth : Nat) (mode : Mode) (head : Token) (limit : Expr)
    (brackets : Brackets) (body : List Expr) :
    execute turns (depth + 1) mode (.repeatTimes head limit brackets body) =
      execute turns depth mode limit >>= fun number =>
        tally limit number >>= fun last =>
          count turns "repcount" (.upTo last)
            (inOrder (execute turns depth mode) 0 body) :=
  if_neg (by simp [Expr.isPure])

theorem execute_countTo
    (turns depth : Nat) (mode : Mode) (head target : Token) (limit : Expr)
    (brackets : Brackets) (body : List Expr) :
    execute turns (depth + 1) mode (.countTo head target limit brackets body) =
      execute turns depth mode limit >>= fun number =>
        tally limit number >>= fun last =>
          count turns target.variableName (.upTo last)
            (inOrder (execute turns depth mode) 0 body) :=
  if_neg (by simp [Expr.isPure])

theorem execute_countBy
    (turns depth : Nat) (mode : Mode) (head target : Token)
    (first last step : Expr) (brackets : Brackets) (body : List Expr) :
    execute turns (depth + 1) mode
        (.countBy head target first last step brackets body) =
      execute turns depth mode first >>= fun start =>
        execute turns depth mode last >>= fun stop =>
          execute turns depth mode step >>= fun size =>
            if size.isTrue = true then
              count turns target.variableName ⟨start, stop, size⟩
                (inOrder (execute turns depth mode) 0 body)
            else mishap .zeroStep step :=
  if_neg (by simp [Expr.isPure])

theorem execute_call
    (turns depth : Nat) (mode : Mode) (head : Token) (args : List Expr) :
    execute turns (depth + 1) mode (.call head args) =
      procedure (.call head args) head.procedureName args.length >>=
        fun procedure =>
          each (execute turns depth mode) args >>= fun inputs =>
            withLocals (procedure.params.zip inputs)
              (inOrder (execute turns depth mode) 0 procedure.body) :=
  if_neg (by simp [Expr.isPure])

theorem execute_command
    (turns depth : Nat) (head : Token) (command : TurtleCommand)
    (args : List Expr) :
    execute turns (depth + 1) .effectful (.command head command args) =
      listeners >>= fun idents =>
        commandEach (.command head command args) head.text command
          (each (execute turns depth .effectful) args) 0 idents :=
  rfl

theorem execute_operation
    (turns depth : Nat) (mode : Mode) (head : Token) (operator : Operator)
    (args : List Expr) :
    execute turns (depth + 1) mode (.operation head operator args) =
      each (execute turns depth mode) args >>= fun operands =>
        operation (.operation head operator args) operator operands :=
  if_neg (by simp [Expr.isPure])

theorem execute_block
    (turns depth : Nat) (mode : Mode) (brackets : Brackets) (body : List Expr) :
    execute turns (depth + 1) mode (.block brackets body) =
      inOrder (execute turns depth mode) 0 body :=
  if_neg (by simp [Expr.isPure])

theorem execute_tell
    (turns depth : Nat) (head : Token) (brackets : Brackets)
    (list : List Expr) :
    execute turns (depth + 1) .effectful (.tell head brackets list) =
      each (execute turns depth .effectful) list >>= fun numbers =>
        address .effectful (.tell head brackets list)
            (.block brackets list) numbers >>= fun _ =>
          Action.tell numbers >>= fun _ => pure (numbers.getLastD 0) :=
  rfl

theorem execute_ask
    (turns depth : Nat) (mode : Mode) (head : Token)
    (listBrackets brackets : Brackets) (list body : List Expr) :
    execute turns (depth + 1) mode (.ask head listBrackets list brackets body) =
      each (execute turns depth mode) list >>= fun numbers =>
        address mode (.ask head listBrackets list brackets body)
          (.block listBrackets list)
            numbers >>= fun _ =>
          dispatch (inOrder (execute turns depth mode) 0 body) 0 numbers :=
  if_neg (by simp [Expr.isPure])

theorem execute_askWith
    (turns depth : Nat) (mode : Mode) (head : Token)
    (conditionBrackets brackets : Brackets) (condition body : List Expr) :
    execute turns (depth + 1) mode
      (.askWith head conditionBrackets condition brackets body) =
      get >>= fun world =>
        satisfying (inOrder (execute turns depth .pureAttempt) 0 condition)
            (world.flock.turtles.map (·.ident)) >>= fun chosen =>
          dispatch (inOrder (execute turns depth mode) 0 body) 0 chosen :=
  if_neg (by simp [Expr.isPure])

/-- A call finds its procedure when the numbers of inputs agree. -/
theorem procedure_eq_ok
    {expr : Expr} {name : String} {inputs : Nat} {world : World}
    {found : Procedure}
    (hentry :
      world.bindings.entries.get? name = some (.function (.procedure found)))
    (hinputs : found.params.length = inputs) :
    procedure expr name inputs world = .ok found world := by
  unfold procedure
  rw [get_bind, hentry]
  simp only [hinputs, if_true]
  rfl

theorem get?_of_procedure_eq_ok
    {expr : Expr} {name : String} {inputs : Nat} {world after : World}
    {found : Procedure}
    (hrun : procedure expr name inputs world = .ok found after) :
    world.bindings.entries.get? name = some (.function (.procedure found)) := by
  unfold procedure at hrun
  rw [get_bind] at hrun
  cases hentry : world.bindings.entries.get? name with
  | none =>
      rw [hentry] at hrun
      cases hrun
  | some entry =>
      rw [hentry] at hrun
      cases entry with
      | function value =>
          cases value with
          | procedure procedure =>
              by_cases hinputs : procedure.params.length = inputs
              · simp only [hinputs, if_true] at hrun
                cases hrun
                rfl
              · simp only [hinputs, if_false] at hrun
                cases hrun
          | _ => cases hrun
      | _ => cases hrun

theorem inOrder_singleton (run : Expr → Action Number) (result : Number)
    (expr : Expr) :
    inOrder run result [expr] = run expr :=
  bind_pure (run expr)

theorem inOrder_append
    (run : Expr → Action Number) (result : Number) (body more : List Expr) :
    inOrder run result (body ++ more) =
      inOrder run result body >>= fun value => inOrder run value more := by
  induction body generalizing result with
  | nil => rfl
  | cons expr rest ih =>
      simp only [List.cons_append, inOrder, bind_assoc]
      congr 1
      funext value
      exact ih value

theorem finalState_program
    (limits : Limits) (mode : Mode) (body : List Expr) (world : World) :
    finalState (program limits mode body world) =
      finalState
        (inOrder (execute limits.turns limits.depth mode) 0 body world) := by
  unfold program
  split
  next hrun => rw [hrun, finalState_error, finalState_error]
  next => rfl

end Execution

end Logo
