import Logo.Proofs.Execution.Abreast
import Logo.Proofs.Execution.Confined
import Logo.Proofs.Execution.Purity
import Logo.Proofs.Execution.Safe

/-!
# Notifications

Nothing that a program does depends on how often the observers of the table have
been notified.  From two worlds that differ in this only, every execution ends
in the same way, and behind it the worlds differ by the same number of
notifications.  Where no random number is drawn, none has been drawn afterwards.
A pure attempt without random numbers hence leaves a world that differs from the
one before it in notifications and marks only.
-/

namespace Logo

open Logo.Action Execution

/-- The world in which every observer has been notified some more times. -/
def World.notified (world : World) (count : Nat) : World :=
  { world with
    bindings := { world.bindings with
      alarms := world.bindings.alarms.map (· + count) } }

def Expr.isDraw : Expr → Bool
  | .operation _ .random _ => true
  | _ => false

def Expr.Drawless (expr : Expr) : Prop :=
  ∀ part : Expr, part.Within expr → part.isDraw = false

namespace World

variable (world inner : World) (count : Nat)

@[simp] theorem notified_zero : world.notified 0 = world := by
  simp [notified]

theorem notified_install (name : String) (entry : Entry) :
    { world.notified count with
        bindings := (world.notified count).bindings.install name entry } =
      World.notified
        { world with bindings := world.bindings.install name entry } count := by
  simp [notified, Bindings.install, Bindings.notify, Nat.add_right_comm,
    Function.comp_def]

theorem notified_entered (name : String) (number : Number) :
    (world.notified count).entered name number =
      (world.entered name number).notified count := by
  simp [notified, entered, keep, listener, Bindings.opened, Bindings.framesOf,
    Bindings.install, Bindings.notify, Nat.add_right_comm, Function.comp_def]

theorem notified_left (name : String) :
    (world.notified count).left (inner.notified count) name =
      (world.left inner name).notified count := by
  simp [notified, left, Bindings.closed, Bindings.notify, Nat.add_right_comm,
    Function.comp_def]

end World

/-- The first world is ahead of the second by some notifications.  In a sober
execution no random number is drawn. -/
structure Heard (sober : Prop) (count : Nat) (draws : Draws)
    (world world' : World) : Prop where
  notified : world = world'.notified count
  drawn : sober → world'.draws = draws
  stored : sober → world'.bindings.entries.All (Entry.Sound True Expr.Drawless)

namespace Heard

variable {sober : Prop} {count : Nat} {draws : Draws}

theorem of_commandOne
    (expr : Expr) (word : String) (command : TurtleCommand) (ident : Nat)
    (operands : List Number) :
    Abreast (Heard sober count draws) (fun _ => True)
      (commandOne expr word command ident operands)
      (commandOne expr word command ident operands) := by
  rintro _ world ⟨rfl, hdrawn, hstored⟩
  have hget :
      (world.notified count).flock.get? ident = world.flock.get? ident := rfl
  have hturtle := Action.turtle_eq ident world
  have hturtle' := Action.turtle_eq ident (world.notified count)
  rw [hget] at hturtle'
  unfold commandOne
  cases hbefore : world.flock.get? ident with
  | none =>
      rw [hbefore] at hturtle hturtle'
      rw [bind_eq_of_error hturtle, bind_eq_of_error hturtle']
      exact .failure trivial ⟨rfl, hdrawn, hstored⟩
  | some before =>
      rw [hbefore] at hturtle hturtle'
      rw [bind_eq_of_ok hturtle, bind_eq_of_ok hturtle']
      cases command.update operands before with
      | error trouble => exact .failure trivial ⟨rfl, hdrawn, hstored⟩
      | ok result =>
          obtain ⟨changed, answer⟩ := result
          cases answer with
          | some number => exact .value number ⟨rfl, hdrawn, hstored⟩
          | none =>
              -- Keeping the coordinates and writing the turtle back leaves the
              -- table alone.
              exact Abreast.of_bare (fun _ _ => trivial) _ _ _ ⟨rfl,
                hdrawn, hstored⟩

theorem of_flockCommand
    (expr : Expr) (word : String) (command : FlockCommand)
    (operands : List Number) :
    Abreast (Heard sober count draws) (fun _ => True)
      (flockCommand expr word command operands)
      (flockCommand expr word command operands) := by
  rintro _ world ⟨rfl, hdrawn, hstored⟩
  unfold flockCommand
  rw [get_bind, get_bind]
  have hflock : (world.notified count).flock = world.flock := rfl
  rw [hflock]
  cases command.update operands world.flock with
  | error trouble => exact .failure trivial ⟨rfl, hdrawn, hstored⟩
  | ok result => exact .value _ ⟨rfl, hdrawn, hstored⟩

theorem of_rebind (name : String) (number : Number) :
    Abreast (Heard sober count draws) (fun _ => True) (Action.bind name number)
      (Action.bind name number) := by
  rintro _ world ⟨rfl, hdrawn, hstored⟩
  have hkeep :
      (world.notified count).keep number =
        ((world.keep number).1, (world.keep number).2.notified count) := rfl
  rw [Action.bind_eq, Action.bind_eq, hkeep]
  refine .value _ ⟨?_, hdrawn, fun hsober => ?_⟩
  · exact World.notified_install (world.keep number).2 count name _
  · exact (hstored hsober).insert name (Entry.sound_ofNumber _)

/-- Everything that may be executed; in a sober execution all but random
numbers. -/
theorem regime :
    Regime (fun (_ : Unit) => Heard sober count draws) (fun _ => True)
      (fun expr => sober → expr.isDraw = false)
      (fun expr => sober → expr.Drawless) (fun _ => True) True where
  fault := fun _ _ => trivial
  entries := by
    rintro _ _ world ⟨rfl, -, -⟩
    rfl
  frames := by
    rintro _ _ world ⟨rfl, -, -⟩
    rfl
  active := by
    rintro _ _ world ⟨rfl, -, -⟩
    rfl
  present := by
    rintro _ _ world ⟨rfl, -, -⟩ ident -
    rfl
  names := fun _ _ _ _ => trivial
  scope := by
    rintro _ _ world name number ⟨rfl, hdrawn, hstored⟩ -
    refine ⟨(), ⟨?_, hdrawn, fun hsober => ?_⟩, of_rebind name, ?_⟩
    · exact world.notified_entered count name number
    · exact (hstored hsober).insert name (Entry.sound_ofNumber _)
    · rintro _ inner ⟨rfl, hdrawn, hinner⟩
      refine ⟨world.notified_left inner count name, hdrawn, fun hsober => ?_⟩
      exact (hinner hsober).assign name fun entry hentry =>
        (hstored hsober).get? hentry
  draw := by
    rintro _ head args hnode _ world ⟨rfl, hdrawn, hstored⟩
    have hloose : ¬ sober := by
      intro hsober
      cases hnode hsober
    exact .value _ ⟨rfl, fun hsober => absurd hsober hloose, hstored⟩
  make := fun _ _ _ _ number _ => of_rebind _ number
  define := by
    rintro _ _ world head name params brackets body - hbody
      ⟨rfl, hdrawn, hstored⟩
    refine ⟨world.notified_install count _ _, hdrawn, fun hsober => ?_⟩
    exact (hstored hsober).insert _ fun expr hexpr => hbody expr hexpr hsober
  found := by
    rintro _ _ world head args - ⟨rfl, -, hstored⟩
    rcases procedure_observes (.call head args) head.procedureName args.length
        (world.notified count) with ⟨found, hfound⟩ | ⟨fault, -, hfound⟩
    · have hentry := get?_of_procedure_eq_ok hfound
      refine .inl
        ⟨found, hfound, fun _ _ => trivial, fun part hpart hsober => ?_⟩
      exact (hstored hsober).get? hentry part hpart
    · exact .inr ⟨fault, trivial, hfound⟩
  focus := by
    rintro _ _ world ident ⟨rfl, hdrawn, hstored⟩ -
    exact ⟨rfl, hdrawn, hstored⟩
  refocus := by
    rintro _ _ world _ inner ⟨rfl, -, -⟩ ⟨rfl, hdrawn, hstored⟩
    exact ⟨rfl, hdrawn, hstored⟩
  command :=
    fun _ _ command _ _ _ _ ident operands _ _ =>
      of_commandOne _ _ command ident operands
  flock := fun _ _ command _ operands _ => of_flockCommand _ _ command operands
  roams := fun _ _ _ => trivial
  idents := by
    rintro - _ _ world ⟨rfl, -, -⟩
    rfl
  hatch := by
    rintro - _ _ world ident ⟨rfl, hdrawn, hstored⟩
    exact ⟨rfl, hdrawn, hstored⟩
  select := by
    rintro - _ _ world idents ⟨rfl, hdrawn, hstored⟩
    exact ⟨rfl, hdrawn, hstored⟩
  unmark := by
    rintro - _ _ world _ inner ⟨rfl, -, -⟩ ⟨rfl, hdrawn, hstored⟩
    exact ⟨rfl, hdrawn, hstored⟩

theorem body
    (turns depth : Nat) (mode : Mode) {body : List Expr}
    (hbody : ∀ expr ∈ body, sober → expr.Drawless) :
    Abreast (Heard sober count draws) (fun _ => True)
      (inOrder (execute turns depth mode) 0 body)
      (inOrder (execute turns depth mode) 0 body) := by
  refine .inOrder (fun expr hmem => ?_) 0
  refine regime.execute ?_ ?_ turns depth mode (hbody expr hmem) ()
  · exact fun expr hexpr hsober => hexpr hsober expr .self
  · exact fun expr hexpr part hpart hsober inner hinner =>
      hexpr hsober inner (.inside hpart hinner)

end Heard

end Logo
