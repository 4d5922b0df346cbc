import Logo.Proofs.Addressing

/-!
# Commands to several turtles

A command is carried out by those who listen, one after the other and in the
order in which they were addressed; a turtle that was addressed twice has two
turns.  In its turn a turtle listens alone while the operands are evaluated and
the command is carried out.  Where the turtles were addressed in the order of
their numbers, and none of them twice, they take their turns in the order of
their numbers.
-/

namespace Logo

open Logo.Action Execution

/-- A turtle listens alone, and behind it those listen again who did before. -/
def Action.alone {α : Type} (ident : Nat) (action : Action α) :
    Action α := fun world =>
  let ending := action (world.listening [ident])
  Ending.inWorld ending ((finalState ending).refocused world)

/-- One turn of a command: its operands are evaluated, and it is carried out
once. -/
def Execution.turn
    (turns depth : Nat) (head : Token) (command : TurtleCommand)
    (args : List Expr) (ident : Nat) :
    Action Number :=
  Action.alone ident do
    let operands ← each (execute turns depth .effectful) args
    commandOne (.command head command args) head.text command ident operands

/-- Some turtles take their turns.  The first turn that fails is the last one,
and the value is that of the last turn. -/
inductive TakesTurns (turn : Nat → Action Number) :
    List Nat → Number → World → EStateM.Result Fault World Number → Prop where
  | nobody (result : Number) (world : World) :
      TakesTurns turn [] result world (.ok result world)
  | fails {ident : Nat} {world after : World} {fault : Fault}
      (hturn : turn ident world = .error fault after) (rest : List Nat)
      (result : Number) :
      TakesTurns turn (ident :: rest) result world (.error fault after)
  | goesOn {ident : Nat} {world after : World} {value : Number}
      {rest : List Nat} {ending : EStateM.Result Fault World Number}
      (hturn : turn ident world = .ok value after)
      (hrest : TakesTurns turn rest value after ending) (result : Number) :
      TakesTurns turn (ident :: rest) result world ending

/-- The turtles that listen, each of them once, in the order of their
numbers. -/
def Flock.roll (flock : Flock) : List Nat :=
  (flock.turtles.map (·.ident)).filter (· ∈ flock.active)

namespace TakesTurns

variable {turn : Nat → Action Number} {idents : List Nat} {result : Number}
  {world : World} {ending other : EStateM.Result Fault World Number}

theorem unique
    (hending : TakesTurns turn idents result world ending)
    (hother : TakesTurns turn idents result world other) : ending = other := by
  induction hending with
  | nobody result world =>
      cases hother
      rfl
  | fails hturn rest result =>
      cases hother with
      | fails hturn' =>
          rw [hturn] at hturn'
          cases hturn'
          rfl
      | goesOn hturn' =>
          rw [hturn] at hturn'
          cases hturn'
  | goesOn hturn _ result ih =>
      cases hother with
      | fails hturn' =>
          rw [hturn] at hturn'
          cases hturn'
      | goesOn hturn' hrest =>
          rw [hturn] at hturn'
          cases hturn'
          exact ih hrest

end TakesTurns

theorem Action.focused_eq_alone
    {α : Type} {ident : Nat}
    (hident : Flock.identOf (.integer ident) = .ok ident) {world : World}
    (hthere : world.flock.contains ident = true) (action : Action α) :
    focused [.integer ident] action world = alone ident action world := by
  rw [focused_of_identOf hident, andFinally_modify_eq,
    World.focusedOn_eq_listening hthere]
  rfl

theorem takesTurns_commandEach
    (turns depth : Nat) (head : Token) (command : TurtleCommand)
    (args : List Expr) (result : Number) {idents : List Nat}
    (hidents : ∀ ident ∈ idents, Flock.identOf (.integer ident) = .ok ident)
    {world : World}
    (hthere : ∀ ident ∈ idents, world.flock.contains ident = true) :
    TakesTurns (turn turns depth head command args) idents result world
      (commandEach (.command head command args) head.text command
        (each (execute turns depth .effectful) args) result idents world) := by
  induction idents generalizing result world with
  | nil => exact .nobody result world
  | cons ident rest ih =>
      rw [List.forall_mem_cons] at hidents hthere
      have hturn := Action.focused_eq_alone hidents.1 hthere.1 (do
        let operands ← each (execute turns depth .effectful) args
        commandOne
          (.command head command args) head.text command ident operands)
      have hkeeps : Keeps Balanced (focused [.integer ident] do
          let operands ← each (execute turns depth .effectful) args
          commandOne
            (.command head command args) head.text command ident operands) := by
        refine Balanced.focus_keeps _ ?_
        refine (Balanced.discipline .effectful).keeps_bind ?_ fun operands => ?_
        · exact (Balanced.discipline .effectful).keeps_each
            (balanced_execute turns depth .effectful) args
        · exact Balanced.command_keeps _ _ _ _ _
      unfold commandEach
      cases hrun : turn turns depth head command args ident world with
      | error fault after =>
          rw [bind_eq_of_error (hturn.trans hrun)]
          exact .fails hrun rest result
      | ok value after =>
          rw [bind_eq_of_ok (hturn.trans hrun)]
          refine .goesOn hrun (ih value hidents.2 fun other hother => ?_) result
          -- Whoever waits for a turn is still there when it comes.
          have hbalanced := hkeeps world
          rw [hturn.trans hrun] at hbalanced
          exact hbalanced.stays other (hthere.2 other hother)

theorem Flock.Sound.mem_roll {flock : Flock} (hsound : flock.Sound)
    (ident : Nat) :
    ident ∈ flock.roll ↔ ident ∈ flock.active := by
  rw [Flock.roll, List.mem_filter, decide_eq_true_eq]
  constructor
  · exact And.right
  · intro hident
    obtain ⟨turtle, hturtle, rfl⟩ :=
      (contains_iff flock ident).mp (hsound.listening ident hident)
    exact ⟨List.mem_map_of_mem hturtle, hident⟩

theorem Flock.Sound.pairwise_roll {flock : Flock} (hsound : flock.Sound) :
    flock.roll.Pairwise (· < ·) :=
  (List.pairwise_map.mpr hsound.sorted).filter _

/-- Turtles that were addressed in the order of their numbers are on the roll as
they listen. -/
theorem Flock.Sound.roll_eq
    {flock : Flock} (hsound : flock.Sound)
    (hactive : flock.active.Pairwise (· < ·)) :
    flock.roll = flock.active :=
  List.Pairwise.eq_of_mem_iff hsound.pairwise_roll hactive hsound.mem_roll

/-- A command comes to what the listening turtles come to when each of them
evaluates the operands and carries the command out before the next one does.
Their order is that in which they were addressed, so it is that of their numbers
if they were addressed in this order. -/
theorem listeners_take_their_turns_as_they_were_addressed
    (turns depth : Nat) (head : Token) (command : TurtleCommand)
    (args : List Expr) {world : World} (hsound : world.flock.Sound) :
    let Runs (idents : List Nat) (ending : EStateM.Result Fault World Number) :=
      TakesTurns (turn turns depth head command args) idents 0 world ending
    let outcome :=
      execute turns (depth + 1) .effectful (.command head command args) world
    (∀ ending, outcome = ending ↔ Runs world.flock.active ending) ∧
      (world.flock.active.Pairwise (· < ·) →
        ∀ ending, outcome = ending ↔ Runs world.flock.roll ending) := by
  intro Runs outcome
  have hidents (ident : Nat) (hident : ident ∈ world.flock.active) :
      Flock.identOf (.integer ident) = .ok ident :=
    hsound.identOf_eq (hsound.listening ident hident)
  have houtcome : Runs world.flock.active outcome := by
    have hlisteners : listeners world = .ok world.flock.active world :=
      listeners_listening hsound.listening
    unfold outcome
    rw [execute_command, bind_eq_of_ok hlisteners]
    exact takesTurns_commandEach turns depth head command args 0 hidents
      hsound.listening
  have hiff (ending : EStateM.Result Fault World Number) :
      outcome = ending ↔ Runs world.flock.active ending := by
    constructor
    · rintro rfl
      exact houtcome
    · exact houtcome.unique
  refine ⟨hiff, fun hactive => ?_⟩
  rw [hsound.roll_eq hactive]
  exact hiff

theorem first_and_third_turtle_take_their_turns :
    let world :=
      (((World.fresh 1 (Draws.seeded 0)).focusedOn 2).focusedOn 3).listening
        [1, 3]
    let head : Token := ⟨.command, "fd", 0, 0⟩
    let args : List Expr := [.command ⟨.command, "id", 0, 0⟩ .ident []]
    world.flock.Sound ∧ world.flock.active.Pairwise (· < ·) ∧
      ∀ ending,
        execute 9 9 .effectful (.command head .forward args) world = ending ↔
          TakesTurns
            (turn 9 8 head .forward args) world.flock.roll 0 world ending := by
  intro world head args
  have hsound : world.flock.Sound := by decide +kernel
  have hactive : world.flock.active.Pairwise (· < ·) := by decide
  refine ⟨hsound, hactive, ?_⟩
  exact (listeners_take_their_turns_as_they_were_addressed 9 8 head .forward
    args hsound).2 hactive

/-- Where the second turtle was addressed before the first, the first one has
the last word, and not the last turtle on the roll. -/
theorem first_turtle_has_the_last_word :
    let world := ((World.fresh 1 (Draws.seeded 0)).focusedOn 2).listening [2, 1]
    let head : Token := ⟨.command, "id", 0, 0⟩
    world.flock.Sound ∧ world.flock.roll = [1, 2] ∧
      (∃ after, execute 9 9 .effectful (.command head .ident []) world =
        .ok 1 after) ∧
      ∃ after, TakesTurns (turn 9 8 head .ident []) world.flock.roll 0 world
        (.ok 2 after) := by
  intro world head
  have hsound : world.flock.Sound := by decide +kernel
  have hfirst : turn 9 8 head .ident [] 1 world = .ok 1 world := rfl
  have hsecond : turn 9 8 head .ident [] 2 world = .ok 2 world := rfl
  exact ⟨hsound, rfl, ⟨world, rfl⟩,
    ⟨world, .goesOn hfirst (.goesOn hsecond (.nobody 2 world) 1) 0⟩⟩

end Logo
