import Logo.Proofs.Execution.Actions
import Logo.Proofs.Execution.Discipline
import Logo.Proofs.Turtle.Changes
import Mathlib.Data.List.DropRight

/-!
# The record of a turtle

A turtle keeps its strokes, its stamps and whether it has moved since that was
last looked at.  These are told from its history: the commands it has carried
out, each with the turtle before and after it.  Commands that fail, and
questions, leave no trace.

The invariant `Chronicled` relates a history to the turtle at its end.  One more
event keeps it, and so it holds of every history from the turtle's hatching on.
-/

namespace Logo

/-- What may befall a turtle: it is given a command, or its motion has been
looked at. -/
inductive Deed where
  | given (command : TurtleCommand) (operands : List Number)
  | clearMotion

namespace Deed

/-- The turtle afterwards, unless the deed fails. -/
def on (turtle : Turtle) : Deed → Except Trouble Turtle
  | .given command operands => (command.update operands turtle).map Prod.fst
  | .clearMotion => .ok { turtle with moved := false }

def commands (kind : TurtleCommand → Bool) : Deed → Bool
  | .given command _ => kind command
  | .clearMotion => false

def isMove : Deed → Bool := commands TurtleCommand.isMove

def isTurn : Deed → Bool := commands TurtleCommand.isTurn

def isStamp : Deed → Bool := commands (· == .stamp)

def clearsTrail : Deed → Bool := commands (· == .clearScreen)

def clearsMotion : Deed → Bool
  | .given _ _ => false
  | .clearMotion => true

/-- What a deed that succeeds does to a turtle. -/
structure Alters (deed : Deed) (before after : Turtle) : Prop where
  place : deed.isMove = false → after.place = before.place
  heading : deed.isTurn = false → after.heading = before.heading
  strokes :
    after.strokes =
      if deed.clearsTrail then []
      else if deed.isMove && before.penDown then
        before.strokeTo after :: before.strokes
      else before.strokes
  stamps : after.stamps = if deed.isStamp then before.pose :: before.stamps
    else before.stamps
  moved : after.moved = (!deed.clearsMotion && (deed.isMove || before.moved))

theorem alters_of_on
    {deed : Deed} {before after : Turtle} (hon : deed.on before = .ok after) :
    deed.Alters before after := by
  cases deed with
  | given command operands =>
      cases hupdate : command.update operands before with
      | error trouble => simp [on, hupdate, Except.map] at hon
      | ok result =>
          simp only [on, hupdate, Except.map, Except.ok.injEq] at hon
          subst hon
          have hchanges := TurtleCommand.changes_of_update hupdate
          constructor
          · exact hchanges.place
          · exact hchanges.heading
          · simp [hchanges.strokes, clearsTrail, isMove, commands]
          · simp [hchanges.stamps, isStamp, commands]
          · simp [hchanges.moved, clearsMotion, isMove, commands]
  | clearMotion =>
      cases hon
      exact ⟨fun _ => rfl, fun _ => rfl, rfl, rfl, rfl⟩

end Deed

structure Event where
  before : Turtle
  deed : Deed
  after : Turtle

namespace Event

/-- Whether the pen was down on the way to a place. -/
def isDrawn (event : Event) : Bool := event.deed.isMove && event.before.penDown

def stroke (event : Event) : Stroke := event.before.strokeTo event.after

end Event

namespace Turtle

/-- A turtle after one deed; one that fails leaves the turtle as it is. -/
def undergo (turtle : Turtle) (deed : Deed) : Turtle :=
  match deed.on turtle with
  | .ok after => after
  | .error _ => turtle

def undergoAll (turtle : Turtle) (deeds : List Deed) : Turtle :=
  deeds.foldl undergo turtle

def history (turtle : Turtle) : List Deed → List Event
  | [] => []
  | deed :: deeds =>
    match deed.on turtle with
    | .ok after => ⟨turtle, deed, after⟩ :: after.history deeds
    | .error _ => turtle.history deeds

/-- The record of a turtle that hatched at the origin is that of its history. -/
structure Chronicled (events : List Event) (turtle : Turtle) : Prop where
  /-- One stroke for each move with the pen down since the screen was last
  cleared. -/
  trail :
    turtle.trail =
      ((events.rtakeWhile (!·.deed.clearsTrail)).filter
        Event.isDrawn).map Event.stroke
  /-- The moves start at the origin, each one where the one before ended, and
  they lead here. -/
  chain :
    (events.filter (·.deed.isMove)).map (·.before.place) ++ [turtle.place] =
      (.real 0.0, .real 0.0) :: (events.filter (·.deed.isMove)).map
        (·.after.place)
  stamps : turtle.stampedPoses = (events.filter (·.deed.isStamp)).map
    (·.before.pose)
  moved :
    turtle.moved = (events.rtakeWhile (!·.deed.clearsMotion)).any
      (·.deed.isMove)

theorem chronicled_hatched (ident : Nat) : Chronicled [] (hatched ident) := by
  constructor <;> simp [trail, stampedPoses, place, hatched]

theorem Chronicled.step
    {events : List Event} {before after : Turtle} {deed : Deed}
    (hchronicled : before.Chronicled events)
    (hon : deed.on before = .ok after) :
    after.Chronicled (events ++ [⟨before, deed, after⟩]) := by
  have halters := Deed.alters_of_on hon
  have hstrokes := halters.strokes
  have hstamps := halters.stamps
  have hmoved := halters.moved
  constructor
  · by_cases hclears : deed.clearsTrail = true
    · rw [if_pos hclears] at hstrokes
      simp [Turtle.trail, hstrokes, hclears]
    · rw [if_neg hclears] at hstrokes
      by_cases hdrawn : (deed.isMove && before.penDown) = true
      · rw [if_pos hdrawn] at hstrokes
        simp [Turtle.trail, hstrokes, hclears, Event.isDrawn, hdrawn,
          ← hchronicled.trail, Event.stroke]
      · rw [if_neg hdrawn] at hstrokes
        simp [Turtle.trail, hstrokes, hclears, Event.isDrawn, hdrawn,
          ← hchronicled.trail]
  · by_cases hmove : deed.isMove = true
    · simp [hmove, hchronicled.chain]
    · rw [halters.place (by simpa using hmove)]
      simp [hmove, hchronicled.chain]
  · by_cases hstamp : deed.isStamp = true <;>
      simp [stampedPoses, hstamps, hstamp, ← hchronicled.stamps]
  · by_cases hlooked : deed.clearsMotion = true
    · simp [hmoved, hlooked]
    · simp [hmoved, hlooked, hchronicled.moved, Bool.or_comm]

/-- What one event keeps, a whole history keeps. -/
theorem Chronicled.run
    {events : List Event} {turtle : Turtle}
    (hchronicled : turtle.Chronicled events) (deeds : List Deed) :
    (turtle.undergoAll deeds).Chronicled (events ++ turtle.history deeds) := by
  induction deeds generalizing events turtle with
  | nil => simpa [history, undergoAll] using hchronicled
  | cons deed deeds ih =>
      cases hon : deed.on turtle with
      | ok after =>
          have hrun := ih (hchronicled.step hon)
          simpa [history, undergoAll, undergo, hon] using hrun
      | error trouble =>
          have hrun := ih hchronicled
          simpa [history, undergoAll, undergo, hon] using hrun

theorem place_undergo {deed : Deed} (hmove : deed.isMove = false)
    (turtle : Turtle) :
    (turtle.undergo deed).place = turtle.place := by
  unfold undergo
  split
  next after hon => exact (Deed.alters_of_on hon).place hmove
  next => rfl

theorem heading_undergo {deed : Deed} (hturn : deed.isTurn = false)
    (turtle : Turtle) :
    (turtle.undergo deed).heading = turtle.heading := by
  unfold undergo
  split
  next after hon => exact (Deed.alters_of_on hon).heading hturn
  next => rfl

end Turtle

/-- Commands that leave no trace: questions, and those that fail. -/
def TurtleCommand.IsTraceless (command : TurtleCommand) (operands : List Number)
    (turtle : Turtle) :
    Prop :=
  command.isQuery = true ∨
    ∃ trouble, command.update operands turtle = .error trouble

namespace TurtleCommand.IsTraceless

variable {command : TurtleCommand} {operands : List Number} {turtle : Turtle}

theorem after_eq
    (htraceless : command.IsTraceless operands turtle) {after : Turtle}
    {answer : Option Number}
    (hupdate : command.update operands turtle = .ok (after, answer)) :
    after = turtle ∧ ∃ number, answer = some number := by
  rcases htraceless with hquery | ⟨trouble, herror⟩
  · exact update_of_isQuery hquery hupdate
  · rw [herror] at hupdate
    cases hupdate

theorem undergo (htraceless : command.IsTraceless operands turtle) :
    turtle.undergo (.given command operands) = turtle := by
  cases hupdate : command.update operands turtle with
  | error trouble => simp [Turtle.undergo, Deed.on, hupdate, Except.map]
  | ok result =>
      have hsame := (htraceless.after_eq hupdate).1
      simp [Turtle.undergo, Deed.on, hupdate, Except.map, hsame]

theorem commandOne
    (htraceless : command.IsTraceless operands turtle) {ident : Nat}
    {world : World} (hturtle : world.flock.get? ident = some turtle)
    (expr : Expr) (word : String) :
    finalState
      (Execution.commandOne expr word command ident operands world) =
        world := by
  rcases Execution.finalState_commandOne expr word command ident
      operands world with
    hsame | ⟨before, after, _, _, _, hbefore, hupdate, -⟩
  · exact hsame
  · rw [hturtle, Option.some.injEq] at hbefore
    subst hbefore
    obtain ⟨-, number, hanswer⟩ := htraceless.after_eq hupdate
    cases hanswer

end TurtleCommand.IsTraceless

open Turtle in
/-- What a turtle remembers of its strokes, its stamps and its motion is what
its history tells. -/
theorem record_is_a_faithful_chronicle (ident : Nat) (deeds : List Deed) :
    ((hatched ident).undergoAll deeds).Chronicled
      ((hatched ident).history deeds) ∧ (∀ (turtle : Turtle) (deed : Deed),
        (deed.isMove = false → (turtle.undergo deed).place = turtle.place) ∧
          (deed.isTurn = false →
            (turtle.undergo deed).heading = turtle.heading)) ∧
      (∀ (turtle : Turtle) (command : TurtleCommand) (operands : List Number),
        command.IsTraceless operands turtle →
          turtle.undergo (.given command operands) = turtle ∧
            ∀ (expr : Expr) (word : String) (number : Nat) (world : World),
              world.flock.get? number = some turtle →
                finalState
                  (Execution.commandOne expr word command number operands
                    world) = world) ∧
      ∀ flock : Flock,
        flock.clearMotion.turtles = flock.turtles.map
          (·.undergo .clearMotion) := by
  constructor
  · simpa using (chronicled_hatched ident).run deeds
  · constructor
    · intro turtle deed
      exact ⟨fun hmove => place_undergo hmove turtle,
        fun hturn => heading_undergo hturn turtle⟩
    · constructor
      · intro turtle command operands htraceless
        constructor
        · exact htraceless.undergo
        · intro expr word number world hturtle
          exact htraceless.commandOne hturtle expr word
      · intro flock
        rfl

def walk : List Deed :=
  [.given .setPosition [3, 4], .given .stamp [], .clearMotion,
    .given .setHeading [.integer (2 ^ 1024)], .given .penUp [], .given .home []]

theorem walk_leaves_one_stroke :
    TurtleCommand.setHeading.IsTraceless [.integer (2 ^ 1024)]
      (Turtle.hatched 1) ∧
      (Turtle.hatched 1).undergo (.given .setHeading [.integer (2 ^ 1024)]) =
        Turtle.hatched 1 ∧
      ((Turtle.hatched 1).undergoAll walk).trail =
        [⟨.real 0.0, .real 0.0, 3, 4, 1, .real 1.0⟩] ∧
      ((Turtle.hatched 1).undergoAll walk).stampedPoses = [⟨3, 4, 0.0⟩] ∧
      ((Turtle.hatched 1).undergoAll walk).moved = true := by
  have hlarge : Binary64.ofInt? (2 ^ 1024) = none := by decide +kernel
  have hupdate (turtle : Turtle) :
      TurtleCommand.setHeading.update [.integer (2 ^ 1024)] turtle =
        .error (.arithmetic .integerTooLarge) := by
    unfold TurtleCommand.update Number.toReal
    simp only [hlarge]
    rfl
  have hon (turtle : Turtle) :
      (Deed.given .setHeading [.integer (2 ^ 1024)]).on turtle =
        .error (.arithmetic .integerTooLarge) := by
    simp only [Deed.on, hupdate, Except.map]
  obtain ⟨hchronicled, -, htraceless, -⟩ :=
    record_is_a_faithful_chronicle 1 walk
  simp only [walk, Turtle.history, hon] at hchronicled
  have hfails : TurtleCommand.setHeading.IsTraceless [.integer (2 ^ 1024)]
      (Turtle.hatched 1) :=
    .inr ⟨_, hupdate _⟩
  exact
    ⟨hfails, (htraceless _ _ _ hfails).1, hchronicled.trail, hchronicled.stamps,
      hchronicled.moved⟩

end Logo
