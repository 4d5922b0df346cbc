import Logo.Proofs.Flock.Callable

/-!
# What a command does to a turtle

A turtle leaves its place only by going somewhere, and changes its heading only
by turning.  Going somewhere is what draws: one stroke from the old place to the
new one, with the pen as it was, if the pen was down.  Whatever else a command
does, it leaves these records alone.
-/

namespace Logo

namespace TurtleCommand

def isMove : TurtleCommand → Bool
  | .forward | .backward | .setPosition | .home | .clearScreen => true
  | _ => false

def isTurn : TurtleCommand → Bool
  | .left | .right | .setHeading | .setTowards | .home | .clearScreen => true
  | _ => false

end TurtleCommand

namespace Turtle

def place (turtle : Turtle) : Number × Number := (turtle.x, turtle.y)

def strokeTo (before after : Turtle) : Stroke :=
  ⟨before.x, before.y, after.x, after.y, before.penColor, before.penSize⟩

theorem exists_of_advance
    {turtle after : Turtle} {distance : Number}
    (hadvance : turtle.advance distance = .ok after) :
    ∃ x y, after = turtle.moveTo x y := by
  obtain ⟨_, -, hadvance⟩ := Except.exists_of_bind_eq_ok hadvance
  obtain ⟨_, -, hadvance⟩ := Except.exists_of_bind_eq_ok hadvance
  obtain ⟨x, -, hadvance⟩ := Except.exists_of_bind_eq_ok hadvance
  obtain ⟨_, -, hadvance⟩ := Except.exists_of_bind_eq_ok hadvance
  obtain ⟨_, -, hadvance⟩ := Except.exists_of_bind_eq_ok hadvance
  obtain ⟨y, -, hadvance⟩ := Except.exists_of_bind_eq_ok hadvance
  cases hadvance
  exact ⟨x, y, rfl⟩

theorem exists_of_turn
    {turtle after : Turtle} {anticlockwise : Bool} {angle : Number}
    (hturn : turtle.turn anticlockwise angle = .ok after) :
    ∃ heading, after = { turtle with heading := heading } := by
  obtain ⟨_, -, hturn⟩ := Except.exists_of_bind_eq_ok hturn
  cases hturn
  exact ⟨_, rfl⟩

theorem exists_of_face
    {turtle after : Turtle} {x y : Number}
    (hface : turtle.face x y = .ok after) :
    ∃ heading, after = { turtle with heading := heading } := by
  unfold Turtle.face at hface
  split at hface
  · cases hface
    exact ⟨turtle.heading, rfl⟩
  · obtain ⟨_, -, hface⟩ := Except.exists_of_bind_eq_ok hface
    obtain ⟨_, -, hface⟩ := Except.exists_of_bind_eq_ok hface
    obtain ⟨_, -, hface⟩ := Except.exists_of_bind_eq_ok hface
    obtain ⟨_, -, hface⟩ := Except.exists_of_bind_eq_ok hface
    cases hface
    exact ⟨_, rfl⟩

end Turtle

theorem eq_ok_of_arithmetically
    {result : Except ArithmeticFault Turtle} {after : Turtle}
    {answer : Option Number}
    (hupdate :
      (do return (← arithmetically result, none) :
          Except Trouble (Turtle × Option Number)) =
        .ok (after, answer)) :
    result = .ok after := by
  cases result with
  | ok other =>
      cases hupdate
      rfl
  | error fault => cases hupdate

namespace TurtleCommand

/-- How a turtle may differ after a command that was carried out. -/
structure Changes (command : TurtleCommand) (before after : Turtle) : Prop where
  place : command.isMove = false → after.place = before.place
  heading : command.isTurn = false → after.heading = before.heading
  penColor : command ≠ .setPenColor → after.penColor = before.penColor
  strokes :
    after.strokes =
      if command = .clearScreen then []
      else if command.isMove && before.penDown then
        before.strokeTo after :: before.strokes
      else before.strokes
  stamps :
    after.stamps = if command = .stamp then before.pose :: before.stamps
      else before.stamps
  moved : after.moved = (command.isMove || before.moved)

namespace Changes

variable {command : TurtleCommand} {before after : Turtle}

theorem of_moveTo
    (hmove : command.isMove = true) (hclear : command ≠ .clearScreen)
    (x y : Number) (heading : Float)
    (hheading : command.isTurn = false → heading = before.heading) :
    command.Changes before { before.moveTo x y with heading := heading } where
  place hstill := by simp [hmove] at hstill
  heading := hheading
  penColor _ := rfl
  strokes := by simp [hmove, hclear, Turtle.moveTo, Turtle.strokeTo]
  stamps := by
    have hstamp : command ≠ .stamp := by
      intro hstamp
      simp [hstamp, isMove] at hmove
    simp [hstamp, Turtle.moveTo]
  moved := by simp [hmove, Turtle.moveTo]

theorem of_clearScreen (before : Turtle) :
    clearScreen.Changes before { before.goHome with strokes := [] } where
  place hstill := by cases hstill
  heading hstill := by cases hstill
  penColor _ := rfl
  strokes := rfl
  stamps := rfl
  moved := rfl

/-- Commands that leave the records of the turtle alone. -/
theorem of_still
    (hmove : command.isMove = false) (hstamp : command ≠ .stamp)
    (hheading : command.isTurn = false → after.heading = before.heading)
    (hcolor : command ≠ .setPenColor → after.penColor = before.penColor)
    (hplace : after.place = before.place)
    (hstrokes : after.strokes = before.strokes)
    (hstamps : after.stamps = before.stamps)
    (hmoved : after.moved = before.moved) :
    command.Changes before after where
  place _ := hplace
  heading := hheading
  penColor := hcolor
  strokes := by
    have hclear : command ≠ .clearScreen := by
      intro hclear
      simp [hclear, isMove] at hmove
    simp [hclear, hmove, hstrokes]
  stamps := by simp [hstamp, hstamps]
  moved := by simp [hmove, hmoved]

theorem of_advance
    (hmove : command.isMove = true) (hclear : command ≠ .clearScreen)
    {distance : Number} {answer : Option Number}
    (hupdate :
      (do return (← arithmetically (before.advance distance), none) :
        Except Trouble (Turtle × Option Number)) = .ok (after, answer)) :
    command.Changes before after := by
  obtain ⟨x, y, rfl⟩ :=
    Turtle.exists_of_advance (eq_ok_of_arithmetically hupdate)
  exact of_moveTo hmove hclear x y before.heading fun _ => rfl

theorem of_heading
    (hmove : command.isMove = false) (hstamp : command ≠ .stamp)
    (hturn : command.isTurn = true)
    (hafter : ∃ heading, after = { before with heading := heading }) :
    command.Changes before after := by
  obtain ⟨heading, rfl⟩ := hafter
  exact of_still hmove hstamp (by simp [hturn]) (fun _ => rfl) rfl rfl rfl rfl

theorem of_question (hquery : command.isQuery = true) :
    command.Changes before before := by
  have hmove : command.isMove = false := by
    cases command <;> simp [isQuery] at hquery <;> rfl
  have hstamp : command ≠ .stamp := by
    intro hstamp
    simp [hstamp, isQuery] at hquery
  exact of_still hmove hstamp (fun _ => rfl) (fun _ => rfl) rfl rfl rfl rfl

end Changes

theorem changes_of_update
    {command : TurtleCommand} {operands : List Number} {before after : Turtle}
    {answer : Option Number}
    (hupdate : command.update operands before = .ok (after, answer)) :
    command.Changes before after := by
  have hsame {other : Turtle} {said : Option Number}
      (hother : (.ok (other, said) : Except Trouble (Turtle × Option Number)) =
        .ok (after, answer))
      (hchanges : command.Changes before other) :
      command.Changes before after := by
    cases hother
    exact hchanges
  unfold update at hupdate
  split at hupdate
  -- Going forward and back.
  next => exact .of_advance rfl (by decide) hupdate
  next => exact .of_advance rfl (by decide) hupdate
  -- Turning.
  next =>
    have hturned := Turtle.exists_of_turn (eq_ok_of_arithmetically hupdate)
    exact .of_heading rfl (by decide) rfl hturned
  next =>
    have hturned := Turtle.exists_of_turn (eq_ok_of_arithmetically hupdate)
    exact .of_heading rfl (by decide) rfl hturned
  next =>
    obtain ⟨_, -, hreturn⟩ := Except.exists_of_bind_eq_ok hupdate
    exact hsame hreturn (.of_heading rfl (by decide) rfl ⟨_, rfl⟩)
  next =>
    have hfaced := Turtle.exists_of_face (eq_ok_of_arithmetically hupdate)
    exact .of_heading rfl (by decide) rfl hfaced
  -- Going to a place that is given.
  next x y =>
    exact hsame hupdate
      (.of_moveTo rfl (by decide) x y before.heading fun _ => rfl)
  next =>
    exact hsame hupdate
      (.of_moveTo rfl (by decide) _ _ 0.0 fun hturn => by cases hturn)
  next => exact hsame hupdate (.of_clearScreen before)
  -- The pen goes down or up, and the turtle appears or disappears.
  next =>
    exact hsame hupdate
      (.of_still rfl (by decide) (fun _ => rfl) (fun _ => rfl) rfl rfl rfl rfl)
  next =>
    exact hsame hupdate
      (.of_still rfl (by decide) (fun _ => rfl) (fun _ => rfl) rfl rfl rfl rfl)
  next =>
    exact hsame hupdate
      (.of_still rfl (by decide) (fun _ => rfl) (fun _ => rfl) rfl rfl rfl rfl)
  next =>
    exact hsame hupdate
      (.of_still rfl (by decide) (fun _ => rfl) (fun _ => rfl) rfl rfl rfl rfl)
  -- Colours, sizes and shapes.
  next =>
    obtain ⟨_, -, hreturn⟩ := Except.exists_of_bind_eq_ok hupdate
    exact hsame hreturn
      (.of_still rfl (by decide) (fun _ => rfl)
        (fun hcolor => absurd rfl hcolor) rfl rfl rfl rfl)
  next =>
    split at hupdate
    · exact absurd hupdate (Flock.refuse_ne_ok _ _ _)
    · exact hsame hupdate
        (.of_still rfl (by decide) (fun _ => rfl)
          (fun _ => rfl) rfl rfl rfl rfl)
  next =>
    obtain ⟨_, -, hreturn⟩ := Except.exists_of_bind_eq_ok hupdate
    exact hsame hreturn
      (.of_still rfl (by decide) (fun _ => rfl) (fun _ => rfl) rfl rfl rfl rfl)
  next =>
    exact hsame hupdate
      ⟨fun _ => rfl, fun _ => rfl, fun _ => rfl, rfl, rfl, rfl⟩
  -- Questions.
  next => exact hsame hupdate (.of_question rfl)
  next => exact hsame hupdate (.of_question rfl)
  next => exact hsame hupdate (.of_question rfl)
  next => exact hsame hupdate (.of_question rfl)
  next => exact hsame hupdate (.of_question rfl)
  next => exact hsame hupdate (.of_question rfl)
  next => exact hsame hupdate (.of_question rfl)
  next => exact hsame hupdate (.of_question rfl)
  next => cases hupdate

end TurtleCommand

end Logo
