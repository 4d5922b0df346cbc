import Logo.Proofs.Execution.Actions
import Logo.Proofs.Execution.Discipline

/-!
# Local scopes unwind

No execution leaves a frame behind or takes one away, in either mode and however
it ends: whatever opens a scope also closes it, and what happens in between is
balanced as well.  So the end of a scope always finds the frame that its opening
left, and puts back the entry that the name had then.
-/

namespace Logo

open Logo.Action Execution NameMap

/-- The frames are the same, all turtles are still there, and a name that was
bound at most once in the list of entries still is. -/
structure Balanced (before after : World) : Prop where
  frames : after.bindings.frames = before.bindings.frames
  stays :
    ∀ ident, before.flock.contains ident = true →
      after.flock.contains ident = true
  single :
    ∀ name, Single name before.bindings.entries →
      Single name after.bindings.entries

namespace Balanced

theorem refl (world : World) : Balanced world world :=
  ⟨rfl, fun _ h => h, fun _ h => h⟩

theorem trans
    {first second third : World}
    (hfirst : Balanced first second) (hsecond : Balanced second third) :
    Balanced first third where
  frames := hsecond.frames.trans hfirst.frames
  stays ident hident := hsecond.stays ident (hfirst.stays ident hident)
  single name hname := hsecond.single name (hfirst.single name hname)

/-- Changes outside of the table, with all turtles staying, are balanced. -/
theorem of_bindings_eq
    {before after : World} (hbindings : after.bindings = before.bindings)
    (hstays :
      ∀ ident, before.flock.contains ident = true →
        after.flock.contains ident = true) :
    Balanced before after where
  frames := by rw [hbindings]
  stays := hstays
  single name hname := by rwa [hbindings]

theorem install
    (world : World) (name : String) (entry : Entry) :
    Balanced world
      { world with bindings := world.bindings.install name entry } where
  frames := rfl
  stays _ hident := hident
  single _ hother := hother.insert name entry

theorem bind_keeps (name : String) (number : Number) :
    Keeps Balanced (Action.bind name number) := by
  intro world
  rw [bind_eq]
  exact ⟨rfl, fun _ hident => hident, fun _ hother => hother.insert name _⟩

/-- A scope with a balanced inside is balanced. -/
theorem scope_keeps
    (name : String) (number : Number) {body : Action α}
    (hbody : Keeps Balanced body) :
    Keeps Balanced (withLocal name number body) := by
  intro world
  have hinner := hbody (world.entered name number)
  rw [finalState_withLocal hinner.frames]
  constructor
  · rfl
  · intro ident hident
    exact hinner.stays ident hident
  · intro other hother
    exact (hinner.single other (hother.insert name _)).assign name _

theorem focusedOn (world : World) (ident : Nat) :
    Balanced world (world.focusedOn ident) :=
  of_bindings_eq rfl fun _ hident => Flock.contains_hatch hident ident

theorem focus_keeps
    (number : Number) {body : Action Number} (hbody : Keeps Balanced body) :
    Keeps Balanced (focused [number] body) := by
  intro world
  cases hident : Flock.identOf number with
  | error trouble =>
      rw [focused_of_error hident]
      exact refl world
  | ok ident =>
      rw [finalState_focused hident]
      have hinner :=
        (focusedOn world ident).trans (hbody (world.focusedOn ident))
      exact ⟨hinner.frames, hinner.stays, hinner.single⟩

theorem command_keeps
    (expr : Expr) (word : String) (command : TurtleCommand) (ident : Nat)
    (operands : List Number) :
    Keeps Balanced (commandOne expr word command ident operands) := by
  intro world
  rcases finalState_commandOne expr word command ident operands world with
    hsame | ⟨before, after, x, y, marks, -, -, hfinal⟩
  · rw [hsame]
    exact refl world
  · rw [hfinal]
    refine of_bindings_eq rfl fun other hother => ?_
    rw [Flock.contains_put]
    exact hother

theorem flockCommand_keeps
    (expr : Expr) (word : String) (command : FlockCommand)
    (operands : List Number) :
    Keeps Balanced (flockCommand expr word command operands) := by
  intro world
  rcases finalState_flockCommand expr word command operands world with
    hsame | ⟨flock, answer, hupdate, hfinal⟩
  · rw [hsame]
    exact refl world
  · rw [hfinal]
    refine of_bindings_eq rfl fun other hother => ?_
    rw [Flock.contains_map_ident (Flock.idents_of_update hupdate)]
    exact hother

theorem tell_keeps (numbers : List Number) :
    Keeps Balanced (Action.tell numbers) := by
  intro world
  have hstays (ident : Nat) (hident : world.flock.contains ident = true) :=
    Flock.contains_tell hident numbers
  unfold Action.tell
  split
  next htell =>
    rw [htell] at hstays
    exact of_bindings_eq rfl hstays
  next htell =>
    rw [htell] at hstays
    exact of_bindings_eq rfl hstays

theorem discipline (mode : Mode) :
    Discipline mode Balanced (fun _ => Balanced) where
  refl := refl
  trans _ _ _ := trans
  stays _ _ hbalanced := hbalanced.stays
  marks _ _ := of_bindings_eq rfl fun _ hident => hident
  draws _ _ := of_bindings_eq rfl fun _ hident => hident
  inside _ _ _ hbalanced := hbalanced
  insideTrans _ _ _ _ := trans
  rebind := bind_keeps
  scope name number _ := scope_keeps name number
  focus number _ world _ hbody := focus_keeps number hbody world
  bind _ := bind_keeps
  install _ := install
  command _ := command_keeps
  flock _ := flockCommand_keeps
  hatch _ _ _ ident _ :=
    of_bindings_eq rfl fun _ hother => Flock.contains_hatch hother ident
  tell _ := tell_keeps

end Balanced

/-! ## What a scope puts back -/

/-- Behind a scope, its name has the entry, or the absence of one, that it had
before. -/
theorem get?_withLocal_self
    (name : String) (number : Number) {body : Action α}
    (hbody : Keeps Balanced body) (world : World) :
    (finalState (withLocal name number body world)).bindings.entries.get? name =
      world.bindings.entries.get? name := by
  have hinner := hbody (world.entered name number)
  rw [finalState_withLocal hinner.frames]
  apply get?_assign_self
  intro habsent
  apply hinner.single
  exact (single_of_get?_eq_none habsent).insert name _

/-- A scope leaves the entry of another name to its inside. -/
theorem get?_withLocal_of_ne
    {name other : String} (hne : other ≠ name) (number : Number)
    {body : Action α} (hbody : Keeps Balanced body) (world : World) :
    (finalState
      (withLocal name number body world)).bindings.entries.get? other =
      (finalState
        (body (world.entered name number))).bindings.entries.get? other := by
  have hinner := hbody (world.entered name number)
  rw [finalState_withLocal hinner.frames]
  exact get?_assign_of_ne hne _ _

theorem get?_entered_of_ne
    {name other : String} (hne : other ≠ name) (number : Number)
    (world : World) :
    (world.entered name number).bindings.entries.get? other =
      world.bindings.entries.get? other :=
  get?_insert_of_ne hne _ _

theorem withLocals_keeps
    (inputs : List (String × Number)) {body : Action Number}
    (hbody : Keeps Balanced body) :
    Keeps Balanced (withLocals inputs body) :=
  (Balanced.discipline .effectful).keeps_withLocals inputs hbody

/-- Behind nested scopes all their names are as before, also a name that was
bound twice. -/
theorem get?_withLocals
    (inputs : List (String × Number)) {body : Action Number}
    (hbody : Keeps Balanced body) (world : World)
    {name : String} (hname : name ∈ inputs.map Prod.fst) :
    (finalState (withLocals inputs body world)).bindings.entries.get? name =
      world.bindings.entries.get? name := by
  induction inputs generalizing world with
  | nil => simp at hname
  | cons input rest ih =>
      obtain ⟨first, number⟩ := input
      have hrest := withLocals_keeps rest hbody
      by_cases hfirst : name = first
      · subst first
        exact get?_withLocal_self name number hrest world
      · have hmem : name ∈ rest.map Prod.fst := by
          simpa [hfirst] using hname
        calc
          (finalState
            (withLocals
              ((first, number) :: rest) body world)).bindings.entries.get?
                name =
              (finalState
                (withLocals rest body
                  (world.entered first number))).bindings.entries.get?
                name := get?_withLocal_of_ne hfirst number hrest world
          _ = (world.entered first number).bindings.entries.get? name :=
            ih (world.entered first number) hmem
          _ = world.bindings.entries.get? name :=
            get?_entered_of_ne hfirst number world

/-- Behind a loop its variable is as before. -/
theorem get?_count
    (turns : Nat) (name : String) (counter : Counter) {body : Action Number}
    (hbody : Keeps Balanced body) (world : World) :
    (finalState
      (count turns name counter body world)).bindings.entries.get? name =
      world.bindings.entries.get? name := by
  unfold count
  split
  · have hlaw := Balanced.discipline .effectful
    apply get?_withLocal_self
    refine hlaw.keeps_bind hbody fun value => ?_
    exact hlaw.keeps_turnsAfter name hbody turns counter value
  · rfl

end Logo
