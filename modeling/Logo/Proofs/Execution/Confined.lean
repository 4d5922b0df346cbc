import Logo.Proofs.Execution.Actions
import Logo.Proofs.Execution.Discipline
import Logo.Proofs.Flock.Callable
import Logo.Proofs.Program.Parts

/-!
# Arithmetic that no instruction answers for

Operators and commands answer for their arithmetic: when it fails, there is a
complaint about them.  Three places do not.  A loop turns the number of its
turns into double precision, it takes steps, and some commands measure the
distance that a turtle has travelled.

Who is to blame for a failure is found out by an execution in which every
expression makes a complaint of its own arithmetic faults.  It goes like the one
that fails, and blames an expression of the program, or of a procedure that
existed before, which has come to one of these places with an integer that is
too large.
-/

namespace Logo

open Logo.Action Execution

/-- Whether the outcome of a command is the distance that the turtle has
travelled. -/
def TurtleCommand.isMeasured : TurtleCommand → Bool
  | .setPosition => true
  | .home => true
  | .clearScreen => true
  | _ => false

/-- A complaint about an expression at a depth, in a mode, and in the world that
it was executed in. -/
abbrev Blame := Nat → Mode → Expr → World → Complaint

/-- Executes an expression as always, but arithmetic faults are complaints about
the innermost expression that has them. -/
def Execution.executeBlaming (blame : Blame) (turns : Nat) :
    (depth : Nat) → Mode → Expr → Action Number
  | 0 => fun _ _ => throw .tooDeep
  | depth + 1 => fun mode expr world =>
    match step turns (executeBlaming blame turns depth) mode expr world with
    | .error (.arithmetic _) after =>
      .error (.complaint (blame depth mode expr world)) after
    | result => result

namespace Expr

/-- The expression for the number of turns, in a loop that counts them. -/
def turns? : Expr → Option Expr
  | .repeatTimes _ limit _ _ => some limit
  | .countTo _ _ limit _ _ => some limit
  | _ => none

/-- Expressions that meet an integer that is too large when they are executed in
a world: a loop whose number of turns is too large, a loop that adds a number in
double precision and an integer that is too large for it, and a command that
moves one of the listening turtles by too large a distance, when the turtles in
front of it have had their turn. -/
inductive Unguarded (turns depth : Nat) (mode : Mode) (world : World) :
    Expr → Prop where
  | counted {loop limit : Expr} {number : Number} {after : World}
      (hturns : loop.turns? = some limit)
      (hlimit : execute turns depth mode limit world = .ok number after)
      (hlarge : number.IsOversize) : Unguarded turns depth mode world loop
  | countBy {head target : Token} {first last step : Expr} {brackets : Brackets}
      {body : List Expr} {start stop size : Number}
      {second third fourth : World}
      (hfirst : execute turns depth mode first world = .ok start second)
      (hlast : execute turns depth mode last second = .ok stop third)
      (hstep : execute turns depth mode step third = .ok size fourth)
      (hlive : Counter.isLive ⟨start, stop, size⟩ = true)
      (hsum : start.add size = .error .integerTooLarge) :
      Unguarded turns depth mode world
        (.countBy head target first last step brackets body)
  | command {head : Token} {command : TurtleCommand} {args : List Expr}
      {done rest : List Nat} {ident : Nat} {value : Number}
      {between later : World} {operands : List Number}
      {before after : Turtle} (hmode : mode = .effectful)
      (hcommand : command.isMeasured = true)
      (hlisteners : listeners world = .ok (done ++ ident :: rest) world)
      (hdone :
        commandEach (.command head command args) head.text command
          (each (execute turns depth mode) args) 0 done world =
            .ok value between)
      (hoperands :
        each (execute turns depth mode) args (between.focusedOn ident) =
          .ok operands later)
      (hturtle : later.flock.get? ident = some before)
      (hupdate : command.update operands before = .ok (after, none))
      (hdistance : before.pose.distanceTo after.pose =
        .error .integerTooLarge) :
      Unguarded turns depth mode world (.command head command args)

/-- All expressions inside of this one are known. -/
def Throughout (Known : Expr → Prop) (expr : Expr) : Prop :=
  ∀ part : Expr, part.Within expr → Known part

theorem Throughout.part
    {Known : Expr → Prop} {expr part : Expr} (hexpr : expr.Throughout Known)
    (hpart : part ∈ expr.parts) : part.Throughout Known :=
  fun inner hinner => hexpr inner (.inside hpart hinner)

end Expr

def Entry.Throughout (Known : Expr → Prop) (entry : Entry) : Prop :=
  ∀ procedure, entry = .function (.procedure procedure) →
    ∀ expr ∈ procedure.body, expr.Throughout Known

/-- All procedures consist of known expressions, also those that wait to be
restored. -/
structure Bindings.Throughout (Known : Expr → Prop)
    (bindings : Bindings) : Prop where
  entries : bindings.entries.All (Entry.Throughout Known)
  frames :
    bindings.frames.All fun frames => ∀ entry, some entry ∈ frames.toList →
      entry.Throughout Known

/-- The turtles can be called, and all procedures consist of known
expressions. -/
structure World.Familiar (Known : Expr → Prop) (world : World) : Prop where
  callable : world.flock.Callable
  bindings : world.bindings.Throughout Known

/-- The expressions that can be executed, the mode of the whole execution, and
its bound on the turns of loops. -/
structure Setting where
  Known : Expr → Prop
  mode : Mode
  turns : Nat

/-- Who can be blamed.  Modes only get purer on the way down. -/
structure Setting.Blames
    (setting : Setting) (depth : Nat) (mode : Mode) (part : Expr)
    (met : World) : Prop where
  known : setting.Known part
  purer : mode = .effectful → setting.mode = .effectful
  unguarded : part.Unguarded setting.turns depth mode met

/-- How an action ends, and how it ends where arithmetic faults are blamed on
expressions.  Both end alike, where an arithmetic fault of its own needs an
excuse, or the first one ends with the arithmetic fault of an expression inside,
which is blamed for it. -/
inductive Ends (setting : Setting) (excuse : Prop) {α : Type}
    (result : EStateM.Result Fault World α)
    (blaming : Blame → EStateM.Result Fault World α) :
    Prop where
  | value {a : α} {world : World} (hresult : result = .ok a world)
      (hblaming : ∀ blame, blaming blame = .ok a world)
      (hworld : world.Familiar setting.Known)
  | failure {fault : Fault} {world : World}
      (hresult : result = .error fault world)
      (hblaming : ∀ blame, blaming blame = .error fault world)
      (hfault : ∀ trouble, fault ≠ .arithmetic trouble)
      (hworld : world.Familiar setting.Known)
  | own {world : World}
      (hresult : result = .error (.arithmetic .integerTooLarge) world)
      (hblaming : ∀ blame,
        blaming blame = .error (.arithmetic .integerTooLarge) world)
      (hexcuse : excuse) (hworld : world.Familiar setting.Known)
  | blamed {depth : Nat} {mode : Mode} {part : Expr} {met world : World}
      (hresult : result = .error (.arithmetic .integerTooLarge) world)
      (hblaming : ∀ blame,
        blaming blame = .error (.complaint (blame depth mode part met)) world)
      (hblames : setting.Blames depth mode part met)
      (hworld : world.Familiar setting.Known)

/-- From a familiar world an action ends as it should. -/
def Confined (setting : Setting) (excuse : Prop) {α : Type} (action : Action α)
    (blaming : Blame → Action α) : Prop :=
  ∀ world, world.Familiar setting.Known →
    Ends setting excuse (action world) fun blame => blaming blame world

/-- An action in which no expression is executed, so there is none to be
blamed. -/
abbrev Simple (setting : Setting) (excuse : Prop) {α : Type}
    (action : Action α) : Prop :=
  Confined setting excuse action fun _ => action

/-- A result of an action in some familiar world. -/
def Yields (setting : Setting) {α : Type} (action : Action α) (a : α) : Prop :=
  ∃ world after, world.Familiar setting.Known ∧ action world = .ok a after

section Settings

variable {Known : Expr → Prop} {setting : Setting} {excuse : Prop}

theorem Entry.throughout_ofNumber (number : Number) :
    (Entry.ofNumber number).Throughout Known := by
  cases number <;> nofun

namespace Bindings.Throughout

variable {bindings : Bindings} (hbindings : bindings.Throughout Known)
include hbindings

theorem framesOf {name : String} {entry : Entry}
    (hentry : some entry ∈ bindings.framesOf name) :
    entry.Throughout Known := by
  unfold Bindings.framesOf at hentry
  split at hentry
  next frames hfound => exact hbindings.frames.get? hfound entry hentry
  next => simp at hentry

theorem install (name : String) {entry : Entry}
    (hentry : entry.Throughout Known) :
    (bindings.install name entry).Throughout Known :=
  ⟨hbindings.entries.insert name hentry, hbindings.frames⟩

theorem opened (name : String) {entry : Entry}
    (hentry : entry.Throughout Known) :
    (bindings.opened name entry).Throughout Known where
  entries := hbindings.entries.insert name hentry
  frames := by
    refine hbindings.frames.insert name fun entry hentry => ?_
    rcases List.mem_cons.mp hentry with hnewest | holder
    · exact hbindings.entries.get? hnewest.symm
    · exact hbindings.framesOf holder

theorem removeLocal
    {name : String} {after : Bindings}
    (hafter : bindings.removeLocal name = .ok after) :
    after.Throughout Known := by
  unfold Bindings.removeLocal at hafter
  cases hfound : bindings.frames.get? name with
  | none =>
      rw [hfound] at hafter
      cases hafter
  | some frames =>
      rw [hfound] at hafter
      cases hafter
      have hframes := hbindings.frames.get? hfound
      have hnewest (entry : Entry) (hentry : entry ∈ frames.newest) :
          entry.Throughout Known := by
        apply hframes
        rw [Frames.toList, ← Option.mem_def.mp hentry]
        exact List.mem_cons_self
      have hpop (left : Frames) (hleft : left ∈ frames.pop?) (entry : Entry)
          (hentry : some entry ∈ left.toList) : entry.Throughout Known := by
        apply hframes
        unfold Frames.pop? at hleft
        split at hleft
        next => cases hleft
        next newest older holder =>
          cases hleft
          rw [Frames.toList, holder]
          exact List.mem_cons_of_mem _ hentry
      exact ⟨hbindings.entries.assign name hnewest,
        hbindings.frames.assign name hpop⟩

end Bindings.Throughout

theorem World.Familiar.withFlock
    {world : World} (hworld : world.Familiar Known) {flock : Flock}
    (hflock : flock.Callable) :
    ({ world with flock := flock } : World).Familiar Known :=
  ⟨hflock, hworld.bindings⟩

namespace Ends

variable {α β : Type}

/-- Where nothing fails on its own, no excuse is needed. -/
theorem weaken
    {result : EStateM.Result Fault World α}
    {blaming : Blame → EStateM.Result Fault World α}
    (hends : Ends setting False result blaming) :
    Ends setting excuse result blaming := by
  cases hends with
  | value hresult hblaming hworld => exact .value hresult hblaming hworld
  | failure hresult hblaming hfault hworld =>
      exact .failure hresult hblaming hfault hworld
  | own _ _ hexcuse => exact hexcuse.elim
  | blamed hresult hblaming hblames hworld =>
      exact .blamed hresult hblaming hblames hworld

theorem bind
    {action : Action α} {blaming : Blame → Action α} {next : α → Action β}
    {blamingNext : Blame → α → Action β} {world : World}
    (hfirst : Ends setting excuse (action world)
      fun blame => blaming blame world)
    (hnext : ∀ a after, action world = .ok a after →
      after.Familiar setting.Known →
      Ends setting excuse (next a after)
        fun blame => blamingNext blame a after) :
    Ends setting excuse ((action >>= next) world)
      fun blame => (blaming blame >>= blamingNext blame) world := by
  cases hfirst with
  | @value a after hresult hblaming hworld =>
      have hbind (blame : Blame) :
          (blaming blame >>= blamingNext blame) world =
            blamingNext blame a after :=
        bind_eq_of_ok (hblaming blame)
      simp only [bind_eq_of_ok hresult, hbind]
      exact hnext a after hresult hworld
  | failure hresult hblaming hfault hworld =>
      exact .failure (bind_eq_of_error hresult)
        (fun blame => bind_eq_of_error (hblaming blame)) hfault hworld
  | own hresult hblaming hexcuse hworld =>
      exact .own (bind_eq_of_error hresult)
        (fun blame => bind_eq_of_error (hblaming blame)) hexcuse hworld
  | blamed hresult hblaming hblames hworld =>
      exact .blamed (bind_eq_of_error hresult)
        (fun blame => bind_eq_of_error (hblaming blame)) hblames hworld

end Ends

namespace Confined

section Actions

variable {α β : Type}

theorem weaken
    {action : Action α} {blaming : Blame → Action α}
    (haction : Confined setting False action blaming) :
    Confined setting excuse action blaming :=
  fun world hworld => (haction world hworld).weaken

theorem bind
    {action : Action α} {blaming : Blame → Action α} {next : α → Action β}
    {blamingNext : Blame → α → Action β}
    (haction : Confined setting excuse action blaming)
    (hnext : ∀ a, Yields setting action a →
      Confined setting excuse (next a) fun blame => blamingNext blame a) :
    Confined setting excuse (action >>= next) fun blame => blaming blame >>=
      blamingNext blame :=
  fun world hworld => (haction world hworld).bind fun a after hrun hafter =>
    hnext a ⟨world, after, hworld, hrun⟩ after hafter

theorem of_pure (a : α) : Simple setting excuse (pure a : Action α) :=
  fun _ hworld => .value rfl (fun _ => rfl) hworld

theorem of_throw {fault : Fault}
    (hfault : ∀ trouble, fault ≠ .arithmetic trouble) :
    Simple setting excuse (throw fault : Action α) :=
  fun _ hworld => .failure rfl (fun _ => rfl) hfault hworld

theorem of_complain (complaint : Complaint) :
    Simple setting excuse (complain complaint : Action α) :=
  of_throw nofun

theorem of_get : Simple setting excuse (get : Action World) :=
  fun _ hworld => .value rfl (fun _ => rfl) hworld

theorem familiar_of_get {world : World} (hyields : Yields setting get world) :
    world.Familiar setting.Known := by
  obtain ⟨_, _, hworld, hrun⟩ := hyields
  cases hrun
  exact hworld

theorem of_modify
    {change : World → World}
    (hchange : ∀ world, world.Familiar setting.Known →
      (change world).Familiar setting.Known) :
    Simple setting excuse (modify change : Action PUnit) :=
  fun world hworld => .value rfl (fun _ => rfl) (hchange world hworld)

theorem of_bare
    {result : Except ArithmeticFault α}
    (hresult : ∀ fault, result = .error fault →
      fault = .integerTooLarge ∧ excuse) :
    Simple setting excuse (bare result) := by
  cases result with
  | ok a => exact of_pure a
  | error fault =>
      obtain ⟨rfl, hexcuse⟩ := hresult fault rfl
      exact fun _ hworld => .own rfl (fun _ => rfl) hexcuse hworld

theorem eq_ok_of_bare
    {result : Except ArithmeticFault α} {a : α}
    (hyields : Yields setting (bare result) a) :
    result = .ok a := by
  obtain ⟨_, _, _, hrun⟩ := hyields
  cases result with
  | ok b =>
      cases hrun
      rfl
  | error fault => cases hrun

/-- Operators and commands make a complaint of their troubles. -/
theorem of_pinning (word : String) (place : Expr) (result : Except Trouble α) :
    Simple setting excuse (pinning word place result) := by
  cases result with
  | ok a => exact of_pure a
  | error trouble =>
      apply of_throw
      cases trouble <;> nofun

theorem eq_ok_of_pinning
    {word : String} {place : Expr} {result : Except Trouble α} {a : α}
    {world after : World}
    (hrun : pinning word place result world = .ok a after) :
    result = .ok a := by
  cases result with
  | ok b =>
      cases hrun
      rfl
  | error trouble => cases hrun

theorem of_keep (number : Number) : Simple setting excuse (keep number) :=
  fun _ hworld => .value rfl (fun _ => rfl) ⟨hworld.callable, hworld.bindings⟩

theorem sameKind_of_keep
    {number kept : Number} (hyields : Yields setting (keep number) kept) :
    kept.SameKind number := by
  obtain ⟨world, _, _, hrun⟩ := hyields
  cases hrun
  exact Number.sameKind_keep world.marks world.listener number

theorem of_draw : Simple setting excuse draw :=
  fun _ hworld => .value rfl (fun _ => rfl) ⟨hworld.callable, hworld.bindings⟩

theorem of_listeners : Simple setting excuse listeners := by
  refine of_get.bind fun world _ => ?_
  cases world.flock.listeners with
  | ok turtles => exact of_pure _
  | error ident => exact of_throw nofun

theorem of_turtle (ident : Nat) : Simple setting excuse (turtle ident) := by
  refine of_get.bind fun world _ => ?_
  cases world.flock.get? ident with
  | some turtle => exact of_pure _
  | none => exact of_throw nofun

theorem get?_of_turtle
    {ident : Nat} {found : Turtle} {world after : World}
    (hrun : turtle ident world = .ok found after) :
    world.flock.get? ident = some found := by
  unfold turtle at hrun
  rw [get_bind] at hrun
  cases hget : world.flock.get? ident with
  | some turtle =>
      rw [hget] at hrun
      cases hrun
      rfl
  | none =>
      rw [hget] at hrun
      cases hrun

theorem of_rebind (name : String) (number : Number) :
    Simple setting excuse (Action.bind name number) := by
  intro world hworld
  simp only [Action.bind_eq]
  exact .value rfl (fun _ => rfl)
    ⟨hworld.callable,
      hworld.bindings.install name (Entry.throughout_ofNumber _)⟩

theorem of_removeLocal (name : String) :
    Simple setting excuse (onBindings (·.removeLocal name)) := by
  intro world hworld
  simp only [onBindings]
  cases hremove : world.bindings.removeLocal name with
  | ok bindings =>
      exact .value rfl (fun _ => rfl)
        ⟨hworld.callable, hworld.bindings.removeLocal hremove⟩
  | error fault =>
      refine .failure rfl (fun _ => rfl) ?_ hworld
      unfold Bindings.removeLocal at hremove
      split at hremove
      · cases hremove
        nofun
      · cases hremove

theorem of_tell
    {numbers : List Number}
    (hnumbers : ∀ number ∈ numbers, ∃ ident, Flock.identOf number = .ok ident) :
    Simple setting excuse (Action.tell numbers) := by
  intro world hworld
  have hcallable := hworld.callable.tell numbers
  obtain ⟨idents, hidents⟩ := Flock.tell_of_identOf hnumbers world.flock
  simp only [Action.tell]
  rcases htell : world.flock.tell numbers with ⟨_ | told, flock⟩
  · rw [htell] at hidents
    cases hidents
  · rw [htell] at hcallable
    exact .value rfl (fun _ => rfl) (hworld.withFlock hcallable)

theorem ends_without_excuse
    {action : Action α} (haction : Simple setting False action) {world : World}
    (hworld : world.Familiar setting.Known) :
    (∃ a after, action world = .ok a after ∧ after.Familiar setting.Known) ∨
      ∃ fault after, action world = .error fault after ∧
        (∀ trouble, fault ≠ .arithmetic trouble) ∧
          after.Familiar setting.Known := by
  cases haction world hworld with
  | value hresult _ hafter => exact .inl ⟨_, _, hresult, hafter⟩
  | failure hresult _ hfault hafter =>
      exact .inr ⟨_, _, hresult, hfault, hafter⟩
  | own _ _ hexcuse => exact hexcuse.elim
  | blamed hresult hblaming =>
      have hboth :=
        hresult.symm.trans (hblaming fun _ _ _ _ => .undefined "" false none)
      cases hboth

end Actions

end Confined

namespace Ends

variable {α : Type}

theorem andFinally
    {action : Action α} {blaming : Blame → Action α} {cleanup : Action Unit}
    {world : World}
    (hfirst : Ends setting excuse (action world)
      fun blame => blaming blame world)
    (hcleanup : Simple setting False cleanup) :
    Ends setting excuse (action.andFinally cleanup world)
      fun blame => (blaming blame).andFinally cleanup world := by
  unfold Action.andFinally
  cases hfirst with
  | @value a inner hresult hblaming hinner =>
      rcases hcleanup.ends_without_excuse hinner with
        ⟨_, after, hclean, hafter⟩ | ⟨fault, after, hclean, hfault, hafter⟩
      · simp only [hresult, hblaming, hclean]
        exact .value rfl (fun _ => rfl) hafter
      · simp only [hresult, hblaming, hclean]
        exact .failure rfl (fun _ => rfl) hfault hafter
  | @failure fault inner hresult hblaming hfault hinner =>
      rcases hcleanup.ends_without_excuse hinner with
        ⟨_, after, hclean, hafter⟩ | ⟨later, after, hclean, hlater, hafter⟩
      · simp only [hresult, hblaming, hclean]
        exact .failure rfl (fun _ => rfl) hfault hafter
      · simp only [hresult, hblaming, hclean]
        exact .failure rfl (fun _ => rfl) hlater hafter
  | @own inner hresult hblaming hexcuse hinner =>
      rcases hcleanup.ends_without_excuse hinner with
        ⟨_, after, hclean, hafter⟩ | ⟨later, after, hclean, hlater, hafter⟩
      · simp only [hresult, hblaming, hclean]
        exact .own rfl (fun _ => rfl) hexcuse hafter
      · simp only [hresult, hblaming, hclean]
        exact .failure rfl (fun _ => rfl) hlater hafter
  | @blamed depth mode part met inner hresult hblaming hblames hinner =>
      rcases hcleanup.ends_without_excuse hinner with
        ⟨_, after, hclean, hafter⟩ | ⟨later, after, hclean, hlater, hafter⟩
      · simp only [hresult, hblaming, hclean]
        exact .blamed rfl (fun _ => rfl) hblames hafter
      · simp only [hresult, hblaming, hclean]
        exact .failure rfl (fun _ => rfl) hlater hafter

/-- Calling a turtle gets into trouble only with an integer that is too
large. -/
theorem focused
    {body : Action α} {blaming : Blame → Action α} {number : Number}
    {world : World} (hworld : world.Familiar setting.Known)
    (hnumber : ¬ number.IsOversize)
    (hbody : ∀ ident, Flock.identOf number = .ok ident →
      (world.focusedOn ident).Familiar setting.Known →
      Ends setting excuse (body (world.focusedOn ident))
        fun blame => blaming blame (world.focusedOn ident)) :
    Ends setting excuse (Action.focused [number] body world)
      fun blame => Action.focused [number] (blaming blame) world := by
  cases hident : Flock.identOf number with
  | error trouble =>
      simp only [focused_of_error hident]
      refine .failure rfl (fun _ => rfl) ?_ hworld
      cases trouble with
      | refused refusal => nofun
      | operandCount => nofun
      | arithmetic fault =>
          exact absurd (Flock.isOversize_of_identOf hident) hnumber
  | ok ident =>
      have hhatched := hworld.callable.hatch hident
      simp only [focused_of_identOf hident]
      refine (hbody ident hident (hworld.withFlock hhatched)).andFinally ?_
      exact .of_modify fun inner hinner => ⟨hinner.callable, hinner.bindings⟩

end Ends

namespace Confined

section Combined

variable {body : Action Number} {blaming : Blame → Action Number}

theorem withLocal
    (hbody : Confined setting excuse body blaming) (name : String)
    (number : Number) :
    Confined setting excuse (Action.withLocal name number body)
      fun blame => Action.withLocal name number (blaming blame) := by
  intro world hworld
  simp only [withLocal_eq]
  have hentered : (world.entered name number).Familiar setting.Known :=
    ⟨hworld.callable, hworld.bindings.opened name (Entry.throughout_ofNumber _)⟩
  exact (hbody _ hentered).andFinally (of_removeLocal name)

theorem withLocals
    (hbody : Confined setting excuse body blaming)
    (inputs : List (String × Number)) :
    Confined setting excuse (Action.withLocals inputs body)
      fun blame => Action.withLocals inputs (blaming blame) := by
  induction inputs with
  | nil => exact hbody
  | cons input rest ih => exact ih.withLocal input.1 input.2

theorem focused
    (hbody : Confined setting excuse body blaming) {number : Number}
    (hnumber : ¬ number.IsOversize) :
    Confined setting excuse (Action.focused [number] body)
      fun blame => Action.focused [number] (blaming blame) :=
  fun _ hworld => .focused hworld hnumber fun _ _ hfocused => hbody _ hfocused

theorem unmarking (hbody : Confined setting excuse body blaming) :
    Confined setting excuse (Action.unmarking body)
      fun blame => Action.unmarking (blaming blame) := by
  refine of_get.bind fun world _ inner hinner =>
    (hbody inner hinner).andFinally ?_
  exact of_modify fun last hlast => ⟨hlast.callable, hlast.bindings⟩

/-- A loop whose first step succeeds never fails at a step. -/
theorem turnsAfter
    (hbody : Confined setting excuse body blaming) (name : String) (turns : Nat)
    {counter : Counter}
    (hstep : counter.value.add counter.step = .error .integerTooLarge → excuse)
    (result : Number) :
    Confined setting excuse
      (Execution.turnsAfter name body turns counter result)
      fun blame =>
        Execution.turnsAfter name (blaming blame) turns counter result := by
  induction turns generalizing counter result with
  | zero => exact of_throw nofun
  | succ turns ih =>
      have hnext (fault : ArithmeticFault)
          (herror : counter.next = .error fault) :
          fault = .integerTooLarge ∧ excuse := by
        have hsum := Counter.next_eq_error herror
        have hfault := Number.lift_eq_error hsum
        exact ⟨hfault, hstep (hfault ▸ hsum)⟩
      refine (of_bare hnext).bind fun later hlater => ?_
      cases later.isLive with
      | false => exact of_pure result
      | true =>
          refine (of_rebind name later.value).bind fun _ _ => ?_
          refine hbody.bind fun value _ => ih ?_ value
          -- Behind a first sum, integers are added to integers, or a step known
          -- to be in range to a number in double precision: only the first step
          -- of a loop can fail.
          intro herror
          obtain ⟨further, hfurther⟩ :=
            Counter.exists_next_next (eq_ok_of_bare hlater)
          obtain ⟨sum, hsum, -⟩ := Except.exists_of_bind_eq_ok hfurther
          rw [hsum] at herror
          cases herror

theorem count
    (hbody : Confined setting excuse body blaming) (turns : Nat) (name : String)
    {counter : Counter}
    (hstep :
      counter.isLive = true →
        counter.value.add counter.step = .error .integerTooLarge → excuse) :
    Confined setting excuse (Execution.count turns name counter body)
      fun blame => Execution.count turns name counter (blaming blame) := by
  unfold Execution.count
  cases hlive : counter.isLive with
  | false => exact of_pure 0
  | true =>
      refine withLocal (hbody.bind fun value _ => ?_) name counter.value
      exact hbody.turnsAfter name turns (hstep hlive) value

theorem dispatch
    (hbody : Confined setting excuse body blaming) {numbers : List Number}
    (hnumbers : ∀ number ∈ numbers, ¬ number.IsOversize) (result : Number) :
    Confined setting excuse (Execution.dispatch body result numbers)
      fun blame => Execution.dispatch (blaming blame) result numbers := by
  induction numbers generalizing result with
  | nil => exact of_pure result
  | cons number rest ih =>
      rw [List.forall_mem_cons] at hnumbers
      exact (hbody.focused hnumbers.1).bind fun value _ => ih hnumbers.2 value

theorem not_isOversize_integer {ident : Nat}
    (hident : (Binary64.ofInt? ident).isSome) :
    ¬ (Number.integer ident).IsOversize := by
  intro hoversize
  have hnone : Binary64.ofInt? ident = none := hoversize
  simp [hnone] at hident

theorem satisfying
    (hbody : Confined setting excuse body blaming) {idents : List Nat}
    (hidents : ∀ ident ∈ idents, (Binary64.ofInt? ident).isSome) :
    Confined setting excuse (Execution.satisfying body idents)
      fun blame => Execution.satisfying (blaming blame) idents := by
  induction idents with
  | nil => exact of_pure []
  | cons ident rest ih =>
      rw [List.forall_mem_cons] at hidents
      have hfirst := hbody.unmarking.focused (not_isOversize_integer hidents.1)
      refine hfirst.bind fun value _ => ?_
      exact (ih hidents.2).bind fun chosen _ => of_pure _

end Combined

section Instructions

variable {expr : Expr}

theorem of_lookup (name : String) :
    Simple setting excuse (lookup expr name) := by
  refine of_get.bind fun world _ => ?_
  split
  · exact of_pure _
  · exact of_pure _
  · exact of_pure _
  · exact of_complain _
  · exact of_complain _

theorem of_operation (operator : Operator) (operands : List Number) :
    Simple setting excuse (operation expr operator operands) := by
  unfold operation
  cases operator.draws operands with
  | true => exact of_draw.bind fun random _ => of_pinning _ _ _
  | false => exact (of_pure _).bind fun random _ => of_pinning _ _ _

theorem of_flockCommand (word : String) (command : FlockCommand)
    (operands : List Number) :
    Simple setting excuse (flockCommand expr word command operands) := by
  refine of_get.bind fun world hworld => ?_
  refine (of_pinning word expr _).bind fun result hresult => ?_
  obtain ⟨flock, answer⟩ := result
  obtain ⟨_, _, -, hrun⟩ := hresult
  have hidents := Flock.idents_of_update (eq_ok_of_pinning hrun)
  refine bind (of_modify fun later hlater => ?_) fun _ _ => of_pure _
  exact hlater.withFlock ((familiar_of_get hworld).callable.of_idents hidents)

theorem of_address (mode : Mode) (list : Expr) (numbers : List Number) :
    Simple setting excuse (address mode expr list numbers) := by
  induction numbers with
  | nil => exact of_pure ()
  | cons number rest ih =>
      intro world hworld
      cases mode with
      | effectful =>
          simp only [address_effectful_cons]
          cases hident : Flock.identOf number with
          | ok ident =>
              exact ih _ (hworld.withFlock (hworld.callable.hatch hident))
          | error trouble =>
              refine .failure rfl (fun _ => rfl) ?_ hworld
              cases trouble <;> nofun
      | pureAttempt =>
          simp only [address_pureAttempt_cons]
          cases hident : Flock.identOf number with
          | ok ident =>
              by_cases hknown : world.flock.contains ident = true
              · simp only [hknown, if_true]
                exact ih world hworld
              · simp only [hknown, Bool.false_eq_true, if_false]
                exact .failure rfl (fun _ => rfl) nofun hworld
          | error trouble =>
              refine .failure rfl (fun _ => rfl) ?_ hworld
              cases trouble <;> nofun

/-- Only numbers of turtles are addressed. -/
theorem identOf_of_address
    {mode : Mode} {list : Expr} {numbers : List Number} {world after : World}
    (hrun : address mode expr list numbers world = .ok () after) :
    ∀ number ∈ numbers, ∃ ident, Flock.identOf number = .ok ident := by
  induction numbers generalizing world with
  | nil => simp
  | cons number rest ih =>
      rw [List.forall_mem_cons]
      cases mode with
      | effectful =>
          rw [address_effectful_cons] at hrun
          cases hident : Flock.identOf number with
          | ok ident =>
              simp only [hident] at hrun
              exact ⟨⟨ident, rfl⟩, ih hrun⟩
          | error trouble => simp [hident] at hrun
      | pureAttempt =>
          rw [address_pureAttempt_cons] at hrun
          cases hident : Flock.identOf number with
          | ok ident =>
              simp only [hident] at hrun
              split at hrun
              · exact ⟨⟨ident, rfl⟩, ih hrun⟩
              · cases hrun
          | error trouble => simp [hident] at hrun

theorem of_procedure (name : String) (inputs : Nat) :
    Simple setting excuse (procedure expr name inputs) := by
  refine of_get.bind fun world _ => ?_
  split
  · split
    · exact of_pure _
    · exact of_complain _
  · exact of_throw nofun
  · exact of_complain _
  · exact of_complain _

theorem throughout_of_procedure
    {name : String} {inputs : Nat} {found : Procedure}
    (hyields : Yields setting (procedure expr name inputs) found) :
    ∀ part ∈ found.body, part.Throughout setting.Known := by
  obtain ⟨world, after, hworld, hrun⟩ := hyields
  exact hworld.bindings.entries.get? (get?_of_procedure_eq_ok hrun) found rfl

theorem of_tally {number : Number} (hlarge : number.IsOversize → excuse) :
    Simple setting excuse (tally expr number) := by
  have hfinite (fault : ArithmeticFault)
      (herror : number.isFinite = .error fault) :
      fault = .integerTooLarge ∧ excuse := by
    obtain ⟨hoversize, hfault⟩ := Number.isFinite_eq_error herror
    exact ⟨hfault, hlarge hoversize⟩
  refine (of_bare hfinite).bind fun finite hyields => ?_
  obtain ⟨text, htext⟩ := Number.text_of_isFinite (eq_ok_of_bare hyields)
  have hendless :
      Simple setting excuse
        (bare number.text >>= fun text =>
          (Action.mishap (.endlessCount text) expr : Action Int)) := by
    rw [htext]
    exact (of_pure text).bind fun _ _ => of_complain _
  cases number.truncate? with
  | none => exact hendless
  | some n =>
      cases finite with
      | true => exact of_pure n
      | false => exact hendless

end Instructions

section Lists

variable {run : Expr → Action Number} {blaming : Blame → Expr → Action Number}

theorem inOrder
    {body : List Expr}
    (hbody : ∀ expr ∈ body,
      Confined setting excuse (run expr) fun blame => blaming blame expr)
    (result : Number) :
    Confined setting excuse (Execution.inOrder run result body)
      fun blame => Execution.inOrder (blaming blame) result body := by
  induction body generalizing result with
  | nil => exact of_pure result
  | cons expr rest ih =>
      rw [List.forall_mem_cons] at hbody
      exact hbody.1.bind fun value _ => ih hbody.2 value

theorem each
    {exprs : List Expr}
    (hexprs :
      ∀ expr ∈ exprs,
        Confined setting excuse (run expr) fun blame => blaming blame expr) :
    Confined setting excuse (Execution.each run exprs)
      fun blame => Execution.each (blaming blame) exprs := by
  induction exprs with
  | nil => exact of_pure []
  | cons expr rest ih =>
      rw [List.forall_mem_cons] at hexprs
      refine hexprs.1.bind fun number _ => ?_
      exact (ih hexprs.2).bind fun numbers _ => of_pure _

end Lists

end Confined

section Turtles

variable {expr : Expr} {word : String} {command : TurtleCommand}

theorem Ends.commandOne
    {ident : Nat} {operands : List Number} {world : World}
    (hworld : world.Familiar setting.Known)
    (hmeasured :
      ∀ before after, command.isMeasured = true →
        world.flock.get? ident = some before →
        command.update operands before = .ok (after, none) →
          before.pose.distanceTo after.pose =
            .error .integerTooLarge → excuse) :
    Ends setting excuse (commandOne expr word command ident operands world)
      fun _ => commandOne expr word command ident operands world := by
  refine Ends.bind (Confined.of_turtle ident world hworld)
    fun before same hturtle hsame => ?_
  have hbefore := Confined.get?_of_turtle hturtle
  refine Ends.bind (Confined.of_pinning word expr _ same hsame)
    fun result next hrun hnext => ?_
  obtain ⟨after, answer⟩ := result
  have hupdate := Confined.eq_ok_of_pinning hrun
  cases answer with
  | some number => exact Confined.of_pure number next hnext
  | none =>
      refine Confined.bind (.of_keep after.x) (fun x hx => ?_) next hnext
      refine (Confined.of_keep after.y).bind fun y hy => ?_
      refine Confined.bind (.of_modify fun world hworld => ?_) fun _ _ =>
        .of_bare fun fault herror => ?_
      · exact hworld.withFlock (hworld.callable.put _)
      · have hdistance :
            command.isMeasured = true ∧
              before.pose.distanceTo { after with x := x, y := y }.pose =
                .error fault := by
          cases command <;> first | exact ⟨rfl, herror⟩ | cases herror
        have hplace : before.pose.distanceTo after.pose = .error fault :=
          Pose.distanceTo_sameKind (Confined.sameKind_of_keep hx)
            (Confined.sameKind_of_keep hy) hdistance.2
        have hfault := Pose.distanceTo_eq_error hplace
        subst hfault
        exact ⟨rfl, hmeasured before after hdistance.1 hbefore hupdate hplace⟩

theorem commandEach_append
    (expr : Expr) (word : String) (command : TurtleCommand)
    (args : Action (List Number)) (result : Number) (done rest : List Nat) :
    commandEach expr word command args result (done ++ rest) =
      commandEach expr word command args result done >>= fun value =>
        commandEach expr word command args value rest := by
  induction done generalizing result with
  | nil => rfl
  | cons ident others ih =>
      simp only [List.cons_append, commandEach, bind_assoc]
      congr 1
      funext value
      exact ih value

/-- The turtles take turns, so what one of them meets is said in the world that
those in front of it have left. -/
theorem Ends.commandEach
    {args : Action (List Number)} {blaming : Blame → Action (List Number)}
    (hargs : Confined setting excuse args blaming) {idents : List Nat}
    (hidents : ∀ ident ∈ idents, (Binary64.ofInt? ident).isSome) {world : World}
    (hmeasured :
      ∀ done ident rest value between operands later before after,
        idents = done ++ ident :: rest →
        Execution.commandEach expr word command args 0 done world =
          .ok value between →
        args (between.focusedOn ident) = .ok operands later →
        command.isMeasured = true → later.flock.get? ident = some before →
        command.update operands before = .ok (after, none) →
        before.pose.distanceTo after.pose = .error .integerTooLarge → excuse)
    {done rest : List Nat} (hsplit : idents = done ++ rest) {value : Number}
    {between : World}
    (hdone : Execution.commandEach expr word command args 0 done world =
      .ok value between)
    (hbetween : between.Familiar setting.Known) :
    Ends setting excuse
      (Execution.commandEach expr word command args value rest between)
      fun blame => Execution.commandEach expr word command (blaming blame) value
        rest between := by
  induction rest generalizing done value between with
  | nil => exact Confined.of_pure value between hbetween
  | cons ident rest ih =>
      have hnumber : ¬ (Number.integer ident).IsOversize :=
        Confined.not_isOversize_integer (hidents ident (by simp [hsplit]))
      have hturn :
          Ends setting excuse
            (Action.focused [.integer ident]
              (args >>= fun operands =>
                Execution.commandOne expr word command ident operands) between)
            fun blame =>
              Action.focused [.integer ident]
                (blaming blame >>= fun operands =>
                  Execution.commandOne expr word command ident
                    operands) between := by
        refine .focused hbetween hnumber fun found hfound hfocused => ?_
        cases Flock.identOf_integer hfound
        refine (hargs _ hfocused).bind fun operands later hoperands hlater => ?_
        refine .commandOne hlater
          fun before after hcommand hbefore hupdate hdistance => ?_
        exact hmeasured done ident rest value between operands later before
          after hsplit hdone hoperands hcommand hbefore hupdate hdistance
      refine hturn.bind fun next after hrun hafter => ?_
      refine ih
        (show idents = (done ++ [ident]) ++ rest by simp [hsplit]) ?_ hafter
      rw [commandEach_append, bind_eq_of_ok hdone]
      exact (bind_eq_of_ok hrun).trans rfl

end Turtles

section Nodes

variable {depth : Nat} {mode : Mode} {world : World}
  (hworld : world.Familiar setting.Known)
include hworld

/-- A command to the turtles that listen.  In a pure attempt there are queries
only, and these have an answer, not a distance. -/
theorem Ends.listening
    {head : Token} {command : TurtleCommand} {args : List Expr}
    (hallowed :
      ¬ (mode = .pureAttempt ∧ ¬ (Expr.command head command args).isPure))
    (hargs :
      ∀ part ∈ args,
        Confined setting
          (Expr.Unguarded setting.turns depth mode world
            (.command head command args))
          (execute setting.turns depth mode part)
          fun blame => executeBlaming blame setting.turns depth mode part) :
    Ends setting
      (Expr.Unguarded setting.turns depth mode world
        (.command head command args))
      ((listeners >>= fun idents =>
        Execution.commandEach (.command head command args) head.text command
          (each (execute setting.turns depth mode) args) 0 idents) world)
      fun blame =>
        (listeners >>= fun idents =>
          Execution.commandEach (.command head command args) head.text command
            (each (executeBlaming blame setting.turns depth mode) args) 0
            idents) world := by
  refine Ends.bind (Confined.of_listeners world hworld)
    fun idents same hrun hsame => ?_
  have heq : same = world := (contains_of_listeners hrun).1
  subst heq
  have hsplit : idents = [] ++ idents := rfl
  refine .commandEach (Confined.each hargs) ?_ ?_ hsplit rfl hsame
  · intro ident hident
    have hcontains := (contains_of_listeners hrun).2 ident hident
    obtain ⟨turtle, hturtle, rfl⟩ := (Flock.contains_iff _ _).mp hcontains
    exact hworld.callable turtle hturtle
  · intro done ident rest value between operands later before after hsplit
      hdone hoperands hmeasured hbefore hupdate hdistance
    have heffectful : mode = .effectful := by
      cases mode with
      | effectful => rfl
      | pureAttempt =>
          have hquery : command.isQuery = true := by
            simpa [Expr.isPure] using hallowed
          obtain ⟨-, number, hanswer⟩ :=
            TurtleCommand.update_of_isQuery hquery hupdate
          cases hanswer
    rw [hsplit] at hrun
    exact .command heffectful hmeasured hrun hdone hoperands hbefore hupdate
      hdistance

/-- A loop that counts its turns. -/
theorem Ends.counted
    {loop limit : Expr} (hturns : loop.turns? = some limit) {body : List Expr}
    (hparts :
      ∀ part ∈ limit :: body,
        Confined setting (loop.Unguarded setting.turns depth mode world)
          (execute setting.turns depth mode part)
          fun blame => executeBlaming blame setting.turns depth mode part)
    (name : String) :
    Ends setting (loop.Unguarded setting.turns depth mode world)
      ((do
        let last ← tally limit (← execute setting.turns depth mode limit)
        count setting.turns name (.upTo last)
          (inOrder (execute setting.turns depth mode) 0 body)) world)
      fun blame =>
        (do
          let last ←
            tally limit (← executeBlaming blame setting.turns depth mode limit)
          count setting.turns name (.upTo last)
            (inOrder (executeBlaming blame setting.turns depth mode) 0 body))
          world := by
  obtain ⟨hlimit, hbody⟩ := List.forall_mem_cons.mp hparts
  refine (hlimit world hworld).bind fun number after hrun hafter => ?_
  refine Confined.bind (.of_tally fun hlarge => .counted hturns hrun hlarge)
    (fun last _ => ?_) after hafter
  exact (Confined.inOrder hbody 0).count _ _ fun _ hsum => by cases hsum

end Nodes

/-- One expression ends as it should if the expressions inside of it do, and it
fails on its own only where it is unguarded. -/
theorem ends_step
    {depth : Nat}
    (hinner :
      ∀ mode expr, (mode = .effectful → setting.mode = .effectful) →
        expr.Throughout setting.Known →
        Confined setting False (execute setting.turns depth mode expr)
          fun blame => executeBlaming blame setting.turns depth mode expr)
    {mode : Mode} (hmode : mode = .effectful → setting.mode = .effectful)
    {expr : Expr} (hexpr : expr.Throughout setting.Known) {world : World}
    (hworld : world.Familiar setting.Known) :
    Ends setting (expr.Unguarded setting.turns depth mode world)
      (step setting.turns (execute setting.turns depth) mode expr world)
      fun blame =>
        step setting.turns
          (executeBlaming blame setting.turns depth) mode expr world := by
  have hpart (part : Expr) (hmem : part ∈ expr.parts) :
      Confined setting (expr.Unguarded setting.turns depth mode world)
        (execute setting.turns depth mode part)
        fun blame => executeBlaming blame setting.turns depth mode part :=
    (hinner mode part hmode (hexpr.part hmem)).weaken
  by_cases hallowed : mode = .pureAttempt ∧ ¬ expr.isPure
  · simp only [step, if_pos hallowed]
    exact Confined.of_complain _ world hworld
  simp only [step, if_neg hallowed]
  cases expr with
  | literal head value =>
      exact Confined.of_pure value world hworld
  | «variable» head =>
      exact Confined.of_lookup _ world hworld
  | command head command args => exact .listening hworld hallowed hpart
  | flock head command args =>
      exact (Confined.each hpart).bind
        (fun operands _ => .of_flockCommand _ command operands) world hworld
  | operation head operator args =>
      exact (Confined.each hpart).bind
        (fun operands _ => .of_operation operator operands) world hworld
  | block brackets body =>
      exact Confined.inOrder hpart 0 world hworld
  | make head target value =>
      exact (hpart value (by simp [Expr.parts])).bind
        (fun number _ => .of_rebind _ number) world hworld
  | repeatTimes head limit brackets body =>
      exact .counted hworld rfl hpart "repcount"
  | countTo head target limit brackets body =>
      exact .counted hworld rfl hpart target.variableName
  | countBy head target first last size brackets body =>
      refine (hpart first (by simp [Expr.parts]) world hworld).bind
        fun start second hfirst hsecond => ?_
      refine (hpart last (by simp [Expr.parts]) second hsecond).bind
        fun stop third hlast hthird => ?_
      refine (hpart size (by simp [Expr.parts]) third hthird).bind
        fun number fourth hsize hfourth => ?_
      have hbody (part : Expr) (hmem : part ∈ body) :=
        hpart part (by simp [Expr.parts, hmem])
      cases number.isTrue with
      | false => exact Confined.of_complain _ fourth hfourth
      | true =>
          refine (Confined.inOrder hbody 0).count _ _ (fun hlive hsum => ?_)
            fourth hfourth
          exact .countBy hfirst hlast hsize hlive hsum
  | ifThen head condition brackets body =>
      obtain ⟨hcondition, hbody⟩ := List.forall_mem_cons.mp hpart
      refine hcondition.bind (fun number _ => ?_) world hworld
      cases number.isTrue with
      | true => exact .inOrder hbody 0
      | false => exact .of_pure 0
  | ifElse head condition thenBrackets thenPart elseBrackets elsePart =>
      obtain ⟨hcondition, hparts⟩ := List.forall_mem_cons.mp hpart
      obtain ⟨hthen, helse⟩ := List.forall_mem_append.mp hparts
      refine hcondition.bind (fun number _ => ?_) world hworld
      cases number.isTrue with
      | true => exact .inOrder hthen 0
      | false => exact .inOrder helse 0
  | define head name params brackets body =>
      refine Confined.bind (.of_modify fun inner hinner => ?_)
        (fun _ _ => .of_pure 1) world hworld
      refine ⟨hinner.callable,
        hinner.bindings.install _ fun procedure heq part hmem => ?_⟩
      cases heq
      exact hexpr.part hmem
  | call head args =>
      refine (Confined.of_procedure _ _).bind
        (fun procedure hprocedure => ?_) world hworld
      refine (Confined.each hpart).bind fun inputs _ => ?_
      refine (Confined.inOrder (fun part hmem => ?_) 0).withLocals _
      have hknown := Confined.throughout_of_procedure hprocedure part hmem
      exact (hinner mode part hmode hknown).weaken
  | tell head brackets list =>
      refine (Confined.each hpart).bind (fun numbers _ => ?_) world hworld
      refine (Confined.of_address mode _ numbers).bind fun _ haddress => ?_
      obtain ⟨_, _, -, hrun⟩ := haddress
      refine (Confined.of_tell (Confined.identOf_of_address hrun)).bind
        fun _ _ => ?_
      exact .of_pure _
  | ask head listBrackets list brackets body =>
      obtain ⟨hlist, hbody⟩ := List.forall_mem_append.mp hpart
      refine (Confined.each hlist).bind (fun numbers _ => ?_) world hworld
      refine (Confined.of_address mode _ numbers).bind fun _ haddress => ?_
      obtain ⟨_, _, -, hrun⟩ := haddress
      refine (Confined.inOrder hbody 0).dispatch (fun number hnumber => ?_) 0
      obtain ⟨ident, hident⟩ := Confined.identOf_of_address hrun number hnumber
      exact Flock.not_isOversize_of_identOf hident
  | askWith head conditionBrackets condition brackets body =>
      obtain ⟨-, hbody⟩ := List.forall_mem_append.mp hpart
      -- The mode of the condition is not that of the whole, which is why modes
      -- only get purer.
      have hcondition (part : Expr) (hmem : part ∈ condition) :=
        hinner .pureAttempt part (by simp)
          (hexpr.part (List.mem_append_left body hmem))
      refine Confined.of_get.bind (fun same hsame => ?_) world hworld
      have hidents (ident : Nat)
          (hident : ident ∈ same.flock.turtles.map (·.ident)) :
          (Binary64.ofInt? ident).isSome := by
        obtain ⟨turtle, hturtle, rfl⟩ := List.mem_map.mp hident
        exact (Confined.familiar_of_get hsame).callable turtle hturtle
      have hchoice := (Confined.inOrder hcondition 0).satisfying hidents
      refine hchoice.weaken.bind fun chosen hchosen => ?_
      obtain ⟨_, _, -, hrun⟩ := hchosen
      refine (Confined.inOrder hbody 0).dispatch (fun number hnumber => ?_) 0
      obtain ⟨ident, hident, rfl⟩ := chosen_of_satisfying hrun hnumber
      exact Confined.not_isOversize_integer (hidents ident hident)

/-- Executing known expressions needs no excuse: who fails is blamed. -/
theorem confined_execute
    (depth : Nat) {mode : Mode}
    (hmode : mode = .effectful → setting.mode = .effectful)
    {expr : Expr} (hexpr : expr.Throughout setting.Known) :
    Confined setting False (execute setting.turns depth mode expr)
      fun blame => executeBlaming blame setting.turns depth mode expr := by
  induction depth generalizing mode expr with
  | zero => exact .of_throw nofun
  | succ depth ih =>
      intro world hworld
      have hstep :=
        ends_step
          (fun mode expr hmode hexpr => ih hmode hexpr) hmode hexpr hworld
      simp only [execute, executeBlaming]
      cases hstep with
      | value hresult hblaming hafter =>
          simp only [hresult, hblaming]
          exact .value rfl (fun _ => rfl) hafter
      | @failure fault after hresult hblaming hfault hafter =>
          simp only [hresult, hblaming]
          cases fault with
          | arithmetic trouble => exact absurd rfl (hfault trouble)
          | _ => exact .failure rfl (fun _ => rfl) hfault hafter
      | own hresult hblaming hunguarded hafter =>
          simp only [hresult, hblaming]
          exact .blamed rfl (fun _ => rfl)
            ⟨hexpr _ .self, hmode, hunguarded⟩ hafter
      | blamed hresult hblaming hblames hafter =>
          simp only [hresult, hblaming]
          exact .blamed rfl (fun _ => rfl) hblames hafter

theorem confined_inOrder
    (depth : Nat) {body : List Expr}
    (hbody : ∀ expr ∈ body, expr.Throughout setting.Known) :
    Confined setting False
      (inOrder (execute setting.turns depth setting.mode) 0 body)
      fun blame =>
        inOrder
          (executeBlaming blame setting.turns depth setting.mode) 0 body :=
  .inOrder (fun expr hmem => confined_execute depth id (hbody expr hmem)) 0

end Settings

/-- An expression occurs in a program or in a procedure that exists. -/
def Expr.OccursIn (part : Expr) (body : List Expr) (world : World) : Prop :=
  ∃ expr, part.Within expr ∧
    (expr ∈ body ∨
      ∃ name procedure,
        (name, Entry.function (.procedure procedure)) ∈ world.bindings.entries ∧
        expr ∈ procedure.body)

/-- A program fails at an expression: when its expressions make complaints of
their arithmetic faults, it ends with the complaint about this one, at this
depth, in this mode and in this world. -/
def Execution.FailsAt
    (limits : Limits) (mode : Mode) (body : List Expr) (world : World)
    (depth : Nat) (inner : Mode) (part : Expr) (met : World) : Prop :=
  ∃ after, ∀ blame : Blame,
    inOrder (executeBlaming blame limits.turns limits.depth mode) 0 body world =
      .error (.complaint (blame depth inner part met)) after

/-- A program whose arithmetic fails has met an integer that is too large in an
expression that occurs in it or in a procedure, and that is where it fails. -/
theorem program_eq_arithmetic
    {limits : Limits} {mode : Mode} {body : List Expr} {world after : World}
    {fault : ArithmeticFault} (hcallable : world.flock.Callable)
    (hframes : world.bindings.frames = [])
    (herror : program limits mode body world =
      .error (.arithmetic fault) after) :
    fault = .integerTooLarge ∧
      ∃ part depth inner met, part.OccursIn body world ∧
        (inner = .effectful → mode = .effectful) ∧
        part.Unguarded limits.turns depth inner met ∧
        FailsAt limits mode body world depth inner part met := by
  let setting : Setting := ⟨(·.OccursIn body world), mode, limits.turns⟩
  have hbody (expr : Expr) (hexpr : expr ∈ body) :
      expr.Throughout setting.Known :=
    fun part hpart => ⟨expr, hpart, .inl hexpr⟩
  have hworld : world.Familiar setting.Known := by
    refine ⟨hcallable, ?_, by simp [hframes, NameMap.All, NameMap.AllNamed]⟩
    rintro ⟨name, entry⟩ hentry procedure rfl expr hexpr part hpart
    exact ⟨expr, hpart, .inr ⟨name, procedure, hentry, hexpr⟩⟩
  have hrun :
      inOrder (execute limits.turns limits.depth mode) 0 body world =
        .error (.arithmetic fault) after := by
    unfold program at herror
    split at herror
    next => cases herror
    next => exact herror
  cases confined_inOrder limits.depth hbody world hworld with
  | value hresult => cases hrun.symm.trans hresult
  | failure hresult _ hfault =>
      cases hrun.symm.trans hresult
      exact absurd rfl (hfault fault)
  | own _ _ hexcuse => exact hexcuse.elim
  | @blamed depth inner part met last hresult hblaming hblames =>
      cases hrun.symm.trans hresult
      exact ⟨rfl, part, depth, inner, met, hblames.known, hblames.purer,
        hblames.unguarded, after, hblaming⟩

/-- A program leaves the turtles callable. -/
theorem callable_program
    {world : World} (hcallable : world.flock.Callable) (limits : Limits)
    (mode : Mode) (body : List Expr) :
    (finalState (program limits mode body world)).flock.Callable := by
  let setting : Setting := ⟨fun _ => True, mode, limits.turns⟩
  have hworld : world.Familiar setting.Known :=
    ⟨hcallable,
      fun _ _ _ _ _ _ _ _ => trivial, fun _ _ _ _ _ _ _ _ _ _ => trivial⟩
  have hbody (expr : Expr) (_ : expr ∈ body) : expr.Throughout setting.Known :=
    fun _ _ => trivial
  rw [finalState_program]
  cases confined_inOrder limits.depth hbody world hworld with
  | value hresult _ hafter => exact hresult ▸ hafter.callable
  | failure hresult _ _ hafter => exact hresult ▸ hafter.callable
  | own _ _ hexcuse => exact hexcuse.elim
  | blamed hresult _ _ hafter => exact hresult ▸ hafter.callable

theorem tally_of_isOversize
    {number : Number} (hlarge : number.IsOversize) (expr : Expr)
    (world : World) :
    tally expr number world = .error (.arithmetic .integerTooLarge) world := by
  unfold tally
  rw [Number.isFinite_of_isOversize hlarge]
  rfl

/-- No loop turns an integer that is too large into a complaint about the number
of its turns. -/
theorem execute_of_turns?
    {turns depth : Nat} {mode : Mode} {loop limit : Expr} {number : Number}
    {world after : World} (hturns : loop.turns? = some limit)
    (hlimit : execute turns depth mode limit world = .ok number after)
    (hlarge : number.IsOversize) :
    execute turns (depth + 1) mode loop world =
      .error (.arithmetic .integerTooLarge) after := by
  have htally := tally_of_isOversize hlarge limit after
  unfold Expr.turns? at hturns
  split at hturns <;> cases hturns
  all_goals
    simp only [execute, step, Expr.isPure, not_true_eq_false,
      and_false, if_false]
    rw [bind_eq_of_ok hlimit, bind_eq_of_error htally]

theorem program_of_turns?
    {limits : Limits} {depth : Nat} {mode : Mode} {loop limit : Expr}
    {rest : List Expr} {number : Number} {world after : World}
    (hdepth : limits.depth = depth + 1) (hturns : loop.turns? = some limit)
    (hlimit : execute limits.turns depth mode limit world = .ok number after)
    (hlarge : number.IsOversize) :
    program limits mode (loop :: rest) world =
      .error (.arithmetic .integerTooLarge) after := by
  have hloop := execute_of_turns? hturns hlimit hlarge
  unfold program Execution.inOrder
  rw [hdepth, bind_eq_of_error hloop]

end Logo
