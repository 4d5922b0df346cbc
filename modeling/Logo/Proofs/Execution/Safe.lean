import Logo.Proofs.Execution.Balance
import Logo.Proofs.Execution.Confined
import Logo.Proofs.Execution.Operands
import Logo.Proofs.Flock.Sound
import Logo.Proofs.Program.Complete
import Logo.Proofs.Scopes

/-!
# What an execution may end with

An execution that starts in a sound world ends in a sound world, and when it
fails then with a fault that is to be foreseen: a complaint that points at an
expression, arithmetic that nobody answers for, or a limit that is reached.  For
programs of any origin, whose instructions may hold wrong numbers of operands
and which may find any entries in the table, this is stated leniently.

Two ways to execute the expressions inside of an instruction that agree in all
sound worlds make no difference to the instruction.  So whatever is executed on
the way is executed in a sound world.
-/

namespace Logo

open Logo.Action Execution

section Safety

variable (lenient : Prop) (Good : Expr → Prop)

/-- A property of expressions that passes to all that a complaint can point
at. -/
structure Hereditary : Prop where
  part : ∀ expr part, Good expr → part ∈ expr.parts → Good part
  addressed : ∀ expr list, Good expr → expr.addressed? = some list → Good list
  counted : ∀ expr, Good expr → lenient ∨ expr.Counted

/-- The table holds numbers, and procedures that are put together from good
expressions. -/
def Entry.Sound : Entry → Prop
  | .string _ => lenient
  | .function (.procedure procedure) => ∀ expr ∈ procedure.body, Good expr
  | .function _ => lenient
  | _ => True

structure World.Sound (world : World) : Prop where
  flock : world.flock.Sound
  entries : world.bindings.entries.All (Entry.Sound lenient Good)

/-- The faults of an execution.  A turtle that listens is never missing. -/
inductive Fault.Foreseen : Fault → Prop where
  | mishap {place : Expr} (hplace : Good place) (mishap : Mishap) :
      Foreseen (.complaint (.mishap mishap (some (.expr place))))
  | undefined {place : Expr} (hplace : Good place) (name : String) :
      Foreseen (.complaint (.undefined name false (some (.expr place))))
  | impure {place : Expr} (hplace : Good place) :
      Foreseen (.complaint (.impure (.expr place)))
  | arithmetic (fault : ArithmeticFault) : Foreseen (.arithmetic fault)
  | tooDeep : Foreseen .tooDeep
  | unfinished : Foreseen .unfinished
  | operandCount (hlenient : lenient) : Foreseen (.broken .operandCount)
  | notAProcedure (hlenient : lenient) (value : Value) :
      Foreseen (.broken (.notAProcedure value))

/-- A sound world, and a fault that is to be foreseen if there is one. -/
def Ending.Sound {α : Type} : EStateM.Result Fault World α → Prop
  | .ok _ world => world.Sound lenient Good
  | .error fault world => fault.Foreseen lenient Good ∧ world.Sound lenient Good

/-- From one world, an action ends soundly and another one does the same. -/
def SafeAt {α : Type} (action twin : Action α) (world : World) : Prop :=
  Ending.Sound lenient Good (action world) ∧ twin world = action world

/-- From every sound world, an action ends soundly and another one does the
same. -/
def Safe {α : Type} (action twin : Action α) : Prop :=
  ∀ world, world.Sound lenient Good → SafeAt lenient Good action twin world

variable {lenient Good}

/-- What holds of everything that occurs in a program or in a procedure holds
throughout both. -/
theorem forall_within_of_occursIn
    {P : Expr → Prop} {body : List Expr} {world : World}
    (hparts : ∀ part : Expr, part.OccursIn body world → P part) :
    (∀ expr ∈ body, ∀ part : Expr, part.Within expr → P part) ∧
      world.bindings.entries.All
        (Entry.Sound True fun expr => ∀ part : Expr,
          part.Within expr → P part) := by
  constructor
  · intro expr hexpr part hpart
    exact hparts part ⟨expr, hpart, .inl hexpr⟩
  · rintro ⟨name, entry⟩ hentry
    cases entry with
    | function value =>
        cases value with
        | procedure procedure =>
            intro expr hexpr part hpart
            exact hparts part
              ⟨expr, hpart, .inr ⟨name, procedure, hentry, hexpr⟩⟩
        | _ => trivial
    | _ => trivial

theorem Entry.sound_ofNumber (number : Number) :
    (Entry.ofNumber number).Sound lenient Good := by
  cases number <;> trivial

theorem Entry.Sound.mono
    {Better : Expr → Prop} {entry : Entry} (hentry : entry.Sound lenient Good)
    (hle : ∀ expr, Good expr → Better expr) : entry.Sound lenient Better := by
  unfold Entry.Sound at hentry ⊢
  split at hentry
  · exact hentry
  · exact fun expr hexpr => hle expr (hentry expr hexpr)
  · exact hentry
  · trivial

theorem World.Sound.mono
    {Better : Expr → Prop} {world : World} (hworld : world.Sound lenient Good)
    (hle : ∀ expr, Good expr → Better expr) : world.Sound lenient Better :=
  ⟨hworld.flock,
    fun binding hbinding => (hworld.entries binding hbinding).mono hle⟩

theorem Ending.Sound.finalState
    {α : Type} {result : EStateM.Result Fault World α}
    (hresult : Ending.Sound lenient Good result) :
    (finalState result).Sound lenient Good := by
  cases result with
  | ok a world => exact hresult
  | error fault world => exact hresult.2

namespace World.Sound

variable {world : World}

theorem withFlock (hworld : world.Sound lenient Good) {flock : Flock}
    (hflock : flock.Sound) :
    ({ world with flock := flock } : World).Sound lenient Good :=
  ⟨hflock, hworld.entries⟩

theorem entered (hworld : world.Sound lenient Good) (name : String)
    (number : Number) :
    (world.entered name number).Sound lenient Good :=
  ⟨hworld.flock, hworld.entries.insert name (Entry.sound_ofNumber _)⟩

/-- Behind a scope, the name has its old entry again. -/
theorem left
    {inner : World} (hworld : world.Sound lenient Good)
    (hinner : inner.Sound lenient Good) (name : String) :
    (world.left inner name).Sound lenient Good :=
  ⟨hinner.flock,
    hinner.entries.assign name fun _ hentry => hworld.entries.get? hentry⟩

theorem focusedOn
    (hworld : world.Sound lenient Good) {number : Number} {ident : Nat}
    (hident : Flock.identOf number = .ok ident) :
    (world.focusedOn ident).Sound lenient Good := by
  apply hworld.withFlock
  apply (hworld.flock.hatch hident).select
  simp [Flock.Sound.contains_hatch_self]

/-- Behind a focus, those listen again who did before, and they are still
there. -/
theorem refocused
    {inner : World} (hworld : world.Sound lenient Good)
    (hinner : inner.Sound lenient Good)
    (hstays : ∀ ident, world.flock.contains ident = true →
      inner.flock.contains ident = true) :
    (inner.refocused world).Sound lenient Good :=
  hinner.withFlock (hinner.flock.select fun ident hident =>
    hstays ident (hworld.flock.listening ident hident))

end World.Sound

namespace Safe

section Actions

variable {α β : Type} {world : World}

theorem bindAt
    {action twin : Action α} {next next' : α → Action β}
    (haction : SafeAt lenient Good action twin world)
    (hnext :
      ∀ a after, action world = .ok a after → after.Sound lenient Good →
        SafeAt lenient Good (next a) (next' a) after) :
    SafeAt lenient Good (action >>= next) (twin >>= next') world := by
  obtain ⟨hends, hsame⟩ := haction
  cases hrun : action world with
  | ok a after =>
      rw [hrun] at hends hsame
      unfold SafeAt
      rw [bind_eq_of_ok hrun, bind_eq_of_ok hsame]
      exact hnext a after hrun hends
  | error fault after =>
      rw [hrun] at hends hsame
      unfold SafeAt
      rw [bind_eq_of_error hrun, bind_eq_of_error hsame]
      exact ⟨hends, rfl⟩

theorem bind
    {action twin : Action α} {next next' : α → Action β}
    (haction : Safe lenient Good action twin)
    (hnext :
      ∀ a, (∃ world after, action world = .ok a after) →
        Safe lenient Good (next a) (next' a)) :
    Safe lenient Good (action >>= next) (twin >>= next') :=
  fun world hworld => bindAt (haction world hworld) fun a after hrun hafter =>
    hnext a ⟨world, after, hrun⟩ after hafter

/-- What an action reads first is the world it is in. -/
theorem getAt
    {next next' : World → Action α}
    (hnext : SafeAt lenient Good (next world) (next' world) world) :
    SafeAt lenient Good (get >>= next) (get >>= next') world := by
  unfold SafeAt
  rw [get_bind, get_bind]
  exact hnext

theorem of_pure (a : α) : Safe lenient Good (pure a : Action α) (pure a) :=
  fun _ hworld => ⟨hworld, rfl⟩

theorem of_throw {fault : Fault} (hfault : fault.Foreseen lenient Good) :
    Safe lenient Good (throw fault : Action α) (throw fault) :=
  fun _ hworld => ⟨⟨hfault, hworld⟩, rfl⟩

theorem of_mishap {place : Expr} (hplace : Good place) (mishap : Mishap) :
    Safe lenient Good (Action.mishap mishap place : Action α)
      (Action.mishap mishap place) :=
  of_throw (.mishap hplace mishap)

theorem of_modify
    {change : World → World}
    (hchange : ∀ world, world.Sound lenient Good →
      (change world).Sound lenient Good) :
    Safe lenient Good (modify change : Action PUnit) (modify change) :=
  fun world hworld => ⟨hchange world hworld, rfl⟩

theorem of_bare (result : Except ArithmeticFault α) :
    Safe lenient Good (bare result) (bare result) := by
  cases result with
  | ok a => exact of_pure a
  | error fault => exact of_throw (.arithmetic fault)

theorem of_pinning
    {place : Expr} (hplace : Good place) {result : Except Trouble α}
    (hresult : lenient ∨ Counts result) (word : String) :
    Safe lenient Good (pinning word place result)
      (pinning word place result) := by
  cases result with
  | ok a => exact of_pure a
  | error trouble =>
      apply of_throw
      cases trouble with
      | refused refusal => exact .mishap hplace _
      | arithmetic fault => exact .mishap hplace _
      | operandCount =>
          exact .operandCount (hresult.resolve_right fun hcounts => hcounts rfl)

theorem eq_ok_of_pinning
    {place : Expr} {word : String} {result : Except Trouble α} {a : α}
    {after : World} (hrun : pinning word place result world = .ok a after) :
    result = .ok a := by
  cases result with
  | ok b =>
      cases hrun
      rfl
  | error trouble => cases hrun

theorem of_keep (number : Number) :
    Safe lenient Good (keep number) (keep number) :=
  fun _ hworld => ⟨⟨hworld.flock, hworld.entries⟩, rfl⟩

theorem of_draw : Safe lenient Good draw draw :=
  fun _ hworld => ⟨⟨hworld.flock, hworld.entries⟩, rfl⟩

/-- Everyone who listens is found. -/
theorem listeners_eq (hworld : world.Sound lenient Good) :
    listeners world = .ok world.flock.active world := by
  obtain ⟨turtles, hlisteners, hidents⟩ := hworld.flock.listeners_eq
  unfold listeners
  rw [get_bind, hlisteners, ← hidents]
  rfl

theorem of_rebind (name : String) (number : Number) :
    Safe lenient Good (Action.bind name number) (Action.bind name number) := by
  intro world hworld
  refine ⟨?_, rfl⟩
  rw [Action.bind_eq]
  exact ⟨hworld.flock, hworld.entries.insert name (Entry.sound_ofNumber _)⟩

theorem of_tell
    {numbers : List Number}
    (hnumbers : ∀ number ∈ numbers, ∃ ident, Flock.identOf number = .ok ident) :
    Safe lenient Good (Action.tell numbers) (Action.tell numbers) := by
  intro world hworld
  have htold := hworld.flock.tell numbers
  obtain ⟨idents, hidents⟩ := Flock.tell_of_identOf hnumbers world.flock
  refine ⟨?_, rfl⟩
  unfold Action.tell
  split
  next htell =>
    rw [htell] at htold
    exact hworld.withFlock htold
  next htell =>
    rw [htell] at hidents
    cases hidents

/-- A clean-up behind an action, where the clean-up succeeds and leads to a
sound world. -/
theorem andFinallyAt
    {action twin : Action α} {cleanup : Action Unit} {after : World}
    (haction : SafeAt lenient Good action twin world)
    (hcleanup : cleanup (finalState (action world)) = .ok () after)
    (hafter : after.Sound lenient Good) :
    SafeAt lenient Good (action.andFinally cleanup)
      (twin.andFinally cleanup) world := by
  obtain ⟨hends, hsame⟩ := haction
  unfold SafeAt Action.andFinally
  rw [hsame]
  cases hrun : action world with
  | ok a inner =>
      rw [hrun, finalState_ok] at hcleanup
      simp only [hcleanup]
      exact ⟨hafter, trivial⟩
  | error fault inner =>
      rw [hrun] at hends
      rw [hrun, finalState_error] at hcleanup
      simp only [hcleanup]
      exact ⟨⟨hends.1, hafter⟩, trivial⟩

end Actions

section Combined

variable {body body' : Action Number}

/-- The frames are balanced, so the end of a scope finds what its opening
left. -/
theorem withLocal
    (hbody : Safe lenient Good body body') (hbalanced : Keeps Balanced body)
    (name : String) (number : Number) :
    Safe lenient Good (Action.withLocal name number body)
      (Action.withLocal name number body') := by
  intro world hworld
  have hinside := hbody _ (hworld.entered name number)
  have hframes := (hbalanced (world.entered name number)).frames
  unfold SafeAt
  rw [withLocal_eq, withLocal_eq]
  exact andFinallyAt hinside (removeLocal_eq_left hframes)
    (hworld.left hinside.1.finalState name)

theorem withLocals
    (hbody : Safe lenient Good body body') (hbalanced : Keeps Balanced body)
    (inputs : List (String × Number)) :
    Safe lenient Good (Action.withLocals inputs body)
      (Action.withLocals inputs body') := by
  induction inputs with
  | nil => exact hbody
  | cons input rest ih =>
      exact ih.withLocal (withLocals_keeps rest hbalanced) input.1 input.2

/-- A focus on a number of a turtle: the turtle is there when the inside
starts. -/
theorem focused
    {number : Number} {ident : Nat} (hident : Flock.identOf number = .ok ident)
    (hbody :
      ∀ world, world.Sound lenient Good → world.flock.contains ident = true →
        SafeAt lenient Good body body' world)
    (hbalanced : Keeps Balanced body) :
    Safe lenient Good (Action.focused [number] body)
      (Action.focused [number] body') := by
  intro world hworld
  have hthere : (world.focusedOn ident).flock.contains ident = true :=
    Flock.Sound.contains_hatch_self _ _
  have hinside := hbody _ (hworld.focusedOn hident) hthere
  have hkeeps :=
    (Balanced.focusedOn world ident).trans (hbalanced (world.focusedOn ident))
  unfold SafeAt
  rw [focused_of_identOf hident, focused_of_identOf hident]
  exact andFinallyAt hinside rfl
    (hworld.refocused hinside.1.finalState hkeeps.stays)

theorem unmarking (hbody : Safe lenient Good body body') :
    Safe lenient Good (Action.unmarking body) (Action.unmarking body') := by
  intro world hworld
  have hinside := hbody world hworld
  have hafter := hinside.1.finalState
  have hcleaned :
      ({ finalState (body world) with marks := world.marks } : World).Sound
        lenient Good :=
    ⟨hafter.flock, hafter.entries⟩
  exact getAt (andFinallyAt hinside rfl hcleaned)

theorem turnsAfter
    (hbody : Safe lenient Good body body') (name : String) (turns : Nat)
    (counter : Counter) (result : Number) :
    Safe lenient Good (Execution.turnsAfter name body turns counter result)
      (Execution.turnsAfter name body' turns counter result) := by
  induction turns generalizing counter result with
  | zero => exact of_throw .unfinished
  | succ turns ih =>
      refine (of_bare counter.next).bind fun later _ => ?_
      split
      · refine (of_rebind name later.value).bind fun _ _ => ?_
        exact hbody.bind fun value _ => ih later value
      · exact of_pure result

theorem count
    (hbody : Safe lenient Good body body') (hbalanced : Keeps Balanced body)
    (turns : Nat) (name : String) (counter : Counter) :
    Safe lenient Good (Execution.count turns name counter body)
      (Execution.count turns name counter body') := by
  have hlaw := Balanced.discipline .effectful
  unfold Execution.count
  split
  · refine withLocal (hbody.bind fun value _ => ?_) ?_ name counter.value
    · exact hbody.turnsAfter name turns counter value
    · exact hlaw.keeps_bind hbalanced fun value =>
        hlaw.keeps_turnsAfter name hbalanced turns counter value
  · exact of_pure 0

theorem dispatch
    (hbody : Safe lenient Good body body') (hbalanced : Keeps Balanced body)
    {numbers : List Number}
    (hnumbers : ∀ number ∈ numbers, ∃ ident, Flock.identOf number = .ok ident)
    (result : Number) :
    Safe lenient Good (Execution.dispatch body result numbers)
      (Execution.dispatch body' result numbers) := by
  induction numbers generalizing result with
  | nil => exact of_pure result
  | cons number rest ih =>
      rw [List.forall_mem_cons] at hnumbers
      obtain ⟨⟨ident, hident⟩, hnumbers⟩ := hnumbers
      have hfirst :=
        focused hident (fun world hworld _ => hbody world hworld) hbalanced
      exact hfirst.bind fun value _ => ih hnumbers value

theorem satisfying
    (hbody : Safe lenient Good body body') (hbalanced : Keeps Balanced body)
    {idents : List Nat}
    (hidents : ∀ ident ∈ idents, Flock.identOf (.integer ident) = .ok ident) :
    Safe lenient Good (Execution.satisfying body idents)
      (Execution.satisfying body' idents) := by
  have hkeeps := (Balanced.discipline .pureAttempt).keeps_unmarking hbalanced
  induction idents with
  | nil => exact of_pure []
  | cons ident rest ih =>
      rw [List.forall_mem_cons] at hidents
      have hfirst :=
        focused hidents.1
          (fun world hworld _ => hbody.unmarking world hworld) hkeeps
      refine hfirst.bind fun value _ => ?_
      exact (ih hidents.2).bind fun chosen _ => of_pure _

end Combined

section Instructions

variable {expr : Expr}

theorem of_lookup (hexpr : Good expr) (name : String) :
    Safe lenient Good (lookup expr name) (lookup expr name) := by
  intro world hworld
  refine getAt ?_
  cases world.bindings.entries.get? name with
  | none => exact of_throw (.undefined hexpr name) world hworld
  | some entry =>
      cases entry with
      | integer n => exact of_pure _ world hworld
      | double x => exact of_pure _ world hworld
      | marked mark => exact of_pure _ world hworld
      | string text => exact of_mishap hexpr _ world hworld
      | function value => exact of_mishap hexpr _ world hworld

theorem of_operation
    (hexpr : Good expr) {operator : Operator} {operands : List Number}
    (hcounts : lenient ∨ ∀ draw, Counts (operator.value draw operands)) :
    Safe lenient Good (operation expr operator operands)
      (operation expr operator operands) := by
  have hvalue (draw : Float) :=
    of_pinning hexpr (hcounts.imp_right fun hall => hall draw) operator.symbol
  unfold operation
  simp only
  split
  · exact of_draw.bind fun draw _ => hvalue draw
  · exact (of_pure _).bind fun draw _ => hvalue draw

theorem of_flockCommand
    (hexpr : Good expr) {command : FlockCommand} {operands : List Number}
    (hcounts : lenient ∨ ∀ flock, Counts (command.update operands flock))
    (word : String) :
    Safe lenient Good (flockCommand expr word command operands)
      (flockCommand expr word command operands) := by
  intro world hworld
  have hpinned :=
    of_pinning hexpr
      (hcounts.imp_right fun hall => hall world.flock) word world hworld
  refine getAt (bindAt hpinned fun result after hrun hafter => ?_)
  obtain ⟨flock, answer⟩ := result
  have hflock := (hworld.flock.update (eq_ok_of_pinning hrun)).1
  exact ⟨hafter.withFlock hflock, rfl⟩

/-- A command to a turtle that exists. -/
theorem commandOneAt
    (hexpr : Good expr) {command : TurtleCommand} {operands : List Number}
    (hcounts : lenient ∨ ∀ turtle, Counts (command.update operands turtle))
    (word : String) {ident : Nat} {world : World}
    (hworld : world.Sound lenient Good)
    (hthere : world.flock.contains ident = true) :
    SafeAt lenient Good (commandOne expr word command ident operands)
      (commandOne expr word command ident operands) world := by
  obtain ⟨before, hget⟩ := Option.isSome_iff_exists.mp hthere
  have hturtle : turtle ident world = .ok before world := by
    unfold turtle
    rw [get_bind, hget]
    rfl
  have hfound : SafeAt lenient Good (turtle ident) (turtle ident) world := by
    unfold SafeAt
    rw [hturtle]
    exact ⟨hworld, rfl⟩
  refine bindAt hfound fun found after _ hafter => ?_
  refine bind (of_pinning hexpr (hcounts.imp_right fun hall => hall found) word)
    ?_ after hafter
  rintro ⟨changed, answer⟩ -
  cases answer with
  | some number => exact of_pure number
  | none =>
      refine (of_keep changed.x).bind fun x _ => ?_
      refine (of_keep changed.y).bind fun y _ => ?_
      refine bind (of_modify fun later hlater => ?_) fun _ _ => of_bare _
      exact hlater.withFlock (hlater.flock.put _)

theorem commandEach
    (hexpr : Good expr) {command : TurtleCommand}
    {args args' : Action (List Number)} (hargs : Safe lenient Good args args')
    (hbalanced : Keeps Balanced args)
    (hcounts :
      lenient ∨
        ∀ operands turtle, (∃ world after, args world = .ok operands after) →
        Counts (command.update operands turtle))
    {idents : List Nat}
    (hidents : ∀ ident ∈ idents, Flock.identOf (.integer ident) = .ok ident)
    (word : String) (result : Number) :
    Safe lenient Good
      (Execution.commandEach expr word command args result idents)
      (Execution.commandEach expr word command args' result idents) := by
  induction idents generalizing result with
  | nil => exact of_pure result
  | cons ident rest ih =>
      rw [List.forall_mem_cons] at hidents
      have hlaw := Balanced.discipline .effectful
      have hkeeps :
          Keeps Balanced
            (args >>= fun operands =>
              commandOne expr word command ident operands) :=
        hlaw.keeps_bind hbalanced fun operands =>
          hlaw.command rfl expr word command ident operands
      have hturn :
          Safe lenient Good
            (Action.focused [.integer ident]
              (args >>= fun operands =>
                commandOne expr word command ident operands))
            (Action.focused [.integer ident]
              (args' >>= fun operands =>
                commandOne expr word command ident operands)) := by
        refine focused hidents.1 (fun world hworld hthere => ?_) hkeeps
        refine bindAt (hargs world hworld) fun operands after hrun hafter => ?_
        refine commandOneAt hexpr ?_ word hafter ?_
        · exact hcounts.imp_right
            fun hall turtle => hall operands turtle ⟨world, after, hrun⟩
        · have hstays := (hbalanced world).stays ident hthere
          rwa [hrun] at hstays
      exact hturn.bind fun value _ => ih hidents.2 value

theorem of_tally (hexpr : Good expr) (number : Number) :
    Safe lenient Good (tally expr number) (tally expr number) := by
  have hendless :
      Safe lenient Good
        (bare number.text >>= fun text =>
          (Action.mishap (.endlessCount text) expr : Action Int))
        (bare number.text >>= fun text =>
          Action.mishap (.endlessCount text) expr) :=
    (of_bare _).bind fun _ _ => of_mishap hexpr _
  refine (of_bare _).bind fun finite _ => ?_
  cases number.truncate? with
  | none => exact hendless
  | some n =>
      cases finite with
      | true => exact of_pure n
      | false => exact hendless

theorem of_address
    (hexpr : Good expr) {list : Expr} (hlist : Good list) (mode : Mode)
    (numbers : List Number) :
    Safe lenient Good (address mode expr list numbers)
      (address mode expr list numbers) := by
  have hpinned {trouble : Trouble} {number : Number}
      (hident : Flock.identOf number = .error trouble) :
      (pinned list.head.text list trouble).Foreseen lenient Good := by
    cases trouble with
    | refused refusal => exact .mishap hlist _
    | arithmetic fault => exact .mishap hlist _
    | operandCount => exact absurd hident (Flock.counts_identOf number)
  induction numbers with
  | nil => exact of_pure ()
  | cons number rest ih =>
      intro world hworld
      refine ⟨?_, rfl⟩
      cases mode with
      | effectful =>
          rw [address_effectful_cons]
          cases hident : Flock.identOf number with
          | ok ident =>
              exact (ih _ (hworld.withFlock (hworld.flock.hatch hident))).1
          | error trouble => exact ⟨hpinned hident, hworld⟩
      | pureAttempt =>
          rw [address_pureAttempt_cons]
          cases hident : Flock.identOf number with
          | ok ident =>
              simp only
              split
              · exact (ih world hworld).1
              · exact ⟨.impure hexpr, hworld⟩
          | error trouble => exact ⟨hpinned hident, hworld⟩

theorem of_procedure (hexpr : Good expr) (name : String) (inputs : Nat) :
    Safe lenient Good (procedure expr name inputs)
      (procedure expr name inputs) := by
  intro world hworld
  refine getAt ?_
  cases hentry : world.bindings.entries.get? name with
  | none => exact of_throw (.undefined hexpr name) world hworld
  | some entry =>
      have hsound := hworld.entries.get? hentry
      cases entry with
      | function value =>
          cases value with
          | procedure found =>
              simp only
              split
              · exact of_pure found world hworld
              · exact of_mishap hexpr _ world hworld
          | _ => exact of_throw (.notAProcedure hsound _) world hworld
      | _ => exact of_mishap hexpr _ world hworld

end Instructions

section Lists

variable {run run' : Expr → Action Number}

theorem inOrder
    {body : List Expr}
    (hbody : ∀ expr ∈ body, Safe lenient Good (run expr) (run' expr))
    (result : Number) :
    Safe lenient Good (Execution.inOrder run result body)
      (Execution.inOrder run' result body) := by
  induction body generalizing result with
  | nil => exact of_pure result
  | cons expr rest ih =>
      rw [List.forall_mem_cons] at hbody
      exact hbody.1.bind fun value _ => ih hbody.2 value

theorem each
    {exprs : List Expr}
    (hexprs : ∀ expr ∈ exprs, Safe lenient Good (run expr) (run' expr)) :
    Safe lenient Good (Execution.each run exprs)
      (Execution.each run' exprs) := by
  induction exprs with
  | nil => exact of_pure []
  | cons expr rest ih =>
      rw [List.forall_mem_cons] at hexprs
      refine hexprs.1.bind fun number _ => ?_
      exact (ih hexprs.2).bind fun numbers _ => of_pure _

end Lists

end Safe

/-- One expression is safe if the expressions inside of it are. -/
theorem safe_step
    (hgood : Hereditary lenient Good) (turns : Nat)
    {execute execute' : Mode → Expr → Action Number}
    (hexecute :
      ∀ mode expr, Good expr →
        Safe lenient Good (execute mode expr) (execute' mode expr))
    (hbalanced : ∀ mode expr, Keeps Balanced (execute mode expr)) (mode : Mode)
    {expr : Expr} (hexpr : Good expr) :
    Safe lenient Good (step turns execute mode expr)
      (step turns execute' mode expr) := by
  have hgoodPart (part : Expr) (hmem : part ∈ expr.parts) : Good part :=
    hgood.part expr part hexpr hmem
  have hpart (part : Expr) (hmem : part ∈ expr.parts) :
      Safe lenient Good (execute mode part) (execute' mode part) :=
    hexecute mode part (hgoodPart part hmem)
  have hcounted := hgood.counted expr hexpr
  have hlaw := Balanced.discipline mode
  have hbody (body : List Expr) :
      Keeps Balanced (inOrder (execute mode) 0 body) :=
    hlaw.keeps_inOrder (hbalanced mode) 0 body
  unfold step
  split
  next => exact .of_throw (.impure hexpr)
  next =>
    cases expr with
    | literal head value => exact .of_pure value
    | «variable» head => exact .of_lookup hexpr _
    | command head command args =>
        intro world hworld
        have hidents (ident : Nat) (hident : ident ∈ world.flock.active) :=
          hworld.flock.identOf_eq (hworld.flock.listening ident hident)
        have hlisteners := Safe.listeners_eq hworld
        unfold SafeAt
        simp only
        rw [bind_eq_of_ok hlisteners, bind_eq_of_ok hlisteners]
        refine (Safe.each hpart).commandEach hexpr
          (hlaw.keeps_each (hbalanced mode) args) ?_
          hidents head.text 0 world hworld
        refine hcounted.imp_right fun hlength operands turtle hoperands => ?_
        obtain ⟨_, _, heach⟩ := hoperands
        exact TurtleCommand.counts_update
          ((length_of_each heach).trans hlength) turtle
    | flock head command args =>
        refine (Safe.each hpart).bind fun operands hoperands =>
          .of_flockCommand hexpr ?_ head.text
        obtain ⟨_, _, heach⟩ := hoperands
        refine hcounted.imp_right fun hlength flock => ?_
        exact FlockCommand.counts_update
          ((length_of_each heach).trans hlength) flock
    | operation head operator args =>
        refine (Safe.each hpart).bind fun operands hoperands =>
          .of_operation hexpr ?_
        obtain ⟨_, _, heach⟩ := hoperands
        have hnumber : operands.length = args.length := length_of_each heach
        refine hcounted.imp_right fun hlength draw => ?_
        rw [Expr.Counted, ← hnumber] at hlength
        exact Operator.counts_value hlength draw
    | block brackets body => exact .inOrder hpart 0
    | make head target value =>
        exact (hpart value (by simp [Expr.parts])).bind
          fun number _ => .of_rebind _ number
    | repeatTimes head limit brackets body =>
        obtain ⟨hlimit, hinside⟩ := List.forall_mem_cons.mp hpart
        refine hlimit.bind fun number _ => ?_
        refine (Safe.of_tally
          (hgoodPart limit (by simp [Expr.parts])) number).bind fun last _ => ?_
        exact (Safe.inOrder hinside 0).count (hbody body) turns _ _
    | countTo head target limit brackets body =>
        obtain ⟨hlimit, hinside⟩ := List.forall_mem_cons.mp hpart
        refine hlimit.bind fun number _ => ?_
        refine (Safe.of_tally
          (hgoodPart limit (by simp [Expr.parts])) number).bind fun last _ => ?_
        exact (Safe.inOrder hinside 0).count (hbody body) turns _ _
    | countBy head target first last size brackets body =>
        obtain ⟨hfirst, hlast, hsize, hinside⟩ :
            Safe lenient Good (execute mode first) (execute' mode first) ∧
              Safe lenient Good (execute mode last) (execute' mode last) ∧
                Safe lenient Good (execute mode size) (execute' mode size) ∧
                  ∀ part ∈ body, Safe lenient Good (execute mode part)
                    (execute' mode part) := by
          simpa [Expr.parts] using hpart
        refine hfirst.bind fun start _ => ?_
        refine hlast.bind fun stop _ => ?_
        refine hsize.bind fun number _ => ?_
        split
        · exact (Safe.inOrder hinside 0).count (hbody body) turns _ _
        · exact .of_mishap (hgoodPart size (by simp [Expr.parts])) _
    | ifThen head condition brackets body =>
        obtain ⟨hcondition, hinside⟩ := List.forall_mem_cons.mp hpart
        refine hcondition.bind fun number _ => ?_
        split
        · exact .inOrder hinside 0
        · exact .of_pure 0
    | ifElse head condition thenBrackets thenPart elseBrackets elsePart =>
        obtain ⟨hcondition, hparts⟩ := List.forall_mem_cons.mp hpart
        obtain ⟨hthen, helse⟩ := List.forall_mem_append.mp hparts
        refine hcondition.bind fun number _ => ?_
        split
        · exact .inOrder hthen 0
        · exact .inOrder helse 0
    | define head name params brackets body =>
        refine Safe.bind (.of_modify fun world hworld => ?_)
          fun _ _ => .of_pure 1
        exact ⟨hworld.flock, hworld.entries.insert _ hgoodPart⟩
    | call head args =>
        intro world hworld
        refine Safe.bindAt (Safe.of_procedure hexpr _ _ world hworld) ?_
        intro procedure after hrun hafter
        have hprocedure := hworld.entries.get? (get?_of_procedure_eq_ok hrun)
        refine (Safe.each hpart).bind (fun inputs _ => ?_) after hafter
        refine (Safe.inOrder (fun part hmem => ?_) 0).withLocals
          (hbody procedure.body) _
        exact hexecute mode part (hprocedure part hmem)
    | tell head brackets list =>
        have hlist := hgood.addressed _ _ hexpr rfl
        refine (Safe.each hpart).bind fun numbers _ => ?_
        refine (Safe.of_address hexpr hlist mode numbers).bind
          fun _ haddress => ?_
        obtain ⟨_, _, hrun⟩ := haddress
        refine (Safe.of_tell (Confined.identOf_of_address hrun)).bind
          fun _ _ => ?_
        exact .of_pure _
    | ask head listBrackets list brackets body =>
        have hlist := hgood.addressed _ _ hexpr rfl
        obtain ⟨heach, hinside⟩ := List.forall_mem_append.mp hpart
        refine (Safe.each heach).bind fun numbers _ => ?_
        refine (Safe.of_address hexpr hlist mode numbers).bind
          fun _ haddress => ?_
        obtain ⟨_, _, hrun⟩ := haddress
        exact (Safe.inOrder hinside 0).dispatch (hbody body)
          (Confined.identOf_of_address hrun) 0
    | askWith head conditionBrackets condition brackets body =>
        obtain ⟨-, hinside⟩ := List.forall_mem_append.mp hpart
        have hcondition (part : Expr) (hmem : part ∈ condition) :
            Safe lenient Good (execute .pureAttempt part)
              (execute' .pureAttempt part) :=
          hexecute .pureAttempt part
            (hgoodPart part (List.mem_append_left _ hmem))
        intro world hworld
        have hidents (ident : Nat)
            (hident : ident ∈ world.flock.turtles.map (·.ident)) :
            Flock.identOf (.integer ident) = .ok ident := by
          obtain ⟨turtle, hturtle, rfl⟩ := List.mem_map.mp hident
          exact hworld.flock.identOf_eq
            ((Flock.contains_iff _ _).mpr ⟨turtle, hturtle, rfl⟩)
        have hasked :=
          (Balanced.discipline .pureAttempt).keeps_inOrder
            (hbalanced .pureAttempt) 0 condition
        refine Safe.getAt (Safe.bind ?_ (fun chosen hchosen => ?_) world hworld)
        · exact (Safe.inOrder hcondition 0).satisfying hasked hidents
        · obtain ⟨_, _, hrun⟩ := hchosen
          refine (Safe.inOrder hinside 0).dispatch (hbody body)
            (fun number hnumber => ?_) 0
          obtain ⟨ident, hident, rfl⟩ := chosen_of_satisfying hrun hnumber
          exact ⟨ident, hidents ident hident⟩

theorem safe_execute
    (hgood : Hereditary lenient Good) (turns depth : Nat) (mode : Mode)
    {expr : Expr} (hexpr : Good expr) :
    Safe lenient Good (execute turns depth mode expr)
      (execute turns depth mode expr) := by
  induction depth generalizing mode expr with
  | zero => exact .of_throw .tooDeep
  | succ depth ih =>
      exact safe_step hgood turns (fun mode expr hexpr => ih mode hexpr)
        (balanced_execute turns depth) mode hexpr

/-- The faults of a program: those of its expressions, and a complaint about all
of it. -/
theorem ending_program
    (hgood : Hereditary lenient Good) (limits : Limits) (mode : Mode)
    {body : List Expr} (hbody : ∀ expr ∈ body, Good expr) {world : World}
    (hworld : world.Sound lenient Good) :
    Ending.Sound lenient Good (program limits mode body world) ∨
      ∃ after, after.Sound lenient Good ∧ body ≠ [] ∧
        program limits mode body world =
          .error (.complaint
            (.mishap .tooDeep (some (.program body)))) after := by
  have hrun := (Safe.inOrder (fun expr hmem =>
    safe_execute hgood limits.turns limits.depth mode
      (hbody expr hmem)) 0 world hworld).1
  unfold program
  split
  next after heq =>
    rw [heq] at hrun
    refine .inr ⟨after, hrun.2, ?_, rfl⟩
    rintro rfl
    cases heq
  next => exact .inl hrun

end Safety

/-- Of programs with no special property one asks for nothing but a sound
flock. -/
theorem hereditary_true : Hereditary True fun _ => True :=
  ⟨fun _ _ _ _ => trivial, fun _ _ _ _ => trivial, fun _ _ => .inl trivial⟩

theorem Entry.sound_true (entry : Entry) : entry.Sound True fun _ => True := by
  unfold Entry.Sound
  split <;> simp

theorem World.sound_of_flock {world : World} (hflock : world.flock.Sound) :
    world.Sound True fun _ => True :=
  ⟨hflock, fun binding _ => binding.2.sound_true⟩

end Logo
