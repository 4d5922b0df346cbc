import Logo.Proofs.Execution.Balance

/-!
# A pure attempt foretells the effectful run

A pure attempt and the effectful run of the same program from the same world do
the same, step by step, until the attempt is turned down.  The relation
`Foretells` between two outcomes says so, and the instructions are compared here
one by one, over two ways to execute the expressions inside of them that stand
in this relation.

The end of a local scope needs care.  An attempt that is turned down inside of a
scope still has to close it, and only because the frames are balanced does the
refusal get through.
-/

namespace Logo

open Logo.Action Execution

/-- The expressions that turn a pure attempt down: those that change something
by themselves, and `ask`, as a turtle that it addresses may have to hatch. -/
def Expr.MayRefuse : Expr → Prop
  | .make .. => True
  | .define .. => True
  | .tell .. => True
  | .ask .. => True
  | .command _ c _ => c.isQuery = false
  | .flock _ c _ => c.isQuery = false
  | _ => False

/-- What the outcome of a pure attempt says about the outcome of the effectful
run. -/
inductive Foretells {α : Type} :
    EStateM.Result Fault World α → EStateM.Result Fault World α → Prop where
  | value (a : α) (final : World) :
      Foretells (.ok a final) (.ok a final)
  | failure (fault : Fault) (final : World) (hfault : fault.isRefusal = false) :
      Foretells (.error fault final) (.error fault final)
  | refusal (expr : Expr) (final : World) (hexpr : expr.MayRefuse)
      (outcome : EStateM.Result Fault World α) :
      Foretells (.error (.complaint (.impure (.expr expr))) final) outcome

theorem Foretells.left
    {attempt outcome : EStateM.Result Fault World α}
    (hforetells : Foretells attempt outcome) :
    Foretells attempt attempt := by
  cases hforetells with
  | value a final => exact .value a final
  | failure fault final hfault => exact .failure fault final hfault
  | refusal expr final hexpr => exact .refusal expr final hexpr _

/-- From every world the first action foretells the second one. -/
def Foretold (attempt action : Action α) : Prop :=
  ∀ world, Foretells (attempt world) (action world)

namespace Foretold

theorem bind
    {attempt action : Action α} {attemptNext actionNext : α → Action β}
    (haction : Foretold attempt action)
    (hnext : ∀ a, Foretold (attemptNext a) (actionNext a)) :
    Foretold (attempt >>= attemptNext) (action >>= actionNext) := by
  intro world
  have hfirst := haction world
  generalize hattempt : attempt world = before at hfirst
  generalize hrun : action world = after at hfirst
  cases hfirst with
  | value a between =>
      rw [bind_eq_of_ok hattempt, bind_eq_of_ok hrun]
      exact hnext a between
  | failure fault final hfault =>
      rw [bind_eq_of_error hattempt, bind_eq_of_error hrun]
      exact .failure fault final hfault
  | refusal expr final hexpr =>
      rw [bind_eq_of_error hattempt]
      exact .refusal expr final hexpr _

/-- A clean-up that cannot fail lets every outcome through. -/
theorem andFinally
    {attempt action : Action α} {cleanup : Action Unit} {world final : World}
    (haction : Foretells (attempt world) (action world))
    (hcleanup : cleanup (finalState (attempt world)) = .ok () final) :
    Foretells (attempt.andFinally cleanup world)
      (action.andFinally cleanup world) := by
  unfold Action.andFinally
  generalize attempt world = before at haction hcleanup
  generalize action world = after at haction
  cases haction with
  | value a between =>
      rw [finalState_ok] at hcleanup
      simp only [hcleanup]
      exact .value a final
  | failure fault between hfault =>
      rw [finalState_error] at hcleanup
      simp only [hcleanup]
      exact .failure fault final hfault
  | refusal expr between hexpr =>
      rw [finalState_error] at hcleanup
      simp only [hcleanup]
      exact .refusal expr final hexpr _

theorem of_observes
    {action : Action α} (hobserves : Observes action) :
    Foretold action action := by
  intro world
  rcases hobserves world with ⟨a, hrun⟩ | ⟨fault, hfault, hrun⟩
  · rw [hrun]
    exact .value a world
  · rw [hrun]
    exact .failure fault world hfault

theorem of_pure (a : α) : Foretold (pure a : Action α) (pure a) :=
  of_observes (pure_observes a)

theorem of_rebind (name : String) (number : Number) :
    Foretold (Action.bind name number) (Action.bind name number) := by
  intro world
  rw [bind_eq]
  exact .value _ _

theorem of_commandOne
    (expr : Expr) (word : String) (command : TurtleCommand) (ident : Nat)
    (operands : List Number) :
    Foretold (commandOne expr word command ident operands)
      (commandOne expr word command ident operands) := by
  apply bind (of_observes (turtle_observes ident))
  intro before
  apply bind (of_observes (pinning_observes word expr _))
  rintro ⟨after, answer⟩
  cases answer with
  | some number => exact of_pure number
  | none =>
      apply bind fun world => .value _ _
      intro x
      apply bind fun world => .value _ _
      intro y
      apply bind fun world => .value _ _
      intro _
      exact of_observes (bare_observes _)

theorem of_flockCommand
    (expr : Expr) (word : String) (command : FlockCommand)
    (operands : List Number) :
    Foretold (flockCommand expr word command operands)
      (flockCommand expr word command operands) := by
  apply bind (of_observes get_observes)
  intro world
  apply bind (of_observes (pinning_observes word expr _))
  rintro ⟨flock, answer⟩
  apply bind fun world => .value _ _
  intro _
  exact of_pure _

theorem of_operation
    (expr : Expr) (operator : Operator) (operands : List Number) :
    Foretold (operation expr operator operands)
      (operation expr operator operands) := by
  unfold operation
  simp only
  split
  · apply bind fun world => .value _ _
    intro random
    exact of_observes (pinning_observes _ _ _)
  · apply bind (of_pure _)
    intro random
    exact of_observes (pinning_observes _ _ _)

section Combined

variable {attempt action : Action Number}
  {attemptEach actionEach : Expr → Action Number}

theorem inOrder
    (heach : ∀ expr, Foretold (attemptEach expr) (actionEach expr))
    (result : Number) (body : List Expr) :
    Foretold (Execution.inOrder attemptEach result body)
      (Execution.inOrder actionEach result body) := by
  induction body generalizing result with
  | nil => exact of_pure result
  | cons expr rest ih =>
      apply bind (heach expr)
      intro value
      exact ih value

theorem each
    (heach : ∀ expr, Foretold (attemptEach expr) (actionEach expr))
    (exprs : List Expr) :
    Foretold (Execution.each attemptEach exprs)
      (Execution.each actionEach exprs) := by
  induction exprs with
  | nil => exact of_pure []
  | cons expr rest ih =>
      apply bind (heach expr)
      intro number
      apply bind ih
      intro numbers
      exact of_pure _

theorem focused
    {attempt action : Action α} (haction : Foretold attempt action)
    (number : Number) :
    Foretold (Action.focused [number] attempt)
      (Action.focused [number] action) := by
  intro world
  cases hident : Flock.identOf number with
  | error trouble =>
      rw [focused_of_error hident, focused_of_error hident]
      exact .failure _ _ (isRefusal_unpinned trouble)
  | ok ident =>
      rw [focused_of_identOf hident, focused_of_identOf hident]
      exact andFinally (haction _) rfl

theorem unmarking
    (haction : Foretold attempt action) :
    Foretold (Action.unmarking attempt) (Action.unmarking action) := by
  intro world
  unfold Action.unmarking
  rw [get_bind, get_bind]
  exact andFinally (haction world) rfl

/-- A refusal gets out of a local scope, as the scope can be closed. -/
theorem withLocal
    (haction : Foretold attempt action) (hbalanced : Keeps Balanced attempt)
    (name : String) (number : Number) :
    Foretold (Action.withLocal name number attempt)
      (Action.withLocal name number action) := by
  intro world
  have hframes := (hbalanced (world.entered name number)).frames
  rw [withLocal_eq, withLocal_eq]
  exact andFinally (haction _) (removeLocal_eq_left hframes)

theorem withLocals
    (haction : Foretold attempt action) (hbalanced : Keeps Balanced attempt)
    (inputs : List (String × Number)) :
    Foretold (Action.withLocals inputs attempt)
      (Action.withLocals inputs action) := by
  induction inputs with
  | nil => exact haction
  | cons input rest ih =>
      obtain ⟨name, number⟩ := input
      have hrest :=
        (Balanced.discipline .pureAttempt).keeps_withLocals rest hbalanced
      exact ih.withLocal hrest name number

theorem turnsAfter
    (haction : Foretold attempt action) (name : String)
    (turns : Nat) (counter : Counter) (result : Number) :
    Foretold (Execution.turnsAfter name attempt turns counter result)
      (Execution.turnsAfter name action turns counter result) := by
  induction turns generalizing counter result with
  | zero => exact of_observes (throw_observes rfl)
  | succ turns ih =>
      apply bind (of_observes (bare_observes counter.next))
      intro next
      split
      · apply bind (of_rebind name next.value)
        intro _
        apply bind haction
        intro value
        exact ih next value
      · exact of_pure result

theorem count
    (haction : Foretold attempt action) (hbalanced : Keeps Balanced attempt)
    (turns : Nat) (name : String) (counter : Counter) :
    Foretold (Execution.count turns name counter attempt)
      (Execution.count turns name counter action) := by
  have hlaw := Balanced.discipline .pureAttempt
  unfold Execution.count
  split
  · apply withLocal
    · apply bind haction
      intro value
      exact haction.turnsAfter name turns counter value
    · apply hlaw.keeps_bind hbalanced
      intro value
      exact hlaw.keeps_turnsAfter name hbalanced turns counter value
  · exact of_pure 0

theorem commandEach
    {attempt action : Action (List Number)} (haction : Foretold attempt action)
    (expr : Expr) (word : String) (command : TurtleCommand)
    (result : Number) (idents : List Nat) :
    Foretold (Execution.commandEach expr word command attempt result idents)
      (Execution.commandEach expr word command action result idents) := by
  induction idents generalizing result with
  | nil => exact of_pure result
  | cons ident rest ih =>
      have hturn :
          Foretold
            (attempt >>= fun operands =>
              commandOne expr word command ident operands)
            (action >>= fun operands =>
              commandOne expr word command ident operands) :=
        bind haction fun operands =>
          of_commandOne expr word command ident operands
      apply bind (hturn.focused (.integer ident))
      intro value
      exact ih value

/-- An attempt at addressing turtles goes on as long as all of them exist, and
then none hatches. -/
theorem address
    {expr : Expr} (hexpr : expr.MayRefuse) (list : Expr)
    (numbers : List Number) :
    Foretold (Execution.address .pureAttempt expr list numbers)
      (Execution.address .effectful expr list numbers) := by
  induction numbers with
  | nil => exact of_pure ()
  | cons number rest ih =>
      intro world
      rw [address_pureAttempt_cons, address_effectful_cons]
      cases hident : Flock.identOf number with
      | error trouble =>
          exact .failure _ _ (isRefusal_pinned _ _ trouble)
      | ok ident =>
          simp only
          split
          next hcontains =>
            rw [Flock.hatch_eq_self hcontains]
            exact ih world
          next => exact .refusal expr world hexpr _

theorem dispatch
    (haction : Foretold attempt action)
    (result : Number) (numbers : List Number) :
    Foretold (Execution.dispatch attempt result numbers)
      (Execution.dispatch action result numbers) := by
  induction numbers generalizing result with
  | nil => exact of_pure result
  | cons number rest ih =>
      apply bind (haction.focused number)
      intro value
      exact ih value

theorem satisfying
    (haction : Foretold attempt action) (idents : List Nat) :
    Foretold (Execution.satisfying attempt idents)
      (Execution.satisfying action idents) := by
  induction idents with
  | nil => exact of_pure []
  | cons ident rest ih =>
      apply bind (haction.unmarking.focused (.integer ident))
      intro value
      apply bind ih
      intro chosen
      exact of_pure _

end Combined

theorem complain_impure
    {expr : Expr} (hexpr : expr.MayRefuse) (action : Action α) :
    Foretold (complain (.impure (.expr expr))) action :=
  fun world => .refusal expr world hexpr _

end Foretold

theorem Expr.mayRefuse_of_isPure_eq_false
    {expr : Expr} (himpure : expr.isPure = false) :
    expr.MayRefuse := by
  cases expr <;> simp_all [Expr.isPure, Expr.MayRefuse]

/-- At one expression the attempt foretells the run, if it does at the
expressions inside. -/
theorem foretold_step
    (turns : Nat) {execute : Mode → Expr → Action Number}
    (hexecute :
      ∀ expr, Foretold (execute .pureAttempt expr) (execute .effectful expr))
    (hbalanced : ∀ expr, Keeps Balanced (execute .pureAttempt expr))
    (expr : Expr) :
    Foretold (step turns execute .pureAttempt expr)
      (step turns execute .effectful expr) := by
  have heach := Foretold.each hexecute
  have hblock := Foretold.inOrder hexecute 0
  have hkeeps :=
    (Balanced.discipline .pureAttempt).keeps_inOrder hbalanced 0
  unfold step
  split
  next himpure =>
    have himpure : expr.isPure = false := by simpa using himpure
    exact Foretold.complain_impure (Expr.mayRefuse_of_isPure_eq_false himpure) _
  next hallowed =>
    cases expr with
    | literal head value => exact .of_pure value
    | «variable» head => exact .of_observes (lookup_observes _ _)
    | command head command args =>
        apply Foretold.bind (.of_observes listeners_observes)
        intro idents
        exact (heach args).commandEach _ _ command 0 idents
    | flock head command args =>
        apply Foretold.bind (heach args)
        intro operands
        exact .of_flockCommand _ _ command operands
    | operation head operator args =>
        apply Foretold.bind (heach args)
        intro operands
        exact .of_operation _ operator operands
    | block brackets body => exact hblock body
    | make head target value => simp [Expr.isPure] at hallowed
    | repeatTimes head limit brackets body =>
        apply Foretold.bind (hexecute limit)
        intro number
        apply Foretold.bind (.of_observes (tally_observes limit number))
        intro last
        exact (hblock body).count (hkeeps body) turns _ _
    | countTo head target limit brackets body =>
        apply Foretold.bind (hexecute limit)
        intro number
        apply Foretold.bind (.of_observes (tally_observes limit number))
        intro last
        exact (hblock body).count (hkeeps body) turns _ _
    | countBy head target first last size brackets body =>
        apply Foretold.bind (hexecute first)
        intro start
        apply Foretold.bind (hexecute last)
        intro stop
        apply Foretold.bind (hexecute size)
        intro number
        split
        · exact (hblock body).count (hkeeps body) turns _ _
        · exact .of_observes (mishap_observes _ _)
    | ifThen head condition brackets body =>
        apply Foretold.bind (hexecute condition)
        intro number
        split
        · exact hblock body
        · exact .of_pure 0
    | ifElse head condition thenBrackets thenPart elseBrackets elsePart =>
        apply Foretold.bind (hexecute condition)
        intro number
        split
        · exact hblock thenPart
        · exact hblock elsePart
    | define head name params brackets body => simp [Expr.isPure] at hallowed
    | call head args =>
        apply Foretold.bind (.of_observes (procedure_observes _ _ _))
        intro procedure
        apply Foretold.bind (heach args)
        intro inputs
        exact (hblock procedure.body).withLocals (hkeeps procedure.body) _
    | tell head brackets list => simp [Expr.isPure] at hallowed
    | ask head listBrackets list brackets body =>
        have hask : (Expr.ask head listBrackets list brackets body).MayRefuse :=
          trivial
        apply Foretold.bind (heach list)
        intro numbers
        apply Foretold.bind (.address hask _ numbers)
        intro _
        exact (hblock body).dispatch 0 numbers
    | askWith head conditionBrackets condition brackets body =>
        have hcondition :
            Foretold (inOrder (execute .pureAttempt) 0 condition)
              (inOrder (execute .pureAttempt) 0 condition) :=
          fun world => (hblock condition world).left
        apply Foretold.bind (.of_observes get_observes)
        intro world
        apply Foretold.bind (hcondition.satisfying _)
        intro chosen
        exact (hblock body).dispatch 0 chosen

theorem foretold_execute (turns depth : Nat) (expr : Expr) :
    Foretold (execute turns depth .pureAttempt expr)
      (execute turns depth .effectful expr) := by
  induction depth generalizing expr with
  | zero => exact .of_observes (throw_observes rfl)
  | succ depth ih =>
      have hbalanced :=
        (Balanced.discipline .pureAttempt).keeps_execute turns depth
      exact foretold_step turns ih hbalanced expr

theorem foretold_program (limits : Limits) (body : List Expr) :
    Foretold (program limits .pureAttempt body)
      (program limits .effectful body) := by
  intro world
  have hbody :=
    Foretold.inOrder (foretold_execute limits.turns limits.depth) 0 body world
  unfold program
  generalize inOrder
    (execute limits.turns limits.depth .pureAttempt) 0 body world =
    attempt at hbody
  generalize inOrder
    (execute limits.turns limits.depth .effectful) 0 body world =
    outcome at hbody
  cases hbody with
  | value number final => exact .value number final
  | refusal expr final hexpr => exact .refusal expr final hexpr _
  | failure fault final hfault =>
      split
      · exact .failure _ _ rfl
      · exact .failure fault final hfault

/-- The two modes agree.  From every world, for every expression and every
program, a pure attempt that yields a value foretells the very same value and
final world of the effectful run; one that fails foretells the very same fault
and final world; and one that is turned down was so by an expression that would
have changed something, or by an `ask`. -/
theorem pure_attempt_foretells_effectful_run (world : World) :
    (∀ turns depth expr,
      Foretells (execute turns depth .pureAttempt expr world)
        (execute turns depth .effectful expr world)) ∧
    (∀ limits body,
      Foretells (program limits .pureAttempt body world)
        (program limits .effectful body world)) := by
  constructor
  · intro turns depth expr
    exact foretold_execute turns depth expr world
  · intro limits body
    exact foretold_program limits body world

end Logo
