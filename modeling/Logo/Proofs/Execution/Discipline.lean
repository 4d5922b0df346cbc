import Logo.Proofs.Execution.Keeps
import Logo.Proofs.Flock.Members

/-!
# Relations that every execution keeps

Every instruction changes the world through a few actions: it opens and closes
local scopes, it rebinds the variable of its own loop, it lets a single turtle
listen for a while, and if it may leave marks it also binds names, moves turtles
and addresses new ones.  A `Discipline` says that these actions keep a relation.
Then so does the execution of every expression, at any depth and however it
ends.
-/

namespace Logo

open Logo.Action Execution

/-- What the actions of a mode have to keep.  `Inside name` is a wider relation,
for the inside of a local scope, where the name of the scope may be bound anew.
A pure attempt only lets turtles listen that exist. -/
structure Discipline
    (mode : Mode) (R : World → World → Prop)
    (Inside : String → World → World → Prop) : Prop where
  refl : ∀ world, R world world
  trans : ∀ a b c, R a b → R b c → R a c
  stays :
    ∀ a b, R a b →
      ∀ ident, a.flock.contains ident = true → b.flock.contains ident = true
  marks : ∀ world marks, R world { world with marks := marks }
  draws : ∀ world draws, R world { world with draws := draws }
  inside : ∀ name a b, R a b → Inside name a b
  insideTrans : ∀ name a b c, Inside name a b → Inside name b c →
    Inside name a c
  rebind : ∀ name number, Keeps (Inside name) (Action.bind name number)
  scope :
    ∀ name number (body : Action Number),
      Keeps (Inside name) body → Keeps R (withLocal name number body)
  focus :
    ∀ number (body : Action Number) world,
      mode = .effectful ∨ world.flock.Knows number →
        Keeps R body → R world (finalState (focused [number] body world))
  bind :
    mode = .effectful → ∀ name number, Keeps R (Action.bind name number)
  install :
    mode = .effectful → ∀ world name entry,
      R world { world with bindings := world.bindings.install name entry }
  command :
    mode = .effectful → ∀ expr word command ident operands,
      Keeps R (commandOne expr word command ident operands)
  flock :
    mode = .effectful → ∀ expr word command operands,
      Keeps R (flockCommand expr word command operands)
  hatch :
    mode = .effectful → ∀ world number ident, Flock.identOf number = .ok ident →
      R world { world with flock := world.flock.hatch ident }
  tell : mode = .effectful → ∀ numbers, Keeps R (Action.tell numbers)

/-- A question is answered, and the turtle stays as it is. -/
theorem TurtleCommand.update_of_isQuery
    {command : TurtleCommand} (hquery : command.isQuery = true)
    {operands : List Number} {before after : Turtle} {answer : Option Number}
    (hupdate : command.update operands before = .ok (after, answer)) :
    after = before ∧ ∃ number, answer = some number := by
  cases command <;> simp [isQuery] at hquery <;>
    cases operands <;> simp [update] at hupdate <;>
    exact ⟨hupdate.1.symm, _, hupdate.2.symm⟩

theorem FlockCommand.update_of_isQuery
    {command : FlockCommand} (hquery : command.isQuery = true)
    {operands : List Number} {before after : Flock} {answer : Option Number}
    (hupdate : command.update operands before = .ok (after, answer)) :
    after = before := by
  cases command <;> simp [isQuery] at hquery
  cases operands <;> simp [update] at hupdate
  exact hupdate.1.symm

theorem commandOne_reads
    {command : TurtleCommand} (hquery : command.isQuery = true)
    (expr : Expr) (word : String) (ident : Nat) (operands : List Number) :
    Keeps Eq (commandOne expr word command ident operands) := by
  unfold commandOne
  refine reads_bind (turtle_observes ident).reads fun before => ?_
  cases hupdate : command.update operands before with
  | error trouble => exact throw_reads _
  | ok result =>
      obtain ⟨after, answer⟩ := result
      obtain ⟨-, number, rfl⟩ := TurtleCommand.update_of_isQuery hquery hupdate
      exact pure_reads number

theorem flockCommand_reads
    {command : FlockCommand} (hquery : command.isQuery = true)
    (expr : Expr) (word : String) (operands : List Number) :
    Keeps Eq (flockCommand expr word command operands) := by
  intro world
  unfold flockCommand
  rw [get_bind]
  cases hupdate : command.update operands world.flock with
  | error trouble => rfl
  | ok result =>
      obtain ⟨after, answer⟩ := result
      have hsame := FlockCommand.update_of_isQuery hquery hupdate
      subst hsame
      rfl

/-- The turtles that listen exist. -/
theorem contains_of_listeners
    {world after : World} {idents : List Nat}
    (hrun : listeners world = .ok idents after) :
    after = world ∧ ∀ ident ∈ idents, world.flock.contains ident = true := by
  have hsame : world = after := by
    have hreads := listeners_observes.reads world
    rw [hrun] at hreads
    exact hreads
  refine ⟨hsame.symm, ?_⟩
  unfold listeners at hrun
  rw [get_bind] at hrun
  cases hturtles : world.flock.listeners with
  | error ident =>
      rw [hturtles] at hrun
      cases hrun
  | ok turtles =>
      rw [hturtles] at hrun
      cases hrun
      intro ident hmem
      obtain ⟨turtle, hturtle, rfl⟩ := List.mem_map.mp hmem
      exact Flock.contains_of_mem_listeners hturtles hturtle

theorem address_effectful_cons
    (expr list : Expr) (number : Number) (rest : List Number) (world : World) :
    address .effectful expr list (number :: rest) world =
      match Flock.identOf number with
      | .ok ident =>
          address .effectful expr list rest
            { world with flock := world.flock.hatch ident }
      | .error trouble =>
          .error (pinned list.head.text list trouble) world := by
  change (pinning list.head.text list (world.flock.summon number) >>=
    fun (result : Nat × Flock) =>
      modify (fun world => { world with flock := result.2 }) >>=
        fun _ => address .effectful expr list rest) world = _
  cases hident : Flock.identOf number with
  | error trouble =>
      rw [Flock.summon_of_error hident]
      rfl
  | ok ident =>
      rw [Flock.summon_of_identOf hident]
      rfl

theorem address_pureAttempt_cons
    (expr list : Expr) (number : Number) (rest : List Number) (world : World) :
    address .pureAttempt expr list (number :: rest) world =
      match Flock.identOf number with
      | .ok ident =>
          if world.flock.contains ident = true then
            address .pureAttempt expr list rest world
          else .error (.complaint (.impure (.expr expr))) world
      | .error trouble =>
          .error (pinned list.head.text list trouble) world := by
  cases hident : Flock.identOf number with
  | error trouble =>
      change
        (pinning list.head.text list (Flock.identOf number) >>= _) world = _
      rw [hident]
      rfl
  | ok ident =>
      change
        (pinning list.head.text list (Flock.identOf number) >>= _) world = _
      rw [hident]
      change (if world.flock.contains ident = true then
          address .pureAttempt expr list rest
        else complain (.impure (.expr expr)) >>= fun _ =>
          address .pureAttempt expr list rest) world = _
      simp only
      split
      · rfl
      · rfl

/-- A pure attempt goes on only with numbers of turtles that exist. -/
theorem knows_of_address
    {expr list : Expr} {numbers : List Number} {world after : World}
    (hrun : address .pureAttempt expr list numbers world = .ok () after) :
    after = world ∧ ∀ number ∈ numbers, world.flock.Knows number := by
  induction numbers with
  | nil =>
      cases hrun
      exact ⟨rfl, by simp⟩
  | cons number rest ih =>
      rw [address_pureAttempt_cons] at hrun
      cases hident : Flock.identOf number with
      | error trouble => simp [hident] at hrun
      | ok ident =>
          simp only [hident] at hrun
          split at hrun
          next hcontains =>
            obtain ⟨hsame, hrest⟩ := ih hrun
            refine ⟨hsame, ?_⟩
            intro other hother
            rcases List.mem_cons.mp hother with rfl | hother
            · intro named hnamed
              rw [hident, Except.ok.injEq] at hnamed
              rw [← hnamed]
              exact hcontains
            · exact hrest other hother
          next => cases hrun

theorem chosen_of_satisfying
    {condition : Action Number} {idents : List Nat} {chosen : List Number}
    {world after : World}
    (hrun : satisfying condition idents world = .ok chosen after)
    {number : Number} (hnumber : number ∈ chosen) :
    ∃ ident ∈ idents, number = .integer ident := by
  induction idents generalizing chosen world with
  | nil =>
      cases hrun
      simp at hnumber
  | cons ident rest ih =>
      obtain ⟨value, between, -, hrun⟩ := exists_of_bind_eq_ok hrun
      obtain ⟨others, last, hrest, hrun⟩ := exists_of_bind_eq_ok hrun
      cases hrun
      have hothers (hmem : number ∈ others) :
          ∃ other ∈ ident :: rest, number = .integer other := by
        obtain ⟨other, hother, hnumber⟩ := ih hrest hmem
        exact ⟨other, List.mem_cons_of_mem ident hother, hnumber⟩
      split at hnumber
      · rcases List.mem_cons.mp hnumber with rfl | hmem
        · exact ⟨ident, List.mem_cons_self, rfl⟩
        · exact hothers hmem
      · exact hothers hnumber

namespace Discipline

variable {mode : Mode} {R : World → World → Prop}
  {Inside : String → World → World → Prop}

/-- A pure attempt has less to keep. -/
theorem pureAttempt (hlaw : Discipline mode R Inside) :
    Discipline .pureAttempt R Inside where
  refl := hlaw.refl
  trans := hlaw.trans
  stays := hlaw.stays
  marks := hlaw.marks
  draws := hlaw.draws
  inside := hlaw.inside
  insideTrans := hlaw.insideTrans
  rebind := hlaw.rebind
  scope := hlaw.scope
  focus := by
    intro number body world hknows
    refine hlaw.focus number body world ?_
    rcases hknows with hmode | hknows
    · contradiction
    · exact .inr hknows
  bind := fun hmode => nomatch hmode
  install := fun hmode => nomatch hmode
  command := fun hmode => nomatch hmode
  flock := fun hmode => nomatch hmode
  hatch := fun hmode => nomatch hmode
  tell := fun hmode => nomatch hmode

theorem keeps_reads
    (hlaw : Discipline mode R Inside) {α : Type} {action : Action α}
    (hreads : Keeps Eq action) :
    Keeps R action :=
  hreads.of_eq hlaw.refl

theorem keeps_bind
    (hlaw : Discipline mode R Inside) {α β : Type}
    {action : Action α} {next : α → Action β}
    (haction : Keeps R action) (hnext : ∀ a, Keeps R (next a)) :
    Keeps R (action >>= next) :=
  haction.bind hlaw.trans hnext

theorem keeps_inOrder
    (hlaw : Discipline mode R Inside) {execute : Expr → Action Number}
    (hexecute : ∀ expr, Keeps R (execute expr))
    (result : Number) (body : List Expr) :
    Keeps R (inOrder execute result body) := by
  induction body generalizing result with
  | nil => exact hlaw.keeps_reads (pure_reads result)
  | cons expr rest ih =>
      exact hlaw.keeps_bind (hexecute expr) fun value => ih value

theorem keeps_each
    (hlaw : Discipline mode R Inside) {execute : Expr → Action Number}
    (hexecute : ∀ expr, Keeps R (execute expr)) (exprs : List Expr) :
    Keeps R (each execute exprs) := by
  induction exprs with
  | nil => exact hlaw.keeps_reads (pure_reads [])
  | cons expr rest ih =>
      refine hlaw.keeps_bind (hexecute expr) fun number => ?_
      refine hlaw.keeps_bind ih fun numbers => ?_
      exact hlaw.keeps_reads (pure_reads _)

theorem keeps_operation
    (hlaw : Discipline mode R Inside)
    (expr : Expr) (operator : Operator) (operands : List Number) :
    Keeps R (operation expr operator operands) := by
  have hvalue (random : Float) :
      Keeps R (pinning operator.symbol expr (operator.value random operands)) :=
    hlaw.keeps_reads (pinning_observes _ _ _).reads
  unfold operation
  simp only
  split
  · exact hlaw.keeps_bind (fun world => hlaw.draws world _) hvalue
  · exact hlaw.keeps_bind (hlaw.keeps_reads (pure_reads _)) hvalue

theorem keeps_unmarking
    (hlaw : Discipline mode R Inside) {action : Action Number}
    (haction : Keeps R action) :
    Keeps R (unmarking action) := by
  intro world
  unfold unmarking
  rw [get_bind, finalState_andFinally_modify]
  exact hlaw.trans _ _ _ (haction world) (hlaw.marks _ _)

/-- The turns of a loop stay inside of its scope. -/
theorem keeps_turnsAfter
    (hlaw : Discipline mode R Inside) (name : String) {body : Action Number}
    (hbody : Keeps R body) (turns : Nat) (counter : Counter) (result : Number) :
    Keeps (Inside name) (turnsAfter name body turns counter result) := by
  have hrefl : ∀ world, Inside name world world :=
    fun world => hlaw.inside name world world (hlaw.refl world)
  induction turns generalizing counter result with
  | zero => exact (throw_reads _).of_eq hrefl
  | succ turns ih =>
      unfold turnsAfter
      refine Keeps.bind (hlaw.insideTrans name)
        ((bare_observes counter.next).reads.of_eq hrefl) fun next => ?_
      split
      · refine Keeps.bind (hlaw.insideTrans name)
          (hlaw.rebind name next.value) fun _ => ?_
        refine Keeps.bind (hlaw.insideTrans name)
          (hbody.mono (hlaw.inside name)) fun value => ?_
        exact ih next value
      · exact (pure_reads result).of_eq hrefl

theorem keeps_count
    (hlaw : Discipline mode R Inside) (turns : Nat) (name : String)
    (counter : Counter) {body : Action Number} (hbody : Keeps R body) :
    Keeps R (count turns name counter body) := by
  unfold count
  split
  · apply hlaw.scope
    refine Keeps.bind (hlaw.insideTrans name)
      (hbody.mono (hlaw.inside name)) fun value => ?_
    exact hlaw.keeps_turnsAfter name hbody turns counter value
  · exact hlaw.keeps_reads (pure_reads 0)

theorem keeps_withLocals
    (hlaw : Discipline mode R Inside) (inputs : List (String × Number))
    {body : Action Number} (hbody : Keeps R body) :
    Keeps R (withLocals inputs body) := by
  induction inputs with
  | nil => exact hbody
  | cons input rest ih =>
      obtain ⟨name, number⟩ := input
      exact hlaw.scope name number _ (ih.mono (hlaw.inside name))

/-- The turns of the listening turtles.  All of them still exist when their
turns come. -/
theorem keeps_commandEach
    (hlaw : Discipline mode R Inside) (expr : Expr) (word : String)
    {command : TurtleCommand}
    (hcommand : mode = .effectful ∨ command.isQuery = true)
    {operands : Action (List Number)} (hoperands : Keeps R operands)
    (result : Number) (idents : List Nat) (world : World)
    (hidents : ∀ ident ∈ idents, world.flock.contains ident = true) :
    R world
      (finalState
        (commandEach expr word command operands result idents world)) := by
  induction idents generalizing result world with
  | nil => exact hlaw.refl world
  | cons ident rest ih =>
      have hturn :
          Keeps R
            (operands >>= fun numbers =>
              commandOne expr word command ident numbers) := by
        refine hlaw.keeps_bind hoperands fun numbers => ?_
        rcases hcommand with hmode | hquery
        · exact hlaw.command hmode expr word command ident numbers
        · exact hlaw.keeps_reads
            (commandOne_reads hquery expr word ident numbers)
      have hknows : world.flock.Knows (.integer ident) :=
        Flock.knows_integer (hidents ident List.mem_cons_self)
      have hfirst := hlaw.focus (.integer ident) _ world (.inr hknows) hturn
      refine finalState_bind hlaw.trans hfirst ?_
      intro value after hrun
      rw [hrun] at hfirst
      apply ih
      intro other hother
      exact hlaw.stays world after hfirst other
        (hidents other (List.mem_cons_of_mem ident hother))

theorem keeps_satisfying
    (hlaw : Discipline mode R Inside) {condition : Action Number}
    (hcondition : Keeps R condition) (idents : List Nat) (world : World)
    (hidents : ∀ ident ∈ idents, world.flock.contains ident = true) :
    R world (finalState (satisfying condition idents world)) := by
  induction idents generalizing world with
  | nil => exact hlaw.refl world
  | cons ident rest ih =>
      have hknows : world.flock.Knows (.integer ident) :=
        Flock.knows_integer (hidents ident List.mem_cons_self)
      have hfirst :=
        hlaw.focus (.integer ident) _ world (.inr hknows)
          (hlaw.keeps_unmarking hcondition)
      refine finalState_bind hlaw.trans hfirst ?_
      intro value after hrun
      rw [hrun] at hfirst
      refine finalState_bind hlaw.trans (ih after ?_) fun chosen last _ =>
        hlaw.refl last
      intro other hother
      exact hlaw.stays world after hfirst other
        (hidents other (List.mem_cons_of_mem ident hother))

theorem keeps_address
    (hlaw : Discipline mode R Inside) (expr list : Expr)
    (numbers : List Number) :
    Keeps R (address mode expr list numbers) := by
  cases mode with
  | pureAttempt =>
      exact hlaw.keeps_reads (address_pureAttempt_reads expr list numbers)
  | effectful =>
      induction numbers with
      | nil => exact hlaw.keeps_reads (pure_reads ())
      | cons number rest ih =>
          intro world
          rw [address_effectful_cons]
          cases hident : Flock.identOf number with
          | error trouble => exact hlaw.refl world
          | ok ident =>
              exact hlaw.trans _ _ _
                (hlaw.hatch rfl world number ident hident) (ih _)

theorem keeps_dispatch
    (hlaw : Discipline mode R Inside) {body : Action Number}
    (hbody : Keeps R body) (result : Number) (numbers : List Number)
    (world : World)
    (hnumbers : mode = .effectful ∨
      ∀ number ∈ numbers, world.flock.Knows number) :
    R world (finalState (dispatch body result numbers world)) := by
  induction numbers generalizing result world with
  | nil => exact hlaw.refl world
  | cons number rest ih =>
      have hfirst :=
        hlaw.focus number body world
          (hnumbers.imp_right fun hknows => hknows number List.mem_cons_self)
          hbody
      refine finalState_bind hlaw.trans hfirst ?_
      intro value after hrun
      rw [hrun] at hfirst
      apply ih
      refine hnumbers.imp_right fun hknows other hother => ?_
      exact (hknows other (List.mem_cons_of_mem number hother)).of_stays
        (hlaw.stays world after hfirst)

theorem keeps_ask
    (hlaw : Discipline mode R Inside) (expr list : Expr)
    {body : Action Number} (hbody : Keeps R body) (numbers : List Number) :
    Keeps R
      (address mode expr list numbers >>= fun _ =>
        dispatch body 0 numbers) := by
  intro world
  refine finalState_bind hlaw.trans
    (hlaw.keeps_address expr list numbers world) ?_
  intro _ after hrun
  apply hlaw.keeps_dispatch hbody
  cases mode with
  | effectful => exact .inl rfl
  | pureAttempt =>
      obtain ⟨hsame, hknows⟩ := knows_of_address hrun
      rw [hsame]
      exact .inr hknows

theorem keeps_askWith
    (hlaw : Discipline mode R Inside) {condition body : Action Number}
    (hcondition : Keeps R condition) (hbody : Keeps R body) :
    Keeps R
      (get >>= fun world =>
        satisfying condition (world.flock.turtles.map (·.ident)) >>=
          fun chosen => dispatch body 0 chosen) := by
  intro world
  rw [get_bind]
  have hexist :
      ∀ ident ∈ world.flock.turtles.map (·.ident),
        world.flock.contains ident = true := by
    intro ident hident
    obtain ⟨turtle, hturtle, rfl⟩ := List.mem_map.mp hident
    exact (Flock.contains_iff _ _).mpr ⟨turtle, hturtle, rfl⟩
  have hchosen := hlaw.keeps_satisfying hcondition _ world hexist
  refine finalState_bind hlaw.trans hchosen ?_
  intro chosen after hrun
  rw [hrun] at hchosen
  apply hlaw.keeps_dispatch hbody
  right
  intro number hnumber
  obtain ⟨ident, hident, rfl⟩ := chosen_of_satisfying hrun hnumber
  exact Flock.knows_integer
    (hlaw.stays world after hchosen ident (hexist ident hident))

/-- One expression keeps the relation if the expressions inside of it do. -/
theorem keeps_step
    (hlaw : Discipline mode R Inside) (turns : Nat)
    {execute : Mode → Expr → Action Number}
    (hexecute : ∀ expr, Keeps R (execute mode expr))
    (hattempt : ∀ expr, Keeps R (execute .pureAttempt expr)) (expr : Expr) :
    Keeps R (step turns execute mode expr) := by
  have heach := hlaw.keeps_each hexecute
  have hblock := hlaw.keeps_inOrder hexecute 0
  unfold step
  split
  next => exact hlaw.keeps_reads (complain_reads _)
  next hallowed =>
    have hmode : expr.isPure = false → mode = .effectful := by
      intro himpure
      cases mode with
      | effectful => rfl
      | pureAttempt => simp [himpure] at hallowed
    cases expr with
    | literal head value => exact hlaw.keeps_reads (pure_reads value)
    | «variable» head => exact hlaw.keeps_reads (lookup_observes _ _).reads
    | command head command args =>
        intro world
        refine finalState_bind hlaw.trans
          (hlaw.keeps_reads listeners_observes.reads world) ?_
        intro idents after hrun
        obtain ⟨hsame, hidents⟩ := contains_of_listeners hrun
        subst hsame
        refine hlaw.keeps_commandEach _ _ ?_ (heach args) 0 idents _ hidents
        cases hquery : command.isQuery with
        | true => exact .inr rfl
        | false => exact .inl (hmode hquery)
    | flock head command args =>
        refine hlaw.keeps_bind (heach args) fun operands => ?_
        cases hquery : command.isQuery with
        | true =>
            exact hlaw.keeps_reads (flockCommand_reads hquery _ _ operands)
        | false => exact hlaw.flock (hmode hquery) _ _ command operands
    | operation head operator args =>
        exact hlaw.keeps_bind (heach args) fun operands =>
          hlaw.keeps_operation _ operator operands
    | block brackets body => exact hblock body
    | make head target value =>
        exact hlaw.keeps_bind (hexecute value) fun number =>
          hlaw.bind (hmode rfl) _ number
    | repeatTimes head limit brackets body =>
        refine hlaw.keeps_bind (hexecute limit) fun number => ?_
        refine hlaw.keeps_bind (hlaw.keeps_reads (tally_observes _ _).reads)
          fun last => ?_
        exact hlaw.keeps_count turns _ _ (hblock body)
    | countTo head target limit brackets body =>
        refine hlaw.keeps_bind (hexecute limit) fun number => ?_
        refine hlaw.keeps_bind (hlaw.keeps_reads (tally_observes _ _).reads)
          fun last => ?_
        exact hlaw.keeps_count turns _ _ (hblock body)
    | countBy head target first last size brackets body =>
        refine hlaw.keeps_bind (hexecute first) fun start => ?_
        refine hlaw.keeps_bind (hexecute last) fun stop => ?_
        refine hlaw.keeps_bind (hexecute size) fun number => ?_
        split
        · exact hlaw.keeps_count turns _ _ (hblock body)
        · exact hlaw.keeps_reads (mishap_observes _ _).reads
    | ifThen head condition brackets body =>
        refine hlaw.keeps_bind (hexecute condition) fun number => ?_
        split
        · exact hblock body
        · exact hlaw.keeps_reads (pure_reads 0)
    | ifElse head condition thenBrackets thenPart elseBrackets elsePart =>
        refine hlaw.keeps_bind (hexecute condition) fun number => ?_
        split
        · exact hblock thenPart
        · exact hblock elsePart
    | define head name params brackets body =>
        intro world
        exact hlaw.install (hmode rfl) world _ _
    | call head args =>
        refine hlaw.keeps_bind
          (hlaw.keeps_reads (procedure_observes _ _ _).reads)
          fun procedure => ?_
        refine hlaw.keeps_bind (heach args) fun inputs => ?_
        exact hlaw.keeps_withLocals _ (hblock procedure.body)
    | tell head brackets list =>
        refine hlaw.keeps_bind (heach list) fun numbers => ?_
        refine hlaw.keeps_bind (hlaw.keeps_address _ _ numbers) fun _ => ?_
        refine hlaw.keeps_bind (hlaw.tell (hmode rfl) numbers) fun _ => ?_
        exact hlaw.keeps_reads (pure_reads _)
    | ask head listBrackets list brackets body =>
        exact hlaw.keeps_bind (heach list) fun numbers =>
          hlaw.keeps_ask _ _ (hblock body) numbers
    | askWith head conditionBrackets condition brackets body =>
        exact hlaw.keeps_askWith
          (hlaw.keeps_inOrder hattempt 0 condition) (hblock body)

/-- Every execution keeps the relation, however deep it goes and however it
ends. -/
theorem keeps_execute
    (hlaw : Discipline mode R Inside) (turns depth : Nat) (expr : Expr) :
    Keeps R (execute turns depth mode expr) := by
  induction depth generalizing mode expr with
  | zero => exact hlaw.keeps_reads (throw_reads _)
  | succ depth ih =>
      exact hlaw.keeps_step turns (fun expr => ih hlaw expr)
        (fun expr => ih hlaw.pureAttempt expr) expr

theorem keeps_program
    (hlaw : Discipline mode R Inside) (limits : Limits) (body : List Expr) :
    Keeps R (program limits mode body) := by
  intro world
  have hbody :=
    hlaw.keeps_inOrder
      (hlaw.keeps_execute limits.turns limits.depth) 0 body world
  unfold program
  split
  next hrun =>
    rw [hrun] at hbody
    exact hbody
  next => exact hbody

end Discipline

end Logo
