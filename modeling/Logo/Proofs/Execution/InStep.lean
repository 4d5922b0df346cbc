import Logo.Proofs.Execution.Actions
import Logo.Proofs.Execution.Discipline
import Logo.Proofs.Flock.Ahead
import Logo.Proofs.Program.Similar

/-!
# Executions that keep step

One world is ahead of another when they differ in nothing but the tokens of the
procedures that are kept in their tables, and in the motion of some turtles that
the first one counts in addition.  Similar expressions, executed in two such
worlds, yield the same value or fail alike, and the one world behind them is
ahead of the other as before.  The tokens of an expression are quoted in
messages, but nothing that is done depends on them, and neither does it depend
on what has moved.
-/

namespace Logo

open Logo.Action Execution

/-- Two maps have the same names in the same order, and related values. -/
def NameMap.Related {α : Type} (R : α → α → Prop)
    (map map' : NameMap α) : Prop :=
  List.Forall₂ (fun binding binding' => binding.1 = binding'.1 ∧
    R binding.2 binding'.2) map map'

namespace NameMap

variable {α : Type} {R : α → α → Prop}

theorem related_refl (hrefl : ∀ a, R a a) (map : NameMap α) :
    Related R map map :=
  List.forall₂_same.mpr fun binding _ => ⟨rfl, hrefl binding.2⟩

theorem Related.get?
    {map map' : NameMap α} (hmaps : Related R map map') (name : String) :
    Option.Rel R (map.get? name) (map'.get? name) := by
  induction hmaps with
  | nil => exact .none
  | @cons binding binding' rest rest' hbinding _ ih =>
      obtain ⟨key, a⟩ := binding
      obtain ⟨key', a'⟩ := binding'
      obtain ⟨rfl, hvalue⟩ := hbinding
      rw [get?_cons, get?_cons]
      split
      · exact .some hvalue
      · exact ih

theorem Related.insert
    {map map' : NameMap α} (hmaps : Related R map map') (name : String)
    {a a' : α} (ha : R a a') :
    Related R (NameMap.insert name a map) (NameMap.insert name a' map') := by
  induction hmaps with
  | nil => exact .cons ⟨rfl, ha⟩ .nil
  | @cons binding binding' rest rest' hbinding hrest ih =>
      obtain ⟨key, b⟩ := binding
      obtain ⟨key', b'⟩ := binding'
      obtain ⟨rfl, hvalue⟩ := hbinding
      rw [insert_cons, insert_cons]
      split
      · exact .cons ⟨rfl, ha⟩ hrest
      · exact .cons ⟨rfl, hvalue⟩ ih

theorem Related.erase
    {map map' : NameMap α} (hmaps : Related R map map') (name : String) :
    Related R (NameMap.erase name map) (NameMap.erase name map') := by
  induction hmaps with
  | nil => exact .nil
  | @cons binding binding' rest rest' hbinding hrest ih =>
      obtain ⟨key, b⟩ := binding
      obtain ⟨key', b'⟩ := binding'
      obtain ⟨rfl, hvalue⟩ := hbinding
      rw [erase_cons, erase_cons]
      split
      · exact hrest
      · exact .cons ⟨rfl, hvalue⟩ ih

theorem Related.assign
    {map map' : NameMap α} (hmaps : Related R map map') (name : String)
    {a a' : Option α} (ha : Option.Rel R a a') :
    Related R (NameMap.assign name a map) (NameMap.assign name a' map') := by
  cases ha with
  | none => exact hmaps.erase name
  | some ha => exact hmaps.insert name ha

end NameMap

structure Procedure.Similar
    (T : Token → Token → Prop) (procedure procedure' : Procedure) : Prop where
  name : procedure.name = procedure'.name
  params : procedure.params = procedure'.params
  body : List.Forall₂ (Expr.Similar T) procedure.body procedure'.body

inductive Entry.Similar (T : Token → Token → Prop) : Entry → Entry → Prop where
  | same (entry : Entry) : Similar T entry entry
  | procedure {procedure procedure' : Procedure}
      (hprocedure : procedure.Similar T procedure') :
      Similar T (.function (.procedure procedure))
        (.function (.procedure procedure'))

structure Frames.Similar (T : Token → Token → Prop)
    (frames frames' : Frames) : Prop where
  newest : Option.Rel (Entry.Similar T) frames.newest frames'.newest
  older : List.Forall₂ (Option.Rel (Entry.Similar T)) frames.older frames'.older

structure Bindings.Similar (T : Token → Token → Prop)
    (bindings bindings' : Bindings) :
    Prop where
  entries : bindings.entries.Related (Entry.Similar T) bindings'.entries
  frames : bindings.frames.Related (Frames.Similar T) bindings'.frames
  alarms : bindings.alarms = bindings'.alarms

/-- The first world is ahead of the second by the motion of some turtles. -/
structure World.Ahead
    (T : Token → Token → Prop) (moved : Nat → Bool)
    (world world' : World) : Prop where
  bindings : world.bindings.Similar T world'.bindings
  flock : world.flock.Ahead moved world'.flock
  draws : world.draws = world'.draws
  marks : world.marks = world'.marks

/-- Two words that are quoted in the same place of two messages. -/
inductive Quoted (T : Token → Token → Prop) : String → String → Prop where
  | same (word : String) : Quoted T word word
  | token {token token' : Token} (htoken : T token token') :
      Quoted T token.text token'.text

inductive Mishap.Alike (T : Token → Token → Prop) : Mishap → Mishap → Prop where
  | same (mishap : Mishap) : Alike T mishap mishap
  | failed {word word' : String} (hword : Quoted T word word')
      (fault : ArithmeticFault) :
      Alike T (.failed word fault) (.failed word' fault)

/-- The faults of two executions that have kept step. -/
inductive Fault.InStep (T : Token → Token → Prop) : Fault → Fault → Prop where
  | mishap {mishap mishap' : Mishap} {place place' : Option Phrase}
      (hmishap : mishap.Alike T mishap')
      (hplace : Option.Rel (Phrase.Similar T) place place') :
      InStep T (.complaint (.mishap mishap place))
        (.complaint (.mishap mishap' place'))
  | undefined (name : String) {place place' : Option Phrase}
      (hplace : Option.Rel (Phrase.Similar T) place place') :
      InStep T (.complaint (.undefined name false place))
        (.complaint (.undefined name false place'))
  | noLocalScope (name : String) :
      InStep T (.complaint (.noLocalScope name))
        (.complaint (.noLocalScope name))
  | impure {place place' : Phrase} (hplace : place.Similar T place') :
      InStep T (.complaint (.impure place)) (.complaint (.impure place'))
  | arithmetic (fault : ArithmeticFault) :
      InStep T (.arithmetic fault) (.arithmetic fault)
  | broken (breach : Breach) : InStep T (.broken breach) (.broken breach)
  | tooDeep : InStep T .tooDeep .tooDeep
  | unfinished : InStep T .unfinished .unfinished

inductive Outcome.InStep
    (T : Token → Token → Prop) (moved : Nat → Bool) {α α' : Type}
    (R : α → α' → Prop) :
    EStateM.Result Fault World α → EStateM.Result Fault World α' → Prop where
  | value {a : α} {a' : α'} {final final' : World}
      (hvalue : R a a') (hfinal : final.Ahead T moved final') :
      InStep T moved R (.ok a final) (.ok a' final')
  | failure {fault fault' : Fault} {final final' : World}
      (hfault : fault.InStep T fault') (hfinal : final.Ahead T moved final') :
      InStep T moved R (.error fault final) (.error fault' final')

/-- From two worlds of which one is ahead of the other, two actions keep
step. -/
def InStep (T : Token → Token → Prop) (moved : Nat → Bool) {α α' : Type}
    (R : α → α' → Prop) (action : Action α) (action' : Action α') : Prop :=
  ∀ world world', world.Ahead T moved world' →
    Outcome.InStep T moved R (action world) (action' world')

theorem Option.rel_refl {α : Type} {R : α → α → Prop} (hrefl : ∀ a, R a a)
    (a : Option α) :
    Option.Rel R a a := by
  cases a with
  | none => exact .none
  | some a => exact .some (hrefl a)

section Table

variable {T : Token → Token → Prop}

theorem Frames.similar_refl (frames : Frames) : frames.Similar T frames :=
  ⟨Option.rel_refl .same _,
    List.forall₂_same.mpr fun entry _ => Option.rel_refl .same entry⟩

theorem Frames.Similar.toList
    {frames frames' : Frames} (hframes : frames.Similar T frames') :
    List.Forall₂ (Option.Rel (Entry.Similar T)) frames.toList frames'.toList :=
  .cons hframes.newest hframes.older

theorem Frames.Similar.pop?
    {frames frames' : Frames} (hframes : frames.Similar T frames') :
    Option.Rel (Frames.Similar T) frames.pop? frames'.pop? := by
  obtain ⟨newest, older⟩ := frames
  obtain ⟨newest', older'⟩ := frames'
  obtain ⟨_, holder⟩ := hframes
  cases holder with
  | nil => exact .none
  | cons hnewest holder => exact .some ⟨hnewest, holder⟩

variable {bindings bindings' : Bindings}

theorem Bindings.Similar.framesOf
    (hbindings : bindings.Similar T bindings') (name : String) :
    List.Forall₂ (Option.Rel (Entry.Similar T)) (bindings.framesOf name)
      (bindings'.framesOf name) := by
  have hframes := hbindings.frames.get? name
  unfold Bindings.framesOf
  generalize bindings.frames.get? name = found at hframes
  generalize bindings'.frames.get? name = found' at hframes
  cases hframes with
  | none => exact .nil
  | some hframes => exact hframes.toList

theorem Bindings.Similar.install
    (hbindings : bindings.Similar T bindings') (name : String)
    {entry entry' : Entry} (hentry : entry.Similar T entry') :
    (bindings.install name entry).Similar T
      (bindings'.install name entry') where
  entries := hbindings.entries.insert name hentry
  frames := hbindings.frames
  alarms := congrArg (List.map (· + 1)) hbindings.alarms

theorem Bindings.Similar.opened
    (hbindings : bindings.Similar T bindings') (name : String) (entry : Entry) :
    (bindings.opened name entry).Similar T (bindings'.opened name entry) where
  entries := hbindings.entries.insert name (.same entry)
  frames :=
    hbindings.frames.insert name
      ⟨hbindings.entries.get? name, hbindings.framesOf name⟩
  alarms := congrArg (List.map (· + 1)) hbindings.alarms

variable {moved : Nat → Bool} {world world' : World}

theorem World.Ahead.withBindings
    (hworld : world.Ahead T moved world')
    (hbindings : bindings.Similar T bindings') :
    World.Ahead T moved { world with bindings := bindings }
      { world' with bindings := bindings' } :=
  { hworld with bindings := hbindings }

theorem World.Ahead.withFlock
    (hworld : world.Ahead T moved world') {flock flock' : Flock}
    (hflock : flock.Ahead moved flock') :
    World.Ahead T moved { world with flock := flock }
      { world' with flock := flock' } :=
  { hworld with flock := hflock }

theorem World.Ahead.keep
    (hworld : world.Ahead T moved world') (number : Number) :
    (world.keep number).1 = (world'.keep number).1 ∧
      (world.keep number).2.Ahead T moved (world'.keep number).2 := by
  have hlistener : world.listener = world'.listener := by
    unfold World.listener
    rw [hworld.flock.active]
  unfold World.keep
  rw [hworld.marks, hlistener]
  exact ⟨rfl, { hworld with marks := rfl }⟩

end Table

namespace InStep

variable {T : Token → Token → Prop} {moved : Nat → Bool}

theorem bind
    {α α' β β' : Type} {R : α → α' → Prop} {S : β → β' → Prop}
    {action : Action α} {action' : Action α'}
    {next : α → Action β} {next' : α' → Action β'}
    (haction : InStep T moved R action action')
    (hnext : ∀ a a', R a a' → InStep T moved S (next a) (next' a')) :
    InStep T moved S (action >>= next) (action' >>= next') := by
  intro world world' hworld
  have hfirst := haction world world' hworld
  generalize hrun : action world = between at hfirst
  generalize hrun' : action' world' = between' at hfirst
  cases hfirst with
  | value hvalue hfinal =>
      rw [bind_eq_of_ok hrun, bind_eq_of_ok hrun']
      exact hnext _ _ hvalue _ _ hfinal
  | failure hfault hfinal =>
      rw [bind_eq_of_error hrun, bind_eq_of_error hrun']
      exact .failure hfault hfinal

/-- The special case in which both actions yield the same value. -/
theorem bind_eq
    {α β β' : Type} {S : β → β' → Prop} {action action' : Action α}
    {next : α → Action β} {next' : α → Action β'}
    (haction : InStep T moved Eq action action')
    (hnext : ∀ a, InStep T moved S (next a) (next' a)) :
    InStep T moved S (action >>= next) (action' >>= next') := by
  refine haction.bind ?_
  rintro a _ rfl
  exact hnext a

theorem of_pure {α α' : Type} {R : α → α' → Prop} {a : α} {a' : α'}
    (ha : R a a') :
    InStep T moved R (pure a : Action α) (pure a' : Action α') :=
  fun _ _ hworld => .value ha hworld

theorem of_throw
    {α α' : Type} {R : α → α' → Prop} {fault fault' : Fault}
    (hfault : fault.InStep T fault') :
    InStep T moved R (throw fault : Action α) (throw fault' : Action α') :=
  fun _ _ hworld => .failure hfault hworld

theorem of_get : InStep T moved (World.Ahead T moved) get get :=
  fun _ _ hworld => .value hworld hworld

theorem of_modify
    {change change' : World → World}
    (hchange : ∀ world world', world.Ahead T moved world' →
      (change world).Ahead T moved (change' world')) :
    InStep T moved Eq (modify change : Action PUnit) (modify change') :=
  fun world world' hworld => .value rfl (hchange world world' hworld)

theorem of_mishap
    {α α' : Type} {R : α → α' → Prop} {place place' : Expr}
    (mishap : Mishap) (hplace : place.Similar T place') :
    InStep T moved R (Action.mishap mishap place : Action α)
      (Action.mishap mishap place' : Action α') :=
  of_throw (.mishap (.same mishap) (.some (.expr hplace)))

theorem of_bare {α : Type} (result : Except ArithmeticFault α) :
    InStep T moved Eq (bare result) (bare result) := by
  cases result with
  | ok a => exact of_pure rfl
  | error fault => exact of_throw (.arithmetic fault)

theorem unpinned_inStep (trouble : Trouble) :
    (unpinned trouble).InStep T (unpinned trouble) := by
  cases trouble with
  | refused refusal => exact .mishap (.same _) .none
  | arithmetic fault => exact .arithmetic fault
  | operandCount => exact .broken .operandCount

/-- The word that a trouble is known by is quoted, and nothing else is done with
it. -/
theorem pinned_inStep
    {word word' : String} (hword : Quoted T word word') {place place' : Expr}
    (hplace : place.Similar T place') (trouble : Trouble) :
    (pinned word place trouble).InStep T (pinned word' place' trouble) := by
  cases trouble with
  | refused refusal => exact .mishap (.same _) (.some (.expr hplace))
  | arithmetic fault =>
      exact .mishap (.failed hword fault) (.some (.expr hplace))
  | operandCount => exact .broken .operandCount

/-- The one command may yield what is made of the result of the other. -/
theorem of_pinning_map
    {α α' : Type} {word word' : String} (hword : Quoted T word word')
    {place place' : Expr} (hplace : place.Similar T place') (f : α' → α)
    (result : Except Trouble α') :
    InStep T moved (fun a a' => a = f a' ∧ result = .ok a')
      (pinning word place (f <$> result)) (pinning word' place' result) := by
  cases result with
  | ok a => exact of_pure ⟨rfl, rfl⟩
  | error trouble => exact of_throw (pinned_inStep hword hplace trouble)

theorem of_pinning
    {α : Type} {word word' : String} (hword : Quoted T word word')
    {place place' : Expr} (hplace : place.Similar T place')
    (result : Except Trouble α) :
    InStep T moved Eq (pinning word place result)
      (pinning word' place' result) := by
  cases result with
  | ok a => exact of_pure rfl
  | error trouble => exact of_throw (pinned_inStep hword hplace trouble)

theorem of_keep (number : Number) :
    InStep T moved Eq (keep number) (keep number) := by
  intro world world' hworld
  obtain ⟨hnumber, hfinal⟩ := hworld.keep number
  exact .value hnumber hfinal

theorem of_draw : InStep T moved Eq draw draw := by
  intro world world' hworld
  have hnext : world.draws.next = world'.draws.next := by rw [hworld.draws]
  refine .value (congrArg Prod.fst hnext) ?_
  exact { hworld with draws := congrArg Prod.snd hnext }

theorem of_listeners : InStep T moved Eq listeners listeners := by
  refine of_get.bind fun world world' hworld => ?_
  have hidents := hworld.flock.listeners
  generalize world.flock.listeners = found at hidents
  generalize world'.flock.listeners = found' at hidents
  cases found with
  | ok turtles =>
      cases found' with
      | ok turtles' => exact of_pure (Except.ok.inj hidents)
      | error ident => cases hidents
  | error ident =>
      cases found' with
      | ok turtles' => cases hidents
      | error ident' =>
          cases hidents
          exact of_throw (.broken (.missingTurtle ident))

theorem of_turtle (ident : Nat) :
    InStep T moved
      (fun turtle turtle' => turtle = turtle'.stirred (moved turtle'.ident))
      (turtle ident) (turtle ident) := by
  refine of_get.bind fun world world' hworld => ?_
  rw [hworld.flock.stirred, Flock.get?_stirred]
  cases world'.flock.get? ident with
  | some turtle => exact of_pure rfl
  | none => exact of_throw (.broken (.missingTurtle ident))

theorem of_tell (numbers : List Number) :
    InStep T moved Eq (Action.tell numbers) (Action.tell numbers) := by
  intro world world' hworld
  obtain ⟨hresult, hflock⟩ := hworld.flock.tell numbers
  unfold Action.tell
  generalize world.flock.tell numbers = told at hresult hflock
  generalize world'.flock.tell numbers = told' at hresult hflock
  obtain ⟨result, flock⟩ := told
  obtain ⟨result', flock'⟩ := told'
  cases hresult
  cases result with
  | ok idents => exact .value rfl (hworld.withFlock hflock)
  | error trouble =>
      exact .failure (unpinned_inStep trouble) (hworld.withFlock hflock)

theorem of_rebind (name : String) (number : Number) :
    InStep T moved Eq (Action.bind name number) (Action.bind name number) := by
  intro world world' hworld
  obtain ⟨hnumber, hfinal⟩ := hworld.keep number
  rw [Action.bind_eq, Action.bind_eq, ← hnumber]
  exact .value rfl
    (hfinal.withBindings (hworld.bindings.install name (.same _)))

theorem of_removeLocal (name : String) :
    InStep T moved Eq (onBindings (·.removeLocal name))
      (onBindings (·.removeLocal name)) := by
  intro world world' hworld
  have hframes := hworld.bindings.frames.get? name
  unfold onBindings Bindings.removeLocal
  simp only
  generalize world.bindings.frames.get? name = found at hframes
  generalize world'.bindings.frames.get? name = found' at hframes
  cases hframes with
  | none => exact .failure (.noLocalScope name) hworld
  | some hframes =>
      refine .value rfl (hworld.withBindings ?_)
      exact
        { entries := hworld.bindings.entries.assign name hframes.newest
          frames := hworld.bindings.frames.assign name hframes.pop?
          alarms := congrArg (List.map (· + 1)) hworld.bindings.alarms }

theorem andFinally
    {α α' : Type} {R : α → α' → Prop} {action : Action α} {action' : Action α'}
    {cleanup cleanup' : Action Unit}
    (haction : InStep T moved R action action')
    (hcleanup : InStep T moved Eq cleanup cleanup') :
    InStep T moved R (action.andFinally cleanup)
      (action'.andFinally cleanup') := by
  intro world world' hworld
  have hfirst := haction world world' hworld
  unfold Action.andFinally
  generalize action world = between at hfirst
  generalize action' world' = between' at hfirst
  cases hfirst with
  | @value a a' inner inner' hvalue hinner =>
      have hlast := hcleanup inner inner' hinner
      simp only
      generalize cleanup inner = last at hlast
      generalize cleanup' inner' = last' at hlast
      cases hlast with
      | value _ hfinal => exact .value hvalue hfinal
      | failure hfault hfinal => exact .failure hfault hfinal
  | @failure fault fault' inner inner' hfault hinner =>
      have hlast := hcleanup inner inner' hinner
      simp only
      generalize cleanup inner = last at hlast
      generalize cleanup' inner' = last' at hlast
      cases hlast with
      | value _ hfinal => exact .failure hfault hfinal
      | failure hlater hfinal => exact .failure hlater hfinal

section Combined

variable {action action' : Action Number}

theorem withLocal
    (haction : InStep T moved Eq action action') (name : String)
    (number : Number) :
    InStep T moved Eq (Action.withLocal name number action)
      (Action.withLocal name number action') := by
  intro world world' hworld
  obtain ⟨hnumber, hfinal⟩ := hworld.keep number
  have hentered :
      (world.entered name number).Ahead T moved
        (world'.entered name number) := by
    unfold World.entered
    rw [← hnumber]
    exact hfinal.withBindings (hworld.bindings.opened name _)
  rw [withLocal_eq, withLocal_eq]
  exact haction.andFinally (of_removeLocal name) _ _ hentered

theorem withLocals
    (haction : InStep T moved Eq action action')
    (inputs : List (String × Number)) :
    InStep T moved Eq (Action.withLocals inputs action)
      (Action.withLocals inputs action') := by
  induction inputs with
  | nil => exact haction
  | cons input rest ih => exact ih.withLocal input.1 input.2

theorem focused
    (haction : InStep T moved Eq action action') (numbers : List Number) :
    InStep T moved Eq (Action.focused numbers action)
      (Action.focused numbers action') := by
  refine of_get.bind fun world world' hworld => ?_
  refine (of_tell numbers).bind_eq fun _ => ?_
  refine haction.andFinally (of_modify fun inner inner' hinner => ?_)
  rw [hworld.flock.active]
  exact hinner.withFlock (hinner.flock.select _)

theorem unmarking (haction : InStep T moved Eq action action') :
    InStep T moved Eq (Action.unmarking action) (Action.unmarking action') := by
  refine of_get.bind fun world world' hworld => ?_
  refine haction.andFinally (of_modify fun inner inner' hinner => ?_)
  exact { hinner with marks := hworld.marks }

theorem turnsAfter
    (haction : InStep T moved Eq action action') (name : String)
    (turns : Nat) (counter : Counter) (result : Number) :
    InStep T moved Eq (Execution.turnsAfter name action turns counter result)
      (Execution.turnsAfter name action' turns counter result) := by
  induction turns generalizing counter result with
  | zero => exact of_throw .unfinished
  | succ turns ih =>
      refine (of_bare counter.next).bind_eq fun next => ?_
      split
      · refine (of_rebind name next.value).bind_eq fun _ => ?_
        exact haction.bind_eq fun value => ih next value
      · exact of_pure rfl

theorem count
    (haction : InStep T moved Eq action action') (turns : Nat) (name : String)
    (counter : Counter) :
    InStep T moved Eq (Execution.count turns name counter action)
      (Execution.count turns name counter action') := by
  unfold Execution.count
  split
  · refine withLocal (haction.bind_eq fun value => ?_) name counter.value
    exact haction.turnsAfter name turns counter value
  · exact of_pure rfl

theorem dispatch
    (haction : InStep T moved Eq action action') (result : Number)
    (numbers : List Number) :
    InStep T moved Eq (Execution.dispatch action result numbers)
      (Execution.dispatch action' result numbers) := by
  induction numbers generalizing result with
  | nil => exact of_pure rfl
  | cons number rest ih =>
      exact (haction.focused [number]).bind_eq fun value => ih value

theorem satisfying (haction : InStep T moved Eq action action')
    (idents : List Nat) :
    InStep T moved Eq (Execution.satisfying action idents)
      (Execution.satisfying action' idents) := by
  induction idents with
  | nil => exact of_pure rfl
  | cons ident rest ih =>
      refine (haction.unmarking.focused [.integer ident]).bind_eq
        fun value => ?_
      exact ih.bind_eq fun chosen => of_pure rfl

end Combined

section Instructions

variable {expr expr' : Expr}

theorem of_commandOne
    (hexpr : expr.Similar T expr') {word word' : String}
    (hword : Quoted T word word') (command : TurtleCommand) (ident : Nat)
    (operands : List Number) :
    InStep T moved Eq (commandOne expr word command ident operands)
      (commandOne expr' word' command ident operands) := by
  refine (of_turtle ident).bind fun before before' hbefore => ?_
  rw [hbefore, command.update_stirred]
  refine (of_pinning_map hword hexpr _ _).bind fun result result' hresult => ?_
  obtain ⟨rfl, hupdate⟩ := hresult
  obtain ⟨after, answer⟩ := result'
  have hident : after.ident = before'.ident := by
    have hidents := command.ident_update operands before'
    rw [hupdate] at hidents
    exact Except.ok.inj hidents
  cases answer with
  | some number => exact of_pure rfl
  | none =>
      refine (of_keep after.x).bind_eq fun x => ?_
      refine (of_keep after.y).bind_eq fun y => ?_
      refine bind_eq (of_modify fun world world' hworld => ?_)
        fun _ => of_bare _
      rw [← hident]
      exact hworld.withFlock (hworld.flock.put { after with x := x, y := y })

theorem commandEach
    (hexpr : expr.Similar T expr') {action action' : Action (List Number)}
    (haction : InStep T moved Eq action action') {word word' : String}
    (hword : Quoted T word word') (command : TurtleCommand) (result : Number)
    (idents : List Nat) :
    InStep T moved Eq
      (Execution.commandEach expr word command action result idents)
      (Execution.commandEach expr' word' command action' result idents) := by
  induction idents generalizing result with
  | nil => exact of_pure rfl
  | cons ident rest ih =>
      have hturn :
          InStep T moved Eq
            (action >>= fun operands =>
              commandOne expr word command ident operands)
            (action' >>= fun operands =>
              commandOne expr' word' command ident operands) :=
        haction.bind_eq
          fun operands => of_commandOne hexpr hword command ident operands
      exact (hturn.focused [.integer ident]).bind_eq fun value => ih value

theorem of_flockCommand
    (hexpr : expr.Similar T expr') {word word' : String}
    (hword : Quoted T word word') (command : FlockCommand)
    (operands : List Number) :
    InStep T moved Eq (flockCommand expr word command operands)
      (flockCommand expr' word' command operands) := by
  refine of_get.bind fun world world' hworld => ?_
  rw [hworld.flock.stirred, Flock.update_stirred]
  refine (of_pinning_map hword hexpr _ _).bind fun result result' hresult => ?_
  obtain ⟨rfl, hupdate⟩ := hresult
  obtain ⟨flock, answer⟩ := result'
  refine bind_eq (of_modify fun later later' hlater => ?_) fun _ => of_pure rfl
  exact hlater.withFlock (hworld.flock.update hupdate)

theorem of_operation
    (hexpr : expr.Similar T expr') (operator : Operator)
    (operands : List Number) :
    InStep T moved Eq (operation expr operator operands)
      (operation expr' operator operands) := by
  unfold operation
  simp only
  split
  · exact of_draw.bind_eq fun random => of_pinning (.same _) hexpr _
  · exact bind_eq (of_pure rfl) fun random => of_pinning (.same _) hexpr _

theorem of_tally (hexpr : expr.Similar T expr') (number : Number) :
    InStep T moved Eq (tally expr number) (tally expr' number) := by
  have hendless :
      InStep T moved Eq
        (bare number.text >>= fun text =>
          (Action.mishap (.endlessCount text) expr : Action Int))
        (bare number.text >>= fun text =>
          (Action.mishap (.endlessCount text) expr' : Action Int)) :=
    (of_bare _).bind_eq fun text => of_mishap _ hexpr
  refine (of_bare _).bind_eq fun finite => ?_
  cases number.truncate? with
  | none => exact hendless
  | some n =>
      cases finite with
      | true => exact of_pure rfl
      | false => exact hendless

theorem of_lookup (hexpr : expr.Similar T expr') (name : String) :
    InStep T moved Eq (lookup expr name) (lookup expr' name) := by
  refine of_get.bind fun world world' hworld => ?_
  have hentry := hworld.bindings.entries.get? name
  generalize world.bindings.entries.get? name = found at hentry
  generalize world'.bindings.entries.get? name = found' at hentry
  cases hentry with
  | none => exact of_throw (.undefined name (.some (.expr hexpr)))
  | some hentry =>
      cases hentry with
      | procedure hprocedure => exact of_mishap _ hexpr
      | same =>
          rename_i entry
          cases entry with
          | integer n => exact of_pure rfl
          | double x => exact of_pure rfl
          | marked mark => exact of_pure rfl
          | string text => exact of_mishap _ hexpr
          | function value => exact of_mishap _ hexpr

theorem address
    (mode : Mode) (hexpr : expr.Similar T expr') {list list' : Expr}
    (hlist : list.Similar T list') (hhead : T list.head list'.head)
    (numbers : List Number) :
    InStep T moved Eq (Execution.address mode expr list numbers)
      (Execution.address mode expr' list' numbers) := by
  induction numbers with
  | nil => exact of_pure rfl
  | cons number rest ih =>
      intro world world' hworld
      cases mode with
      | effectful =>
          rw [address_effectful_cons, address_effectful_cons]
          cases Flock.identOf number with
          | ok ident =>
              exact ih _ _ (hworld.withFlock (hworld.flock.hatch ident))
          | error trouble =>
              exact .failure (pinned_inStep (.token hhead) hlist trouble) hworld
      | pureAttempt =>
          rw [address_pureAttempt_cons, address_pureAttempt_cons]
          cases Flock.identOf number with
          | ok ident =>
              simp only [hworld.flock.contains]
              split
              · exact ih world world' hworld
              · exact .failure (.impure (.expr hexpr)) hworld
          | error trouble =>
              exact .failure (pinned_inStep (.token hhead) hlist trouble) hworld

/-- A call finds similar procedures, as it only looks at the number of their
parameters. -/
theorem of_procedure
    (hrefl : ∀ token, T token token) (hexpr : expr.Similar T expr')
    (name : String) (inputs : Nat) :
    InStep T moved (Procedure.Similar T) (procedure expr name inputs)
      (procedure expr' name inputs) := by
  refine of_get.bind fun world world' hworld => ?_
  have hfound {found found' : Procedure} (hfound : found.Similar T found') :
      InStep T moved (Procedure.Similar T)
        (if found.params.length = inputs then (pure found : Action Procedure)
          else Action.mishap (.inputCount name found.params.length) expr)
        (if found'.params.length = inputs then (pure found' : Action Procedure)
          else Action.mishap (.inputCount name
            found'.params.length) expr') := by
    rw [hfound.params]
    split
    · exact of_pure hfound
    · exact of_mishap _ hexpr
  have hentry := hworld.bindings.entries.get? name
  generalize world.bindings.entries.get? name = found at hentry
  generalize world'.bindings.entries.get? name = found' at hentry
  cases hentry with
  | none => exact of_throw (.undefined name (.some (.expr hexpr)))
  | some hentry =>
      cases hentry with
      | procedure hprocedure => exact hfound hprocedure
      | same =>
          rename_i entry
          cases entry with
          | integer n => exact of_mishap _ hexpr
          | double x => exact of_mishap _ hexpr
          | marked mark => exact of_mishap _ hexpr
          | string text => exact of_mishap _ hexpr
          | function value =>
              cases value with
              | procedure procedure =>
                  exact hfound
                    ⟨rfl, rfl, Expr.similar_refl_all hrefl procedure.body⟩
              | number number => exact of_throw (.broken _)
              | text text => exact of_throw (.broken _)
              | truth truth => exact of_throw (.broken _)
              | nothing => exact of_throw (.broken _)

end Instructions

section Lists

variable {run : Expr → Action Number}

theorem inOrder
    (hrun : ∀ expr expr', expr.Similar T expr' →
      InStep T moved Eq (run expr) (run expr'))
    (result : Number) {body body' : List Expr}
    (hbody : List.Forall₂ (Expr.Similar T) body body') :
    InStep T moved Eq (Execution.inOrder run result body)
      (Execution.inOrder run result body') := by
  induction hbody generalizing result with
  | nil => exact of_pure rfl
  | cons hexpr _ ih => exact (hrun _ _ hexpr).bind_eq fun value => ih value

theorem each
    (hrun : ∀ expr expr', expr.Similar T expr' →
      InStep T moved Eq (run expr) (run expr'))
    {exprs exprs' : List Expr}
    (hexprs : List.Forall₂ (Expr.Similar T) exprs exprs') :
    InStep T moved Eq (Execution.each run exprs)
      (Execution.each run exprs') := by
  induction hexprs with
  | nil => exact of_pure rfl
  | cons hexpr _ ih =>
      refine (hrun _ _ hexpr).bind_eq fun number => ?_
      exact ih.bind_eq fun numbers => of_pure rfl

end Lists

end InStep

theorem Expr.Similar.isPure_eq
    {T : Token → Token → Prop} {expr expr' : Expr}
    (hexpr : expr.Similar T expr') :
    expr.isPure = expr'.isPure := by
  cases hexpr <;> rfl

theorem Token.variableNames_eq
    {T : Token → Token → Prop} {params params' : List Token}
    (hparams : List.Forall₂ (Token.SameVariable T) params params') :
    params.map (·.variableName) = params'.map (·.variableName) := by
  induction hparams with
  | nil => rfl
  | cons hparam _ ih => rw [List.map_cons, List.map_cons, hparam.name, ih]

section Execution

variable {T : Token → Token → Prop} {moved : Nat → Bool}

/-- Similar expressions are executed alike, if the similar expressions inside of
them are. -/
theorem inStep_step
    (hrefl : ∀ token, T token token) (turns : Nat)
    {execute : Mode → Expr → Action Number}
    (hexecute : ∀ mode expr expr', expr.Similar T expr' →
      InStep T moved Eq (execute mode expr) (execute mode expr'))
    (mode : Mode) {expr expr' : Expr} (hexpr : expr.Similar T expr') :
    InStep T moved Eq (step turns execute mode expr)
      (step turns execute mode expr') := by
  have hrun := hexecute mode
  unfold step
  rw [← hexpr.isPure_eq]
  split
  next => exact .of_throw (.impure (.expr hexpr))
  next =>
    cases hexpr with
    | literal value hhead => exact .of_pure rfl
    | «variable» hhead =>
        simp only [hhead.name]
        exact .of_lookup (.variable hhead) _
    | command command hhead hargs =>
        refine InStep.of_listeners.bind_eq fun idents => ?_
        exact .commandEach (.command command hhead hargs) (.each hrun hargs)
          (.token hhead) command 0 idents
    | flock command hhead hargs =>
        refine (InStep.each hrun hargs).bind_eq fun operands => ?_
        exact .of_flockCommand (.flock command hhead hargs)
          (.token hhead) command operands
    | operation operator hhead hargs =>
        refine (InStep.each hrun hargs).bind_eq fun operands => ?_
        exact .of_operation (.operation operator hhead hargs) operator operands
    | block hbrackets hbody => exact .inOrder hrun 0 hbody
    | make hhead htarget hvalue =>
        simp only [htarget.name]
        exact (hrun _ _ hvalue).bind_eq fun number => .of_rebind _ number
    | repeatTimes hhead hlimit hbrackets hbody =>
        refine (hrun _ _ hlimit).bind_eq fun number => ?_
        refine (InStep.of_tally hlimit number).bind_eq fun last => ?_
        exact (InStep.inOrder hrun 0 hbody).count turns _ _
    | countTo hhead htarget hlimit hbrackets hbody =>
        simp only [htarget.name]
        refine (hrun _ _ hlimit).bind_eq fun number => ?_
        refine (InStep.of_tally hlimit number).bind_eq fun last => ?_
        exact (InStep.inOrder hrun 0 hbody).count turns _ _
    | countBy hhead htarget hfirst hlast hsize hbrackets hbody =>
        simp only [htarget.name]
        refine (hrun _ _ hfirst).bind_eq fun start => ?_
        refine (hrun _ _ hlast).bind_eq fun stop => ?_
        refine (hrun _ _ hsize).bind_eq fun size => ?_
        split
        · exact (InStep.inOrder hrun 0 hbody).count turns _ _
        · exact .of_mishap _ hsize
    | ifThen hhead hcondition hbrackets hbody =>
        refine (hrun _ _ hcondition).bind_eq fun number => ?_
        split
        · exact .inOrder hrun 0 hbody
        · exact .of_pure rfl
    | ifElse hhead hcondition hbrackets hbody hothers hrest =>
        refine (hrun _ _ hcondition).bind_eq fun number => ?_
        split
        · exact .inOrder hrun 0 hbody
        · exact .inOrder hrun 0 hrest
    | define hhead hname hparams hbrackets hbody =>
        simp only [hname.name, Token.variableNames_eq hparams]
        refine .bind_eq (.of_modify fun world world' hworld => ?_)
          fun _ => .of_pure rfl
        exact hworld.withBindings
          (hworld.bindings.install _ (.procedure ⟨rfl, rfl, hbody⟩))
    | call hhead hargs =>
        simp only [hhead.name, hargs.length_eq]
        refine (InStep.of_procedure hrefl (.call hhead hargs) _ _).bind
          fun found found' hfound => ?_
        refine (InStep.each hrun hargs).bind_eq fun inputs => ?_
        rw [hfound.params]
        exact (InStep.inOrder hrun 0 hfound.body).withLocals _
    | tell hhead hbrackets hlist =>
        refine (InStep.each hrun hlist).bind_eq fun numbers => ?_
        refine (InStep.address mode (.tell hhead hbrackets hlist)
          (.block hbrackets hlist) hbrackets.opener numbers).bind_eq fun _ => ?_
        exact (InStep.of_tell numbers).bind_eq fun _ => .of_pure rfl
    | ask hhead hbrackets hlist hothers hbody =>
        refine (InStep.each hrun hlist).bind_eq fun numbers => ?_
        refine (InStep.address mode (.ask hhead hbrackets hlist hothers hbody)
          (.block hbrackets hlist) hbrackets.opener numbers).bind_eq fun _ => ?_
        exact (InStep.inOrder hrun 0 hbody).dispatch 0 numbers
    | askWith hhead hbrackets hcondition hothers hbody =>
        refine InStep.of_get.bind fun world world' hworld => ?_
        rw [hworld.flock.idents]
        have hpure := InStep.inOrder (hexecute .pureAttempt) 0 hcondition
        refine (hpure.satisfying _).bind_eq fun chosen => ?_
        exact (InStep.inOrder hrun 0 hbody).dispatch 0 chosen

theorem inStep_execute
    (hrefl : ∀ token, T token token) (turns depth : Nat) (mode : Mode)
    {expr expr' : Expr} (hexpr : expr.Similar T expr') :
    InStep T moved Eq (execute turns depth mode expr)
      (execute turns depth mode expr') := by
  induction depth generalizing mode expr expr' with
  | zero => exact .of_throw .tooDeep
  | succ depth ih =>
      exact inStep_step hrefl turns
        (fun mode _ _ hexpr => ih mode hexpr) mode hexpr

/-- The expressions of two similar programs, without a word about their
depth. -/
theorem inStep_body
    (hrefl : ∀ token, T token token) (limits : Limits) (mode : Mode)
    {body body' : List Expr}
    (hbody : List.Forall₂ (Expr.Similar T) body body') :
    InStep T moved Eq (inOrder (execute limits.turns limits.depth mode) 0 body)
      (inOrder (execute limits.turns limits.depth mode) 0 body') :=
  .inOrder
    (fun _ _ hexpr =>
      inStep_execute hrefl limits.turns limits.depth mode hexpr) 0 hbody

end Execution

end Logo
