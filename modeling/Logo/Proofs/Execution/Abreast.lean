import Logo.Proofs.Program.Parts
import Logo.Proofs.Scopes

/-!
# Executions side by side

Two executions of the same expressions run side by side from two worlds that
stand in a relation.  They yield the same value or fail alike, and their final
worlds stand in the same relation, if every single action that the expressions
call for keeps it.  A `Regime` says so much about the actions.  The two worlds
may be one and the same: then the relation is a property of the world that the
execution keeps.
-/

namespace Logo.Flock

def missing? (flock : Flock) : Option Nat :=
  flock.active.find? fun ident => !flock.contains ident

theorem listeners_eq_missing? (flock : Flock) :
    flock.listeners.map (·.map (·.ident)) =
      match flock.missing? with
      | none => .ok flock.active
      | some ident => .error ident := by
  unfold listeners missing?
  induction flock.active with
  | nil => rfl
  | cons ident rest ih =>
      rw [List.mapM_cons, List.find?_cons]
      cases hget : flock.get? ident with
      | none => simp [contains, hget, bind, Except.bind, Except.map]
      | some turtle =>
          have hident := ident_of_get? hget
          generalize rest.mapM (m := Except Nat) _ = found at ih ⊢
          generalize rest.find? (fun ident => !flock.contains ident) =
            missing at ih ⊢
          cases found <;> cases missing <;>
            simp_all [contains, bind, Except.bind, Except.map,
              pure, Except.pure]

end Logo.Flock

namespace Logo

open Logo.Action Execution

theorem Action.listeners_eq_missing? (world : World) :
    listeners world =
      match world.flock.missing? with
      | none => .ok world.flock.active world
      | some ident => .error (.broken (.missingTurtle ident)) world := by
  have hidents := world.flock.listeners_eq_missing?
  unfold listeners
  rw [get_bind]
  generalize world.flock.listeners = found at hidents ⊢
  generalize world.flock.missing? = missing at hidents ⊢
  cases missing with
  | none =>
      cases found with
      | ok turtles => rw [← Except.ok.inj hidents]; rfl
      | error ident => cases hidents
  | some ident =>
      cases found with
      | ok turtles => cases hidents
      | error other => rw [← Except.error.inj hidents]; rfl

theorem Action.turtle_eq (ident : Nat) (world : World) :
    turtle ident world =
      match world.flock.get? ident with
      | some found => .ok found world
      | none => .error (.broken (.missingTurtle ident)) world := by
  unfold turtle
  rw [get_bind]
  cases world.flock.get? ident <;> rfl

/-- Whether a fault says that a call did not get its procedure: the name is not
defined, or it is a variable, or the procedure takes another number of
inputs. -/
def Fault.isMisdirected : Fault → Bool
  | .complaint (.undefined _ _ (some (.expr (.call _ _)))) => true
  | .complaint (.mishap (.notAnInstruction _) _) => true
  | .complaint (.mishap (.inputCount _ _) _) => true
  | _ => false

/-- The names that an expression binds, as a variable, as the counter of a loop,
or as a parameter of a procedure. -/
def Expr.boundNames : Expr → List String
  | .make _ target _ => [target.variableName]
  | .repeatTimes .. => ["repcount"]
  | .countTo _ target .. => [target.variableName]
  | .countBy _ target .. => [target.variableName]
  | .define _ _ params .. => params.map (·.variableName)
  | _ => []

def Expr.isAddressing : Expr → Bool
  | .tell .. => true
  | .ask .. => true
  | .askWith .. => true
  | _ => false

/-- Two endings with the same value or the same fault. -/
inductive Ending.Abreast {α : Type} (J : World → World → Prop)
    (F : Fault → Prop) :
    EStateM.Result Fault World α → EStateM.Result Fault World α → Prop where
  | value (a : α) {world world' : World} (hworld : J world world') :
      Ending.Abreast J F (.ok a world) (.ok a world')
  | failure {fault : Fault} (hfault : F fault) {world world' : World}
      (hworld : J world world') :
      Ending.Abreast J F (.error fault world) (.error fault world')

theorem Ending.Abreast.finalState
    {α : Type} {J : World → World → Prop} {F : Fault → Prop}
    {result result' : EStateM.Result Fault World α}
    (hresult : Ending.Abreast J F result result') :
    J (finalState result) (finalState result') := by
  cases hresult with
  | value a hworld => exact hworld
  | failure hfault hworld => exact hworld

theorem Ending.Abreast.mono
    {α : Type} {J K : World → World → Prop} {F : Fault → Prop}
    {result result' : EStateM.Result Fault World α}
    (hresult : Ending.Abreast J F result result')
    (hle : ∀ world world', J world world' → K world world') :
    Ending.Abreast K F result result' := by
  cases hresult with
  | value a hworld => exact .value a (hle _ _ hworld)
  | failure hfault hworld => exact .failure hfault (hle _ _ hworld)

/-- From two worlds that stand in a relation, two actions end in the same
way. -/
def Abreast {α : Type} (J : World → World → Prop) (F : Fault → Prop)
    (action twin : Action α) :
    Prop :=
  ∀ world world', J world world' →
    Ending.Abreast J F (action world) (twin world')

namespace Abreast

variable {J K : World → World → Prop} {F : Fault → Prop} {α β : Type}

theorem bindAt
    {action twin : Action α} {next next' : α → Action β} {world world' : World}
    (haction : Ending.Abreast J F (action world) (twin world'))
    (hnext :
      ∀ a after after', action world = .ok a after → J after after' →
        Ending.Abreast K F (next a after) (next' a after'))
    (hfails : ∀ after after', J after after' → K after after') :
    Ending.Abreast K F ((action >>= next) world) ((twin >>= next') world') := by
  generalize hrun : action world = between at haction
  generalize hrun' : twin world' = between' at haction
  cases haction with
  | value a hworld =>
      rw [bind_eq_of_ok hrun, bind_eq_of_ok hrun']
      exact hnext a _ _ hrun hworld
  | failure hfault hworld =>
      rw [bind_eq_of_error hrun, bind_eq_of_error hrun']
      exact .failure hfault (hfails _ _ hworld)

theorem bind
    {action twin : Action α} {next next' : α → Action β}
    (haction : Abreast J F action twin)
    (hnext : ∀ a, Abreast J F (next a) (next' a)) :
    Abreast J F (action >>= next) (twin >>= next') :=
  fun world world' hworld =>
    bindAt (haction world world' hworld)
      (fun a after after' _ hafter => hnext a after after' hafter)
      fun _ _ hafter => hafter

theorem of_pure (a : α) : Abreast J F (pure a : Action α) (pure a) :=
  fun _ _ hworld => .value a hworld

theorem of_throw {fault : Fault} (hfault : F fault) :
    Abreast J F (throw fault : Action α) (throw fault) :=
  fun _ _ hworld => .failure hfault hworld

theorem of_modify
    {change change' : World → World}
    (hchange : ∀ world world', J world world' →
      J (change world) (change' world')) :
    Abreast J F (modify change : Action PUnit) (modify change') :=
  fun world world' hworld => .value _ (hchange world world' hworld)

section Faults

variable (hfault : ∀ fault, fault.isMisdirected = false → F fault)
include hfault

theorem of_bare (result : Except ArithmeticFault α) :
    Abreast J F (bare result) (bare result) := by
  cases result with
  | ok a => exact of_pure a
  | error fault => exact of_throw (hfault _ rfl)

theorem of_pinning (word : String) (place : Expr) (result : Except Trouble α) :
    Abreast J F (pinning word place result) (pinning word place result) := by
  cases result with
  | ok a => exact of_pure a
  | error trouble =>
      apply of_throw
      apply hfault
      cases trouble <;> rfl

end Faults

/-- A clean-up behind two actions, where it succeeds. -/
theorem andFinallyAt
    {action twin : Action α} {cleanup cleanup' : Action Unit}
    {world world' after after' : World}
    (haction : Ending.Abreast J F (action world) (twin world'))
    (hcleanup : cleanup (finalState (action world)) = .ok () after)
    (hcleanup' : cleanup' (finalState (twin world')) = .ok () after')
    (hafter : K after after') :
    Ending.Abreast K F (action.andFinally cleanup world)
      (twin.andFinally cleanup' world') := by
  unfold Action.andFinally
  generalize action world = between at haction hcleanup
  generalize twin world' = between' at haction hcleanup'
  cases haction with
  | value a hworld =>
      rw [finalState_ok] at hcleanup hcleanup'
      simp only [hcleanup, hcleanup']
      exact .value a hafter
  | failure hfault hworld =>
      rw [finalState_error] at hcleanup hcleanup'
      simp only [hcleanup, hcleanup']
      exact .failure hfault hafter

theorem inOrder
    {run run' : Expr → Action Number} {body : List Expr}
    (hbody : ∀ expr ∈ body, Abreast J F (run expr) (run' expr))
    (result : Number) :
    Abreast J F (Execution.inOrder run result body)
      (Execution.inOrder run' result body) := by
  induction body generalizing result with
  | nil => exact of_pure result
  | cons expr rest ih =>
      rw [List.forall_mem_cons] at hbody
      exact hbody.1.bind fun value => ih hbody.2 value

theorem each
    {run run' : Expr → Action Number} {exprs : List Expr}
    (hexprs : ∀ expr ∈ exprs, Abreast J F (run expr) (run' expr)) :
    Abreast J F (Execution.each run exprs) (Execution.each run' exprs) := by
  induction exprs with
  | nil => exact of_pure []
  | cons expr rest ih =>
      rw [List.forall_mem_cons] at hexprs
      refine hexprs.1.bind fun number => ?_
      exact (ih hexprs.2).bind fun numbers => of_pure _

end Abreast

/-- A call looks for its procedure in the entries and nowhere else. -/
theorem Execution.procedure_congr
    (expr : Expr) (name : String) (inputs : Nat) {world world' : World}
    (hentries : world.bindings.entries = world'.bindings.entries) :
    procedure expr name inputs world' =
      match procedure expr name inputs world with
      | .ok found _ => .ok found world'
      | .error fault _ => .error fault world' := by
  unfold procedure
  rw [get_bind, get_bind, hentries]
  cases world'.bindings.entries.get? name with
  | none => rfl
  | some entry =>
      cases entry with
      | function value =>
          cases value with
          | procedure found =>
              simp only
              split <;> rfl
          | _ => rfl
      | _ => rfl

/-- What a relation between the worlds of two executions has to survive, where
`Node` says which expressions are executed, `Good` what they are put together
from, `Local` which names get scopes, and `roaming` whether turtles may be
addressed.  The relation may depend on a context, which changes only at the
border of a scope. -/
structure Regime
    {κ : Type} (I : κ → World → World → Prop) (F : Fault → Prop)
    (Node Good : Expr → Prop) (Local : String → Prop)
    (roaming : Prop) : Prop where
  fault : ∀ fault, fault.isMisdirected = false → F fault
  entries :
    ∀ c world world', I c world world' →
      world.bindings.entries = world'.bindings.entries
  frames :
    ∀ c world world', I c world world' →
      world.bindings.frames = world'.bindings.frames
  active : ∀ c world world', I c world world' →
    world.flock.active = world'.flock.active
  present :
    ∀ c world world', I c world world' → ∀ ident ∈ world.flock.active,
      world.flock.contains ident = world'.flock.contains ident
  names : ∀ expr, Node expr → ∀ name ∈ expr.boundNames, Local name
  scope :
    ∀ c world world' name number, I c world world' → Local name →
      ∃ inside,
        I inside (world.entered name number) (world'.entered name number) ∧
          (∀ later, Abreast (I inside) F (Action.bind name later)
            (Action.bind name later)) ∧
          ∀ inner inner', I inside inner inner' →
            I c (world.left inner name) (world'.left inner' name)
  draw :
    ∀ c head args, Node (.operation head .random args) →
      Abreast (I c) F draw draw
  make :
    ∀ c head target value number, Node (.make head target value) →
      Abreast (I c) F (Action.bind target.variableName number)
        (Action.bind target.variableName number)
  define :
    ∀ c world world' head name params brackets body,
      Node (.define head name params brackets body) →
      (∀ part ∈ body, Good part) → I c world world' →
        let procedure : Procedure :=
          ⟨name.procedureName, params.map (·.variableName), body⟩
        let entry : Entry := .function (.procedure procedure)
        I c { world with
          bindings := world.bindings.install name.procedureName entry }
          { world' with
            bindings := world'.bindings.install name.procedureName entry }
  found :
    ∀ c world world' head args, Node (.call head args) → I c world world' →
      (∃ found,
        procedure (.call head args) head.procedureName args.length world =
          .ok found world ∧ (∀ name ∈ found.params, Local name) ∧
            ∀ part ∈ found.body, Good part) ∨
        ∃ fault, F fault ∧
          procedure (.call head args) head.procedureName args.length world =
            .error fault world
  focus :
    ∀ c world world' ident, I c world world' →
      (roaming ∨ ∃ first first', I c first first' ∧ ident ∈ first.flock.active ∧
        first.flock.contains ident = true) →
      I c (world.focusedOn ident) (world'.focusedOn ident)
  refocus :
    ∀ c world world' inner inner', I c world world' → I c inner inner' →
      I c (inner.refocused world) (inner'.refocused world')
  command :
    ∀ c head command args, Node (.command head command args) →
      ∀ first first' ident operands, I c first first' →
        ident ∈ first.flock.active → Abreast (I c) F
          (commandOne
            (.command head command args) head.text command ident operands)
          (commandOne
            (.command head command args) head.text command ident operands)
  flock :
    ∀ c head command args operands, Node (.flock head command args) →
      Abreast (I c) F
        (flockCommand (.flock head command args) head.text command operands)
        (flockCommand (.flock head command args) head.text command operands)
  roams : ∀ expr, Node expr → expr.isAddressing = true → roaming
  idents :
    roaming → ∀ c world world', I c world world' →
      world.flock.turtles.map (·.ident) = world'.flock.turtles.map (·.ident)
  hatch :
    roaming → ∀ c world world' ident, I c world world' →
      I c { world with flock := world.flock.hatch ident }
        { world' with flock := world'.flock.hatch ident }
  select :
    roaming → ∀ c world world' idents, I c world world' →
      I c { world with flock := { world.flock with active := idents } }
        { world' with flock := { world'.flock with active := idents } }
  unmark :
    roaming → ∀ c world world' inner inner', I c world world' →
      I c inner inner' →
      I c { inner with marks := world.marks }
        { inner' with marks := world'.marks }

namespace Regime

variable {κ : Type} {I : κ → World → World → Prop} {F : Fault → Prop}
  {Node Good : Expr → Prop} {Local : String → Prop} {roaming : Prop}

section Actions

variable {c : κ} {α : Type}

theorem missing?_eq
    (hlaw : Regime I F Node Good Local roaming) {world world' : World}
    (hworld : I c world world') :
    world'.flock.missing? = world.flock.missing? := by
  unfold Flock.missing?
  rw [← hlaw.active c world world' hworld]
  apply List.find?_congr
  intro ident hident
  rw [hlaw.present c world world' hworld ident hident]

/-- A scope around two actions.  The frames are balanced, so the end of the
scope finds what its opening left. -/
theorem withLocal
    (hlaw : Regime I F Node Good Local roaming) {name : String}
    (hname : Local name) {action twin : Action α}
    (haction :
      ∀ inside, (∀ number, Abreast (I inside) F (Action.bind name number)
          (Action.bind name number)) →
        Abreast (I inside) F action twin)
    (hbalanced : Keeps Balanced action) (number : Number) :
    Abreast (I c) F (Action.withLocal name number action)
      (Action.withLocal name number twin) := by
  intro world world' hworld
  obtain ⟨inside, hentered, hrebind, hleft⟩ :=
    hlaw.scope c world world' name number hworld hname
  have hinside := haction inside hrebind _ _ hentered
  have hframes := (hbalanced (world.entered name number)).frames
  have hframes' :
      (finalState (twin (world'.entered name number))).bindings.frames =
        (world'.entered name number).bindings.frames := by
    rw [← hlaw.frames _ _ _ hinside.finalState, hframes,
      hlaw.frames _ _ _ hentered]
  rw [withLocal_eq, withLocal_eq]
  exact Abreast.andFinallyAt hinside (removeLocal_eq_left hframes)
    (removeLocal_eq_left hframes') (hleft _ _ hinside.finalState)

theorem withLocals
    (hlaw : Regime I F Node Good Local roaming)
    {inputs : List (String × Number)} (hnames : ∀ input ∈ inputs, Local input.1)
    {action twin : Action Number}
    (haction : ∀ inside, Abreast (I inside) F action twin)
    (hbalanced : Keeps Balanced action) :
    Abreast (I c) F (Action.withLocals inputs action)
      (Action.withLocals inputs twin) := by
  induction inputs generalizing c with
  | nil => exact haction c
  | cons input rest ih =>
      rw [List.forall_mem_cons] at hnames
      exact hlaw.withLocal hnames.1 (fun inside _ => ih hnames.2)
        (withLocals_keeps rest hbalanced) input.2

theorem turnsAfter
    (hlaw : Regime I F Node Good Local roaming) {name : String}
    {body body' : Action Number} (hbody : Abreast (I c) F body body')
    (hrebind : ∀ number,
      Abreast (I c) F (Action.bind name number) (Action.bind name number))
    (turns : Nat) (counter : Counter) (result : Number) :
    Abreast (I c) F (Execution.turnsAfter name body turns counter result)
      (Execution.turnsAfter name body' turns counter result) := by
  induction turns generalizing counter result with
  | zero => exact .of_throw (hlaw.fault _ rfl)
  | succ turns ih =>
      refine (Abreast.of_bare hlaw.fault counter.next).bind fun later => ?_
      split
      · refine (hrebind later.value).bind fun _ => ?_
        exact hbody.bind fun value => ih later value
      · exact .of_pure result

theorem count
    (hlaw : Regime I F Node Good Local roaming) {name : String}
    (hname : Local name) {body body' : Action Number}
    (hbody : ∀ c, Abreast (I c) F body body')
    (hbalanced : Keeps Balanced body) (turns : Nat) (counter : Counter) :
    Abreast (I c) F (Execution.count turns name counter body)
      (Execution.count turns name counter body') := by
  have hdiscipline := Balanced.discipline .effectful
  unfold Execution.count
  split
  · refine hlaw.withLocal hname (fun inside hrebind => ?_) ?_ counter.value
    · exact (hbody inside).bind fun value =>
        hlaw.turnsAfter (hbody inside) hrebind turns counter value
    · exact hdiscipline.keeps_bind hbalanced fun value =>
        hdiscipline.keeps_turnsAfter name hbalanced turns counter value
  · exact .of_pure 0

/-- A focus on one turtle. -/
theorem focused
    (hlaw : Regime I F Node Good Local roaming) (number : Number)
    {action twin : Action α} (haction : Abreast (I c) F action twin)
    (hfocus :
      ∀ ident, Flock.identOf number = .ok ident →
        roaming ∨ ∃ first first', I c first first' ∧
          ident ∈ first.flock.active ∧ first.flock.contains ident = true) :
    Abreast (I c) F (Action.focused [number] action)
      (Action.focused [number] twin) := by
  intro world world' hworld
  cases hident : Flock.identOf number with
  | error trouble =>
      rw [focused_of_error hident, focused_of_error hident]
      refine .failure (hlaw.fault _ ?_) hworld
      cases trouble <;> rfl
  | ok ident =>
      have hinside :=
        haction _ _ (hlaw.focus c world world' ident hworld
          (hfocus ident hident))
      rw [focused_of_identOf hident, focused_of_identOf hident]
      exact Abreast.andFinallyAt hinside rfl rfl
        (hlaw.refocus c world world' _ _ hworld hinside.finalState)

theorem dispatch
    (hlaw : Regime I F Node Good Local roaming) (hroaming : roaming)
    {body body' : Action Number} (hbody : Abreast (I c) F body body')
    (result : Number) (numbers : List Number) :
    Abreast (I c) F (Execution.dispatch body result numbers)
      (Execution.dispatch body' result numbers) := by
  induction numbers generalizing result with
  | nil => exact .of_pure result
  | cons number rest ih =>
      exact (hlaw.focused number hbody fun _ _ => .inl hroaming).bind
        fun value => ih value

theorem unmarking
    (hlaw : Regime I F Node Good Local roaming) (hroaming : roaming)
    {body body' : Action Number} (hbody : Abreast (I c) F body body') :
    Abreast (I c) F (Action.unmarking body) (Action.unmarking body') := by
  intro world world' hworld
  have hinside := hbody world world' hworld
  unfold Action.unmarking
  rw [get_bind, get_bind]
  exact Abreast.andFinallyAt hinside rfl rfl
    (hlaw.unmark hroaming c world world' _ _ hworld hinside.finalState)

theorem satisfying
    (hlaw : Regime I F Node Good Local roaming) (hroaming : roaming)
    {body body' : Action Number} (hbody : Abreast (I c) F body body')
    (idents : List Nat) :
    Abreast (I c) F (Execution.satisfying body idents)
      (Execution.satisfying body' idents) := by
  induction idents with
  | nil => exact .of_pure []
  | cons ident rest ih =>
      have hfirst :=
        hlaw.focused (.integer ident) (hlaw.unmarking hroaming hbody)
          fun _ _ => .inl hroaming
      refine hfirst.bind fun value => ?_
      exact ih.bind fun chosen => .of_pure _

theorem address
    (hlaw : Regime I F Node Good Local roaming) (hroaming : roaming)
    (mode : Mode) (expr list : Expr) (numbers : List Number) :
    Abreast (I c) F (Execution.address mode expr list numbers)
      (Execution.address mode expr list numbers) := by
  have hpinned (trouble : Trouble) :
      F (pinned list.head.text list trouble) := by
    apply hlaw.fault
    cases trouble <;> rfl
  induction numbers with
  | nil => exact .of_pure ()
  | cons number rest ih =>
      intro world world' hworld
      cases mode with
      | effectful =>
          rw [address_effectful_cons, address_effectful_cons]
          cases Flock.identOf number with
          | ok ident =>
              exact ih _ _ (hlaw.hatch hroaming c world world' ident hworld)
          | error trouble => exact .failure (hpinned trouble) hworld
      | pureAttempt =>
          rw [address_pureAttempt_cons, address_pureAttempt_cons]
          cases Flock.identOf number with
          | ok ident =>
              have hidents := hlaw.idents hroaming c world world' hworld
              simp only [Flock.contains_map_ident hidents]
              split
              · exact ih world world' hworld
              · exact .failure (hlaw.fault _ rfl) hworld
          | error trouble => exact .failure (hpinned trouble) hworld

theorem summonAll
    (hlaw : Regime I F Node Good Local roaming) (hroaming : roaming)
    (numbers : List Number) {world world' : World} (hworld : I c world world') :
    (world.flock.summonAll numbers).1 = (world'.flock.summonAll numbers).1 ∧
      I c { world with flock := (world.flock.summonAll numbers).2 }
        { world' with flock := (world'.flock.summonAll numbers).2 } := by
  induction numbers generalizing world world' with
  | nil => exact ⟨rfl, hworld⟩
  | cons number rest ih =>
      cases hident : Flock.identOf number with
      | error trouble =>
          simp only [Flock.summonAll, Flock.summon_of_error hident]
          exact ⟨trivial, hworld⟩
      | ok ident =>
          have hrest := ih (hlaw.hatch hroaming c world world' ident hworld)
          simp only [Flock.summonAll, Flock.summon_of_identOf hident]
          generalize (world.flock.hatch ident).summonAll rest = told at hrest ⊢
          generalize (world'.flock.hatch ident).summonAll rest =
            told' at hrest ⊢
          obtain ⟨result, flock⟩ := told
          obtain ⟨result', flock'⟩ := told'
          obtain ⟨rfl, hflock⟩ := hrest
          cases result with
          | ok idents => exact ⟨rfl, hflock⟩
          | error trouble => exact ⟨rfl, hflock⟩

theorem tell
    (hlaw : Regime I F Node Good Local roaming) (hroaming : roaming)
    (numbers : List Number) :
    Abreast (I c) F (Action.tell numbers) (Action.tell numbers) := by
  intro world world' hworld
  have hsummoned := hlaw.summonAll hroaming numbers hworld
  unfold Action.tell Flock.tell
  generalize world.flock.summonAll numbers = told at hsummoned ⊢
  generalize world'.flock.summonAll numbers = told' at hsummoned ⊢
  obtain ⟨result, flock⟩ := told
  obtain ⟨result', flock'⟩ := told'
  obtain ⟨rfl, hflock⟩ := hsummoned
  cases result with
  | ok idents => exact .value idents (hlaw.select hroaming c _ _ idents hflock)
  | error trouble =>
      refine .failure (hlaw.fault _ ?_) hflock
      cases trouble <;> rfl

end Actions

section Instructions

variable {c : κ} {expr : Expr}

theorem lookup (hlaw : Regime I F Node Good Local roaming) (head : Token)
    (name : String) :
    Abreast (I c) F (Execution.lookup (.variable head) name)
      (Execution.lookup (.variable head) name) := by
  intro world world' hworld
  unfold Execution.lookup
  rw [get_bind, get_bind, hlaw.entries c world world' hworld]
  cases world'.bindings.entries.get? name with
  | none => exact .failure (hlaw.fault _ rfl) hworld
  | some entry =>
      cases entry with
      | integer n => exact .value _ hworld
      | double x => exact .value _ hworld
      | marked mark => exact .value _ hworld
      | string text => exact .failure (hlaw.fault _ rfl) hworld
      | function value => exact .failure (hlaw.fault _ rfl) hworld

theorem operation
    (hlaw : Regime I F Node Good Local roaming) {head : Token}
    {operator : Operator} {args : List Expr}
    (hnode : Node (.operation head operator args)) (operands : List Number) :
    Abreast (I c) F
      (Execution.operation (.operation head operator args) operator operands)
      (Execution.operation
        (.operation head operator args) operator operands) := by
  unfold Execution.operation
  simp only
  split
  next hdraws =>
    obtain rfl := Operator.eq_random_of_draws hdraws
    exact (hlaw.draw c head args hnode).bind
      fun random => Abreast.of_pinning hlaw.fault _ _ _
  next =>
    exact (Abreast.of_pure _).bind
      fun random => Abreast.of_pinning hlaw.fault _ _ _

theorem tally
    (hlaw : Regime I F Node Good Local roaming) (place : Expr)
    (number : Number) :
    Abreast (I c) F (Execution.tally place number)
      (Execution.tally place number) := by
  have hendless :
      Abreast (I c) F
        (bare number.text >>= fun text =>
          (Action.mishap (.endlessCount text) place : Action Int))
        (bare number.text >>= fun text =>
          Action.mishap (.endlessCount text) place) :=
    (Abreast.of_bare hlaw.fault _).bind fun text => .of_throw (hlaw.fault _ rfl)
  refine (Abreast.of_bare hlaw.fault _).bind fun finite => ?_
  cases number.truncate? with
  | none => exact hendless
  | some n =>
      cases finite with
      | true => exact .of_pure n
      | false => exact hendless

/-- A command to all turtles that listen, if it can be given to each of them. -/
theorem commandEach
    (hlaw : Regime I F Node Good Local roaming) {word : String}
    {command : TurtleCommand} {args args' : Action (List Number)}
    {first first' : World} (hfirst : I c first first') {idents : List Nat}
    (hidents : ∀ ident ∈ idents, ident ∈ first.flock.active ∧
      first.flock.contains ident = true)
    (hturn :
      ∀ ident ∈ first.flock.active,
        Abreast (I c) F
          (args >>= fun operands => commandOne expr word command ident operands)
          (args' >>= fun operands =>
            commandOne expr word command ident operands))
    (result : Number) :
    Abreast (I c) F (Execution.commandEach expr word command args result idents)
      (Execution.commandEach expr word command args' result idents) := by
  induction idents generalizing result with
  | nil => exact .of_pure result
  | cons ident rest ih =>
      rw [List.forall_mem_cons] at hidents
      obtain ⟨⟨hactive, hthere⟩, hidents⟩ := hidents
      have hfocused :
          Abreast (I c) F
            (Action.focused [.integer ident]
              (args >>= fun operands =>
                commandOne expr word command ident operands))
            (Action.focused [.integer ident]
              (args' >>= fun operands =>
                commandOne expr word command ident operands)) := by
        refine hlaw.focused _ (hturn ident hactive) fun named hnamed => .inr ?_
        rw [Flock.identOf_integer hnamed]
        exact ⟨first, first', hfirst, hactive, hthere⟩
      exact hfocused.bind fun value => ih hidents value

theorem listening
    (hlaw : Regime I F Node Good Local roaming) {word : String}
    {command : TurtleCommand} {args args' : Action (List Number)}
    (hturn :
      ∀ first first' ident, I c first first' → ident ∈ first.flock.active →
        Abreast (I c) F
          (args >>= fun operands => commandOne expr word command ident operands)
          (args' >>= fun operands =>
            commandOne expr word command ident operands)) :
    Abreast (I c) F
      (listeners >>= fun idents =>
        Execution.commandEach expr word command args 0 idents)
      (listeners >>= fun idents =>
        Execution.commandEach expr word command args' 0 idents) := by
  intro world world' hworld
  have hlisteners := Action.listeners_eq_missing? world
  have hlisteners' := Action.listeners_eq_missing? world'
  rw [hlaw.missing?_eq hworld, ← hlaw.active c world world'
    hworld] at hlisteners'
  cases hmissing : world.flock.missing? with
  | none =>
      rw [hmissing] at hlisteners hlisteners'
      rw [bind_eq_of_ok hlisteners, bind_eq_of_ok hlisteners']
      refine hlaw.commandEach hworld (fun ident hident => ⟨hident, ?_⟩)
        (fun ident hident => hturn world world' ident hworld hident) 0
          world world' hworld
      exact (contains_of_listeners hlisteners).2 ident hident
  | some ident =>
      rw [hmissing] at hlisteners hlisteners'
      rw [bind_eq_of_error hlisteners, bind_eq_of_error hlisteners']
      exact .failure (hlaw.fault _ rfl) hworld

/-- A call finds the same procedure in both worlds, which it looks up by its
name alone. -/
theorem call
    (hlaw : Regime I F Node Good Local roaming) {head : Token}
    {args : List Expr} (hnode : Node (.call head args))
    {next next' : Procedure → Action Number}
    (hnext :
      ∀ found, (∀ name ∈ found.params, Local name) →
        (∀ part ∈ found.body, Good part) →
        Abreast (I c) F (next found) (next' found)) :
    Abreast (I c) F
      (procedure (.call head args) head.procedureName args.length >>= next)
      (procedure
        (.call head args) head.procedureName args.length >>= next') := by
  intro world world' hworld
  have hsame :=
    procedure_congr (.call head args) head.procedureName args.length
      (hlaw.entries c world world' hworld)
  rcases hlaw.found c world world' head args hnode hworld with
    ⟨found, hfound, hparams, hbody⟩ | ⟨fault, hfault, hfound⟩
  · rw [hfound] at hsame
    rw [bind_eq_of_ok hfound, bind_eq_of_ok hsame]
    exact hnext found hparams hbody world world' hworld
  · rw [hfound] at hsame
    rw [bind_eq_of_error hfound, bind_eq_of_error hsame]
    exact .failure hfault hworld

end Instructions

/-- One expression, if the expressions inside of it can be executed side by
side. -/
theorem step
    (hlaw : Regime I F Node Good Local roaming) (turns : Nat)
    {execute execute' : Mode → Expr → Action Number}
    (hexecute :
      ∀ c mode part, Good part →
        Abreast (I c) F (execute mode part) (execute' mode part))
    (hbalanced : ∀ mode part, Keeps Balanced (execute mode part)) (mode : Mode)
    {expr : Expr} (hnode : Node expr) (hgood : ∀ part ∈ expr.parts, Good part)
    (c : κ) :
    Abreast (I c) F (Execution.step turns execute mode expr)
      (Execution.step turns execute' mode expr) := by
  have hpart (c : κ) (part : Expr) (hmem : part ∈ expr.parts) :
      Abreast (I c) F (execute mode part) (execute' mode part) :=
    hexecute c mode part (hgood part hmem)
  have hnames := hlaw.names expr hnode
  have hkeeps (body : List Expr) :
      Keeps Balanced (Execution.inOrder (execute mode) 0 body) :=
    (Balanced.discipline mode).keeps_inOrder (hbalanced mode) 0 body
  unfold Execution.step
  split
  next => exact .of_throw (hlaw.fault _ rfl)
  next =>
    cases expr with
    | literal head value => exact .of_pure value
    | «variable» head => exact hlaw.lookup head _
    | command head command args =>
        refine hlaw.listening fun first first' ident hfirst hident => ?_
        refine (Abreast.each (hpart c)).bind fun operands => ?_
        exact hlaw.command c head command args hnode first first' ident
          operands hfirst hident
    | flock head command args =>
        refine (Abreast.each (hpart c)).bind fun operands => ?_
        exact hlaw.flock c head command args operands hnode
    | operation head operator args =>
        exact (Abreast.each (hpart c)).bind
          fun operands => hlaw.operation hnode operands
    | block brackets body => exact .inOrder (hpart c) 0
    | make head target value =>
        refine (hpart c value (by simp [Expr.parts])).bind fun number => ?_
        exact hlaw.make c head target value number hnode
    | repeatTimes head limit brackets body =>
        have hinside (c : κ) := (List.forall_mem_cons.mp (hpart c)).2
        refine (hpart c limit (by simp [Expr.parts])).bind fun number => ?_
        refine (hlaw.tally limit number).bind fun last => ?_
        exact hlaw.count (hnames _ (by simp [Expr.boundNames]))
          (fun c => .inOrder (hinside c) 0) (hkeeps body) turns _
    | countTo head target limit brackets body =>
        have hinside (c : κ) := (List.forall_mem_cons.mp (hpart c)).2
        refine (hpart c limit (by simp [Expr.parts])).bind fun number => ?_
        refine (hlaw.tally limit number).bind fun last => ?_
        exact hlaw.count (hnames _ (by simp [Expr.boundNames]))
          (fun c => .inOrder (hinside c) 0) (hkeeps body) turns _
    | countBy head target first last size brackets body =>
        have hinside (c : κ) (part : Expr) (hmem : part ∈ body) :
            Abreast (I c) F (execute mode part) (execute' mode part) :=
          hpart c part (by simp [Expr.parts, hmem])
        refine (hpart c first (by simp [Expr.parts])).bind fun start => ?_
        refine (hpart c last (by simp [Expr.parts])).bind fun stop => ?_
        refine (hpart c size (by simp [Expr.parts])).bind fun number => ?_
        split
        · exact hlaw.count (hnames _ (by simp [Expr.boundNames]))
            (fun c => .inOrder (hinside c) 0) (hkeeps body) turns _
        · exact .of_throw (hlaw.fault _ rfl)
    | ifThen head condition brackets body =>
        obtain ⟨hcondition, hinside⟩ := List.forall_mem_cons.mp (hpart c)
        refine hcondition.bind fun number => ?_
        split
        · exact .inOrder hinside 0
        · exact .of_pure 0
    | ifElse head condition thenBrackets thenPart elseBrackets elsePart =>
        obtain ⟨hcondition, hparts⟩ := List.forall_mem_cons.mp (hpart c)
        obtain ⟨hthen, helse⟩ := List.forall_mem_append.mp hparts
        refine hcondition.bind fun number => ?_
        split
        · exact .inOrder hthen 0
        · exact .inOrder helse 0
    | define head name params brackets body =>
        refine Abreast.bind (.of_modify fun world world' hworld => ?_)
          fun _ => .of_pure 1
        exact hlaw.define c world world' head name params brackets body
          hnode hgood hworld
    | call head args =>
        refine hlaw.call hnode fun found hparams hbody => ?_
        refine (Abreast.each (hpart c)).bind fun inputs => ?_
        refine hlaw.withLocals (fun input hinput => hparams _ ?_)
          (fun c =>
            .inOrder
              (fun part hmem => hexecute c mode part (hbody part hmem)) 0)
          (hkeeps found.body)
        exact (List.of_mem_zip hinput).1
    | tell head brackets list =>
        have hroaming := hlaw.roams _ hnode rfl
        refine (Abreast.each (hpart c)).bind fun numbers => ?_
        refine (hlaw.address hroaming mode _ _ numbers).bind fun _ => ?_
        exact (hlaw.tell hroaming numbers).bind fun _ => .of_pure _
    | ask head listBrackets list brackets body =>
        have hroaming := hlaw.roams _ hnode rfl
        obtain ⟨hlist, hinside⟩ := List.forall_mem_append.mp (hpart c)
        refine (Abreast.each hlist).bind fun numbers => ?_
        refine (hlaw.address hroaming mode _ _ numbers).bind fun _ => ?_
        exact hlaw.dispatch hroaming (.inOrder hinside 0) 0 numbers
    | askWith head conditionBrackets condition brackets body =>
        have hroaming := hlaw.roams _ hnode rfl
        obtain ⟨-, hinside⟩ := List.forall_mem_append.mp (hpart c)
        have hcondition (part : Expr) (hmem : part ∈ condition) :
            Abreast (I c) F (execute .pureAttempt part)
              (execute' .pureAttempt part) :=
          hexecute c .pureAttempt part
            (hgood part (List.mem_append_left _ hmem))
        intro world world' hworld
        simp only
        rw [get_bind, get_bind, ← hlaw.idents hroaming c world world' hworld]
        refine Abreast.bind ?_ (fun chosen => ?_) world world' hworld
        · exact hlaw.satisfying hroaming (.inOrder hcondition 0) _
        · exact hlaw.dispatch hroaming (.inOrder hinside 0) 0 chosen

theorem execute
    (hlaw : Regime I F Node Good Local roaming)
    (hnode : ∀ expr, Good expr → Node expr)
    (hgood : ∀ expr, Good expr → ∀ part ∈ expr.parts, Good part)
    (turns depth : Nat) (mode : Mode) {expr : Expr} (hexpr : Good expr)
    (c : κ) :
    Abreast (I c) F (Execution.execute turns depth mode expr)
      (Execution.execute turns depth mode expr) := by
  induction depth generalizing mode expr c with
  | zero => exact .of_throw (hlaw.fault _ rfl)
  | succ depth ih =>
      exact hlaw.step turns (fun c mode part hpart => ih mode hpart c)
        (balanced_execute turns depth) mode (hnode expr hexpr)
          (hgood expr hexpr) c

end Regime

end Logo
