import Logo.Proofs.Execution.Confined
import Logo.Proofs.Execution.Solo
import Logo.Proofs.Turtle.Renamed

/-!
# The turn of one turtle, up to other marks

Two worlds may have given out different numbers of marks.  If they agree
otherwise on what concerns the only turtle that listens, and the marks yet to be
given out to it correspond, then a turn of it does the same in both, up to these
marks.
-/

namespace Logo

open Logo.Action Execution

variable {rename : Mark ↪ Mark}

/-! ## The table -/

/-- The entry with other marks.  What is kept as a function is left as it is. -/
def Entry.renamed (rename : Mark ↪ Mark) : Entry → Entry
  | .marked mark => .marked (rename mark)
  | entry => entry

theorem Entry.renamed_ofNumber (number : Number) :
    (Entry.ofNumber number).renamed rename =
      .ofNumber (number.renamed rename) := by
  cases number <;> rfl

def Frames.renamed (rename : Mark ↪ Mark) (frames : Frames) : Frames where
  newest := frames.newest.map (·.renamed rename)
  older := frames.older.map (·.map (·.renamed rename))

def Bindings.renamed (rename : Mark ↪ Mark) (bindings : Bindings) :
    Bindings where
  entries := bindings.entries.mapped (·.renamed rename)
  frames := bindings.frames.mapped (·.renamed rename)
  alarms := bindings.alarms

namespace Bindings

variable (bindings : Bindings) (name : String)

theorem install_renamed (entry : Entry) :
    (bindings.renamed rename).install name (entry.renamed rename) =
      (bindings.install name entry).renamed rename := by
  simp [install, notify, renamed, NameMap.insert_mapped]

theorem framesOf_renamed :
    (bindings.renamed rename).framesOf name =
      (bindings.framesOf name).map (·.map (·.renamed rename)) := by
  unfold framesOf
  rw [renamed, NameMap.get?_mapped]
  cases bindings.frames.get? name <;> rfl

theorem opened_renamed (entry : Entry) :
    (bindings.renamed rename).opened name (entry.renamed rename) =
      (bindings.opened name entry).renamed rename := by
  unfold opened
  rw [framesOf_renamed, ← install_renamed]
  simp only [renamed, NameMap.get?_mapped, ← NameMap.insert_mapped]
  rfl

theorem closed_renamed (outer : Bindings) :
    (outer.renamed rename).closed (bindings.renamed rename) name =
      (outer.closed bindings name).renamed rename := by
  simp [closed, notify, renamed, NameMap.get?_mapped, NameMap.assign_mapped]

end Bindings

/-! ## Agreement -/

/-- Two worlds agree on whatever concerns the only turtle that listens: on the
turtle itself, on the table, on the random numbers to come and on the number of
turtles.  The marks of the second world are those of the first under other
names, and so are the marks that the turtle will be given. -/
structure World.AgreeUpTo
    (rename : Mark ↪ Mark) (ident : Nat) (world world' : World) : Prop where
  active : world.flock.active = [ident]
  active' : world'.flock.active = [ident]
  turtle : world'.flock.numbered ident = (world.flock.numbered ident).map
    (·.renamed rename)
  bindings : world'.bindings = world.bindings.renamed rename
  draws : world'.draws = world.draws
  size : world'.flock.size = world.flock.size
  fresh :
    ∀ count, rename ⟨ident, world.marks.given ident + count⟩ =
      ⟨ident, world'.marks.given ident + count⟩

/-- Constants have no marks with other names. -/
def Expr.IsFixed (rename : Mark ↪ Mark) : Expr → Prop
  | .literal _ value => value.renamed rename = value
  | _ => True

/-- What may be executed in a turn, where marks have other names. -/
def Expr.Fits (rename : Mark ↪ Mark) (expr : Expr) : Prop :=
  expr.keepsToItself = true ∧ expr.IsFixed rename

/-- Two worlds in the middle of a turn. -/
structure World.InTurn (rename : Mark ↪ Mark) (ident : Nat)
    (world world' : World) : Prop where
  agree : world.AgreeUpTo rename ident world'
  stored : world.bindings.entries.All (Entry.Throughout (Expr.Fits rename))

/-- Two endings with the same value, up to other marks, or with the same
fault. -/
inductive Ending.Renamed {α : Type} (J : World → World → Prop) (f : α → α) :
    EStateM.Result Fault World α → EStateM.Result Fault World α → Prop where
  | value (a : α) {world world' : World} (hworld : J world world') :
      Ending.Renamed J f (.ok a world) (.ok (f a) world')
  | failure (fault : Fault) {world world' : World} (hworld : J world world') :
      Ending.Renamed J f (.error fault world) (.error fault world')

theorem Ending.Renamed.finalState
    {α : Type} {J : World → World → Prop} {f : α → α}
    {result result' : EStateM.Result Fault World α}
    (hresult : Ending.Renamed J f result result') :
    J (finalState result) (finalState result') := by
  cases hresult with
  | value a hworld => exact hworld
  | failure fault hworld => exact hworld

theorem Ending.Renamed.mono
    {α : Type} {J K : World → World → Prop} {f : α → α}
    {result result' : EStateM.Result Fault World α}
    (hresult : Ending.Renamed J f result result')
    (hle : ∀ world world', J world world' → K world world') :
    Ending.Renamed K f result result' := by
  cases hresult with
  | value a hworld => exact .value a (hle _ _ hworld)
  | failure fault hworld => exact .failure fault (hle _ _ hworld)

/-- In two worlds of a turn, two actions end in the same way. -/
def Renames
    (rename : Mark ↪ Mark) (ident : Nat) {α : Type} (f : α → α)
    (action twin : Action α) : Prop :=
  ∀ world world', world.InTurn rename ident world' →
    Ending.Renamed (World.InTurn rename ident) f (action world) (twin world')

variable {ident : Nat}

namespace World.InTurn

variable {world world' : World} (hturn : world.InTurn rename ident world')
include hturn

theorem get? :
    world'.flock.get? ident = (world.flock.get? ident).map
      (·.renamed rename) := by
  rw [Flock.get?_eq_head?, Flock.get?_eq_head?, hturn.agree.turtle,
    List.head?_map]

theorem contains :
    world'.flock.contains ident = world.flock.contains ident := by
  unfold Flock.contains
  rw [hturn.get?, Option.isSome_map]

/-- Both worlds keep a number in the same way. -/
theorem keep (number : Number) :
    (world'.keep (number.renamed rename)).1 =
      (world.keep number).1.renamed rename ∧
      (world.keep number).2.InTurn rename ident
        (world'.keep (number.renamed rename)).2 := by
  obtain ⟨hagree, hstored⟩ := hturn
  have hlistener : world.listener = ident := by
    simp [World.listener, hagree.active]
  have hlistener' : world'.listener = ident := by
    simp [World.listener, hagree.active']
  unfold World.keep
  rw [hlistener, hlistener']
  cases number with
  | integer n => exact ⟨rfl, hagree, hstored⟩
  | marked mark => exact ⟨rfl, hagree, hstored⟩
  | real x =>
      by_cases hnan : x.isNaN = true
      · simp only [Number.renamed_real, Marks.keep, hnan, if_true,
          Marks.next_fst]
        refine ⟨congrArg Number.marked (hagree.fresh 0).symm, ?_, hstored⟩
        refine { hagree with fresh := fun count => ?_ }
        rw [Marks.given_next_self, Marks.given_next_self, Nat.add_assoc,
          Nat.add_assoc]
        exact hagree.fresh (1 + count)
      · simp only [Number.renamed_real, Marks.keep, hnan, if_false,
          Bool.false_eq_true]
        exact ⟨trivial, hagree, hstored⟩

/-- A turtle is written back. -/
theorem put {turtle : Turtle} (hident : turtle.ident = ident) :
    World.InTurn rename ident { world with flock := world.flock.put turtle }
      { world' with flock := world'.flock.put (turtle.renamed rename) } := by
  subst hident
  have hsize (flock : Flock) (other : Turtle) :
      (flock.put other).size = flock.size := by
    simp [Flock.size, Flock.put]
  refine ⟨{ hturn.agree with turtle := ?_, size := ?_ }, hturn.stored⟩
  · change (world'.flock.put (turtle.renamed rename)).numbered
      (turtle.renamed rename).ident = _
    rw [Flock.numbered_put, Flock.numbered_put]
    change (world'.flock.numbered turtle.ident).map _ = _
    rw [hturn.agree.turtle, List.map_map, List.map_map]
    rfl
  · rw [hsize, hsize, hturn.agree.size]

theorem withBindings
    {bindings : Bindings}
    (hstored : bindings.entries.All (Entry.Throughout (Expr.Fits rename))) :
    World.InTurn rename ident { world with bindings := bindings }
      { world' with bindings := bindings.renamed rename } :=
  ⟨{ hturn.agree with bindings := rfl }, hstored⟩

theorem installed
    (name : String) {entry : Entry}
    (hentry : entry.Throughout (Expr.Fits rename)) :
    World.InTurn rename ident
      { world with bindings := world.bindings.install name entry }
      { world' with
        bindings := world'.bindings.install name (entry.renamed rename) } := by
  rw [hturn.agree.bindings, Bindings.install_renamed]
  exact hturn.withBindings (hturn.stored.insert name hentry)

theorem entered (name : String) (number : Number) :
    (world.entered name number).InTurn rename ident
      (world'.entered name (number.renamed rename)) := by
  obtain ⟨hnumber, hkept⟩ := hturn.keep number
  unfold World.entered
  rw [hnumber, hturn.agree.bindings, ← Entry.renamed_ofNumber,
    Bindings.opened_renamed]
  exact hkept.withBindings
    (hturn.stored.insert name (Entry.throughout_ofNumber _))

theorem left {inner inner' : World} (hinner : inner.InTurn rename ident inner')
    (name : String) :
    (world.left inner name).InTurn rename ident (world'.left inner' name) := by
  unfold World.left
  rw [hturn.agree.bindings, hinner.agree.bindings, Bindings.closed_renamed]
  exact hinner.withBindings
    (hinner.stored.assign name fun _ hentry => hturn.stored.get? hentry)

end World.InTurn

namespace Renames

variable {α β : Type} {f : α → α} {g : β → β}

theorem bindAt
    {action twin : Action α} {next next' : α → Action β} {world world' : World}
    (haction : Ending.Renamed (World.InTurn rename ident) f (action world)
      (twin world'))
    (hnext :
      ∀ a after after', action world = .ok a after →
        after.InTurn rename ident after' →
        Ending.Renamed (World.InTurn rename ident) g (next a after)
          (next' (f a) after')) :
    Ending.Renamed (World.InTurn rename ident) g ((action >>= next) world)
      ((twin >>= next') world') := by
  generalize hrun : action world = between at haction
  generalize hrun' : twin world' = between' at haction
  cases haction with
  | value a hworld =>
      rw [bind_eq_of_ok hrun, bind_eq_of_ok hrun']
      exact hnext a _ _ hrun hworld
  | failure fault hworld =>
      rw [bind_eq_of_error hrun, bind_eq_of_error hrun']
      exact .failure fault hworld

theorem bind
    {action twin : Action α} {next next' : α → Action β}
    (haction : Renames rename ident f action twin)
    (hnext : ∀ a, Renames rename ident g (next a) (next' (f a))) :
    Renames rename ident g (action >>= next) (twin >>= next') :=
  fun world world' hworld =>
    bindAt (haction world world' hworld) fun a after after' _ hafter =>
      hnext a after after' hafter

theorem of_pure (a : α) :
    Renames rename ident f (pure a : Action α) (pure (f a)) :=
  fun _ _ hworld => .value a hworld

theorem of_throw (fault : Fault) :
    Renames rename ident f (throw fault : Action α) (throw fault) :=
  fun _ _ hworld => .failure fault hworld

theorem of_modify
    {change change' : World → World}
    (hchange :
      ∀ world world', world.InTurn rename ident world' →
        (change world).InTurn rename ident (change' world')) :
    Renames rename ident id (modify change : Action PUnit) (modify change') :=
  fun world world' hworld => .value _ (hchange world world' hworld)

theorem of_bare (result : Except ArithmeticFault α) :
    Renames rename ident f (bare result) (bare (f <$> result)) := by
  cases result with
  | ok a => exact of_pure a
  | error fault => exact of_throw _

theorem of_pinning (word : String) (place : Expr) (result : Except Trouble α) :
    Renames rename ident f (pinning word place result)
      (pinning word place (f <$> result)) := by
  cases result with
  | ok a => exact of_pure a
  | error trouble => exact of_throw _

theorem of_keep (number : Number) :
    Renames rename ident (·.renamed rename) (keep number)
      (keep (number.renamed rename)) := by
  intro world world' hworld
  obtain ⟨hnumber, hkept⟩ := hworld.keep number
  rw [Action.keep_eq, Action.keep_eq, hnumber]
  exact .value _ hkept

theorem of_draw : Renames rename ident id draw draw := by
  intro world world' hworld
  have hnext : world'.draws.next = world.draws.next := by
    rw [hworld.agree.draws]
  have hdraw (now : World) :
      draw now = .ok now.draws.next.1
        { now with draws := now.draws.next.2 } := rfl
  rw [hdraw, hdraw, hnext]
  exact .value _ ⟨{ hworld.agree with draws := rfl }, hworld.stored⟩

theorem of_rebind (name : String) (number : Number) :
    Renames rename ident (·.renamed rename) (Action.bind name number)
      (Action.bind name (number.renamed rename)) := by
  intro world world' hworld
  obtain ⟨hnumber, hkept⟩ := hworld.keep number
  rw [Action.bind_eq, Action.bind_eq, hnumber, ← Entry.renamed_ofNumber]
  exact .value _ (hkept.installed name (Entry.throughout_ofNumber _))

/-- A clean-up behind two actions, where it succeeds. -/
theorem andFinallyAt
    {action twin : Action α} {cleanup cleanup' : Action Unit}
    {world world' after after' : World}
    (haction : Ending.Renamed (World.InTurn rename ident) f (action world)
      (twin world'))
    (hcleanup : cleanup (finalState (action world)) = .ok () after)
    (hcleanup' : cleanup' (finalState (twin world')) = .ok () after')
    (hafter : after.InTurn rename ident after') :
    Ending.Renamed (World.InTurn rename ident) f
      (action.andFinally cleanup world) (twin.andFinally cleanup' world') := by
  unfold Action.andFinally
  generalize action world = between at haction hcleanup
  generalize twin world' = between' at haction hcleanup'
  cases haction with
  | value a hworld =>
      rw [finalState_ok] at hcleanup hcleanup'
      simp only [hcleanup, hcleanup']
      exact .value a hafter
  | failure fault hworld =>
      rw [finalState_error] at hcleanup hcleanup'
      simp only [hcleanup, hcleanup']
      exact .failure fault hafter

/-- A scope around two actions.  The frames are balanced, so the end of the
scope finds what its opening left. -/
theorem withLocal
    {action twin : Action α} (haction : Renames rename ident f action twin)
    (hbalanced : Keeps Balanced action) (name : String) (number : Number) :
    Renames rename ident f (Action.withLocal name number action)
      (Action.withLocal name (number.renamed rename) twin) := by
  intro world world' hworld
  have hentered := hworld.entered name number
  have hinside := haction _ _ hentered
  have hframes := (hbalanced (world.entered name number)).frames
  have hframes' :
      (finalState
        (twin (world'.entered name (number.renamed rename)))).bindings.frames =
        (world'.entered name (number.renamed rename)).bindings.frames := by
    rw [hinside.finalState.agree.bindings, hentered.agree.bindings,
      Bindings.renamed, Bindings.renamed, hframes]
  rw [withLocal_eq, withLocal_eq]
  exact andFinallyAt hinside (removeLocal_eq_left hframes)
    (removeLocal_eq_left hframes') (hworld.left hinside.finalState name)

/-- Whoever listens alone can be focused on without any effect. -/
theorem focusedAt
    {action twin : Action α} (haction : Renames rename ident f action twin)
    {world world' : World} (hworld : world.InTurn rename ident world')
    (hthere : world.flock.contains ident = true) :
    Ending.Renamed (World.InTurn rename ident) f
      (focused [.integer ident] action world)
      (focused [.integer ident] twin world') := by
  have hsame {now later : World} (hnow : now.flock.active = [ident])
      (hlater : later.flock.active = [ident]) :
      later.refocused now = later := by
    unfold World.refocused
    rw [hnow, ← hlater]
  cases hident : Flock.identOf (.integer ident) with
  | error trouble =>
      rw [focused_of_error hident, focused_of_error hident]
      exact .failure _ hworld
  | ok found =>
      obtain rfl := Flock.identOf_integer hident
      have hinside := haction world world' hworld
      have hlast := hinside.finalState
      rw [focused_of_identOf hident, focused_of_identOf hident,
        Solo.focusedOn_eq hworld.agree.active hthere,
        Solo.focusedOn_eq hworld.agree.active' (hworld.contains.trans hthere)]
      have hafter :
          ((finalState (action world)).refocused world).InTurn rename found
            ((finalState (twin world')).refocused world') := by
        rw [hsame hworld.agree.active hlast.agree.active,
          hsame hworld.agree.active' hlast.agree.active']
        exact hlast
      exact andFinallyAt hinside rfl rfl hafter

section Loops

variable {body twin : Action Number}
  (hbody : Renames rename ident (·.renamed rename) body twin)
include hbody

theorem withLocals (hbalanced : Keeps Balanced body)
    (inputs : List (String × Number)) :
    Renames rename ident (·.renamed rename) (Action.withLocals inputs body)
      (Action.withLocals
        (inputs.map fun input => (input.1, input.2.renamed rename)) twin) := by
  induction inputs with
  | nil => exact hbody
  | cons input rest ih =>
      exact ih.withLocal (withLocals_keeps rest hbalanced) input.1 input.2

theorem turnsAfter (name : String) (turns : Nat) (counter : Counter)
    (result : Number) :
    Renames rename ident (·.renamed rename)
      (Execution.turnsAfter name body turns counter result)
      (Execution.turnsAfter name twin turns (counter.renamed rename)
        (result.renamed rename)) := by
  induction turns generalizing counter result with
  | zero => exact of_throw _
  | succ turns ih =>
      unfold Execution.turnsAfter
      rw [Counter.next_renamed]
      refine (of_bare counter.next).bind fun later => ?_
      simp only [Counter.isLive_renamed]
      split
      · refine (of_rebind name later.value).bind fun _ => ?_
        exact hbody.bind fun value => ih later value
      · exact of_pure result

theorem count (hbalanced : Keeps Balanced body) (turns : Nat) (name : String)
    (counter : Counter) :
    Renames rename ident (·.renamed rename)
      (Execution.count turns name counter body)
      (Execution.count turns name (counter.renamed rename) twin) := by
  have hdiscipline := Balanced.discipline .effectful
  unfold Execution.count
  rw [Counter.isLive_renamed]
  split
  · have hturns :=
      hbody.bind fun value => hbody.turnsAfter name turns counter value
    refine hturns.withLocal ?_ name counter.value
    exact hdiscipline.keeps_bind hbalanced fun value =>
      hdiscipline.keeps_turnsAfter name hbalanced turns counter value
  · exact of_pure 0

end Loops

section Instructions

variable {expr : Expr}

theorem of_lookup (name : String) :
    Renames rename ident (·.renamed rename) (lookup expr name)
      (lookup expr name) := by
  intro world world' hworld
  unfold lookup
  rw [get_bind, get_bind, hworld.agree.bindings, Bindings.renamed,
    NameMap.get?_mapped]
  cases world.bindings.entries.get? name with
  | none => exact .failure _ hworld
  | some entry =>
      cases entry with
      | integer n => exact .value _ hworld
      | double x => exact .value _ hworld
      | marked mark => exact .value _ hworld
      | string text => exact .failure _ hworld
      | function value => exact .failure _ hworld

theorem of_operation (operator : Operator) (operands : List Number) :
    Renames rename ident (·.renamed rename) (operation expr operator operands)
      (operation expr operator (operands.map (·.renamed rename))) := by
  unfold operation
  simp only [Operator.draws_renamed, Operator.value_renamed]
  split
  · exact of_draw.bind fun random => of_pinning _ _ _
  · exact of_pinning _ _ _

theorem of_tally (number : Number) :
    Renames rename ident id (tally expr number)
      (tally expr (number.renamed rename)) := by
  have hendless :
      Renames rename ident id
        (bare number.text >>= fun text =>
          (Action.mishap (.endlessCount text) expr : Action Int))
        (bare number.text >>= fun text =>
          Action.mishap (.endlessCount text) expr) := by
    cases number.text with
    | ok text => exact of_throw _
    | error fault => exact of_throw _
  unfold tally
  simp only [Number.isFinite_renamed, Number.truncate?_renamed,
    Number.text_renamed]
  cases number.isFinite with
  | error fault => exact of_throw _
  | ok finite =>
      cases number.truncate? with
      | none => exact hendless
      | some n =>
          cases finite with
          | true => exact of_pure n
          | false => exact hendless

theorem of_procedure (name : String) (inputs : Nat) :
    Renames rename ident id (procedure expr name inputs)
      (procedure expr name inputs) := by
  intro world world' hworld
  unfold procedure
  rw [get_bind, get_bind, hworld.agree.bindings, Bindings.renamed,
    NameMap.get?_mapped]
  cases world.bindings.entries.get? name with
  | none => exact .failure _ hworld
  | some entry =>
      cases entry with
      | function value =>
          cases value with
          | procedure found =>
              change Ending.Renamed _ id
                ((if found.params.length = inputs then pure found
                  else _ : Action Procedure) world)
                ((if found.params.length = inputs then pure found
                  else _ : Action Procedure) world')
              split
              · exact .value _ hworld
              · exact .failure _ hworld
          | _ => exact .failure _ hworld
      | _ => exact .failure _ hworld

theorem of_commandOne (word : String) (command : TurtleCommand)
    (operands : List Number) :
    Renames rename ident (·.renamed rename)
      (commandOne expr word command ident operands)
      (commandOne expr word command ident
        (operands.map (·.renamed rename))) := by
  intro world world' hworld
  have hturtle := Action.turtle_eq ident world
  have hturtle' := Action.turtle_eq ident world'
  rw [hworld.get?] at hturtle'
  unfold commandOne
  cases hbefore : world.flock.get? ident with
  | none =>
      rw [hbefore] at hturtle hturtle'
      rw [bind_eq_of_error hturtle, bind_eq_of_error hturtle']
      exact .failure _ hworld
  | some before =>
      rw [hbefore] at hturtle hturtle'
      rw [bind_eq_of_ok hturtle, bind_eq_of_ok hturtle', command.update_renamed]
      refine bindAt (of_pinning word expr _ world world' hworld) ?_
      rintro ⟨changed, answer⟩ after after' hrun hafter
      have hident : changed.ident = ident := by
        have hidents := command.ident_update operands before
        rw [Confined.eq_ok_of_pinning hrun] at hidents
        exact (Except.ok.inj hidents).trans (Flock.ident_of_get? hbefore)
      cases answer with
      | some number => exact .value number hafter
      | none =>
          refine bind (of_keep changed.x) (fun x => ?_) after after' hafter
          refine (of_keep changed.y).bind fun y => ?_
          have houtcome :=
            command.outcome_renamed rename operands before.pose
              { changed with x := x, y := y }.pose
          have hbare :
              Renames rename ident (·.renamed rename)
                (bare (command.outcome operands before.pose
                  { changed with x := x, y := y }.pose))
                (bare _) :=
            of_bare _
          rw [← houtcome] at hbare
          exact bind (of_modify fun now now' hnow => hnow.put hident)
            fun _ => hbare

theorem of_flockCommand
    (word : String) {command : FlockCommand} (hquery : command.isQuery = true)
    (operands : List Number) :
    Renames rename ident (·.renamed rename)
      (flockCommand expr word command operands)
      (flockCommand expr word command (operands.map (·.renamed rename))) := by
  intro world world' hworld
  cases command with
  | turtles =>
      unfold flockCommand
      rw [get_bind, get_bind]
      cases operands with
      | nil =>
          simp only [List.map_nil, FlockCommand.update, hworld.agree.size]
          exact .value _ hworld
      | cons number rest => exact .failure _ hworld
  | _ => cases hquery

/-- A command to the only turtle that listens. -/
theorem listening
    {args twin : Action (List Number)}
    (hargs : Renames rename ident (·.map (·.renamed rename)) args twin)
    (word : String) (command : TurtleCommand) :
    Renames rename ident (·.renamed rename)
      (listeners >>= fun idents => commandEach expr word command args 0 idents)
      (listeners >>= fun idents =>
        commandEach expr word command twin 0 idents) := by
  intro world world' hworld
  have hmissing (now : World) (hactive : now.flock.active = [ident]) :
      listeners now =
        if now.flock.contains ident then .ok [ident] now
        else .error (.broken (.missingTurtle ident)) now := by
    rw [Action.listeners_eq_missing?, Flock.missing?, hactive]
    cases hthere : now.flock.contains ident <;> simp [hthere]
  have hlisteners := hmissing world hworld.agree.active
  have hlisteners' := hmissing world' hworld.agree.active'
  rw [hworld.contains] at hlisteners'
  cases hthere : world.flock.contains ident with
  | false =>
      rw [hthere] at hlisteners hlisteners'
      rw [bind_eq_of_error hlisteners, bind_eq_of_error hlisteners']
      exact .failure _ hworld
  | true =>
      rw [hthere] at hlisteners hlisteners'
      rw [bind_eq_of_ok hlisteners, bind_eq_of_ok hlisteners']
      have hcommand :
          Renames rename ident (·.renamed rename)
            (args >>= fun operands =>
              commandOne expr word command ident operands)
            (twin >>= fun operands =>
              commandOne expr word command ident operands) :=
        hargs.bind fun operands => of_commandOne word command operands
      exact bindAt (hcommand.focusedAt hworld hthere) fun value _ _ _ hafter =>
        .value value hafter

end Instructions

section Lists

variable {run twin : Expr → Action Number}

theorem inOrder
    {body : List Expr}
    (hbody : ∀ expr ∈ body,
      Renames rename ident (·.renamed rename) (run expr) (twin expr))
    (result : Number) :
    Renames rename ident (·.renamed rename) (Execution.inOrder run result body)
      (Execution.inOrder twin (result.renamed rename) body) := by
  induction body generalizing result with
  | nil => exact of_pure result
  | cons expr rest ih =>
      rw [List.forall_mem_cons] at hbody
      exact hbody.1.bind fun value => ih hbody.2 value

theorem each
    {exprs : List Expr}
    (hexprs : ∀ expr ∈ exprs, Renames rename ident (·.renamed rename) (run expr)
      (twin expr)) :
    Renames rename ident (·.map (·.renamed rename)) (Execution.each run exprs)
      (Execution.each twin exprs) := by
  induction exprs with
  | nil => exact of_pure []
  | cons expr rest ih =>
      rw [List.forall_mem_cons] at hexprs
      refine hexprs.1.bind fun number => ?_
      exact (ih hexprs.2).bind fun numbers => of_pure (number :: numbers)

end Lists

end Renames

/-- One expression that keeps to itself, if the expressions inside of it can be
executed. -/
theorem renames_step
    (turns depth : Nat)
    (hexecute :
      ∀ mode expr, expr.Throughout (Expr.Fits rename) →
        Renames rename ident (·.renamed rename) (execute turns depth mode expr)
          (execute turns depth mode expr))
    (mode : Mode) {expr : Expr} (hexpr : expr.Throughout (Expr.Fits rename)) :
    Renames rename ident (·.renamed rename)
      (step turns (execute turns depth) mode expr)
      (step turns (execute turns depth) mode expr) := by
  have hpart (part : Expr) (hmem : part ∈ expr.parts) :=
    hexecute mode part (hexpr.part hmem)
  have hkeeps (body : List Expr) :
      Keeps Balanced (inOrder (execute turns depth mode) 0 body) :=
    (Balanced.discipline mode).keeps_inOrder
      (balanced_execute turns depth mode) 0 body
  have hself := (hexpr expr .self).1
  unfold step
  split
  next => exact .of_throw _
  next =>
    cases expr with
    | literal head value =>
        have hfixed : value.renamed rename = value := (hexpr _ .self).2
        have hpure :
            Renames rename ident (·.renamed rename) (pure value) (pure _) :=
          .of_pure value
        rw [hfixed] at hpure
        exact hpure
    | «variable» head => exact .of_lookup _
    | command head command args => exact .listening (.each hpart) _ command
    | flock head command args =>
        exact (Renames.each hpart).bind
          fun operands => .of_flockCommand _ hself operands
    | operation head operator args =>
        exact (Renames.each hpart).bind
          fun operands => .of_operation operator operands
    | block brackets body => exact .inOrder hpart 0
    | make head target value =>
        exact (hpart value (by simp [Expr.parts])).bind
          fun number => .of_rebind _ number
    | repeatTimes head limit brackets body =>
        obtain ⟨hlimit, hbody⟩ := List.forall_mem_cons.mp hpart
        refine hlimit.bind
          fun number => (Renames.of_tally number).bind fun last => ?_
        exact (Renames.inOrder hbody 0).count (hkeeps body) turns _ (.upTo last)
    | countTo head target limit brackets body =>
        obtain ⟨hlimit, hbody⟩ := List.forall_mem_cons.mp hpart
        refine hlimit.bind
          fun number => (Renames.of_tally number).bind fun last => ?_
        exact (Renames.inOrder hbody 0).count (hkeeps body) turns _ (.upTo last)
    | countBy head target first last size brackets body =>
        have hbody (part : Expr) (hmem : part ∈ body) :=
          hpart part (by simp [Expr.parts, hmem])
        refine (hpart first (by simp [Expr.parts])).bind fun start => ?_
        refine (hpart last (by simp [Expr.parts])).bind fun stop => ?_
        refine (hpart size (by simp [Expr.parts])).bind fun number => ?_
        rw [Number.isTrue_renamed]
        split
        · exact (Renames.inOrder hbody 0).count
            (hkeeps body) turns _ ⟨start, stop, number⟩
        · exact .of_throw _
    | ifThen head condition brackets body =>
        obtain ⟨hcondition, hbody⟩ := List.forall_mem_cons.mp hpart
        refine hcondition.bind fun number => ?_
        rw [Number.isTrue_renamed]
        split
        · exact .inOrder hbody 0
        · exact .of_pure 0
    | ifElse head condition thenBrackets thenPart elseBrackets elsePart =>
        obtain ⟨hcondition, hparts⟩ := List.forall_mem_cons.mp hpart
        obtain ⟨hthen, helse⟩ := List.forall_mem_append.mp hparts
        refine hcondition.bind fun number => ?_
        rw [Number.isTrue_renamed]
        split
        · exact .inOrder hthen 0
        · exact .inOrder helse 0
    | define head name params brackets body =>
        refine Renames.bind (.of_modify fun world world' hworld => ?_)
          fun _ => .of_pure 1
        have hentry :
            (Entry.function (.procedure
              ⟨name.procedureName, params.map (·.variableName),
                body⟩)).Throughout (Expr.Fits rename) := by
          intro procedure heq part hmem
          cases heq
          exact hexpr.part hmem
        exact hworld.installed name.procedureName hentry
    | call head args =>
        intro world world' hworld
        refine Renames.bindAt (Renames.of_procedure _ _ world world' hworld) ?_
        intro found after after' hrun hafter
        have hfound :=
          hworld.stored.get? (get?_of_procedure_eq_ok hrun) found rfl
        refine (Renames.each hpart).bind (fun inputs => ?_) after after' hafter
        have hzip : found.params.zip (inputs.map (·.renamed rename)) =
            (found.params.zip inputs).map
              fun input => (input.1, input.2.renamed rename) :=
          List.zip_map_right
        change Renames rename ident _ _ (Action.withLocals
          (found.params.zip _) _)
        rw [hzip]
        refine (Renames.inOrder (fun part hmem => ?_) 0).withLocals
          (hkeeps found.body) _
        exact hexecute mode part (hfound part hmem)
    | tell head brackets list => cases hself
    | ask head listBrackets list brackets body => cases hself
    | askWith head conditionBrackets condition brackets body => cases hself

theorem renames_execute
    (turns depth : Nat) (mode : Mode) {expr : Expr}
    (hexpr : expr.Throughout (Expr.Fits rename)) :
    Renames rename ident (·.renamed rename) (execute turns depth mode expr)
      (execute turns depth mode expr) := by
  induction depth generalizing mode expr with
  | zero => exact .of_throw _
  | succ depth ih =>
      exact renames_step turns depth
        (fun mode _ hexpr => ih mode hexpr) mode hexpr

/-- The expressions of a turn, executed in two worlds that agree up to other
marks. -/
theorem renames_body
    (turns depth : Nat) (mode : Mode) {body : List Expr} {world world' : World}
    (hagree : world.AgreeUpTo rename ident world')
    (hbody : ∀ part : Expr, part.OccursIn body world → part.Fits rename) :
    Ending.Renamed (World.AgreeUpTo rename ident) (·.renamed rename)
      (inOrder (execute turns depth mode) 0 body world)
      (inOrder (execute turns depth mode) 0 body world') := by
  have hstored :
      world.bindings.entries.All (Entry.Throughout (Expr.Fits rename)) := by
    rintro ⟨name, entry⟩ hentry procedure rfl expr hexpr part hpart
    exact hbody part ⟨expr, hpart, .inr ⟨name, procedure, hentry, hexpr⟩⟩
  have hrun : Renames rename ident (·.renamed rename)
      (inOrder (execute turns depth mode) 0 body)
      (inOrder (execute turns depth mode) 0 body) :=
    .inOrder (fun expr hmem => renames_execute turns depth mode
      fun part hpart => hbody part ⟨expr, hpart, .inl hmem⟩) 0
  exact (hrun world world' ⟨hagree, hstored⟩).mono fun _ _ hturn => hturn.agree

end Logo
