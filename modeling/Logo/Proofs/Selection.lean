import Logo.Proofs.Execution.Safe

/-!
# The flock under operations and programs

Whatever happens to a flock, its turtles stay numbered from one on, the first
one is there, and those that listen exist.  What a program does to the flock is
a sequence of the operations that a host has as well, so this holds for programs
too, at the start and at the end of every expression that is executed on the
way.  The selection of those that listen is restored by every command to turtles
and by every instruction that asks turtles, even if it fails and even if others
are told to listen inside of it.
-/

namespace Logo

open Logo.Action Execution

/-! ## Programs are sequences of operations -/

theorem Roster.orderly_of_notMem
    (roster : Roster) {operations : List Roster.Operation}
    (hkeeps : .reset ∉ operations) :
    roster.Orderly operations := by
  induction operations generalizing roster with
  | nil => trivial
  | cons operation rest ih =>
      rw [List.mem_cons, not_or] at hkeeps
      exact ⟨fun hreset => absurd hreset.symm hkeeps.1, ih _ hkeeps.2⟩

/-- Operations lead from one flock to another and back to the selections that
waited. -/
def Roster.Leads (before after : Flock)
    (operations : List Roster.Operation) : Prop :=
  .reset ∉ operations ∧
    ∀ waiting, (Roster.mk before waiting).performAll operations =
      ⟨after, waiting⟩

theorem Roster.Leads.append
    {first second third : Flock} {operations later : List Roster.Operation}
    (hfirst : Leads first second operations)
    (hsecond : Leads second third later) :
    Leads first third (operations ++ later) := by
  refine ⟨by simp [hfirst.1, hsecond.1], fun waiting => ?_⟩
  rw [performAll_append, hfirst.2, hsecond.2]

/-- The world stays balanced, and operations have led from its flock to the
later one. -/
structure Operated (before after : World) : Prop where
  balanced : Balanced before after
  operations : ∃ operations, Roster.Leads before.flock after.flock operations

namespace Operated

theorem of_flock_eq
    {before after : World} (hbalanced : Balanced before after)
    (hflock : after.flock = before.flock) :
    Operated before after :=
  ⟨hbalanced, [], by simp, fun _ => by rw [hflock]; rfl⟩

theorem refl (world : World) : Operated world world :=
  of_flock_eq (.refl world) rfl

theorem trans
    {first second third : World} (hfirst : Operated first second)
    (hsecond : Operated second third) : Operated first third := by
  obtain ⟨operations, hleads⟩ := hfirst.operations
  obtain ⟨later, hlater⟩ := hsecond.operations
  exact ⟨hfirst.balanced.trans hsecond.balanced, operations ++ later,
    hleads.append hlater⟩

/-- A single operation other than a reset. -/
theorem of_operation
    {before after : World} (hbalanced : Balanced before after)
    (operation : Roster.Operation) (hkeeps : operation ≠ .reset)
    (hperform : ∀ waiting, (Roster.mk before.flock waiting).perform operation =
      ⟨after.flock, waiting⟩) :
    Operated before after :=
  ⟨hbalanced, [operation], by simp [Ne.symm hkeeps], hperform⟩

theorem bind_keeps (name : String) (number : Number) :
    Keeps Operated (Action.bind name number) := by
  intro world
  refine of_flock_eq (Balanced.bind_keeps name number world) ?_
  rw [bind_eq]
  rfl

/-- The inside of a focus stands between its opening and its end. -/
theorem focus_keeps
    (number : Number) {body : Action Number} (hbody : Keeps Operated body) :
    Keeps Operated (focused [number] body) := by
  intro world
  have hbalanced :=
    Balanced.focus_keeps number (hbody.mono fun _ _ => balanced) world
  refine ⟨hbalanced, ?_⟩
  cases hident : Flock.identOf number with
  | error trouble =>
      rw [focused_of_error hident]
      exact (refl world).operations
  | ok ident =>
      obtain ⟨operations, hkeeps, hleads⟩ :=
        (hbody (world.focusedOn ident)).operations
      refine ⟨.focus [number] :: (operations ++ [.unfocus]),
        by simp [hkeeps], fun waiting => ?_⟩
      have hopen :
          (Roster.mk world.flock waiting).perform (.focus [number]) =
            ⟨(world.focusedOn ident).flock, world.flock.active :: waiting⟩ := by
        simp only [Roster.perform, Flock.tell_single_of_identOf hident]
        rfl
      have hinside :
          (Roster.mk world.flock waiting).performAll
            (.focus [number] :: operations) =
            ⟨(finalState (body (world.focusedOn ident))).flock,
              world.flock.active :: waiting⟩ := by
        rw [Roster.performAll, List.foldl_cons, hopen]
        exact hleads _
      rw [finalState_focused hident, ← List.cons_append,
        Roster.performAll_append, hinside]
      rfl

theorem command_keeps
    (expr : Expr) (word : String) (command : TurtleCommand) (ident : Nat)
    (operands : List Number) :
    Keeps Operated (commandOne expr word command ident operands) := by
  intro world
  have hbalanced :=
    Balanced.command_keeps expr word command ident operands world
  rcases finalState_commandOne expr word command ident operands world with
    hsame | ⟨before, after, x, y, marks, hget, hupdate, hfinal⟩
  · rw [hsame]
    exact refl world
  · refine of_operation hbalanced (.command command ident operands x y) nofun
      fun waiting => ?_
    simp [Roster.perform, hget, hupdate, hfinal]

theorem flockCommand_keeps
    (expr : Expr) (word : String) (command : FlockCommand)
    (operands : List Number) :
    Keeps Operated (flockCommand expr word command operands) := by
  intro world
  have hbalanced := Balanced.flockCommand_keeps expr word command operands world
  rcases finalState_flockCommand expr word command operands world with
    hsame | ⟨flock, answer, hupdate, hfinal⟩
  · rw [hsame]
    exact refl world
  · refine of_operation hbalanced (.order command operands) nofun
      fun waiting => ?_
    simp [Roster.perform, hupdate, hfinal]

theorem tell_keeps (numbers : List Number) :
    Keeps Operated (Action.tell numbers) := by
  intro world
  refine of_operation (Balanced.tell_keeps numbers world) (.tell numbers) nofun
    fun waiting => ?_
  unfold Action.tell
  split <;> simp_all [Roster.perform]

theorem hatch
    (world : World) {number : Number} {ident : Nat}
    (hident : Flock.identOf number = .ok ident) :
    Operated world { world with flock := world.flock.hatch ident } := by
  refine of_operation ?_ (.summon number) nofun fun waiting => ?_
  · exact .of_bindings_eq rfl fun _ hother => Flock.contains_hatch hother ident
  · simp [Roster.perform, Roster.settled, Flock.summon_of_identOf hident]

theorem discipline (mode : Mode) :
    Discipline mode Operated (fun _ => Operated) where
  refl := refl
  trans _ _ _ := trans
  stays _ _ hoperated := hoperated.balanced.stays
  marks world marks :=
    of_flock_eq ((Balanced.discipline mode).marks world marks) rfl
  draws world draws :=
    of_flock_eq ((Balanced.discipline mode).draws world draws) rfl
  inside _ _ _ hoperated := hoperated
  insideTrans _ _ _ _ := trans
  rebind := bind_keeps
  scope name number body hbody world := by
    have hinner := hbody (world.entered name number)
    have hscope :=
      Balanced.scope_keeps name number (hbody.mono fun _ _ => balanced) world
    refine ⟨hscope, ?_⟩
    rw [finalState_withLocal hinner.balanced.frames]
    exact hinner.operations
  focus number _ world _ hbody := focus_keeps number hbody world
  bind _ := bind_keeps
  install _ world name entry := of_flock_eq (.install world name entry) rfl
  command _ := command_keeps
  flock _ := flockCommand_keeps
  hatch _ world _ _ := hatch world
  tell _ := tell_keeps

/-- Behind operations, the flock is sound and nothing is lost. -/
theorem sound
    {before after : World} (hoperated : Operated before after)
    (hsound : before.flock.Sound) :
    after.flock.Sound ∧ before.flock.Grows after.flock := by
  obtain ⟨operations, hkeeps, hleads⟩ := hoperated.operations
  have hroster : (Roster.mk before.flock []).Sound := ⟨hsound, by simp⟩
  have hlast := hroster.performAll (Roster.orderly_of_notMem _ hkeeps)
  have hgrows := hroster.grows hkeeps
  rw [hleads] at hlast hgrows
  exact ⟨hlast.flock, hgrows⟩

end Operated

/-! ## Executions under watch -/

/-- Raises an alarm unless the flock is sound before an action and behind it. -/
def Action.watched (alarm : Fault) (action : Action α) :
    Action α := fun world =>
  if world.flock.Sound ∧
    (finalState (action world)).flock.Sound then action world
  else .error alarm world

/-- Executes an expression with a watch on every expression inside of it. -/
def Execution.executeWatched (alarm : Fault) (turns : Nat) :
    (depth : Nat) → Mode → Expr → Action Number
  | 0 => fun _ _ => watched alarm (throw .tooDeep)
  | depth + 1 =>
      fun mode expr =>
        watched alarm (step turns (executeWatched alarm turns depth) mode expr)

theorem Safe.watched
    {lenient : Prop} {Good : Expr → Prop} {action twin : Action α}
    (hsafe : Safe lenient Good action twin) (alarm : Fault) :
    Safe lenient Good action (watched alarm twin) := by
  intro world hworld
  obtain ⟨hends, hsame⟩ := hsafe world hworld
  have hquiet : world.flock.Sound ∧ (finalState (twin world)).flock.Sound := by
    rw [hsame]
    exact ⟨hworld.flock, hends.finalState.flock⟩
  exact ⟨hends, (if_pos hquiet).trans hsame⟩

theorem safe_executeWatched (alarm : Fault) (turns depth : Nat) (mode : Mode)
    (expr : Expr) :
    Safe True (fun _ => True) (execute turns depth mode expr)
      (executeWatched alarm turns depth mode expr) := by
  induction depth generalizing mode expr with
  | zero => exact Safe.watched (.of_throw .tooDeep) alarm
  | succ depth ih =>
      refine Safe.watched ?_ alarm
      exact safe_step hereditary_true turns (fun mode expr _ => ih mode expr)
        (balanced_execute turns depth) mode trivial

/-! ## Selections -/

theorem Flock.active_hatch (flock : Flock) (ident : Nat) :
    (flock.hatch ident).active = flock.active := by
  unfold hatch
  split <;> rfl

def SameSelection (before after : World) : Prop :=
  after.flock.active = before.flock.active

namespace SameSelection

theorem refl (world : World) : SameSelection world world := rfl

theorem trans (a b c : World) (hab : SameSelection a b)
    (hbc : SameSelection b c) :
    SameSelection a c :=
  Eq.trans hbc hab

/-- Behind a focus those listen who did before, whatever happened inside. -/
theorem focused (number : Number) (body : Action Number) :
    Keeps SameSelection (focused [number] body) := by
  intro world
  cases hident : Flock.identOf number with
  | error trouble =>
      rw [focused_of_error hident]
      exact refl world
  | ok ident =>
      rw [finalState_focused hident]
      rfl

theorem commandEach
    (expr : Expr) (word : String) (command : TurtleCommand)
    (args : Action (List Number)) (result : Number) (idents : List Nat) :
    Keeps SameSelection
      (Execution.commandEach expr word command args result idents) := by
  induction idents generalizing result with
  | nil => exact .of_eq refl (pure_reads result)
  | cons ident rest ih => exact (focused _ _).bind trans ih

theorem dispatch (body : Action Number) (result : Number)
    (numbers : List Number) :
    Keeps SameSelection (Execution.dispatch body result numbers) := by
  induction numbers generalizing result with
  | nil => exact .of_eq refl (pure_reads result)
  | cons number rest ih => exact (focused _ _).bind trans ih

theorem satisfying (condition : Action Number) (idents : List Nat) :
    Keeps SameSelection (Execution.satisfying condition idents) := by
  induction idents with
  | nil => exact .of_eq refl (pure_reads [])
  | cons ident rest ih =>
      refine (focused _ _).bind trans fun value => ?_
      exact ih.bind trans fun chosen => .of_eq refl (pure_reads _)

/-- Checking the numbers of turtles may hatch some, but lets none of them
listen. -/
theorem address (mode : Mode) (expr list : Expr) (numbers : List Number) :
    Keeps SameSelection (Execution.address mode expr list numbers) := by
  cases mode with
  | pureAttempt =>
      exact .of_eq refl (address_pureAttempt_reads expr list numbers)
  | effectful =>
      induction numbers with
      | nil => exact .of_eq refl (pure_reads ())
      | cons number rest ih =>
          intro world
          rw [address_effectful_cons]
          cases hident : Flock.identOf number with
          | error trouble => exact refl world
          | ok ident =>
              refine trans world _ _ ?_
                (ih { world with flock := world.flock.hatch ident })
              exact Flock.active_hatch world.flock ident

variable (turns : Nat) (execute : Mode → Expr → Action Number) (mode : Mode)

theorem step_command (head : Token) (command : TurtleCommand)
    (args : List Expr) :
    Keeps SameSelection
      (step turns execute mode (.command head command args)) := by
  unfold step
  split
  · exact .of_eq refl (complain_reads _)
  · refine Keeps.bind trans (.of_eq refl listeners_observes.reads)
      fun idents => ?_
    exact commandEach _ _ _ _ _ _

theorem step_askWith
    (head : Token) (conditionBrackets brackets : Brackets)
    (condition body : List Expr) :
    Keeps SameSelection
      (step turns execute mode
        (.askWith head conditionBrackets condition brackets body)) := by
  unfold step
  split
  · exact .of_eq refl (complain_reads _)
  · refine Keeps.bind trans (.of_eq refl get_reads) fun world => ?_
    exact (satisfying _ _).bind trans fun chosen => dispatch _ _ _

/-- Asking listed turtles leaves the selection as it is behind the list of their
numbers. -/
theorem step_ask
    (head : Token) (listBrackets brackets : Brackets) (list body : List Expr)
    (world : World) :
    SameSelection (finalState (each (execute mode) list world))
      (finalState
        (step turns execute mode
          (.ask head listBrackets list brackets body) world)) := by
  unfold step
  rw [if_neg (by simp [Expr.isPure])]
  refine Keeps.behind refl _ (fun numbers => ?_) world
  exact (address _ _ _ _).bind trans fun _ => dispatch _ _ _

end SameSelection

namespace Flock

theorem active_summonAll (flock : Flock) (numbers : List Number) :
    (flock.summonAll numbers).2.active = flock.active := by
  induction numbers generalizing flock with
  | nil => rfl
  | cons number rest ih =>
      unfold summonAll
      cases hident : identOf number with
      | error trouble => rw [summon_of_error hident]
      | ok ident =>
          have hrest :=
            (ih (flock.hatch ident)).trans (active_hatch flock ident)
          rw [summon_of_identOf hident]
          simp only
          split
          next hsummon => rwa [hsummon] at hrest
          next hsummon => rwa [hsummon] at hrest

theorem summonAll_of_error
    {number : Number} {trouble : Trouble}
    (hident : identOf number = .error trouble)
    {numbers : List Number} (hnumber : number ∈ numbers) (flock : Flock) :
    ∃ first, (flock.summonAll numbers).1 = .error first := by
  induction numbers generalizing flock with
  | nil => simp at hnumber
  | cons other rest ih =>
      unfold summonAll
      cases hother : identOf other with
      | error first =>
          rw [summon_of_error hother]
          exact ⟨first, rfl⟩
      | ok ident =>
          have hmem : number ∈ rest := by
            rcases List.mem_cons.mp hnumber with rfl | hmem
            · rw [hident] at hother
              cases hother
            · exact hmem
          obtain ⟨first, hfirst⟩ := ih hmem (flock.hatch ident)
          rw [summon_of_identOf hother]
          simp only
          split
          next hsummon =>
            rw [hsummon] at hfirst
            cases hfirst
          next later _ _ => exact ⟨later, rfl⟩

/-- A list with a number that is no turtle's lets nobody listen. -/
theorem tell_of_error
    {number : Number} {trouble : Trouble}
    (hident : identOf number = .error trouble)
    {numbers : List Number} (hnumber : number ∈ numbers) (flock : Flock) :
    ∃ first later,
      flock.tell numbers = (.error first, later) ∧
        later.active = flock.active := by
  obtain ⟨first, hfirst⟩ := summonAll_of_error hident hnumber flock
  have hactive := active_summonAll flock numbers
  unfold tell
  split
  next hsummon =>
    rw [hsummon] at hfirst
    cases hfirst
  next later hsummon =>
    rw [hsummon] at hactive
    exact ⟨_, later, rfl, hactive⟩

end Flock

/-- Telling a turtle that is none lets those listen who do behind the list of
numbers. -/
theorem SameSelection.step_tell
    (turns : Nat) (execute : Mode → Expr → Action Number) (head : Token)
    (brackets : Brackets) {list : List Expr} {world between : World}
    {numbers : List Number}
    (hlist : each (execute .effectful) list world = .ok numbers between)
    {number : Number} (hnumber : number ∈ numbers) {trouble : Trouble}
    (hident : Flock.identOf number = .error trouble) :
    SameSelection between
      (finalState
        (step turns execute .effectful (.tell head brackets list) world)) := by
  have hkeeps :=
    SameSelection.address .effectful (.tell head brackets list)
      (.block brackets list) numbers between
  unfold step
  rw [if_neg (by simp)]
  simp only
  rw [bind_eq_of_ok hlist]
  cases hrun : Execution.address .effectful (.tell head brackets list)
    (.block brackets list)
      numbers between with
  | ok _ after =>
      obtain ⟨ident, hvalid⟩ := Confined.identOf_of_address hrun number hnumber
      rw [hident] at hvalid
      cases hvalid
  | error fault after =>
      rw [hrun] at hkeeps
      rw [bind_eq_of_error hrun]
      exact hkeeps

theorem Action.focused_of_tell_error
    {numbers : List Number} {world : World} {trouble : Trouble} {later : Flock}
    (htell : world.flock.tell numbers = (.error trouble, later))
    (body : Action α) :
    focused numbers body world = .error (unpinned trouble)
      { world with flock := later } := by
  have hrun : Action.tell numbers world = .error (unpinned trouble)
      { world with flock := later } := by
    unfold Action.tell
    rw [htell]
  unfold focused
  rw [get_bind, bind_eq_of_error hrun]

/-! ## The invariant -/

def Roster.fresh : Roster := ⟨.fresh, []⟩

theorem Roster.sound_fresh : Roster.fresh.Sound :=
  ⟨Flock.sound_fresh, by simp [Roster.fresh]⟩

/-- What becomes of the flock of a world when an execution in it has this
result. -/
structure Herded (world : World)
    (result : EStateM.Result Fault World Number) : Prop where
  sound : (finalState result).flock.Sound
  grows : world.flock.Grows (finalState result).flock
  operations : ∃ operations,
    Roster.Leads world.flock (finalState result).flock operations
  present : ∀ ident after,
    result ≠ .error (.broken (.missingTurtle ident)) after

theorem Herded.of_operated
    {world : World} {result : EStateM.Result Fault World Number}
    (hsound : world.flock.Sound)
    (hoperated : Operated world (finalState result))
    (hpresent : ∀ ident after,
      result ≠ .error (.broken (.missingTurtle ident)) after) :
    Herded world result :=
  ⟨(hoperated.sound hsound).1, (hoperated.sound hsound).2,
    hoperated.operations, hpresent⟩

theorem Ending.Sound.present
    {lenient : Prop} {Good : Expr → Prop}
    {result : EStateM.Result Fault World Number}
    (hresult : Ending.Sound lenient Good result) (ident : Nat) (after : World) :
    result ≠ .error (.broken (.missingTurtle ident)) after := by
  rintro rfl
  cases hresult.1

theorem herded_execute
    (turns depth : Nat) (mode : Mode) (expr : Expr) {world : World}
    (hsound : world.flock.Sound) :
    Herded world (execute turns depth mode expr world) := by
  have hworld := World.sound_of_flock hsound
  have hends :
      Ending.Sound True (fun _ => True) (execute turns depth mode expr world) :=
    (safe_execute hereditary_true turns depth mode trivial world hworld).1
  exact .of_operated hsound
    ((Operated.discipline mode).keeps_execute turns depth expr world)
    hends.present

theorem herded_program
    (limits : Limits) (mode : Mode) (body : List Expr) {world : World}
    (hsound : world.flock.Sound) :
    Herded world (program limits mode body world) := by
  have hworld := World.sound_of_flock hsound
  refine .of_operated hsound
    ((Operated.discipline mode).keeps_program limits body world) ?_
  rcases ending_program hereditary_true limits mode
      (fun _ _ => trivial) hworld with
    hends | ⟨after, -, -, hrun⟩
  · exact hends.present
  · rw [hrun]
    nofun

/-- The flock keeps its invariant at every point of every orderly sequence of
operations and of every execution, nothing is lost without a reset, and
selections are restored. -/
theorem flock_keeps_its_invariant :
    (∀ operations later, Roster.fresh.Orderly (operations ++ later) →
      (Roster.fresh.performAll operations).Sound ∧
        (∃ turtles,
          (Roster.fresh.performAll operations).flock.listeners = .ok turtles ∧
          turtles.map (·.ident) =
            (Roster.fresh.performAll operations).flock.active) ∧
        (.reset ∉ later →
          (Roster.fresh.performAll operations).flock.Grows
            (Roster.fresh.performAll (operations ++ later)).flock)) ∧
    (∀ (flock later : Flock) number red green blue index,
      flock.setPalette number red green blue = .ok (index, later) →
        ∃ color, later.palette[index]? = some color ∧
          red.truncate? = some (color.red.toNat : Int) ∧
          green.truncate? = some (color.green.toNat : Int) ∧
          blue.truncate? = some (color.blue.toNat : Int)) ∧
    (∀ (world : World) numbers number trouble, number ∈ numbers →
      Flock.identOf number = .error trouble →
        ∃ first later, world.flock.tell numbers = (.error first, later) ∧
          later.active = world.flock.active ∧
          ∀ body : Action Number,
            focused numbers body world = .error (unpinned first)
              { world with flock := later }) ∧
    (∀ turns depth mode expr world, world.flock.Sound →
      Herded world (execute turns depth mode expr world) ∧
        ∀ alarm,
          executeWatched alarm turns depth mode expr world =
            execute turns depth mode expr world) ∧
    (∀ limits mode body world, world.flock.Sound →
      Herded world (program limits mode body world)) ∧
    (∀ turns execute mode head command args,
      Keeps SameSelection
        (step turns execute mode (.command head command args))) ∧
    (∀ turns execute mode head conditionBrackets condition brackets body,
      Keeps SameSelection
        (step turns execute mode
          (.askWith head conditionBrackets condition brackets body))) ∧
    (∀ turns execute mode head listBrackets list brackets body world,
      SameSelection (finalState (each (execute mode) list world))
        (finalState
          (step turns execute mode
            (.ask head listBrackets list brackets body) world))) ∧
    ∀ turns execute head brackets list world numbers between number trouble,
      each (execute .effectful) list world = .ok numbers between →
        number ∈ numbers → Flock.identOf number = .error trouble →
          SameSelection between
            (finalState
              (step turns execute .effectful
                (.tell head brackets list) world)) := by
  refine ⟨?_, ?_, ?_, ?_, ?_, ?_, ?_, ?_, ?_⟩
  · intro operations later horderly
    have hsound :=
      Roster.sound_fresh.performAll
        ((Roster.orderly_append _ _ _).mp horderly).1
    refine ⟨hsound, hsound.flock.listeners_eq, fun hkeeps => ?_⟩
    rw [Roster.performAll_append]
    exact hsound.grows hkeeps
  · intro flock later number red green blue index hset
    obtain ⟨color, hcolor, hred, hgreen, hblue, -, -⟩ :=
      Flock.setPalette_eq_ok hset
    exact ⟨color, hcolor, hred, hgreen, hblue⟩
  · intro world numbers number trouble hnumber hident
    obtain ⟨first, later, htell, hactive⟩ :=
      Flock.tell_of_error hident hnumber world.flock
    exact ⟨first, later, htell, hactive, focused_of_tell_error htell⟩
  · intro turns depth mode expr world hsound
    refine ⟨herded_execute turns depth mode expr hsound, fun alarm => ?_⟩
    have hworld := World.sound_of_flock hsound
    exact (safe_executeWatched alarm turns depth mode expr world hworld).2
  · intro limits mode body world hsound
    exact herded_program limits mode body hsound
  · exact SameSelection.step_command
  · intro turns execute mode head conditionBrackets condition brackets body
    exact SameSelection.step_askWith turns execute mode head conditionBrackets
      brackets condition body
  · intro turns execute mode head listBrackets list brackets body world
    exact SameSelection.step_ask turns execute mode head listBrackets brackets
      list body world
  · intro turns execute head brackets list world numbers between number trouble
      hlist hnumber hident
    exact SameSelection.step_tell turns execute head brackets hlist
      hnumber hident

theorem selection_restored_behind_nested_focus :
    Roster.fresh.Orderly [.focus [2], .tell [3, 1], .unfocus] ∧
      (Roster.fresh.performAll [.focus [2], .tell [3, 1], .unfocus]).Sound ∧
      (Roster.fresh.performAll
        [.focus [2], .tell [3, 1], .unfocus]).flock.active = [1] := by
  have horderly : Roster.fresh.Orderly [.focus [2], .tell [3, 1], .unfocus] :=
    ⟨nofun, nofun, nofun, trivial⟩
  exact ⟨horderly, (flock_keeps_its_invariant.1 _ [] horderly).1, rfl⟩

end Logo
