import Logo.Proofs.Execution.Abreast
import Logo.Proofs.Execution.Depth
import Logo.Proofs.Flock.Apart
import Logo.Proofs.Selection

/-!
# Addressing several turtles

There are two ways to have a command carried out by several turtles: they can be
asked, and they can be told to listen before the command is given.  Whoever is
asked listens alone, and the command lets this turtle listen alone once more;
whoever has been told waits until the command comes to the turtle.  Either way
the turn of a turtle is the same.
-/

namespace Logo

open Logo.Action Execution

/-- A turtle may also be called by its number as an integer. -/
theorem Flock.identOf_integer_of_identOf
    {number : Number} {ident : Nat} (hident : identOf number = .ok ident) :
    identOf (.integer ident) = .ok ident :=
  identOf_of_ofInt? (one_le_of_identOf hident) (ofInt?_isSome_of_identOf hident)

namespace World

variable (world : World) (ident : Nat)

theorem contains_focusedOn :
    (world.focusedOn ident).flock.contains ident = true :=
  Flock.Sound.contains_hatch_self world.flock ident

theorem focusedOn_focusedOn :
    (world.focusedOn ident).focusedOn ident = world.focusedOn ident :=
  focusedOn_eq_listening (world.contains_focusedOn ident)

/-- Who listens does not matter when somebody else is to listen. -/
theorem focusedOn_listening (idents : List Nat) :
    (world.listening idents).focusedOn ident = world.focusedOn ident := by
  have hthere : (world.listening idents).flock.contains ident =
      world.flock.contains ident := rfl
  unfold focusedOn Flock.hatch
  rw [hthere]
  split <;> rfl

end World

namespace Ending

variable {α : Type} (ending : EStateM.Result Fault World α)

theorem finalState_inWorld (world : World) :
    finalState (inWorld ending world) = world := by
  cases ending <;> rfl

theorem inWorld_inWorld (world world' : World) :
    inWorld (inWorld ending world) world' = inWorld ending world' := by
  cases ending <;> rfl

def listening (idents : List Nat) : EStateM.Result Fault World α :=
  inWorld ending ((finalState ending).listening idents)

end Ending

/-! ## Turns of a command -/

section Turns

variable {α : Type}

theorem Action.focused_listening
    (number : Number) (action : Action α) (world : World) (idents : List Nat) :
    focused [number] action (world.listening idents) =
      Ending.listening (focused [number] action world) idents := by
  cases hident : Flock.identOf number with
  | error trouble =>
      rw [focused_of_error hident, focused_of_error hident]
      rfl
  | ok ident =>
      rw [focused_of_identOf hident, focused_of_identOf hident,
        World.focusedOn_listening, andFinally_modify_eq, andFinally_modify_eq]
      cases action (world.focusedOn ident) <;> rfl

theorem bind_listening
    {action : Action α} {next : α → Action Number} {world : World}
    {idents : List Nat}
    (haction : action (world.listening idents) = Ending.listening
      (action world) idents)
    (hnext : ∀ a after, next a (after.listening idents) = Ending.listening
      (next a after) idents) :
    (action >>= next) (world.listening idents) =
      Ending.listening ((action >>= next) world) idents := by
  cases hrun : action world with
  | ok a after =>
      rw [hrun] at haction
      rw [bind_eq_of_ok hrun, bind_eq_of_ok haction]
      exact hnext a after
  | error fault after =>
      rw [hrun] at haction
      rw [bind_eq_of_error hrun, bind_eq_of_error haction]
      rfl

/-- Those who listen when a command is given listen again behind it, and they do
not matter. -/
theorem commandEach_listening
    (expr : Expr) (word : String) (command : TurtleCommand)
    (operands : Action (List Number)) (result : Number)
    (idents listeners : List Nat) (world : World) :
    commandEach expr word command operands result idents
      (world.listening listeners) =
      Ending.listening
        (commandEach expr word command operands result idents world)
          listeners := by
  induction idents generalizing result world with
  | nil => rfl
  | cons ident rest ih =>
      exact bind_listening (Action.focused_listening _ _ world listeners) ih

end Turns

section Commands

variable (turns depth : Nat) (head : Token) (command : TurtleCommand)
  (args : List Expr)

/-- The turn of a turtle that is asked to carry out a command. -/
theorem focused_command
    {number : Number} {ident : Nat} (hident : Flock.identOf number = .ok ident)
    (world : World) :
    focused [number] (inOrder (execute turns (depth + 1) .effectful) 0
      [.command head command args])
        world =
      focused [.integer ident]
        (each (execute turns depth .effectful) args >>=
          commandOne
            (.command head command args) head.text command ident) world := by
  have hinteger := Flock.identOf_integer_of_identOf hident
  have hlisteners :
      listeners (world.focusedOn ident) = .ok [ident]
        (world.focusedOn ident) := by
    have hthere := world.contains_focusedOn ident
    have hmissing : (world.focusedOn ident).flock.missing? = none := by
      change [ident].find?
        (fun named => !(world.focusedOn ident).flock.contains named) = none
      rw [List.find?_singleton, hthere]
      rfl
    rw [listeners_eq_missing?, hmissing]
    rfl
  have hcommand :
      inOrder (execute turns (depth + 1) .effectful) 0
        [.command head command args]
          (world.focusedOn ident) =
        focused [.integer ident]
          (each (execute turns depth .effectful) args >>=
            commandOne (.command head command args) head.text command ident)
          (world.focusedOn ident) := by
    rw [inOrder_singleton, execute_command, bind_eq_of_ok hlisteners]
    change (focused [.integer ident] _ >>= pure) _ = _
    rw [bind_pure]
  rw [focused_of_identOf hident, focused_of_identOf hinteger,
    andFinally_modify_eq, andFinally_modify_eq, hcommand,
    focused_of_identOf hinteger, World.focusedOn_focusedOn,
    andFinally_modify_eq, Ending.finalState_inWorld, Ending.inWorld_inWorld]
  rfl

/-- Asking some turtles to carry out a command is giving it to them in turn. -/
theorem dispatch_command
    {numbers : List Number} {idents : List Nat}
    (hidents : List.Forall₂
      (fun number ident => Flock.identOf number = .ok ident) numbers idents)
    (result : Number) (world : World) :
    dispatch (inOrder (execute turns (depth + 1) .effectful) 0
      [.command head command args]) result
        numbers world =
      commandEach (.command head command args) head.text command
        (each (execute turns depth .effectful) args) result idents world := by
  induction hidents generalizing result world with
  | nil => rfl
  | @cons number ident numbers idents hident _ ih =>
      unfold dispatch commandEach
      have hturn := focused_command turns depth head command args hident world
      cases hrun : focused [.integer ident]
          (each (execute turns depth .effectful) args >>=
            commandOne
              (.command head command args) head.text command ident) world with
      | ok value after =>
          rw [hrun] at hturn
          rw [bind_eq_of_ok hturn, bind_eq_of_ok hrun]
          exact ih value after
      | error fault after =>
          rw [hrun] at hturn
          rw [bind_eq_of_error hturn, bind_eq_of_error hrun]

end Commands

/-! ## Checking the numbers of turtles -/

theorem address_effectful_congr (expr expr' place : Expr)
    (numbers : List Number) (world : World) :
    address .effectful expr place numbers world =
      address .effectful expr' place numbers world := by
  induction numbers generalizing world with
  | nil => rfl
  | cons number rest ih =>
      rw [address_effectful_cons, address_effectful_cons]
      cases Flock.identOf number with
      | ok ident => exact ih _
      | error trouble => rfl

/-- Checking numbers succeeds if all of them are turtles', and then these have
hatched. -/
theorem address_of_forall₂
    {numbers : List Number} {idents : List Nat}
    (hidents : List.Forall₂
      (fun number ident => Flock.identOf number = .ok ident) numbers idents)
    (expr place : Expr) (world : World) :
    address .effectful expr place numbers world =
      .ok () { world with flock := idents.foldl Flock.hatch world.flock } := by
  induction hidents generalizing world with
  | nil => rfl
  | cons hident _ ih =>
      rw [address_effectful_cons, hident]
      exact ih _

theorem forall₂_of_address
    {expr place : Expr} {numbers : List Number} {world after : World}
    (haddress : address .effectful expr place numbers world = .ok () after) :
    ∃ idents,
      List.Forall₂ (fun number ident => Flock.identOf number = .ok ident)
        numbers idents := by
  induction numbers generalizing world with
  | nil => exact ⟨[], .nil⟩
  | cons number rest ih =>
      rw [address_effectful_cons] at haddress
      cases hident : Flock.identOf number with
      | ok ident =>
          rw [hident] at haddress
          obtain ⟨idents, hidents⟩ := ih haddress
          exact ⟨ident :: idents, .cons hident hidents⟩
      | error trouble =>
          rw [hident] at haddress
          cases haddress

namespace Flock

theorem foldl_hatch_eq_self
    {flock : Flock} {idents : List Nat}
    (hthere : ∀ ident ∈ idents, flock.contains ident = true) :
    idents.foldl hatch flock = flock := by
  induction idents with
  | nil => rfl
  | cons ident rest ih =>
      rw [List.forall_mem_cons] at hthere
      rw [List.foldl_cons, hatch_eq_self hthere.1, ih hthere.2]

theorem summonAll_of_forall₂
    {numbers : List Number} {idents : List Nat}
    (hidents : List.Forall₂
      (fun number ident => identOf number = .ok ident) numbers idents)
    (flock : Flock) :
    flock.summonAll numbers = (.ok idents, idents.foldl hatch flock) := by
  induction hidents generalizing flock with
  | nil => rfl
  | @cons number ident rest _ hident _ ih =>
      simp only [summonAll, summon_of_identOf hident, ih, List.foldl_cons]

end Flock

/-- When the numbers have been checked, telling only changes who listens. -/
theorem Action.tell_of_hatched
    {numbers : List Number} {idents : List Nat}
    (hidents : List.Forall₂
      (fun number ident => Flock.identOf number = .ok ident) numbers idents)
    {world : World}
    (hthere : ∀ ident ∈ idents, world.flock.contains ident = true) :
    Action.tell numbers world = .ok idents (world.listening idents) := by
  unfold Action.tell Flock.tell
  rw [Flock.summonAll_of_forall₂ hidents, Flock.foldl_hatch_eq_self hthere]
  rfl

/-! ## The two ways -/

theorem Execution.listeners_listening
    {world : World} {idents : List Nat}
    (hthere : ∀ ident ∈ idents, world.flock.contains ident = true) :
    listeners (world.listening idents) = .ok idents
      (world.listening idents) := by
  have hmissing : (world.listening idents).flock.missing? = none := by
    refine List.find?_eq_none.mpr fun ident hident => ?_
    rw [show (world.listening idents).flock.contains ident =
      true from hthere ident hident]
    exact Bool.false_ne_true
  rw [listeners_eq_missing?, hmissing]
  rfl

section Ways

variable (turns depth : Nat) (asker teller head : Token)
  (listBrackets brackets : Brackets) (list args : List Expr)
  (command : TurtleCommand) (world : World)

theorem tell_then_command :
    ∃ idents,
      (execute turns (depth + 2) .effectful
        (.tell teller listBrackets list) >>= fun _ =>
          execute turns (depth + 1) .effectful
            (.command head command args)) world =
        Ending.listening
          (execute turns (depth + 2) .effectful
            (.ask asker listBrackets list brackets
              [.command head command args]) world)
          idents ∧
      ∀ numbers between named,
        each (execute turns (depth + 1) .effectful) list world =
          .ok numbers between →
        List.Forall₂
          (fun number ident => Flock.identOf number = .ok ident) numbers named →
          idents = named := by
  rw [execute_tell, execute_ask]
  cases heach : each (execute turns (depth + 1) .effectful) list world with
  | error fault after =>
      refine ⟨after.flock.active, ?_, ?_⟩
      · simp only [bind_assoc]
        rw [bind_eq_of_error heach, bind_eq_of_error heach]
        rfl
      · intro numbers between named hlist
        cases hlist
  | ok numbers between =>
      simp only [bind_assoc, pure_bind]
      rw [bind_eq_of_ok heach, bind_eq_of_ok heach]
      cases haddress : address .effectful
          (.ask asker listBrackets list brackets [.command head command args])
          (.block listBrackets list) numbers between with
      | error fault after =>
          have htold := haddress
          rw [address_effectful_congr
            _ (.tell teller listBrackets list)] at htold
          refine ⟨after.flock.active, ?_, ?_⟩
          · rw [bind_eq_of_error haddress, bind_eq_of_error htold]
            rfl
          · intro _ _ named hlist hnamed
            cases hlist
            rw [address_of_forall₂ hnamed] at haddress
            cases haddress
      | ok _ after =>
          have htold := haddress
          rw [address_effectful_congr
            _ (.tell teller listBrackets list)] at htold
          -- The check has hatched all that are listed, so neither way hatches
          -- anybody later.
          obtain ⟨idents, hidents⟩ := forall₂_of_address haddress
          have hafter := haddress
          rw [address_of_forall₂ hidents] at hafter
          have hthere (ident : Nat) (hident : ident ∈ idents) :
              after.flock.contains ident = true := by
            cases hafter
            exact Flock.contains_foldl_hatch _ (.inl hident)
          refine ⟨idents, ?_, ?_⟩
          · rw [bind_eq_of_ok haddress, bind_eq_of_ok htold,
              bind_eq_of_ok (Action.tell_of_hatched hidents hthere),
              execute_command, bind_eq_of_ok (listeners_listening hthere),
              commandEach_listening,
              dispatch_command turns depth head command args hidents]
          · intro _ _ named hlist hnamed
            cases hlist
            refine List.right_unique_forall₂' ?_ hidents hnamed
            intro number ident other hident hother
            rw [hident] at hother
            exact Except.ok.inj hother

/-- The telling and the command, with the room that the asking gives to them. -/
theorem deepens_telling :
    Deepens
      (inOrder (execute turns depth .effectful) 0
        [.tell teller listBrackets list, .command head command args])
      (execute turns (depth + 2) .effectful
          (.tell teller listBrackets list) >>= fun _ =>
        execute turns (depth + 1) .effectful (.command head command args)) := by
  refine (deepens_execute (by omega) turns .effectful _).bind fun _ => ?_
  rw [inOrder_singleton]
  exact deepens_execute_succ turns depth .effectful _

theorem telling_deepens :
    Deepens
      (execute turns (depth + 2) .effectful
          (.tell teller listBrackets list) >>= fun _ =>
        execute turns (depth + 1) .effectful (.command head command args))
      (inOrder (execute turns (depth + 2) .effectful) 0
        [.tell teller listBrackets list, .command head command args]) := by
  refine (Deepens.refl _).bind fun _ => ?_
  rw [inOrder_singleton]
  exact deepens_execute_succ turns (depth + 1) .effectful _

/-- All is the same, but not who listens: those who did behind the list of
numbers, or those who are listed. -/
structure AgreeButForListeners
    (asked told : EStateM.Result Fault World Number) : Prop where
  same : ∃ idents, told = Ending.listening asked idents
  listeners :
    ∀ depth numbers between idents,
      each (execute turns depth .effectful) list world = .ok numbers between →
      List.Forall₂
        (fun number ident => Flock.identOf number = .ok ident) numbers idents →
        (finalState asked).flock.active = between.flock.active ∧
          (finalState told).flock.active = idents

variable {turns asker teller head listBrackets brackets list args command world}

theorem ask_settles
    {body : List Expr} {asked : EStateM.Result Fault World Number}
    (hasked : ComesTo turns .effectful
      [.ask asker listBrackets list brackets body] world asked) :
    ∃ depth, ∀ deeper, depth ≤ deeper →
      execute turns (deeper + 2) .effectful
        (.ask asker listBrackets list brackets body) world = asked := by
  obtain ⟨depth, hdepth⟩ := hasked.settles
  refine ⟨depth, fun deeper hle => ?_⟩
  rw [← hdepth (deeper + 2) (by omega), inOrder_singleton]

theorem telling_settles
    {told : EStateM.Result Fault World Number}
    (htold :
      ComesTo turns .effectful [.tell teller listBrackets list,
        .command head command args] world told) :
    ∃ depth, ∀ deeper, depth ≤ deeper →
      (execute turns (deeper + 2) .effectful
          (.tell teller listBrackets list) >>= fun _ =>
        execute turns (deeper + 1) .effectful
          (.command head command args)) world = told := by
  obtain ⟨depth, hdepth⟩ := htold.settles
  refine ⟨depth, fun deeper hle => ?_⟩
  have hsame := hdepth deeper hle
  rw [deepens_telling turns deeper teller head listBrackets list args
    command world, hsame]
  rw [hsame]
  exact htold.1

theorem agreeButForListeners_of_comesTo
    {asked told : EStateM.Result Fault World Number}
    (hasked :
      ComesTo turns .effectful
        [.ask asker listBrackets list brackets
          [.command head command args]] world asked)
    (htold :
      ComesTo turns .effectful [.tell teller listBrackets list,
        .command head command args] world told) :
    AgreeButForListeners turns list world asked told := by
  obtain ⟨depth, hdepth⟩ := ask_settles hasked
  obtain ⟨depth', hdepth'⟩ := telling_settles htold
  have hways (deeper : Nat) (hle : max depth depth' ≤ deeper) :=
    tell_then_command turns deeper asker teller head listBrackets brackets list
      args command world
  constructor
  · obtain ⟨idents, hsame, -⟩ := hways (max depth depth') le_rfl
    rw [hdepth _ (le_max_left _ _), hdepth' _ (le_max_right _ _)] at hsame
    exact ⟨idents, hsame⟩
  · intro shallow numbers between idents hlist hidents
    -- With more room the list has the same numbers, and both ways have come to
    -- their endings.
    let deeper := max shallow (max depth depth')
    have hlist' :
        each (execute turns (deeper + 1) .effectful) list world =
          .ok numbers between := by
      have hle : shallow ≤ deeper + 1 := by omega
      rw [Deepens.each (deepens_execute hle turns .effectful) list world, hlist]
      rw [hlist]
      rfl
    obtain ⟨named, hsame, hnamed⟩ := hways deeper (le_max_right _ _)
    have hselection :=
      SameSelection.step_ask turns
        (execute turns (deeper + 1)) .effectful asker listBrackets
        brackets list [.command head command args] world
    rw [hlist'] at hselection
    change SameSelection between
      (finalState (execute turns (deeper + 2) _ _ world)) at hselection
    rw [hdepth deeper (by omega)] at hsame hselection
    rw [hdepth' deeper (by omega),
      hnamed numbers between idents hlist' hidents] at hsame
    refine ⟨hselection, ?_⟩
    rw [hsame, Ending.listening, Ending.finalState_inWorld]
    rfl

end Ways

theorem Ending.isTooDeep_listening
    (ending : EStateM.Result Fault World Number) (idents : List Nat) :
    Ending.isTooDeep (Ending.listening ending idents) =
      Ending.isTooDeep ending := by
  cases ending <;> rfl

/-- Asking some turtles for a command ends if and only if telling them to listen
and then giving the command does.  Both end in the same way, but for who listens
then.  Where no turtle is listed, neither does anything else. -/
theorem asking_agrees_with_telling
    (turns : Nat) (asker teller head : Token) (listBrackets brackets : Brackets)
    (list args : List Expr) (command : TurtleCommand) (world : World) :
    let node : Expr := .command head command args
    let Asked :=
      ComesTo turns .effectful
        [.ask asker listBrackets list brackets [node]] world
    let Told :=
      ComesTo turns .effectful [.tell teller listBrackets list, node] world
    ((∃ asked, Asked asked) ↔ ∃ told, Told told) ∧
      (∀ asked told, Asked asked → Told told →
        AgreeButForListeners turns list world asked told) ∧
      (list = [] → Asked (.ok 0 world) ∧
        Told (.ok 0 (world.listening []))) := by
  intro node Asked Told
  have hways (depth : Nat) :=
    tell_then_command turns depth asker teller head listBrackets brackets list
      args command world
  refine ⟨⟨?_, ?_⟩, fun _ _ => agreeButForListeners_of_comesTo, ?_⟩
  · rintro ⟨asked, hasked⟩
    obtain ⟨depth, hdepth⟩ := ask_settles hasked
    obtain ⟨idents, hsame, -⟩ := hways depth
    rw [hdepth depth le_rfl] at hsame
    have hroom : Ending.isTooDeep (Ending.listening asked idents) = false :=
      (Ending.isTooDeep_listening asked idents).trans hasked.1
    refine ⟨Ending.listening asked idents, hroom, depth + 2, ?_⟩
    rw [← hsame] at hroom ⊢
    exact telling_deepens turns depth teller head listBrackets list args
      command world hroom
  · rintro ⟨told, htold⟩
    obtain ⟨depth, hdepth⟩ := telling_settles htold
    obtain ⟨idents, hsame, -⟩ := hways depth
    rw [hdepth depth le_rfl] at hsame
    refine ⟨_, ?_, depth + 2, rfl⟩
    rw [inOrder_singleton, ← Ending.isTooDeep_listening _ idents, ← hsame]
    exact htold.1
  · rintro rfl
    exact ⟨⟨rfl, 1, rfl⟩, ⟨rfl, 1, rfl⟩⟩

end Logo
