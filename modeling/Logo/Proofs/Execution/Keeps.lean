import Logo.Execution.Step
import Mathlib.Tactic

/-!
# What a computation keeps

A computation ends in a state, whether it succeeds or fails.  It keeps a
relation when the state before it and the state after it always stand in that
relation.  For a relation that can be chained, a sequence of computations keeps
what its parts keep.  A computation that keeps equality only reads.
-/

namespace Logo

variable {ε σ α β : Type}

def finalState : EStateM.Result ε σ α → σ
  | .ok _ state => state
  | .error _ state => state

@[simp] theorem finalState_ok (a : α) (state : σ) :
    finalState (.ok a state : EStateM.Result ε σ α) = state := rfl

@[simp] theorem finalState_error (fault : ε) (state : σ) :
    finalState (.error fault state : EStateM.Result ε σ α) = state := rfl

def Keeps (R : σ → σ → Prop) (action : EStateM ε σ α) : Prop :=
  ∀ state, R state (finalState (action state))

theorem bind_eq_of_ok
    {action : EStateM ε σ α} {next : α → EStateM ε σ β}
    {state after : σ} {a : α} (hrun : action state = .ok a after) :
    (action >>= next) state = next a after := by
  change (match action state with
    | .ok a after => next a after
    | .error fault after => .error fault after) = _
  rw [hrun]

theorem bind_eq_of_error
    {action : EStateM ε σ α} {next : α → EStateM ε σ β}
    {state after : σ} {fault : ε} (hrun : action state = .error fault after) :
    (action >>= next) state = .error fault after := by
  change (match action state with
    | .ok a after => next a after
    | .error fault after => .error fault after) = _
  rw [hrun]

theorem exists_of_bind_eq_ok
    {action : EStateM ε σ α} {next : α → EStateM ε σ β}
    {state last : σ} {b : β} (hrun : (action >>= next) state = .ok b last) :
    ∃ a after, action state = .ok a after ∧ next a after = .ok b last := by
  cases haction : action state with
  | ok a after =>
      rw [bind_eq_of_ok haction] at hrun
      exact ⟨a, after, rfl, hrun⟩
  | error fault after =>
      rw [bind_eq_of_error haction] at hrun
      cases hrun

theorem exists_of_bind_eq_error
    {action : EStateM ε σ α} {next : α → EStateM ε σ β}
    {state last : σ} {fault : ε}
    (hrun : (action >>= next) state = .error fault last) :
    action state = .error fault last ∨
      ∃ a after, action state = .ok a after ∧
        next a after = .error fault last := by
  cases haction : action state with
  | ok a after =>
      rw [bind_eq_of_ok haction] at hrun
      exact .inr ⟨a, after, rfl, hrun⟩
  | error trouble after =>
      rw [bind_eq_of_error haction] at hrun
      cases hrun
      exact .inl rfl

/-- The behaviour of a sequence from one state: the second part matters only
where the first one gets to. -/
theorem finalState_bind
    {R : σ → σ → Prop} (htrans : ∀ a b c, R a b → R b c → R a c)
    {action : EStateM ε σ α} {next : α → EStateM ε σ β} {state : σ}
    (haction : R state (finalState (action state)))
    (hnext :
      ∀ a after, action state = .ok a after →
        R after (finalState (next a after))) :
    R state (finalState ((action >>= next) state)) := by
  cases hrun : action state with
  | ok a after =>
      rw [bind_eq_of_ok hrun]
      rw [hrun] at haction
      exact htrans _ _ _ haction (hnext a after hrun)
  | error fault after =>
      rw [bind_eq_of_error hrun]
      rw [hrun] at haction
      exact haction

theorem Keeps.mono
    {R S : σ → σ → Prop} {action : EStateM ε σ α}
    (hkeeps : Keeps R action) (hle : ∀ a b, R a b → S a b) :
    Keeps S action :=
  fun state => hle _ _ (hkeeps state)

/-- What only reads keeps every reflexive relation. -/
theorem Keeps.of_eq
    {R : σ → σ → Prop} (hrefl : ∀ a, R a a) {action : EStateM ε σ α}
    (hreads : Keeps Eq action) :
    Keeps R action :=
  hreads.mono fun _ _ heq => heq ▸ hrefl _

theorem Keeps.bind
    {R : σ → σ → Prop} (htrans : ∀ a b c, R a b → R b c → R a c)
    {action : EStateM ε σ α} {next : α → EStateM ε σ β}
    (haction : Keeps R action) (hnext : ∀ a, Keeps R (next a)) :
    Keeps R (action >>= next) :=
  fun state =>
    finalState_bind htrans (haction state)
      fun a after _ => hnext a after

/-- Whatever comes behind a computation starts where that ended. -/
theorem Keeps.behind
    {R : σ → σ → Prop} (hrefl : ∀ a, R a a)
    (action : EStateM ε σ α) {next : α → EStateM ε σ β}
    (hnext : ∀ a, Keeps R (next a)) (state : σ) :
    R (finalState (action state)) (finalState ((action >>= next) state)) := by
  cases hrun : action state with
  | ok a after =>
      rw [bind_eq_of_ok hrun]
      exact hnext a after
  | error fault after =>
      rw [bind_eq_of_error hrun]
      exact hrefl after

/-- The same value or fault, in another world. -/
def Ending.inWorld {α : Type} (ending : EStateM.Result Fault World α)
    (world : World) :
    EStateM.Result Fault World α :=
  match ending with
  | .ok a _ => .ok a world
  | .error fault _ => .error fault world

def Fault.isRefusal : Fault → Bool
  | .complaint (.impure _) => true
  | _ => false

namespace Action

theorem pure_reads (a : α) : Keeps Eq (pure a : Action α) :=
  fun _ => rfl

theorem throw_reads (fault : Fault) : Keeps Eq (throw fault : Action α) :=
  fun _ => rfl

theorem get_reads : Keeps Eq (get : Action World) :=
  fun _ => rfl

theorem reads_bind
    {action : Action α} {next : α → Action β}
    (haction : Keeps Eq action) (hnext : ∀ a, Keeps Eq (next a)) :
    Keeps Eq (action >>= next) := by
  refine Keeps.bind ?_ haction hnext
  intro a b c hab hbc
  exact hab.trans hbc

theorem complain_reads (complaint : Complaint) :
    Keeps Eq (complain complaint : Action α) :=
  throw_reads _

/-- An action that leaves the world alone and is not turned down as an effect
when it fails. -/
def Observes (action : Action α) : Prop :=
  ∀ world,
    (∃ a, action world = .ok a world) ∨
      ∃ fault, fault.isRefusal = false ∧ action world = .error fault world

theorem Observes.reads
    {action : Action α} (hobserves : Observes action) :
    Keeps Eq action := by
  intro world
  rcases hobserves world with ⟨a, hrun⟩ | ⟨fault, -, hrun⟩
  · rw [hrun, finalState_ok]
  · rw [hrun, finalState_error]

theorem Observes.bind
    {action : Action α} {next : α → Action β}
    (haction : Observes action) (hnext : ∀ a, Observes (next a)) :
    Observes (action >>= next) := by
  intro world
  rcases haction world with ⟨a, hrun⟩ | ⟨fault, hfault, hrun⟩
  · rw [bind_eq_of_ok hrun]
    exact hnext a world
  · rw [bind_eq_of_error hrun]
    exact .inr ⟨fault, hfault, rfl⟩

theorem pure_observes (a : α) : Observes (pure a : Action α) :=
  fun _ => .inl ⟨a, rfl⟩

theorem get_observes : Observes (get : Action World) :=
  fun world => .inl ⟨world, rfl⟩

theorem throw_observes
    {fault : Fault} (hfault : fault.isRefusal = false) :
    Observes (throw fault : Action α) :=
  fun _ => .inr ⟨fault, hfault, rfl⟩

theorem mishap_observes (mishap : Mishap) (place : Expr) :
    Observes (Action.mishap mishap place : Action α) :=
  throw_observes rfl

theorem bare_observes (result : Except ArithmeticFault α) :
    Observes (bare result) := by
  cases result with
  | ok a => exact pure_observes a
  | error fault => exact throw_observes rfl

theorem isRefusal_pinned (word : String) (place : Expr) (trouble : Trouble) :
    (pinned word place trouble).isRefusal = false := by
  cases trouble with
  | refused refusal => rfl
  | arithmetic fault => rfl
  | operandCount => rfl

theorem isRefusal_unpinned (trouble : Trouble) :
    (unpinned trouble).isRefusal = false := by
  cases trouble with
  | refused refusal => rfl
  | arithmetic fault => rfl
  | operandCount => rfl

theorem pinning_observes
    (word : String) (place : Expr) (result : Except Trouble α) :
    Observes (pinning word place result) := by
  cases result with
  | ok a => exact pure_observes a
  | error trouble => exact throw_observes (isRefusal_pinned word place trouble)

theorem listeners_observes : Observes listeners := by
  apply get_observes.bind
  intro world
  cases world.flock.listeners with
  | ok turtles => exact pure_observes _
  | error ident => exact throw_observes rfl

theorem turtle_observes (ident : Nat) : Observes (turtle ident) := by
  apply get_observes.bind
  intro world
  cases world.flock.get? ident with
  | some turtle => exact pure_observes _
  | none => exact throw_observes rfl

/-- An action with a clean-up behind it, when the clean-up cannot fail. -/
theorem finalState_andFinally
    {action : Action α} {cleanup : Action Unit} {world after : World}
    (hcleanup : cleanup (finalState (action world)) = .ok () after) :
    finalState (action.andFinally cleanup world) = after := by
  unfold andFinally
  cases hrun : action world with
  | ok a inner =>
      rw [hrun, finalState_ok] at hcleanup
      simp only [hcleanup, finalState_ok]
  | error fault inner =>
      rw [hrun, finalState_error] at hcleanup
      simp only [hcleanup, finalState_error]

theorem finalState_andFinally_modify
    (action : Action α) (change : World → World) (world : World) :
    finalState (action.andFinally (modify change) world) =
      change (finalState (action world)) :=
  finalState_andFinally rfl

theorem andFinally_modify_eq
    (action : Action α) (change : World → World) (world : World) :
    action.andFinally (modify change) world =
      Ending.inWorld (action world) (change (finalState (action world))) := by
  unfold andFinally
  cases action world <;> rfl

theorem get_bind (next : World → Action α) (world : World) :
    (get >>= next) world = next world world := rfl

end Action

namespace Execution

open Logo.Action

theorem lookup_observes (expr : Expr) (name : String) :
    Observes (lookup expr name) := by
  apply get_observes.bind
  intro world
  split
  · exact pure_observes _
  · exact pure_observes _
  · exact pure_observes _
  · exact mishap_observes _ _
  · exact throw_observes rfl

theorem tally_observes (expr : Expr) (number : Number) :
    Observes (tally expr number) := by
  have hendless :
      Observes
        (bare number.text >>= fun text =>
          (Action.mishap (.endlessCount text) expr : Action Int)) :=
    (bare_observes _).bind fun _ => mishap_observes _ _
  apply (bare_observes _).bind
  intro finite
  cases number.truncate? with
  | none => exact hendless
  | some n =>
      cases finite with
      | true => exact pure_observes n
      | false => exact hendless

theorem procedure_observes (expr : Expr) (name : String) (inputs : Nat) :
    Observes (procedure expr name inputs) := by
  apply get_observes.bind
  intro world
  split
  · split
    · exact pure_observes _
    · exact mishap_observes _ _
  · exact throw_observes rfl
  · exact mishap_observes _ _
  · exact throw_observes rfl

/-- Without permission to hatch turtles, checking their numbers changes
nothing. -/
theorem address_pureAttempt_reads (expr list : Expr) (numbers : List Number) :
    Keeps Eq (address .pureAttempt expr list numbers) := by
  induction numbers with
  | nil => exact pure_reads ()
  | cons number rest ih =>
      refine reads_bind (pinning_observes _ _ _).reads fun ident => ?_
      refine reads_bind get_reads fun world => ?_
      split
      · exact ih
      · exact reads_bind (complain_reads _) fun _ => ih

end Execution

end Logo
