import Logo.Proofs.Scopes

/-!
# Depth

An execution is given a depth, and it fails when it comes to the limit.  Nothing
else depends on the depth: an execution that ends in any other way ends in the
same way with more room.  So there is one ending that a program comes to when it
has room enough, and programs whose expressions are nested differently can be
compared by what they come to.
-/

namespace Logo

open Logo.Action Execution

def Fault.isTooDeep : Fault → Bool
  | .tooDeep => true
  | _ => false

def Ending.isTooDeep {α : Type} : EStateM.Result Fault World α → Bool
  | .ok _ _ => false
  | .error fault _ => fault.isTooDeep

/-- Where an action does not come to the limit of its depth, the other one does
the same. -/
def Deepens {α : Type} (action deeper : Action α) : Prop :=
  ∀ world, Ending.isTooDeep (action world) = false → deeper world = action world

namespace Deepens

variable {α β : Type} {action deeper : Action α}

theorem refl (action : Action α) : Deepens action action :=
  fun _ _ => rfl

theorem bind
    {next next' : α → Action β} (haction : Deepens action deeper)
    (hnext : ∀ a, Deepens (next a) (next' a)) :
    Deepens (action >>= next) (deeper >>= next') := by
  intro world hroom
  cases hrun : action world with
  | ok a after =>
      have hdeeper : deeper world = .ok a after := by
        rw [haction world (by rw [hrun]; rfl), hrun]
      rw [bind_eq_of_ok hrun] at hroom
      rw [bind_eq_of_ok hrun, bind_eq_of_ok hdeeper]
      exact hnext a after hroom
  | error fault after =>
      rw [bind_eq_of_error hrun] at hroom
      have hsame : deeper world = .error fault after := by
        rw [haction world (by rw [hrun]; exact hroom), hrun]
      rw [bind_eq_of_error hrun, bind_eq_of_error hsame]

/-- A clean-up that succeeds does not hide that there was too little room. -/
theorem andFinallyAt
    {cleanup : Action Unit} {world last : World}
    (haction : Deepens action deeper)
    (hcleanup : cleanup (finalState (action world)) = .ok () last)
    (hroom : Ending.isTooDeep (action.andFinally cleanup world) = false) :
    deeper.andFinally cleanup world = action.andFinally cleanup world := by
  have hinner : Ending.isTooDeep (action world) = false := by
    unfold Action.andFinally at hroom
    cases hrun : action world with
    | ok a after => rfl
    | error fault after =>
        rw [hrun, finalState_error] at hcleanup
        simp only [hrun, hcleanup] at hroom
        exact hroom
  unfold Action.andFinally
  rw [haction world hinner]

theorem inOrder
    {run run' : Expr → Action Number}
    (hrun : ∀ expr, Deepens (run expr) (run' expr))
    (result : Number) (body : List Expr) :
    Deepens (Execution.inOrder run result body)
      (Execution.inOrder run' result body) := by
  induction body generalizing result with
  | nil => exact refl _
  | cons expr rest ih => exact (hrun expr).bind fun value => ih value

theorem each
    {run run' : Expr → Action Number}
    (hrun : ∀ expr, Deepens (run expr) (run' expr)) (exprs : List Expr) :
    Deepens (Execution.each run exprs) (Execution.each run' exprs) := by
  induction exprs with
  | nil => exact refl _
  | cons expr rest ih =>
      exact (hrun expr).bind fun number => ih.bind fun numbers => refl _

theorem withLocal
    (haction : Deepens action deeper) (hbalanced : Keeps Balanced action)
    (name : String) (number : Number) :
    Deepens (Action.withLocal name number action)
      (Action.withLocal name number deeper) := by
  intro world hroom
  have hframes := (hbalanced (world.entered name number)).frames
  rw [withLocal_eq] at hroom ⊢
  rw [withLocal_eq]
  exact haction.andFinallyAt (removeLocal_eq_left hframes) hroom

theorem focused (number : Number) (haction : Deepens action deeper) :
    Deepens (Action.focused [number] action)
      (Action.focused [number] deeper) := by
  intro world hroom
  cases hident : Flock.identOf number with
  | error trouble => rw [focused_of_error hident, focused_of_error hident]
  | ok ident =>
      rw [focused_of_identOf hident] at hroom ⊢
      rw [focused_of_identOf hident]
      exact haction.andFinallyAt rfl hroom

theorem unmarking (haction : Deepens action deeper) :
    Deepens (Action.unmarking action) (Action.unmarking deeper) := by
  intro world hroom
  unfold Action.unmarking at hroom ⊢
  rw [get_bind] at hroom ⊢
  rw [get_bind]
  exact haction.andFinallyAt rfl hroom

section Bodies

variable {body body' : Action Number} (hbody : Deepens body body')
include hbody

theorem dispatch (result : Number) (numbers : List Number) :
    Deepens (Execution.dispatch body result numbers)
      (Execution.dispatch body' result numbers) := by
  induction numbers generalizing result with
  | nil => exact refl _
  | cons number rest ih =>
      exact (hbody.focused number).bind fun value => ih value

theorem satisfying (idents : List Nat) :
    Deepens (Execution.satisfying body idents)
      (Execution.satisfying body' idents) := by
  induction idents with
  | nil => exact refl _
  | cons ident rest ih =>
      exact (hbody.unmarking.focused (.integer ident)).bind fun value =>
        ih.bind fun chosen => refl _

theorem turnsAfter (name : String) (turns : Nat) (counter : Counter)
    (result : Number) :
    Deepens (Execution.turnsAfter name body turns counter result)
      (Execution.turnsAfter name body' turns counter result) := by
  induction turns generalizing counter result with
  | zero => exact refl _
  | succ turns ih =>
      refine (refl (bare counter.next)).bind fun later => ?_
      split
      · exact (refl _).bind fun _ => hbody.bind fun value => ih later value
      · exact refl _

variable (hbalanced : Keeps Balanced body)
include hbalanced

theorem withLocals (inputs : List (String × Number)) :
    Deepens (Action.withLocals inputs body)
      (Action.withLocals inputs body') := by
  induction inputs with
  | nil => exact hbody
  | cons input rest ih =>
      exact ih.withLocal (withLocals_keeps rest hbalanced) input.1 input.2

theorem count (turns : Nat) (name : String) (counter : Counter) :
    Deepens (Execution.count turns name counter body)
      (Execution.count turns name counter body') := by
  have hdiscipline := Balanced.discipline .effectful
  unfold Execution.count
  split
  · refine Deepens.withLocal ?_ ?_ name counter.value
    · exact hbody.bind fun value => hbody.turnsAfter name turns counter value
    · exact hdiscipline.keeps_bind hbalanced fun value =>
        hdiscipline.keeps_turnsAfter name hbalanced turns counter value
  · exact refl _

end Bodies

theorem commandEach
    {operands operands' : Action (List Number)}
    (hoperands : Deepens operands operands')
    (expr : Expr) (word : String) (command : TurtleCommand) (result : Number)
    (idents : List Nat) :
    Deepens (Execution.commandEach expr word command operands result idents)
      (Execution.commandEach expr word command operands' result idents) := by
  induction idents generalizing result with
  | nil => exact refl _
  | cons ident rest ih =>
      have hturn :=
        hoperands.bind
          fun numbers => refl (commandOne expr word command ident numbers)
      exact (hturn.focused (.integer ident)).bind fun value => ih value

/-- One expression, if there is more room for the expressions inside of it. -/
theorem step
    (turns : Nat) {execute execute' : Mode → Expr → Action Number}
    (hexecute : ∀ mode part, Deepens (execute mode part) (execute' mode part))
    (hbalanced : ∀ mode part, Keeps Balanced (execute mode part)) (mode : Mode)
    (expr : Expr) :
    Deepens (Execution.step turns execute mode expr)
      (Execution.step turns execute' mode expr) := by
  have hrun := hexecute mode
  have hkeeps (body : List Expr) :
      Keeps Balanced (Execution.inOrder (execute mode) 0 body) :=
    (Balanced.discipline mode).keeps_inOrder (hbalanced mode) 0 body
  have hcount (name : String) (counter : Counter) (body : List Expr) :=
    count (inOrder hrun 0 body) (hkeeps body) turns name counter
  unfold Execution.step
  split
  next => exact refl _
  next =>
    cases expr with
    | literal head value => exact refl _
    | «variable» head => exact refl _
    | command head command args =>
        exact (refl listeners).bind fun idents =>
          (each hrun args).commandEach _ head.text command 0 idents
    | flock head command args =>
        exact (each hrun args).bind fun operands => refl _
    | operation head operator args =>
        exact (each hrun args).bind fun operands => refl _
    | block brackets body => exact inOrder hrun 0 body
    | make head target value => exact (hrun value).bind fun number => refl _
    | repeatTimes head limit brackets body =>
        refine (hrun limit).bind fun number => ?_
        exact (refl (tally limit number)).bind fun last => hcount _ _ body
    | countTo head target limit brackets body =>
        refine (hrun limit).bind fun number => ?_
        exact (refl (tally limit number)).bind fun last => hcount _ _ body
    | countBy head target first last size brackets body =>
        refine (hrun first).bind fun start => (hrun last).bind fun stop => ?_
        refine (hrun size).bind fun number => ?_
        split
        · exact hcount _ _ body
        · exact refl _
    | ifThen head condition brackets body =>
        refine (hrun condition).bind fun number => ?_
        split
        · exact inOrder hrun 0 body
        · exact refl _
    | ifElse head condition thenBrackets thenPart elseBrackets elsePart =>
        refine (hrun condition).bind fun number => ?_
        split
        · exact inOrder hrun 0 thenPart
        · exact inOrder hrun 0 elsePart
    | define head name params brackets body => exact refl _
    | call head args =>
        refine (refl (procedure _ _ _)).bind
          fun found => (each hrun args).bind fun inputs => ?_
        exact (inOrder hrun 0 found.body).withLocals (hkeeps found.body) _
    | tell head brackets list =>
        exact (each hrun list).bind fun numbers => refl _
    | ask head listBrackets list brackets body =>
        refine (each hrun list).bind fun numbers => ?_
        refine (refl (address mode _ _ numbers)).bind fun _ => ?_
        exact (inOrder hrun 0 body).dispatch 0 numbers
    | askWith head conditionBrackets condition brackets body =>
        refine (refl get).bind fun world => ?_
        refine ((inOrder (hexecute .pureAttempt) 0 condition).satisfying _).bind
          fun chosen => ?_
        exact (inOrder hrun 0 body).dispatch 0 chosen

end Deepens

namespace Execution

theorem deepens_execute_succ (turns depth : Nat) (mode : Mode) (expr : Expr) :
    Deepens (execute turns depth mode expr)
      (execute turns (depth + 1) mode expr) := by
  induction depth generalizing mode expr with
  | zero =>
      intro world hroom
      cases hroom
  | succ depth ih =>
      exact Deepens.step turns ih (balanced_execute turns depth) mode expr

theorem deepens_execute
    {depth deeper : Nat} (hle : depth ≤ deeper) (turns : Nat) (mode : Mode)
    (expr : Expr) :
    Deepens (execute turns depth mode expr)
      (execute turns deeper mode expr) := by
  induction hle with
  | refl => exact .refl _
  | @step deeper hle ih =>
      intro world hroom
      have hsame := ih world hroom
      have hmore := deepens_execute_succ turns deeper mode expr world
      rw [hsame] at hmore
      exact hmore hroom

/-- What a list of expressions comes to when it has room enough. -/
def ComesTo
    (turns : Nat) (mode : Mode) (body : List Expr) (world : World)
    (ending : EStateM.Result Fault World Number) : Prop :=
  Ending.isTooDeep ending = false ∧
    ∃ depth, inOrder (execute turns depth mode) 0 body world = ending

theorem ComesTo.deeper
    {turns depth deeper : Nat} {mode : Mode} {body : List Expr} {world : World}
    (hroom : Ending.isTooDeep
      (inOrder (execute turns depth mode) 0 body world) = false)
    (hle : depth ≤ deeper) :
    inOrder (execute turns deeper mode) 0 body world =
      inOrder (execute turns depth mode) 0 body world :=
  Deepens.inOrder (deepens_execute hle turns mode) 0 body world hroom

theorem ComesTo.settles
    {turns : Nat} {mode : Mode} {body : List Expr} {world : World}
    {ending : EStateM.Result Fault World Number}
    (hending : ComesTo turns mode body world ending) :
    ∃ depth, ∀ deeper, depth ≤ deeper →
      inOrder (execute turns deeper mode) 0 body world = ending := by
  obtain ⟨hroom, depth, rfl⟩ := hending
  exact ⟨depth, fun deeper hle => ComesTo.deeper hroom hle⟩

/-- A program comes to one ending. -/
theorem ComesTo.unique
    {turns : Nat} {mode : Mode} {body : List Expr} {world : World}
    {ending other : EStateM.Result Fault World Number}
    (hending : ComesTo turns mode body world ending)
    (hother : ComesTo turns mode body world other) : ending = other := by
  obtain ⟨hroom, depth, rfl⟩ := hending
  obtain ⟨hroom', depth', rfl⟩ := hother
  calc
    inOrder (execute turns depth mode) 0 body world =
        inOrder (execute turns (max depth depth') mode) 0 body world :=
      (ComesTo.deeper hroom (le_max_left depth depth')).symm
    _ = inOrder (execute turns depth' mode) 0 body world :=
      ComesTo.deeper hroom' (le_max_right depth depth')

end Execution

end Logo
