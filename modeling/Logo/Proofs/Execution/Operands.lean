import Logo.Flock.Command
import Logo.Operator
import Mathlib.Tactic

/-!
# Commands and operators with as many operands as they take

A command or an operator that is given as many operands as it takes may run into
trouble, but never into a wrong number of operands.  The same holds of an
operator that is folded over more.
-/

namespace Logo

/-- A result whose trouble, if there is any, is not about the number of
operands. -/
def Counts {α : Type} (result : Except Trouble α) : Prop :=
  result ≠ .error .operandCount

section Counting

variable {α β : Type}

@[simp] theorem counts_ok (a : α) : Counts (.ok a) := nofun

@[simp] theorem counts_pure (a : α) : Counts (pure a) := nofun

@[simp] theorem counts_arithmetically (result : Except ArithmeticFault α) :
    Counts (arithmetically result) := by
  cases result <;> nofun

@[simp] theorem counts_bind
    {result : Except Trouble α} {next : α → Except Trouble β}
    (hresult : Counts result) (hnext : ∀ a, Counts (next a)) :
    Counts (result >>= next) := by
  cases result with
  | ok a => exact hnext a
  | error trouble =>
      intro heq
      apply hresult
      cases heq
      rfl

@[simp] theorem counts_map {result : Except Trouble α} (f : α → β)
    (hresult : Counts result) :
    Counts (f <$> result) := by
  rw [← bind_pure_comp]
  exact counts_bind hresult fun a => counts_pure (f a)

@[simp] theorem counts_refuse (refusal : String → Refusal) (number : Number) :
    Counts (refuse refusal number : Except Trouble α) :=
  counts_bind (counts_arithmetically _) fun _ => nofun

end Counting

@[simp] theorem Number.counts_toIndex (number : Number) :
    Counts number.toIndex := by
  refine counts_bind (counts_arithmetically _) fun finite => ?_
  split
  · split <;> simp
  · simp

namespace Flock

@[simp] theorem counts_identOf (number : Number) : Counts (identOf number) := by
  refine counts_bind (counts_arithmetically _) fun finite => ?_
  split
  · split <;> simp
  · simp

@[simp] theorem counts_colorIndex (number : Number) :
    Counts (colorIndex number) := by
  refine counts_bind (counts_arithmetically _) fun finite => ?_
  split
  · split <;> simp
  · simp

@[simp] theorem counts_setBackground (flock : Flock) (number : Number) :
    Counts (flock.setBackground number) := by
  have hcolor : Counts (flock.color number) := by
    refine counts_bind (counts_colorIndex number) fun index => ?_
    split <;> simp
  simp [setBackground, hcolor]

@[simp] theorem counts_setPalette (flock : Flock)
    (number red green blue : Number) :
    Counts (flock.setPalette number red green blue) := by
  refine counts_bind (counts_colorIndex number) fun index => ?_
  simp only
  split
  · nofun
  · split
    · simp
    · split
      · simp
      · nofun

end Flock

theorem TurtleCommand.counts_update
    {command : TurtleCommand} {operands : List Number}
    (hlength : operands.length = command.arity) (turtle : Turtle) :
    Counts (command.update operands turtle) := by
  rcases operands with _ | ⟨a, _ | ⟨b, _ | ⟨c, rest⟩⟩⟩ <;> cases command <;>
    simp [arity] at hlength <;> simp [update]
  split <;> simp

theorem FlockCommand.counts_update
    {command : FlockCommand} {operands : List Number}
    (hlength : operands.length = command.arity) (flock : Flock) :
    Counts (command.update operands flock) := by
  rcases operands with
    _ | ⟨a, _ | ⟨b, _ | ⟨c, _ | ⟨d, _ | ⟨e, rest⟩⟩⟩⟩⟩ <;> cases command <;>
    simp [arity] at hlength <;> simp [update]

namespace Operator

theorem counts_apply
    {operator : Operator} {operands : List Number}
    (hlength : operands.length = operator.arity) (draw : Float) :
    Counts (operator.apply draw operands) := by
  rcases operands with _ | ⟨a, _ | ⟨b, _ | ⟨c, rest⟩⟩⟩ <;> cases operator <;>
    simp [arity] at hlength <;> simp [apply]
  split
  · nofun
  · simp

theorem arity_of_isReducible {operator : Operator}
    (hreducible : operator.isReducible = true) :
    operator.arity = 2 := by
  cases operator <;> simp_all [isReducible, arity]

/-- Folding applies an operator to two operands at a time. -/
theorem counts_fold
    {operator : Operator} (harity : operator.arity = 2) (draw : Float)
    (first : Number) (rest : List Number) :
    Counts (operator.fold draw (first :: rest)) := by
  change Counts (rest.foldlM (fun a b => operator.apply draw [a, b]) first)
  induction rest generalizing first with
  | nil => simp
  | cons second rest ih =>
      have hpair : [first, second].length = operator.arity := harity.symm
      rw [List.foldlM_cons]
      exact counts_bind (counts_apply hpair draw) fun a => ih a

theorem counts_value
    {operator : Operator} {operands : List Number}
    (hlength :
      operands.length = operator.arity ∨
        operator.isReducible = true ∧ operator.arity < operands.length)
    (draw : Float) :
    Counts (operator.value draw operands) := by
  unfold value
  rcases hlength with hexact | ⟨hreducible, hmore⟩
  · rw [if_neg (by omega)]
    exact counts_apply hexact draw
  · rw [if_pos hmore]
    cases operands with
    | nil => simp at hmore
    | cons first rest =>
        exact counts_fold (arity_of_isReducible hreducible) draw first rest

end Operator

end Logo
