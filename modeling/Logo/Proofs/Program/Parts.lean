import Logo.Program.Expr
import Mathlib.Tactic

/-!
# The parts of an expression

An expression is put together from other expressions, and these from others in
turn.  A statement about all that occurs in an expression follows the parts.
-/

namespace Logo.Expr

/-- The expressions that an expression is directly put together from. -/
def parts : Expr → List Expr
  | .literal _ _ => []
  | .variable _ => []
  | .command _ _ args => args
  | .flock _ _ args => args
  | .operation _ _ args => args
  | .block _ body => body
  | .make _ _ value => [value]
  | .repeatTimes _ limit _ body => limit :: body
  | .countTo _ _ limit _ body => limit :: body
  | .countBy _ _ first last step _ body => first :: last :: step :: body
  | .ifThen _ condition _ body => condition :: body
  | .ifElse _ condition _ thenPart _ elsePart =>
      condition :: (thenPart ++ elsePart)
  | .define _ _ _ _ body => body
  | .call _ args => args
  | .tell _ _ list => list
  | .ask _ _ list _ body => list ++ body
  | .askWith _ _ condition _ body => condition ++ body

/-- The list of turtles that an instruction addresses, as an expression of its
own. -/
def addressed? : Expr → Option Expr
  | .tell _ brackets list => some (.block brackets list)
  | .ask _ brackets list _ _ => some (.block brackets list)
  | _ => none

/-- An expression occurs in another one, at any depth. -/
inductive Within (part : Expr) : Expr → Prop where
  | self : Within part part
  | inside {direct whole : Expr} (hdirect : direct ∈ whole.parts)
      (hpart : Within part direct) :
      Within part whole

/-- What holds throughout an expression holds of it and throughout its parts. -/
theorem forall_within_iff {P : Expr → Prop} {whole : Expr} :
    (∀ part, Within part whole → P part) ↔
      P whole ∧ ∀ direct ∈ whole.parts, ∀ part,
        Within part direct → P part := by
  constructor
  · intro hall
    exact ⟨hall whole .self,
      fun direct hdirect part hpart => hall part (.inside hdirect hpart)⟩
  · rintro ⟨hwhole, hparts⟩ part hpart
    cases hpart with
    | self => exact hwhole
    | inside hdirect hpart => exact hparts _ hdirect part hpart

/-! ## The parts of shallow expressions as a list -/

/-- An expression and its parts down to a depth. -/
def flattened : (depth : Nat) → Expr → List Expr
  | 0, expr => [expr]
  | depth + 1, expr => expr :: expr.parts.flatMap (flattened depth)

/-- Whether there is nothing below a depth. -/
def isShallow : (depth : Nat) → Expr → Bool
  | 0, expr => expr.parts.isEmpty
  | depth + 1, expr => expr.parts.all (isShallow depth)

theorem mem_flattened_of_within
    {depth : Nat} {part whole : Expr} (hpart : part.Within whole)
    (hshallow : whole.isShallow depth = true) :
    part ∈ whole.flattened depth := by
  induction hpart generalizing depth with
  | self => cases depth <;> simp [flattened]
  | inside hdirect hpart ih =>
      cases depth with
      | zero =>
          rw [isShallow, List.isEmpty_iff] at hshallow
          simp [hshallow] at hdirect
      | succ depth =>
          have hall := List.all_eq_true.mp hshallow _ hdirect
          exact List.mem_cons_of_mem _ (List.mem_flatMap.mpr
            ⟨_, hdirect, ih hall⟩)

end Logo.Expr
