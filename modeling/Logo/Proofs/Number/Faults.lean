import Logo.Number.Arithmetic
import Logo.Marks
import Logo.Proofs.Binary64.Range
import Logo.Turtle.Basic

/-!
# Where arithmetic fails

Counting and measuring distances fail in one way only: on an integer that is too
large for double precision.  A loop runs into it with its first step or not at
all.  A distance does not depend on the marks that something gets which is not a
number.
-/

namespace Logo

/-- A sequence of computations fails in its first part or in its second one. -/
theorem Except.cases_of_bind_eq_error
    {ε α β : Type} {first : Except ε α} {next : α → Except ε β} {fault : ε}
    (herror : (first >>= next) = .error fault) :
    first = .error fault ∨ ∃ a, first = .ok a ∧ next a = .error fault := by
  cases first with
  | error trouble =>
      cases herror
      exact .inl rfl
  | ok a => exact .inr ⟨a, rfl, herror⟩

theorem Except.exists_of_bind_eq_ok
    {ε α β : Type} {first : Except ε α} {next : α → Except ε β} {b : β}
    (hok : (first >>= next) = .ok b) : ∃ a, first = .ok a ∧ next a = .ok b := by
  cases first with
  | error trouble => cases hok
  | ok a => exact ⟨a, rfl, hok⟩

def Number.IsOversize : Number → Prop
  | .integer n => Binary64.ofInt? n = none
  | .real _ => False
  | .marked _ => False

namespace Number

theorem toReal_eq_error
    {number : Number} {fault : ArithmeticFault}
    (herror : number.toReal = .error fault) :
    number.IsOversize ∧ fault = .integerTooLarge := by
  cases number with
  | integer n =>
      simp only [toReal] at herror
      split at herror
      next => cases herror
      next hnone =>
        cases herror
        exact ⟨hnone, rfl⟩
  | real x => cases herror
  | marked mark => cases herror

theorem isFinite_eq_error
    {number : Number} {fault : ArithmeticFault}
    (herror : number.isFinite = .error fault) :
    number.IsOversize ∧ fault = .integerTooLarge := by
  rcases Except.cases_of_bind_eq_error herror with hreal | ⟨x, -, hpure⟩
  · exact toReal_eq_error hreal
  · cases hpure

theorem isFinite_of_isOversize {number : Number} (hlarge : number.IsOversize) :
    number.isFinite = .error .integerTooLarge := by
  cases number with
  | integer n =>
      have hnone : Binary64.ofInt? n = none := hlarge
      have hreal : (Number.integer n).toReal = .error .integerTooLarge := by
        simp [toReal, hnone]
      unfold isFinite
      rw [hreal]
      rfl
  | real x => exact hlarge.elim
  | marked mark => exact hlarge.elim

theorem ofInt?_isSome_of_isFinite
    {n : Int} {finite : Bool}
    (hfinite : (Number.integer n).isFinite = .ok finite) :
    (Binary64.ofInt? n).isSome := by
  obtain ⟨x, hreal, -⟩ := Except.exists_of_bind_eq_ok hfinite
  simp only [toReal] at hreal
  split at hreal
  next hfound => simp [hfound]
  next => cases hreal

theorem isFinite_of_ofInt?_isSome {n : Int}
    (hsome : (Binary64.ofInt? n).isSome) :
    (Number.integer n).isFinite = .ok true := by
  obtain ⟨x, hx⟩ := Option.isSome_iff_exists.mp hsome
  have hreal : (Number.integer n).toReal = .ok x := by
    simp [toReal, hx]
  unfold isFinite
  rw [hreal]
  exact congrArg Except.ok (Binary64.isFinite_of_ofInt? hx)

/-- Ten to the power of the most digits that are written is beyond double
precision. -/
theorem two_pow_lt_ten_pow : 2 ^ 1024 < Nat.pow 10 digitLimit := by
  decide +kernel

theorem text_of_isFinite
    {number : Number} {finite : Bool} (hfinite : number.isFinite = .ok finite) :
    ∃ text, number.text = .ok text := by
  cases number with
  | integer n =>
      have hpower :=
        Binary64.lt_pow_of_ofInt?_isSome (ofInt?_isSome_of_isFinite hfinite)
      have hlimit := hpower.trans two_pow_lt_ten_pow
      refine ⟨toString n, ?_⟩
      unfold text integerText
      dsimp only
      rw [if_neg (Nat.not_le_of_lt hlimit)]
  | real x => exact ⟨_, rfl⟩
  | marked mark => exact ⟨_, rfl⟩

/-- Operations with a rule for integers fail only where an operand is turned
into a number in double precision. -/
theorem text_eq_error
    {number : Number} {fault : ArithmeticFault}
    (herror : number.text = .error fault) :
    fault = .tooManyDigits none ∧
      ∃ n, number = .integer n ∧ Nat.pow 10 digitLimit ≤ n.natAbs := by
  cases number with
  | integer n =>
      unfold text integerText at herror
      dsimp only at herror
      split at herror
      next hlimit =>
        cases herror
        exact ⟨rfl, n, rfl, hlimit⟩
      next => cases herror
  | real x => cases herror
  | marked mark => cases herror

theorem lift_eq_error
    {onIntegers : Int → Int → Int} {onReals : Float → Float → Float}
    {a b : Number} {fault : ArithmeticFault}
    (herror : lift onIntegers onReals a b = .error fault) :
    fault = .integerTooLarge := by
  unfold lift at herror
  split at herror
  next => cases herror
  next =>
    rcases Except.cases_of_bind_eq_error herror with hreal | ⟨x, -, herror⟩
    · exact (toReal_eq_error hreal).2
    · rcases Except.cases_of_bind_eq_error herror with hreal | ⟨y, -, hpure⟩
      · exact (toReal_eq_error hreal).2
      · cases hpure

/-- What could be added once can be added again. -/
theorem exists_add_add
    {a b sum : Number} (hsum : a.add b = .ok sum) :
    ∃ further, sum.add b = .ok further := by
  unfold add lift at hsum
  split at hsum
  next =>
    cases hsum
    exact ⟨_, rfl⟩
  next =>
    obtain ⟨x, -, hsum⟩ := Except.exists_of_bind_eq_ok hsum
    obtain ⟨y, hy, hsum⟩ := Except.exists_of_bind_eq_ok hsum
    cases hsum
    refine ⟨.real (x + y + y), ?_⟩
    have hreal : (Number.real (x + y)).toReal = .ok (x + y) := rfl
    unfold add lift
    simp only [hreal, hy]
    rfl

theorem hypotenuse_eq_error
    {a b : Number} {fault : ArithmeticFault}
    (herror : a.hypotenuse b = .error fault) :
    fault = .integerTooLarge := by
  rcases Except.cases_of_bind_eq_error herror with hreal | ⟨x, -, herror⟩
  · exact (toReal_eq_error hreal).2
  · rcases Except.cases_of_bind_eq_error herror with hreal | ⟨y, -, hpure⟩
    · exact (toReal_eq_error hreal).2
    · cases hpure

end Number

theorem Pose.distanceTo_eq_error
    {here there : Pose} {fault : ArithmeticFault}
    (herror : here.distanceTo there = .error fault) :
    fault = .integerTooLarge := by
  rcases Except.cases_of_bind_eq_error herror with hx | ⟨dx, -, herror⟩
  · exact Number.lift_eq_error hx
  · rcases Except.cases_of_bind_eq_error herror with hy | ⟨dy, -, herror⟩
    · exact Number.lift_eq_error hy
    · exact Number.hypotenuse_eq_error herror

/-- Two numbers are the same integer, or neither is one. -/
inductive Number.SameKind : Number → Number → Prop where
  | integer (n : Int) : SameKind (.integer n) (.integer n)
  | other {a b : Number} {x y : Float} (ha : ∀ n, a ≠ .integer n)
      (hb : ∀ n, b ≠ .integer n) (hx : a.toReal = .ok x)
      (hy : b.toReal = .ok y) : SameKind a b

namespace Number

theorem toReal_real (x : Float) : (Number.real x).toReal = .ok x := rfl

theorem toReal_marked (mark : Mark) :
    (Number.marked mark).toReal = .ok Binary64.notANumber := rfl

theorem sameKind_refl (number : Number) : number.SameKind number := by
  cases number with
  | integer n => exact .integer n
  | real x => exact .other nofun nofun (toReal_real x) (toReal_real x)
  | marked mark =>
      exact .other nofun nofun (toReal_marked mark) (toReal_marked mark)

theorem sameKind_keep (marks : Marks) (listener : Nat) (number : Number) :
    (marks.keep listener number).1.SameKind number := by
  cases number with
  | integer n => exact .integer n
  | marked mark => exact sameKind_refl (.marked mark)
  | real x =>
      unfold Marks.keep
      dsimp only
      split
      · exact .other nofun nofun (toReal_marked _) (toReal_real x)
      · exact sameKind_refl (.real x)

/-- Whether a difference fails depends on the kinds of the operands only, and so
does the kind of the difference. -/
theorem SameKind.sub {a b : Number} (hkind : a.SameKind b) (c : Number) :
    (∃ fault, a.sub c = .error fault ∧ b.sub c = .error fault) ∨
      ∃ d e, a.sub c = .ok d ∧ b.sub c = .ok e ∧ d.SameKind e := by
  cases hkind with
  | integer n =>
      cases hsub : (Number.integer n).sub c with
      | error fault => exact .inl ⟨fault, rfl, rfl⟩
      | ok d => exact .inr ⟨d, d, rfl, rfl, sameKind_refl d⟩
  | @other _ _ x y ha hb hx hy =>
      have hlift {number : Number} {z : Float}
          (hnumber : ∀ n, number ≠ .integer n) (hz : number.toReal = .ok z) :
          number.sub c = c.toReal >>= fun w => pure (.real (z - w)) := by
        unfold Number.sub lift
        split
        next n _ => exact absurd rfl (hnumber n)
        next => rw [hz]; rfl
      rw [hlift ha hx, hlift hb hy]
      cases hc : c.toReal with
      | error fault => exact .inl ⟨fault, rfl, rfl⟩
      | ok w =>
          exact .inr
            ⟨_, _, rfl, rfl, .other nofun nofun (toReal_real _) (toReal_real _)⟩

theorem SameKind.toReal {a b : Number} (hkind : a.SameKind b) :
    (∃ fault, a.toReal = .error fault ∧ b.toReal = .error fault) ∨
      ∃ x y, a.toReal = .ok x ∧ b.toReal = .ok y := by
  cases hkind with
  | integer n =>
      cases hreal : (Number.integer n).toReal with
      | error fault => exact .inl ⟨fault, rfl, rfl⟩
      | ok x => exact .inr ⟨x, x, rfl, rfl⟩
  | other ha hb hx hy => exact .inr ⟨_, _, hx, hy⟩

theorem SameKind.hypotenuse
    {a b c d : Number} (hfirst : a.SameKind b) (hsecond : c.SameKind d)
    {fault : ArithmeticFault} (herror : a.hypotenuse c = .error fault) :
    b.hypotenuse d = .error fault := by
  unfold Number.hypotenuse at herror ⊢
  rcases hfirst.toReal with ⟨trouble, ha, hb⟩ | ⟨x, y, ha, hb⟩
  · rw [ha] at herror
    rw [hb]
    cases herror
    rfl
  · rw [ha] at herror
    rw [hb]
    rcases hsecond.toReal with ⟨trouble, hc, hd⟩ | ⟨z, w, hc, hd⟩
    · rw [hc] at herror
      rw [hd]
      cases herror
      rfl
    · rw [hc] at herror
      cases herror

end Number

/-- Whether a distance fails depends on the kinds of the coordinates only. -/
theorem Pose.distanceTo_sameKind
    {here there place : Pose} (hx : there.x.SameKind place.x)
    (hy : there.y.SameKind place.y) {fault : ArithmeticFault}
    (herror : here.distanceTo there = .error fault) :
    here.distanceTo place = .error fault := by
  unfold Pose.distanceTo at herror ⊢
  rcases hx.sub here.x with ⟨trouble, hsub, hsub'⟩ | ⟨dx, dx', hsub, hsub', hdx⟩
  · rw [hsub] at herror
    rw [hsub']
    cases herror
    rfl
  · rw [hsub] at herror
    rw [hsub']
    rcases hy.sub here.y with
      ⟨trouble, hsub, hsub'⟩ | ⟨dy, dy', hsub, hsub', hdy⟩
    · rw [hsub] at herror
      rw [hsub']
      cases herror
      rfl
    · rw [hsub] at herror
      rw [hsub']
      exact hdx.hypotenuse hdy herror

namespace Counter

theorem next_eq_error
    {counter : Counter} {fault : ArithmeticFault}
    (herror : counter.next = .error fault) :
    counter.value.add counter.step = .error fault := by
  rcases Except.cases_of_bind_eq_error herror with hsum | ⟨sum, -, hpure⟩
  · exact hsum
  · cases hpure

/-- A counter that has gone one step can go another one. -/
theorem exists_next_next
    {counter later : Counter} (hnext : counter.next = .ok later) :
    ∃ further, later.next = .ok further := by
  obtain ⟨sum, hsum, hlater⟩ := Except.exists_of_bind_eq_ok hnext
  cases hlater
  obtain ⟨further, hfurther⟩ := Number.exists_add_add hsum
  refine ⟨{ counter with value := further }, ?_⟩
  simp [next, hfurther, bind, Except.bind, pure, Except.pure]

end Counter

end Logo
