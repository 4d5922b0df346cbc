import Logo.Operator
import Logo.Proofs.Flock.Ahead
import Logo.Proofs.NameMap
import Mathlib.Logic.Embedding.Basic

/-!
# Other marks

A mark only serves to recognise something that is not a number.  Which mark it
is makes no difference to arithmetic, and commands to a turtle only ask whether
two marks are the same.  So everything that is computed from numbers with other
marks, different ones for different ones, comes out as it would have, with these
marks in it.
-/

namespace Logo

variable (rename : Mark ↪ Mark)

/-! ## Numbers -/

def Number.renamed : Number → Number
  | .marked mark => .marked (rename mark)
  | number => number

namespace Number

variable (a b : Number)

@[simp] theorem renamed_integer (n : Int) :
    (integer n).renamed rename = integer n := rfl

@[simp] theorem renamed_real (x : Float) :
    (real x).renamed rename = real x := rfl

@[simp] theorem renamed_zero : (0 : Number).renamed rename = 0 := rfl

@[simp] theorem renamed_one : (1 : Number).renamed rename = 1 := rfl

@[simp] theorem renamed_ofBool (b : Bool) :
    (ofBool b).renamed rename = ofBool b := rfl

@[simp] theorem toReal_renamed : (a.renamed rename).toReal = a.toReal := by
  cases a <;> rfl

@[simp] theorem isTrue_renamed : (a.renamed rename).isTrue = a.isTrue := by
  cases a <;> rfl

@[simp] theorem isFinite_renamed :
    (a.renamed rename).isFinite = a.isFinite := by
  cases a <;> rfl

@[simp] theorem truncate?_renamed :
    (a.renamed rename).truncate? = a.truncate? := by
  cases a <;> rfl

@[simp] theorem text_renamed : (a.renamed rename).text = a.text := by
  cases a <;> rfl

@[simp] theorem compare?_renamed :
    (a.renamed rename).compare? (b.renamed rename) = a.compare? b := by
  cases a <;> cases b <;> rfl

@[simp] theorem lt_renamed :
    (a.renamed rename).lt (b.renamed rename) = a.lt b := by
  simp [lt]

@[simp] theorem le_renamed :
    (a.renamed rename).le (b.renamed rename) = a.le b := by
  simp [le]

@[simp] theorem eq_renamed :
    (a.renamed rename).eq (b.renamed rename) = a.eq b := by
  simp [Number.eq]

/-- Different marks stay different, which matters here and nowhere else. -/
@[simp] theorem same_renamed :
    (a.renamed rename).same (b.renamed rename) = a.same b := by
  cases a with
  | marked mark =>
      cases b with
      | marked other => simp [renamed, same, Bool.beq_eq_decide_eq]
      | _ => rfl
  | _ => cases b <;> rfl

@[simp] theorem neg_renamed :
    (a.renamed rename).neg = a.neg.renamed rename := by
  cases a <;> rfl

/-- A result without a mark, behind anything else. -/
theorem map_renamed_bind
    {α : Type} (result : Except ArithmeticFault α)
    {next : α → Except ArithmeticFault Number}
    (hnext : ∀ a, renamed rename <$> next a = next a) :
    renamed rename <$> (result >>= next) = result >>= next := by
  simp only [map_bind, hnext]

theorem lift_renamed (onIntegers : Int → Int → Int)
    (onReals : Float → Float → Float) :
    lift onIntegers onReals (a.renamed rename) (b.renamed rename) =
      renamed rename <$> lift onIntegers onReals a b := by
  have hreals (x y : Except ArithmeticFault Float) :
      (do return .real (onReals (← x) (← y))) =
        renamed rename <$>
          (do return .real (onReals (← x) (← y)) :
            Except ArithmeticFault Number) :=
    (map_renamed_bind rename x
      fun _ => map_renamed_bind rename y fun _ => rfl).symm
  cases a <;> cases b <;> first | rfl | exact hreals _ _

@[simp] theorem add_renamed :
    (a.renamed rename).add (b.renamed rename) = renamed rename <$> a.add b :=
  lift_renamed rename a b _ _

@[simp] theorem sub_renamed :
    (a.renamed rename).sub (b.renamed rename) = renamed rename <$> a.sub b :=
  lift_renamed rename a b _ _

@[simp] theorem mul_renamed :
    (a.renamed rename).mul (b.renamed rename) = renamed rename <$> a.mul b :=
  lift_renamed rename a b _ _

@[simp] theorem div_renamed :
    (a.renamed rename).div (b.renamed rename) = renamed rename <$> a.div b := by
  have hreals (x y : Except ArithmeticFault Float) :
      (do
        let x ← x
        let y ← y
        if y == 0.0 then throw .realDivisionByZero
        return .real (x / y) : Except ArithmeticFault Number) =
        renamed rename <$> (do
          let x ← x
          let y ← y
          if y == 0.0 then throw .realDivisionByZero
          return .real (x / y)) := by
    refine (map_renamed_bind rename x
      fun _ => map_renamed_bind rename y fun _ => ?_).symm
    split <;> rfl
  cases a with
  | integer m =>
      cases b with
      | integer n =>
          simp only [renamed_integer, div]
          split
          · rfl
          · split <;> rfl
      | _ => exact hreals _ _
  | _ => cases b <;> exact hreals _ _

@[simp] theorem remainder_renamed :
    (a.renamed rename).remainder (b.renamed rename) =
      renamed rename <$> a.remainder b := by
  unfold remainder
  rw [toReal_renamed, toReal_renamed]
  refine (map_renamed_bind rename _ fun x =>
    map_renamed_bind rename _ fun y => ?_).symm
  cases Binary64.remainder? x y <;> rfl

@[simp] theorem ofDegrees_renamed (f : Float → Float) :
    (a.renamed rename).ofDegrees f = renamed rename <$> a.ofDegrees f := by
  unfold ofDegrees
  rw [toReal_renamed]
  exact (map_renamed_bind rename _ fun _ =>
    map_renamed_bind rename _ fun _ => rfl).symm

@[simp] theorem arcTangent_renamed :
    (a.renamed rename).arcTangent = renamed rename <$> a.arcTangent := by
  unfold arcTangent
  rw [toReal_renamed]
  exact (map_renamed_bind rename _ fun _ => rfl).symm

@[simp] theorem naturalLog_renamed :
    (a.renamed rename).naturalLog = renamed rename <$> a.naturalLog := by
  cases a with
  | integer n =>
      simp only [renamed_integer, naturalLog]
      split
      · rfl
      · cases Binary64.ofInt? n <;> rfl
  | real x =>
      simp only [renamed_real, naturalLog]
      split
      · rfl
      · split <;> rfl
  | marked mark => rfl

@[simp] theorem power_renamed :
    (a.renamed rename).power (b.renamed rename) =
      renamed rename <$> a.power b := by
  unfold power
  rw [toReal_renamed, toReal_renamed]
  refine (map_renamed_bind rename _ fun x =>
    map_renamed_bind rename _ fun y => ?_).symm
  simp only
  split
  · rfl
  · split
    · rfl
    · split
      · rfl
      · rfl

@[simp] theorem hypotenuse_renamed :
    (a.renamed rename).hypotenuse (b.renamed rename) =
      renamed rename <$> a.hypotenuse b := by
  unfold hypotenuse
  rw [toReal_renamed, toReal_renamed]
  exact (map_renamed_bind rename _ fun _ =>
    map_renamed_bind rename _ fun _ => rfl).symm

@[simp] theorem toIndex_renamed : (a.renamed rename).toIndex = a.toIndex := by
  have hlt : (a.renamed rename).lt 0 = a.lt 0 := lt_renamed rename a 0
  have heq (n : Int) : (a.renamed rename).eq (.integer n) = a.eq (.integer n) :=
    eq_renamed rename a (.integer n)
  unfold toIndex refuse
  simp only [isFinite_renamed, truncate?_renamed, text_renamed, hlt, heq]

end Number

def Counter.renamed (counter : Counter) : Counter where
  value := counter.value.renamed rename
  last := counter.last.renamed rename
  step := counter.step.renamed rename

namespace Counter

variable (counter : Counter)

@[simp] theorem isLive_renamed :
    (counter.renamed rename).isLive = counter.isLive := by
  have hlt :
      Number.lt 0 (counter.step.renamed rename) = Number.lt 0 counter.step :=
    Number.lt_renamed rename 0 counter.step
  simp only [isLive, renamed, hlt, Number.le_renamed]

@[simp] theorem next_renamed :
    (counter.renamed rename).next = renamed rename <$> counter.next := by
  simp only [next, renamed, Number.add_renamed, bind_map_left,
    map_bind, map_pure]

end Counter

theorem map_arithmetically
    {α β : Type} (f : α → β) (result : Except ArithmeticFault α) :
    arithmetically (f <$> result) = f <$> arithmetically result := by
  cases result <;> rfl

/-! ## Operators -/

namespace Operator

variable (operator : Operator)

theorem apply_renamed (draw : Float) (operands : List Number) :
    operator.apply draw (operands.map (·.renamed rename)) =
      (·.renamed rename) <$> operator.apply draw operands := by
  rcases operands with _ | ⟨a, _ | ⟨b, _ | ⟨c, rest⟩⟩⟩
  · cases operator <;> rfl
  · have hlt : (a.renamed rename).lt 0 = a.lt 0 := a.lt_renamed rename 0
    have hmul := (Number.real draw).mul_renamed rename a
    cases operator with
    | random =>
        simp only [List.map_cons, List.map_nil, apply, hlt]
        split
        · rfl
        · rw [← map_arithmetically]
          exact congrArg arithmetically hmul
    | _ => simp [apply, map_arithmetically]
  · cases operator <;> simp [apply, map_arithmetically]
  · cases operator <;> rfl

theorem fold_renamed (draw : Float) (operands : List Number) :
    operator.fold draw (operands.map (·.renamed rename)) =
      (·.renamed rename) <$> operator.fold draw operands := by
  cases operands with
  | nil => rfl
  | cons first rest =>
      simp only [List.map_cons, fold]
      induction rest generalizing first with
      | nil => rfl
      | cons second rest ih =>
          have happly := operator.apply_renamed rename draw [first, second]
          simp only [List.map_cons, List.map_nil] at happly
          simp only [List.map_cons, List.foldlM_cons, happly,
            bind_map_left, ih, map_bind]

theorem value_renamed (draw : Float) (operands : List Number) :
    operator.value draw (operands.map (·.renamed rename)) =
      (·.renamed rename) <$> operator.value draw operands := by
  unfold value
  rw [List.length_map]
  split
  · exact operator.fold_renamed rename draw operands
  · exact operator.apply_renamed rename draw operands

@[simp] theorem draws_renamed (operands : List Number) :
    operator.draws (operands.map (·.renamed rename)) =
      operator.draws operands := by
  rcases operands with _ | ⟨limit, _ | ⟨other, rest⟩⟩
  · rfl
  · have hlt : (limit.renamed rename).lt 0 = limit.lt 0 :=
      limit.lt_renamed rename 0
    cases operator <;> simp [draws, hlt]
  · cases operator <;> rfl

end Operator

/-! ## Turtles -/

def Pose.renamed (pose : Pose) : Pose :=
  { pose with x := pose.x.renamed rename, y := pose.y.renamed rename }

@[simp] theorem Pose.distanceTo_renamed (here there : Pose) :
    (here.renamed rename).distanceTo (there.renamed rename) =
      (·.renamed rename) <$> here.distanceTo there := by
  simp [Pose.distanceTo, Pose.renamed, map_bind]

def Stroke.renamed (stroke : Stroke) : Stroke where
  startX := stroke.startX.renamed rename
  startY := stroke.startY.renamed rename
  endX := stroke.endX.renamed rename
  endY := stroke.endY.renamed rename
  color := stroke.color
  size := stroke.size.renamed rename

def Turtle.renamed (turtle : Turtle) : Turtle :=
  { turtle with
    x := turtle.x.renamed rename
    y := turtle.y.renamed rename
    penSize := turtle.penSize.renamed rename
    strokes := turtle.strokes.map (·.renamed rename)
    stamps := turtle.stamps.map (·.renamed rename) }

namespace Turtle

variable (turtle : Turtle)

theorem moveTo_renamed (x y : Number) :
    (turtle.renamed rename).moveTo (x.renamed rename) (y.renamed rename) =
      (turtle.moveTo x y).renamed rename := by
  by_cases hpen : turtle.penDown = true
  · simp only [moveTo, renamed, hpen, if_true]
    rfl
  · simp only [moveTo, renamed, hpen, if_false, Bool.false_eq_true]

theorem advance_renamed (distance : Number) :
    (turtle.renamed rename).advance (distance.renamed rename) =
      (·.renamed rename) <$> turtle.advance distance := by
  have hstep (x : Float) :
      (distance.renamed rename).mul (.real x) =
        (·.renamed rename) <$> distance.mul (.real x) :=
    distance.mul_renamed rename (.real x)
  have hx : (turtle.renamed rename).x = turtle.x.renamed rename := rfl
  have hy : (turtle.renamed rename).y = turtle.y.renamed rename := rfl
  have hheading : (turtle.renamed rename).heading = turtle.heading := rfl
  simp only [advance, hx, hy, hheading, hstep, bind_map_left,
    Number.add_renamed, moveTo_renamed, map_bind, map_pure]

theorem turn_renamed (anticlockwise : Bool) (angle : Number) :
    (turtle.renamed rename).turn anticlockwise (angle.renamed rename) =
      (·.renamed rename) <$> turtle.turn anticlockwise angle := by
  simp only [turn, Number.toReal_renamed, map_bind, map_pure]
  rfl

theorem face_renamed (x y : Number) :
    (turtle.renamed rename).face (x.renamed rename) (y.renamed rename) =
      (·.renamed rename) <$> turtle.face x y := by
  unfold face
  simp only [renamed, Number.same_renamed]
  split
  · rfl
  · simp only [Number.sub_renamed, bind_map_left, Number.toReal_renamed,
      map_bind, map_pure]

end Turtle

namespace TurtleCommand

variable (command : TurtleCommand)

theorem update_renamed (operands : List Number) (turtle : Turtle) :
    command.update (operands.map (·.renamed rename)) (turtle.renamed rename) =
      (fun result => (result.1.renamed rename,
        result.2.map (·.renamed rename))) <$>
        command.update operands turtle := by
  have hchange (result : Except ArithmeticFault Turtle) :
      (do
        let turtle ← arithmetically ((·.renamed rename) <$> result)
        return (turtle, (none : Option Number))) =
        (fun result : Turtle × Option Number =>
            (result.1.renamed rename, result.2.map (·.renamed rename))) <$>
          (do return (← arithmetically result, none)) := by
    cases result <;> rfl
  have hhome :
      (turtle.renamed rename).goHome = turtle.goHome.renamed rename := by
    have hmove := turtle.moveTo_renamed rename (.real 0.0) (.real 0.0)
    simp only [Number.renamed_real] at hmove
    simp only [Turtle.goHome, hmove]
    rfl
  rcases operands with _ | ⟨a, _ | ⟨b, _ | ⟨c, rest⟩⟩⟩
  · cases command with
    | home => exact congrArg (fun turtle => Except.ok (turtle, none)) hhome
    | clearScreen =>
        exact congrArg
          (fun turtle => Except.ok ({ turtle with strokes := [] }, none)) hhome
    | _ => rfl
  · simp only [List.map_cons, List.map_nil]
    cases command with
    | forward => rw [update, turtle.advance_renamed, hchange, update]
    | backward =>
        rw [update, Number.neg_renamed, turtle.advance_renamed, hchange, update]
    | left => rw [update, turtle.turn_renamed, hchange, update]
    | right => rw [update, turtle.turn_renamed, hchange, update]
    | setHeading =>
        simp only [update, Number.toReal_renamed]
        cases a.toReal <;> rfl
    | setPenColor =>
        simp only [update, Number.toIndex_renamed]
        cases a.toIndex <;> rfl
    | setShape =>
        simp only [update, Number.toIndex_renamed]
        cases a.toIndex <;> rfl
    | setPenSize =>
        have hlt : (a.renamed rename).lt 0 = a.lt 0 := a.lt_renamed rename 0
        have hrefuse :
            (refuse .penWidth (a.renamed rename) : Except Trouble
              (Turtle × Option Number)) = refuse .penWidth a := by
          simp only [refuse, Number.text_renamed]
        simp only [update, hlt, hrefuse]
        split
        · exact (map_refuse _ _ _).symm
        · rfl
    | _ => rfl
  · simp only [List.map_cons, List.map_nil]
    cases command with
    | setTowards => rw [update, turtle.face_renamed, hchange, update]
    | setPosition =>
        exact congrArg (fun turtle => Except.ok (turtle, none))
          (turtle.moveTo_renamed rename a b)
    | _ => rfl
  · cases command <;> rfl

theorem outcome_renamed (operands : List Number) (before after : Pose) :
    command.outcome (operands.map (·.renamed rename)) (before.renamed rename)
        (after.renamed rename) =
      (·.renamed rename) <$> command.outcome operands before after := by
  have hlast :
      (operands.map (·.renamed rename)).getLastD 0 =
        (operands.getLastD 0).renamed rename := by
    cases h : operands.getLast? <;> simp [List.getLastD_eq_getLast?, h]
  cases command <;>
    first | rfl | exact congrArg Except.ok hlast | simp [outcome]

end TurtleCommand

end Logo
