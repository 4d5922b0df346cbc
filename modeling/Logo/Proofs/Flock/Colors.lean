import Logo.Proofs.Flock.Sound
import Logo.Proofs.Turtle.Changes

/-!
# Colours that exist

The palette is filled in order and nothing is ever taken from it, so an index
into it stays one.  The background is checked when it is set.  The pen is not: a
turtle draws in colours that exist as long as it is only told of such colours.
-/

namespace Logo

open Logo.Flock

/-- The pen of a turtle and all that it has drawn have colours among the first
so many. -/
structure Turtle.Inked (size : Nat) (turtle : Turtle) : Prop where
  pen : turtle.penColor < size
  strokes : ∀ stroke ∈ turtle.strokes, stroke.color < size

namespace Turtle.Inked

variable {size : Nat} {turtle : Turtle}

theorem mono {larger : Nat} (hinked : turtle.Inked size) (hle : size ≤ larger) :
    turtle.Inked larger :=
  ⟨hinked.pen.trans_le hle,
    fun stroke hstroke => (hinked.strokes stroke hstroke).trans_le hle⟩

/-- Only the pen and the strokes matter. -/
theorem of_eq
    {other : Turtle} (hinked : turtle.Inked size)
    (hpen : other.penColor = turtle.penColor)
    (hstrokes : other.strokes = turtle.strokes) : other.Inked size :=
  ⟨hpen ▸ hinked.pen, hstrokes ▸ hinked.strokes⟩

/-- Whatever a turtle does, it goes on with the colours it has, unless it is
told of another one. -/
theorem update
    (hinked : turtle.Inked size) {command : TurtleCommand}
    (hcommand : command ≠ .setPenColor) {operands : List Number}
    {after : Turtle} {answer : Option Number}
    (hupdate : command.update operands turtle = .ok (after, answer)) :
    after.Inked size := by
  have hchanges := TurtleCommand.changes_of_update hupdate
  constructor
  · rw [hchanges.penColor hcommand]
    exact hinked.pen
  · intro stroke hstroke
    rw [hchanges.strokes] at hstroke
    split at hstroke
    · cases hstroke
    · split at hstroke
      · rcases List.mem_cons.mp hstroke with rfl | hstroke
        · exact hinked.pen
        · exact hinked.strokes stroke hstroke
      · exact hinked.strokes stroke hstroke

end Turtle.Inked

namespace Flock

def HasColor (flock : Flock) (index : Nat) : Prop :=
  ∃ color, flock.color (.integer index) = .ok color

instance (flock : Flock) (index : Nat) : Decidable (flock.HasColor index) :=
  match hcolor : flock.color (.integer index) with
  | .ok color => isTrue ⟨color, hcolor⟩
  | .error _ => isFalse fun ⟨_, hsome⟩ => by cases hcolor.symm.trans hsome

theorem exists_of_colorIndex
    {number : Number} {index : Nat} (hindex : colorIndex number = .ok index) :
    ∃ finite n, arithmetically number.isFinite = .ok finite ∧
      number.truncate? = some n ∧ index = n.toNat := by
  obtain ⟨finite, hfinite, hindex⟩ := Except.exists_of_bind_eq_ok hindex
  split at hindex
  next n hn =>
    split at hindex
    next =>
      cases hindex
      exact ⟨finite, n, hfinite, hn, rfl⟩
    next => exact absurd hindex (refuse_ne_ok _ _ _)
  next => exact absurd hindex (refuse_ne_ok _ _ _)

theorem toNat_of_toIndex
    {number : Number} {index : Nat} (hindex : number.toIndex = .ok index) :
    ∃ n, number.truncate? = some n ∧ index = n.toNat := by
  obtain ⟨finite, -, hindex⟩ := Except.exists_of_bind_eq_ok hindex
  split at hindex
  next n hn =>
    split at hindex
    next =>
      cases hindex
      exact ⟨n, hn, rfl⟩
    next => exact absurd hindex (refuse_ne_ok _ _ _)
  next => exact absurd hindex (refuse_ne_ok _ _ _)

theorem colorIndex_of_ofInt?
    {n : Nat} (hsome : (Binary64.ofInt? n).isSome) :
    colorIndex (.integer n) = .ok n := by
  have hfinite := Number.isFinite_of_ofInt?_isSome hsome
  have hlt : (Number.integer n).lt 0 = false := by
    have hcompare : compare (n : Int) 0 ≠ .lt := by
      intro hless
      have := compare_lt_iff_lt.mp hless
      omega
    have hzero :
        (Number.integer n).lt 0 =
          (some (compare (n : Int) 0) == some .lt) := rfl
    simpa [hzero] using hcompare
  unfold colorIndex
  rw [hfinite]
  simp only [arithmetically, Except.mapError, bind, Except.bind,
    Number.truncate?, hlt]
  rfl

theorem lt_size_of_color
    {flock : Flock} {number : Number} {color : Color}
    (hcolor : flock.color number = .ok color) :
    ∃ index, colorIndex number = .ok index ∧ index < flock.palette.size := by
  obtain ⟨index, hindex, hcolor⟩ := Except.exists_of_bind_eq_ok hcolor
  split at hcolor
  next hget => exact ⟨index, hindex, (Array.getElem?_eq_some_iff.mp hget).1⟩
  next => exact absurd hcolor (refuse_ne_ok _ _ _)

/-- The palette reaches from the first colours of a turtle on as far as numbers
go, the background is in it, and in a flock that heeds the palette all turtles
draw in colours of it. -/
structure Painted (heeding : Prop) (flock : Flock) : Prop where
  initial : Color.initialPalette.size ≤ flock.palette.size
  indices : ∀ index < flock.palette.size, (Binary64.ofInt? index).isSome
  background : flock.background < flock.palette.size
  turtles : heeding → ∀ turtle ∈ flock.turtles, turtle.Inked flock.palette.size

namespace Painted

variable {heeding : Prop} {flock : Flock}

theorem hasColor
    (hpainted : flock.Painted heeding) {index : Nat}
    (hindex : index < flock.palette.size) :
    flock.HasColor index := by
  refine ⟨flock.palette[index], ?_⟩
  unfold color
  rw [colorIndex_of_ofInt? (hpainted.indices index hindex)]
  simp [bind, Except.bind, pure, Except.pure, hindex]

theorem imp {other : Prop} (hpainted : flock.Painted heeding)
    (himp : other → heeding) :
    flock.Painted other :=
  ⟨hpainted.initial, hpainted.indices, hpainted.background, fun hother =>
    hpainted.turtles (himp hother)⟩

theorem fresh : Flock.fresh.Painted heeding where
  initial := le_rfl
  indices := by decide +kernel
  background := by decide
  turtles _ turtle hturtle := by
    obtain rfl := List.mem_singleton.mp hturtle
    exact ⟨by decide, fun _ hstroke => by cases hstroke⟩

/-- A change to the turtles alone. -/
theorem withTurtles
    (hpainted : flock.Painted heeding) {turtles : List Turtle}
    (hinked : heeding → ∀ turtle ∈ turtles, turtle.Inked flock.palette.size) :
    ({ flock with turtles := turtles } : Flock).Painted heeding :=
  ⟨hpainted.initial, hpainted.indices, hpainted.background, hinked⟩

theorem select (hpainted : flock.Painted heeding) (idents : List Nat) :
    ({ flock with active := idents } : Flock).Painted heeding :=
  ⟨hpainted.initial, hpainted.indices, hpainted.background, hpainted.turtles⟩

/-- A new turtle draws in one of the first colours. -/
theorem hatch (hpainted : flock.Painted heeding) (ident : Nat) :
    (flock.hatch ident).Painted heeding := by
  unfold Flock.hatch
  split
  · exact hpainted
  · apply hpainted.withTurtles
    intro hheeding turtle hturtle
    rcases (mem_withTurtle _ _ _).mp hturtle with rfl | hturtle
    · have hpen :
          (Turtle.hatched ident).penColor < Color.initialPalette.size := by
        change 1 < 8
        decide
      exact ⟨hpen.trans_le hpainted.initial, fun _ hstroke => by cases hstroke⟩
    · exact hpainted.turtles hheeding turtle hturtle

theorem put
    (hpainted : flock.Painted heeding) {turtle : Turtle}
    (hinked : heeding → turtle.Inked flock.palette.size) :
    (flock.put turtle).Painted heeding := by
  apply hpainted.withTurtles
  intro hheeding other hother
  obtain ⟨before, hbefore, rfl⟩ := List.mem_map.mp hother
  split
  · exact hinked hheeding
  · exact hpainted.turtles hheeding before hbefore

/-- A change to all turtles that leaves their pens and strokes alone. -/
theorem mapTurtles
    (hpainted : flock.Painted heeding) {change : Turtle → Turtle}
    (hchange :
      ∀ turtle, (change turtle).penColor = turtle.penColor ∧
        (change turtle).strokes = turtle.strokes) :
    ({ flock with turtles := flock.turtles.map change } :
      Flock).Painted heeding := by
  apply hpainted.withTurtles
  intro hheeding turtle hturtle
  obtain ⟨before, hbefore, rfl⟩ := List.mem_map.mp hturtle
  exact (hpainted.turtles hheeding before hbefore).of_eq (hchange before).1
    (hchange before).2

theorem clearMotion (hpainted : flock.Painted heeding) :
    flock.clearMotion.Painted heeding :=
  hpainted.mapTurtles fun _ => ⟨rfl, rfl⟩

/-- The palette may grow by a colour whose index is a number. -/
theorem withPalette
    (hpainted : flock.Painted heeding) {palette : Array Color}
    (hsize : flock.palette.size ≤ palette.size)
    (hindices : ∀ index < palette.size, (Binary64.ofInt? index).isSome) :
    ({ flock with palette := palette } : Flock).Painted heeding :=
  ⟨hpainted.initial.trans hsize, hindices, hpainted.background.trans_le hsize,
    fun hheeding turtle hturtle =>
      (hpainted.turtles hheeding turtle hturtle).mono hsize⟩

theorem setPalette
    (hpainted : flock.Painted heeding) {number red green blue : Number}
    {index : Nat} {later : Flock}
    (hset : flock.setPalette number red green blue = .ok (index, later)) :
    later.Painted heeding := by
  obtain ⟨found, hfound, hset⟩ := Except.exists_of_bind_eq_ok hset
  simp only at hset
  split at hset
  next => cases hset
  next color _ =>
    split at hset
    next =>
      cases hset
      apply hpainted.withPalette <;> simp only [Array.size_setIfInBounds]
      · exact le_rfl
      · exact hpainted.indices
    next =>
      split at hset
      next hend =>
        cases hset
        apply hpainted.withPalette <;> simp only [Array.size_push]
        · exact Nat.le_succ _
        · intro other hother
          -- The new index was given as a number, the others are old ones.
          rcases Nat.lt_succ_iff_lt_or_eq.mp hother with hless | rfl
          · exact hpainted.indices other hless
          · obtain ⟨finite, n, hfinite, hn, hindex⟩ :=
              exists_of_colorIndex hfound
            rw [← hend, hindex]
            exact ofInt?_isSome_of_truncate? hfinite hn
      next => cases hset

theorem update
    (hpainted : flock.Painted heeding) {command : FlockCommand}
    {operands : List Number} {later : Flock} {answer : Option Number}
    (hupdate : command.update operands flock = .ok (later, answer)) :
    later.Painted heeding := by
  unfold FlockCommand.update at hupdate
  split at hupdate
  next =>
    obtain ⟨⟨found, changed⟩, hset, hupdate⟩ :=
      Except.exists_of_bind_eq_ok hupdate
    cases hupdate
    obtain ⟨hindex, rfl⟩ := setBackground_eq_ok hset
    exact ⟨hpainted.initial, hpainted.indices, hindex, hpainted.turtles⟩
  next =>
    obtain ⟨⟨found, changed⟩, hset, hupdate⟩ :=
      Except.exists_of_bind_eq_ok hupdate
    cases hupdate
    exact hpainted.setPalette hset
  next =>
    cases hupdate
    exact hpainted.mapTurtles fun _ => ⟨rfl, rfl⟩
  next =>
    cases hupdate
    exact hpainted
  next => cases hupdate

end Painted

/-- A turtle that is told of a colour of the palette takes a pen of that
colour. -/
theorem inked_of_color
    {flock : Flock} {number : Number} {color : Color}
    (hcolor : flock.color number = .ok color)
    {turtle after : Turtle} {answer : Option Number}
    (hinked : turtle.Inked flock.palette.size)
    (hupdate : TurtleCommand.setPenColor.update [number] turtle =
      .ok (after, answer)) :
    after.Inked flock.palette.size := by
  obtain ⟨index, hindex, hreturn⟩ := Except.exists_of_bind_eq_ok hupdate
  cases hreturn
  obtain ⟨n, hn, rfl⟩ := toNat_of_toIndex hindex
  obtain ⟨found, hfound, hsize⟩ := lt_size_of_color hcolor
  obtain ⟨finite, m, -, hm, rfl⟩ := exists_of_colorIndex hfound
  obtain rfl : n = m := Option.some.inj (hn.symm.trans hm)
  exact ⟨hsize, hinked.strokes⟩

end Flock

end Logo
