import Logo.Proofs.Flock.Members

/-!
# Flocks that are ahead by some motion

Whether a turtle has moved is noted for the host alone.  A flock is ahead of
another one when it differs from it only in that some turtles, which are there
in both, count as moved already.  Then it stays ahead by this much whatever a
program does to both, and no answer gives the difference away.
-/

namespace Logo

/-! ## One turtle -/

def Turtle.stirred (turtle : Turtle) (moved : Bool) : Turtle :=
  { turtle with moved := turtle.moved || moved }

namespace Turtle

variable (turtle : Turtle) (moved : Bool)

@[simp] theorem stirred_false : turtle.stirred false = turtle := by
  simp [stirred]

@[simp] theorem ident_stirred :
    (turtle.stirred moved).ident = turtle.ident := rfl

theorem moveTo_stirred (x y : Number) :
    (turtle.stirred moved).moveTo x y = (turtle.moveTo x y).stirred moved := rfl

theorem advance_stirred (distance : Number) :
    (turtle.stirred moved).advance distance =
      (·.stirred moved) <$> turtle.advance distance := by
  simp only [advance, moveTo_stirred, map_bind, map_pure]
  rfl

theorem turn_stirred (anticlockwise : Bool) (angle : Number) :
    (turtle.stirred moved).turn anticlockwise angle =
      (·.stirred moved) <$> turtle.turn anticlockwise angle := by
  simp only [turn, map_bind, map_pure]
  rfl

theorem face_stirred (x y : Number) :
    (turtle.stirred moved).face x y =
      (·.stirred moved) <$> turtle.face x y := by
  have hx : (turtle.stirred moved).x = turtle.x := rfl
  have hy : (turtle.stirred moved).y = turtle.y := rfl
  unfold face
  rw [hx, hy]
  split
  · rfl
  · simp only [map_bind, map_pure]
    rfl

theorem ident_advance (distance : Number) :
    (·.ident) <$> turtle.advance distance =
      (fun _ => turtle.ident) <$> turtle.advance distance := by
  simp only [advance, map_bind, map_pure]
  rfl

theorem ident_turn (anticlockwise : Bool) (angle : Number) :
    (·.ident) <$> turtle.turn anticlockwise angle =
      (fun _ => turtle.ident) <$> turtle.turn anticlockwise angle := by
  simp only [turn, map_bind, map_pure]

theorem ident_face (x y : Number) :
    (·.ident) <$> turtle.face x y =
      (fun _ => turtle.ident) <$> turtle.face x y := by
  unfold face
  split
  · rfl
  · simp only [map_bind, map_pure]

end Turtle

theorem map_refuse {α β : Type} (f : α → β) (refusal : String → Refusal)
    (number : Number) :
    f <$> (refuse refusal number : Except Trouble α) =
      refuse refusal number := by
  unfold refuse
  cases arithmetically number.text <;> rfl

namespace TurtleCommand

/-- A command does the same to a turtle that counts as moved. -/
theorem update_stirred
    (command : TurtleCommand) (operands : List Number) (turtle : Turtle)
    (moved : Bool) :
    command.update operands (turtle.stirred moved) =
      (fun result => (result.1.stirred moved, result.2)) <$>
        command.update operands turtle := by
  have hchange (result : Except ArithmeticFault Turtle) :
      (do
        let turtle ← arithmetically ((·.stirred moved) <$> result)
        return (turtle, (none : Option Number))) =
      (fun result : Turtle × Option Number =>
          (result.1.stirred moved, result.2)) <$>
        (do return (← arithmetically result, none)) := by
    cases result <;> rfl
  unfold update
  split
  case h_1 => rw [Turtle.advance_stirred, hchange]
  case h_2 => rw [Turtle.advance_stirred, hchange]
  case h_3 => rw [Turtle.turn_stirred, hchange]
  case h_4 => rw [Turtle.turn_stirred, hchange]
  case h_5 angle => cases angle.toReal <;> rfl
  case h_6 => rw [Turtle.face_stirred, hchange]
  case h_14 index => cases index.toIndex <;> rfl
  case h_15 =>
    split
    · exact (map_refuse _ _ _).symm
    · rfl
  case h_16 index => cases index.toIndex <;> rfl
  all_goals rfl

theorem ident_update (command : TurtleCommand) (operands : List Number)
    (turtle : Turtle) :
    (fun result => result.1.ident) <$> command.update operands turtle =
      (fun _ => turtle.ident) <$> command.update operands turtle := by
  have hchange {result : Except ArithmeticFault Turtle}
      (hresult : (·.ident) <$> result = (fun _ => turtle.ident) <$> result) :
      (fun result : Turtle × Option Number => result.1.ident) <$>
          (do return (← arithmetically result, none)) =
        (fun _ => turtle.ident) <$>
          (do return (← arithmetically result, (none : Option Number))) := by
    cases result with
    | error fault => rfl
    | ok after =>
        have hident : after.ident = turtle.ident := Except.ok.inj hresult
        exact congrArg Except.ok hident
  unfold update
  split
  case h_1 => exact hchange (turtle.ident_advance _)
  case h_2 => exact hchange (turtle.ident_advance _)
  case h_3 => exact hchange (turtle.ident_turn _ _)
  case h_4 => exact hchange (turtle.ident_turn _ _)
  case h_5 angle => cases angle.toReal <;> rfl
  case h_6 => exact hchange (turtle.ident_face _ _)
  case h_14 index => cases index.toIndex <;> rfl
  case h_15 =>
    split
    · rw [map_refuse, map_refuse]
    · rfl
  case h_16 index => cases index.toIndex <;> rfl
  all_goals rfl

end TurtleCommand

/-! ## The flock -/

namespace Flock

/-- The flock in which the turtles with some numbers count as moved as well. -/
def stirred (flock : Flock) (moved : Nat → Bool) : Flock :=
  { flock with
    turtles :=
      flock.turtles.map fun turtle => turtle.stirred (moved turtle.ident) }

structure Ahead (moved : Nat → Bool) (flock flock' : Flock) : Prop where
  stirred : flock = flock'.stirred moved
  there : ∀ ident, moved ident = true → flock'.contains ident = true

def hasMoved (flock : Flock) (ident : Nat) : Bool :=
  (flock.get? ident).any (·.moved)

@[simp] theorem stirred_never (flock : Flock) :
    flock.stirred (fun _ => false) = flock := by
  simp [stirred]

theorem ahead_never (flock : Flock) : flock.Ahead (fun _ => false) flock :=
  ⟨flock.stirred_never.symm, by simp⟩

theorem get?_stirred (flock : Flock) (moved : Nat → Bool) (ident : Nat) :
    (flock.stirred moved).get? ident =
      (flock.get? ident).map
        fun turtle => turtle.stirred (moved turtle.ident) := by
  simp only [get?, stirred, List.find?_map]
  rfl

theorem withTurtle_map
    (change : Turtle → Turtle)
    (hchange : ∀ turtle, (change turtle).ident = turtle.ident)
    (turtle : Turtle) (turtles : List Turtle) :
    withTurtle (change turtle) (turtles.map change) =
      (withTurtle turtle turtles).map change := by
  induction turtles with
  | nil => rfl
  | cons other rest ih =>
      simp only [List.map_cons, withTurtle, hchange]
      split
      · rfl
      · rw [List.map_cons, ih]

theorem map_mapM {ε α β γ : Type} (f : β → γ) (g : α → Except ε β)
    (items : List α) :
    (·.map f) <$> items.mapM g = items.mapM fun item => f <$> g item := by
  induction items with
  | nil => rfl
  | cons item rest ih =>
      simp only [List.mapM_cons, map_bind, map_pure, bind_map_left,
        List.map_cons, ← ih]

namespace Ahead

variable {moved : Nat → Bool} {flock flock' : Flock}

theorem active (hahead : flock.Ahead moved flock') :
    flock.active = flock'.active := by
  rw [hahead.stirred, Flock.stirred]

theorem idents (hahead : flock.Ahead moved flock') :
    flock.turtles.map (·.ident) = flock'.turtles.map (·.ident) := by
  simp [hahead.stirred, Flock.stirred, Function.comp_def]

theorem contains (hahead : flock.Ahead moved flock') (ident : Nat) :
    flock.contains ident = flock'.contains ident :=
  contains_map_ident hahead.idents ident

theorem listeners (hahead : flock.Ahead moved flock') :
    (·.map (·.ident)) <$> flock.listeners =
      (·.map (·.ident)) <$> flock'.listeners := by
  unfold Flock.listeners
  rw [map_mapM, map_mapM, hahead.active]
  congr 1
  funext ident
  rw [hahead.stirred, get?_stirred]
  cases flock'.get? ident <;> rfl

theorem select (hahead : flock.Ahead moved flock') (idents : List Nat) :
    ({ flock with active := idents } : Flock).Ahead moved
      { flock' with active := idents } := by
  refine ⟨?_, hahead.there⟩
  rw [hahead.stirred]
  rfl

/-- Only turtles that are there already count as moved, so a hatched one does
not. -/
theorem hatch (hahead : flock.Ahead moved flock') (ident : Nat) :
    (flock.hatch ident).Ahead moved (flock'.hatch ident) := by
  refine ⟨?_,
    fun other hother => contains_hatch (hahead.there other hother) ident⟩
  unfold Flock.hatch
  rw [hahead.contains]
  split
  next => exact hahead.stirred
  next hmissing =>
    have hresting : moved ident = false := by
      by_contra hmoved
      exact hmissing (hahead.there ident (by simpa using hmoved))
    have hhatched :
        (Turtle.hatched ident).stirred (moved (Turtle.hatched ident).ident) =
        .hatched ident := by
      change (Turtle.hatched ident).stirred (moved ident) = _
      rw [hresting, Turtle.stirred_false]
    have hinserted :=
      withTurtle_map (fun turtle => turtle.stirred (moved turtle.ident))
        (fun _ => rfl) (.hatched ident) flock'.turtles
    rw [hhatched] at hinserted
    rw [hahead.stirred]
    simp only [Flock.stirred, hinserted]

theorem put (hahead : flock.Ahead moved flock') (turtle : Turtle) :
    (flock.put (turtle.stirred (moved turtle.ident))).Ahead moved
      (flock'.put turtle) := by
  refine ⟨?_, fun ident hmoved => ?_⟩
  · rw [hahead.stirred]
    simp only [Flock.put, Flock.stirred, List.map_map]
    congr 1
    apply List.map_congr_left
    intro other _
    by_cases hsame : other.ident = turtle.ident
    · simp [hsame]
    · simp [hsame]
  · rw [contains_put]
    exact hahead.there ident hmoved

theorem summonAll (hahead : flock.Ahead moved flock') (numbers : List Number) :
    (flock.summonAll numbers).1 = (flock'.summonAll numbers).1 ∧
      (flock.summonAll numbers).2.Ahead moved (flock'.summonAll numbers).2 := by
  induction numbers generalizing flock flock' with
  | nil => exact ⟨rfl, hahead⟩
  | cons number rest ih =>
      cases hident : identOf number with
      | error trouble =>
          simp only [Flock.summonAll, summon_of_error hident]
          exact ⟨trivial, hahead⟩
      | ok ident =>
          obtain ⟨hresult, hlast⟩ := ih (hahead.hatch ident)
          simp only [Flock.summonAll, summon_of_identOf hident]
          generalize (flock.hatch ident).summonAll rest =
            outcome at hresult hlast
          generalize (flock'.hatch ident).summonAll rest =
            outcome' at hresult hlast
          obtain ⟨result, last⟩ := outcome
          obtain ⟨result', last'⟩ := outcome'
          cases hresult
          cases result <;> exact ⟨rfl, hlast⟩

theorem tell (hahead : flock.Ahead moved flock') (numbers : List Number) :
    (flock.tell numbers).1 = (flock'.tell numbers).1 ∧
      (flock.tell numbers).2.Ahead moved (flock'.tell numbers).2 := by
  obtain ⟨hresult, hlast⟩ := hahead.summonAll numbers
  unfold Flock.tell
  generalize flock.summonAll numbers = outcome at hresult hlast
  generalize flock'.summonAll numbers = outcome' at hresult hlast
  obtain ⟨result, last⟩ := outcome
  obtain ⟨result', last'⟩ := outcome'
  cases hresult
  cases result with
  | ok idents => exact ⟨rfl, hlast.select idents⟩
  | error trouble => exact ⟨rfl, hlast⟩

end Ahead

/-- A command to the flock does the same to a flock in which more turtles count
as moved. -/
theorem update_stirred
    (command : FlockCommand) (operands : List Number) (flock : Flock)
    (moved : Nat → Bool) :
    command.update operands (flock.stirred moved) =
      (fun result => (result.1.stirred moved, result.2)) <$>
        command.update operands flock := by
  unfold FlockCommand.update
  split
  case h_1 index =>
    have hset : (flock.stirred moved).setBackground index =
        (fun result => (result.1, result.2.stirred moved)) <$>
          flock.setBackground index := by
      simp only [setBackground, map_bind, map_pure]
      rfl
    simp only [hset, map_bind, map_pure, bind_map_left]
  case h_2 index red green blue =>
    have hset : (flock.stirred moved).setPalette index red green blue =
        (fun result => (result.1, result.2.stirred moved)) <$>
          flock.setPalette index red green blue := by
      have hpalette : (flock.stirred moved).palette = flock.palette := rfl
      simp only [setPalette, map_bind, hpalette]
      congr 1
      funext found
      split
      · rfl
      · split
        · rfl
        · split <;> rfl
    simp only [hset, map_bind, map_pure, bind_map_left]
  case h_3 => simp [stirred, Turtle.stirred]
  case h_4 => simp [stirred, size]
  case h_5 => rfl

theorem Ahead.update
    {moved : Nat → Bool} {flock flock' later : Flock}
    (hahead : flock.Ahead moved flock') {command : FlockCommand}
    {operands : List Number} {answer : Option Number}
    (hupdate : command.update operands flock' = .ok (later, answer)) :
    (later.stirred moved).Ahead moved later := by
  refine ⟨rfl, fun ident hmoved => ?_⟩
  rw [contains_map_ident (idents_of_update hupdate)]
  exact hahead.there ident hmoved

theorem get?_of_mem
    {flock : Flock}
    (hsorted : flock.turtles.Pairwise
      fun turtle other => turtle.ident < other.ident)
    {turtle : Turtle} (hmem : turtle ∈ flock.turtles) :
    flock.get? turtle.ident = some turtle := by
  have hnodup : (flock.turtles.map (·.ident)).Nodup :=
    (List.pairwise_map.mpr hsorted).imp ne_of_lt
  have hthere : flock.contains turtle.ident = true :=
    (contains_iff _ _).mpr ⟨turtle, hmem, rfl⟩
  obtain ⟨found, hfound⟩ := Option.isSome_iff_exists.mp hthere
  have hsame : found = turtle :=
    List.inj_on_of_nodup_map hnodup (List.mem_of_find?_eq_some hfound) hmem
      (ident_of_get? hfound)
  rw [hfound, hsame]

/-- A flock is ahead of itself at rest, by the motion that the rest makes it
forget. -/
theorem ahead_clearMotion
    {flock : Flock}
    (hsorted : flock.turtles.Pairwise fun turtle other =>
      turtle.ident < other.ident) :
    flock.Ahead flock.hasMoved flock.clearMotion := by
  constructor
  · have hturtles :
        (flock.clearMotion.stirred flock.hasMoved).turtles = flock.turtles := by
      simp only [stirred, clearMotion, List.map_map]
      refine (List.map_congr_left fun turtle hmem => ?_).trans
        flock.turtles.map_id
      simp [hasMoved, get?_of_mem hsorted hmem, Turtle.stirred]
    calc
      flock =
          { flock with
            turtles :=
              (flock.clearMotion.stirred flock.hasMoved).turtles } := by
        rw [hturtles]
      _ = flock.clearMotion.stirred flock.hasMoved := rfl
  · intro ident hmoved
    have hidents :
        flock.clearMotion.turtles.map (·.ident) =
          flock.turtles.map (·.ident) := by
      simp [clearMotion, Function.comp_def]
    rw [contains_map_ident hidents]
    cases hfound : flock.get? ident with
    | none => simp [hasMoved, hfound] at hmoved
    | some turtle => exact contains_of_get? hfound

end Flock

end Logo
