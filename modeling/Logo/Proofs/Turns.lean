import Logo.Proofs.Execution.Renamed

/-!
# Turns

A turn of one turtle neither touches nor reads the other turtles, as long as
nothing in it addresses turtles or gives orders to the flock.  It does not even
depend on which marks are given out.  If it also leaves no trace in the table
and draws no random numbers, then the turns of several turtles have nothing to
do with each other, and they may be taken in any order.
-/

namespace Logo

open Logo.Action Execution

attribute [ext] Bindings Flock World

/-- Apart from the table, two worlds agree on whatever concerns one turtle: on
the turtle itself, on the marks that it is given, on the random numbers to come,
and on the number of turtles. -/
structure World.AgreeOn (ident : Nat) (world world' : World) : Prop where
  turtle : world.flock.numbered ident = world'.flock.numbered ident
  given : world.marks.given ident = world'.marks.given ident
  draws : world.draws = world'.draws
  size : world.flock.size = world'.flock.size

/-- A turn changes no other turtle, nor who listens, which turtles there are,
the palette or the background.  In a world that agrees on the turtle, the table,
the random numbers and the number of turtles, it ends with the same value or the
same fault, and the two worlds agree on all this again.  The marks of what is
not a number may have other names in the second world, old ones and those yet to
be given out, and then so they have in the end; where the marks given out are
the same, the turtle and the table are the same as well. -/
theorem turn_touches_and_reads_one_turtle
    (turns depth : Nat) (mode : Mode) (body : List Expr) {world : World}
    {ident : Nat} (hactive : world.flock.active = [ident])
    (hbody : ∀ part : Expr, part.OccursIn body world →
      part.keepsToItself = true) :
    world.Spares ident
      (finalState (inOrder (execute turns depth mode) 0 body world)) ∧
      (∀ (rename : Mark ↪ Mark) (world' : World),
        world.AgreeUpTo rename ident world' →
        (∀ part : Expr, part.OccursIn body world → part.IsFixed rename) →
        Ending.Renamed (World.AgreeUpTo rename ident) (·.renamed rename)
          (inOrder (execute turns depth mode) 0 body world)
          (inOrder (execute turns depth mode) 0 body world')) ∧
      ∀ world' : World, world'.flock.active = [ident] →
        world.AgreeOn ident world' → world.bindings = world'.bindings →
        Ending.Abreast
          (fun after after' =>
            after.flock.numbered ident = after'.flock.numbered ident ∧
              after.bindings = after'.bindings)
          (fun _ => True) (inOrder (execute turns depth mode) 0 body world)
          (inOrder (execute turns depth mode) 0 body world') := by
  obtain ⟨hfits, hstored⟩ :=
    Solo.fits_of_occursIn fun part hpart => ⟨hbody part hpart, .inl trivial⟩
  let table : Solo.Table True := ⟨fun _ => True, fun _ _ => trivial⟩
  refine ⟨?_, ?_, ?_⟩
  · have hopening : Solo.Opening ident world world :=
      ⟨hactive, hactive, rfl, rfl⟩
    have hstart : Solo ident True world world table.1 world world :=
      .start rfl rfl rfl rfl trivial hstored
    exact (Solo.body hopening turns depth mode hfits table world world
      hstart).finalState.spares
  · intro rename world' hagree hfixed
    exact renames_body turns depth mode hagree fun part hpart =>
      ⟨hbody part hpart, hfixed part hpart⟩
  · intro world' hactive' hagree hbindings
    have hopening : Solo.Opening ident world world' :=
      ⟨hactive, hactive', hagree.size, hagree.given⟩
    have hstart : Solo ident True world world' table.1 world world' :=
      .start hagree.turtle (by rw [hbindings])
        (by rw [hbindings]) hagree.draws trivial hstored
    refine (Solo.body hopening turns depth mode hfits table world world'
      hstart).mono ?_
    intro after after' hafter
    obtain ⟨count, halarms, halarms'⟩ := hafter.alarms
    refine ⟨hafter.turtle, ?_⟩
    rw [hbindings, ← halarms'] at halarms
    exact Bindings.ext hafter.entries hafter.frames halarms

def pacing : List Expr :=
  let word (text : String) : Token := ⟨.command, text, 0, 0⟩
  let number (n : Nat) : Expr :=
    .literal ⟨.constant, toString n, 0, 0⟩ (.integer n)
  [.repeatTimes (word "repeat") (number 2) ⟨word "[", word "]"⟩
    [.command (word "setxy") .setPosition
      [number 7, .command (word "id") .ident []]]]

/-- The pacing turtle keeps to itself, leaves no trace, and names no mark. -/
theorem pacing_fits
    {world : World} (hentries : world.bindings.entries = []) {part : Expr}
    (hpart : part.OccursIn pacing world) :
    part.keepsToItself = true ∧ part.isTraceless = true ∧
      ∀ rename, part.IsFixed rename := by
  have hleaf {leaf : Expr} (hparts : leaf.parts = [])
      (hleaf :
        leaf.keepsToItself = true ∧ leaf.isTraceless = true ∧
          ∀ rename, leaf.IsFixed rename)
      (part : Expr) (hwithin : part.Within leaf) :
      part.keepsToItself = true ∧ part.isTraceless = true ∧
        ∀ rename, part.IsFixed rename := by
    cases hwithin with
    | self => exact hleaf
    | inside hdirect _ =>
        rw [hparts] at hdirect
        cases hdirect
  obtain ⟨expr, hwithin, hexpr | ⟨name, procedure, hmem, -⟩⟩ := hpart
  · rw [pacing, List.mem_singleton] at hexpr
    subst hexpr
    revert part
    rw [Expr.forall_within_iff]
    simp only [Expr.parts, List.forall_mem_cons]
    refine ⟨⟨rfl, rfl, fun _ => trivial⟩,
      hleaf rfl ⟨rfl, rfl, fun _ => rfl⟩, ?_, List.forall_mem_nil _⟩
    rw [Expr.forall_within_iff]
    simp only [Expr.parts, List.forall_mem_cons]
    exact ⟨⟨rfl, rfl, fun _ => trivial⟩, hleaf rfl ⟨rfl, rfl, fun _ => rfl⟩,
      hleaf rfl ⟨rfl, rfl, fun _ => trivial⟩, List.forall_mem_nil _⟩
  · rw [hentries] at hmem
    cases hmem

/-- Marks of which three more have been given out before. -/
def threeLater : Mark ↪ Mark where
  toFun mark := { mark with serial := mark.serial + 3 }
  inj' := by
    rintro ⟨listener, serial⟩ ⟨listener', serial'⟩ heq
    simpa using heq

theorem second_turtle_paces_alone :
    let world := (World.fresh 1 (Draws.seeded 0)).focusedOn 2
    let world' : World :=
      { world with
        flock := world.flock.put { Turtle.hatched 1 with penDown := false } }
    let world'' : World := { world' with marks := world.marks.advanced 2 3 }
    world.flock.active = [2] ∧
      (∀ part : Expr, part.OccursIn pacing world → part.keepsToItself = true) ∧
      world.Spares 2
        (finalState (inOrder (execute 9 9 .effectful) 0 pacing world)) ∧
      world.AgreeUpTo threeLater 2 world'' ∧
      Ending.Renamed (World.AgreeUpTo threeLater 2) (·.renamed threeLater)
        (inOrder (execute 9 9 .effectful) 0 pacing world)
        (inOrder (execute 9 9 .effectful) 0 pacing world'') ∧
      world.AgreeOn 2 world' ∧
      Ending.Abreast
        (fun after after' =>
          after.flock.numbered 2 = after'.flock.numbered 2 ∧
            after.bindings = after'.bindings)
        (fun _ => True) (inOrder (execute 9 9 .effectful) 0 pacing world)
        (inOrder (execute 9 9 .effectful) 0 pacing world') := by
  intro world world' world''
  have hbody (part : Expr) (hpart : part.OccursIn pacing world) :
      part.keepsToItself = true :=
    (pacing_fits rfl hpart).1
  have hagree : world.AgreeOn 2 world' := ⟨rfl, rfl, rfl, rfl⟩
  have hlater : world.AgreeUpTo threeLater 2 world'' := by
    refine ⟨rfl, rfl, rfl, rfl, rfl, rfl, fun count => ?_⟩
    have hserial : 0 + count + 3 = 3 + count := by omega
    exact congrArg (Mark.mk 2) hserial
  have hfixed (part : Expr) (hpart : part.OccursIn pacing world) :
      part.IsFixed threeLater :=
    (pacing_fits rfl hpart).2.2 threeLater
  obtain ⟨hspares, hrenamed, hsame⟩ :=
    turn_touches_and_reads_one_turtle 9 9 .effectful pacing rfl hbody
  exact ⟨rfl, hbody, hspares, hlater,
    hrenamed threeLater world'' hlater hfixed, hagree,
    hsame world' rfl hagree rfl⟩

/-! ## Turns one after the other -/

/-- A turn that has left no trace but in its own turtle, in the marks of this
turtle, and in the number of notifications. -/
structure World.Turned
    (ident alarms marks : Nat) (turtles : List Turtle)
    (before after : World) : Prop where
  spares : before.Spares ident after
  turtle : after.flock.numbered ident = turtles
  entries : after.bindings.entries = before.bindings.entries
  frames : after.bindings.frames = before.bindings.frames
  alarms : after.bindings.alarms = before.bindings.alarms.map (· + alarms)
  draws : after.draws = before.draws
  marks : after.marks = before.marks.advanced ident marks

namespace World

variable {ident : Nat} {world world' : World}

theorem AgreeOn.symm (hagree : world.AgreeOn ident world') :
    world'.AgreeOn ident world :=
  ⟨hagree.turtle.symm, hagree.given.symm, hagree.draws.symm, hagree.size.symm⟩

/-- A turn does not concern the other turtles. -/
theorem Turned.agreeOn
    {other alarms marks : Nat} {turtles : List Turtle}
    (hturned : world.Turned other alarms marks turtles world')
    (hne : ident ≠ other) :
    world.AgreeOn ident world' where
  turtle := (Flock.numbered_of_others hne hturned.spares.others).symm
  given := by rw [hturned.marks, Marks.given_advanced_of_ne hne]
  draws := hturned.draws.symm
  size := by
    simpa [Flock.size] using (congrArg List.length hturned.spares.idents).symm

theorem Turned.contains
    {other alarms marks : Nat} {turtles : List Turtle}
    (hturned : world.Turned other alarms marks turtles world') (ident : Nat) :
    world'.flock.contains ident = world.flock.contains ident :=
  Flock.contains_map_ident hturned.spares.idents ident

/-- A world is determined by what two turns have made of the world before
them. -/
theorem Turned.diamond
    {first second third fourth : World}
    {other alarms alarms' marks marks' : Nat}
    {turtles turtles' : List Turtle} (hne : ident ≠ other)
    (hfirst : world.Turned ident alarms marks turtles first)
    (hsecond : first.Turned other alarms' marks' turtles' second)
    (hthird : world.Turned other alarms' marks' turtles' third)
    (hfourth : third.Turned ident alarms marks turtles fourth) :
    second = fourth := by
  have hshift (counts : List Nat) :
      (counts.map (· + alarms)).map (· + alarms') =
        (counts.map (· + alarms')).map (· + alarms) := by
    rw [List.map_map, List.map_map]
    apply List.map_congr_left
    intro count _
    simp only [Function.comp_apply]
    omega
  have hidents : second.flock.turtles.map (·.ident) = fourth.flock.turtles.map
      (·.ident) := by
    rw [hsecond.spares.idents, hfirst.spares.idents, hfourth.spares.idents,
      hthird.spares.idents]
  have hnumbered (named : Nat) :
      second.flock.numbered named = fourth.flock.numbered named := by
    by_cases hident : named = ident
    · subst hident
      rw [hfourth.turtle, ← hfirst.turtle]
      exact Flock.numbered_of_others hne hsecond.spares.others
    · have hlater := Flock.numbered_of_others hident hfourth.spares.others
      by_cases hother : named = other
      · subst hother
        rw [hlater, hthird.turtle, hsecond.turtle]
      · rw [hlater, Flock.numbered_of_others hother hthird.spares.others,
          Flock.numbered_of_others hother hsecond.spares.others,
          Flock.numbered_of_others hident hfirst.spares.others]
  apply World.ext
  · apply Bindings.ext
    · rw [hsecond.entries, hfirst.entries, hfourth.entries, hthird.entries]
    · rw [hsecond.frames, hfirst.frames, hfourth.frames, hthird.frames]
    · rw [hsecond.alarms, hfirst.alarms, hfourth.alarms, hthird.alarms, hshift]
  · apply Flock.ext
    · exact Flock.turtles_eq hidents hnumbered
    · rw [hsecond.spares.active, hfirst.spares.active, hfourth.spares.active,
        hthird.spares.active]
    · rw [hsecond.spares.palette, hfirst.spares.palette, hfourth.spares.palette,
        hthird.spares.palette]
    · rw [hsecond.spares.background, hfirst.spares.background,
        hfourth.spares.background, hthird.spares.background]
  · rw [hsecond.draws, hfirst.draws, hfourth.draws, hthird.draws]
  · rw [hsecond.marks, hfirst.marks, hfourth.marks, hthird.marks,
      Marks.advanced_comm hne.symm]

end World

theorem Action.andFinally_modify_eq_ok
    {α : Type} {action : Action α} {change : World → World}
    {world after : World} {a : α}
    (hrun : action.andFinally (modify change) world = .ok a after) :
    ∃ inner, action world = .ok a inner ∧ after = change inner := by
  unfold andFinally at hrun
  cases haction : action world with
  | ok b inner =>
      rw [haction] at hrun
      cases hrun
      exact ⟨inner, rfl, rfl⟩
  | error fault inner =>
      rw [haction] at hrun
      cases hrun

/-- Different turtles that exist are about to take their turns. -/
structure World.Ready (numbers : List Number) (world : World) : Prop where
  there :
    ∀ number ∈ numbers,
      ∃ ident, Flock.identOf number = .ok ident ∧
        world.flock.contains ident = true
  distinct :
    numbers.Pairwise fun number other =>
      Flock.identOf number ≠ Flock.identOf other
  stored : world.bindings.entries.All (Entry.Sound True (Expr.FitsTurn False))

namespace World.Ready

variable {world : World} {number : Number} {numbers numbers' : List Number}

theorem perm (hready : world.Ready numbers) (hperm : numbers.Perm numbers') :
    world.Ready numbers' where
  there := fun number hnumber => hready.there number (hperm.mem_iff.mpr hnumber)
  distinct := (hperm.pairwise_iff fun hne => hne.symm).mp hready.distinct
  stored := hready.stored

/-- Whoever has had a turn does not have another one. -/
theorem later
    (hready : world.Ready (number :: numbers)) {after : World}
    {ident alarms marks : Nat} {turtles : List Turtle}
    (hturned : world.Turned ident alarms marks turtles after) :
    after.Ready numbers where
  there := by
    intro other hother
    obtain ⟨named, hnamed, hthere⟩ :=
      hready.there other (List.mem_cons_of_mem number hother)
    refine ⟨named, hnamed, ?_⟩
    rw [hturned.contains]
    exact hthere
  distinct := (List.pairwise_cons.mp hready.distinct).2
  stored := by
    rw [hturned.entries]
    exact hready.stored

end World.Ready

/-- The value from before the turns only matters if there are none. -/
theorem dispatch_of_result
    {body : Action Number} {result value : Number} {numbers : List Number}
    {world after : World}
    (hrun : dispatch body result numbers world = .ok value after)
    (result' : Number) :
    ∃ value', dispatch body result' numbers world = .ok value' after := by
  cases numbers with
  | nil =>
      cases hrun
      exact ⟨result', rfl⟩
  | cons number rest => exact ⟨value, hrun⟩

section Turn

variable {turns depth : Nat} {mode : Mode} {body : List Expr}
  (hbody : ∀ expr ∈ body, expr.FitsTurn False)
include hbody

/-- A turn that succeeds in one world succeeds in every other one that agrees
with it, and it does the same there. -/
theorem turned_of_focused
    {number : Number} {ident : Nat} (hident : Flock.identOf number = .ok ident)
    {world world' : World} (hagree : world.AgreeOn ident world')
    (hentries : world.bindings.entries = world'.bindings.entries)
    (hframes : world.bindings.frames = world'.bindings.frames)
    (hthere : world.flock.contains ident = true)
    (hstored : world.bindings.entries.All
      (Entry.Sound True (Expr.FitsTurn False)))
    {value : Number} {after : World}
    (hrun :
      focused [number] (inOrder (execute turns depth mode) 0 body) world =
        .ok value after) :
    ∃ after' alarms marks turtles,
      focused [number] (inOrder (execute turns depth mode) 0 body) world' =
        .ok value after' ∧ world.Turned ident alarms marks turtles after ∧
        world'.Turned ident alarms marks turtles after' := by
  have hthere' : world'.flock.contains ident = true := by
    rw [← Flock.contains_of_numbered hagree.turtle]
    exact hthere
  have hfocused {now : World} (hnow : now.flock.contains ident = true) :
      now.focusedOn ident =
        { now with flock := { now.flock with active := [ident] } } := by
    unfold World.focusedOn
    rw [Flock.hatch_eq_self hnow]
  rw [focused_of_identOf hident, hfocused hthere] at hrun
  rw [focused_of_identOf hident, hfocused hthere']
  obtain ⟨inner, hinner, rfl⟩ := Action.andFinally_modify_eq_ok hrun
  let table : Solo.Table False :=
    ⟨(· = world.bindings.entries), fun hloose => hloose.elim⟩
  have hopening :
      Solo.Opening ident
        { world with flock := { world.flock with active := [ident] } }
        { world' with flock := { world'.flock with active := [ident] } } :=
    ⟨rfl, rfl, hagree.size, hagree.given⟩
  have hends :=
    Solo.body hopening turns depth mode hbody table _ _
      (.start hagree.turtle hentries hframes hagree.draws rfl hstored)
  have hbalanced :=
    (balanced_body turns depth mode body
      { world with flock := { world.flock with active := [ident] } }).frames
  rw [hinner] at hends hbalanced
  unfold Action.andFinally
  generalize inOrder (execute turns depth mode) 0 body
    { world' with flock := { world'.flock with active := [ident] } } =
      ending at hends ⊢
  cases hends with
  | @value _ _ inner' hsolo =>
      obtain ⟨alarms, halarms, halarms'⟩ := hsolo.alarms
      obtain ⟨marks, hmarks, hmarks'⟩ := hsolo.marks
      have hdraws := hsolo.drawn.resolve_left id
      refine ⟨inner'.refocused world', alarms, marks,
        inner.flock.numbered ident, rfl, ?_, ?_⟩
      · exact
          { spares := { hsolo.spares with active := rfl }
            turtle := rfl
            entries := hsolo.table
            frames := hbalanced
            alarms := halarms
            draws := hdraws
            marks := hmarks }
      · exact
          { spares := { hsolo.spares' with active := rfl }
            turtle := hsolo.turtle.symm
            entries := by
              rw [World.refocused, ← hsolo.entries, hsolo.table, hentries]
            frames := by
              rw [World.refocused, ← hsolo.frames, ← hframes]; exact hbalanced
            alarms := halarms'
            draws := by
              rw [World.refocused, ← hsolo.draws, hdraws, hagree.draws]
            marks := hmarks' }

/-- Two turns in either order lead to the same world. -/
theorem turns_swap
    {number other : Number} {numbers : List Number} {world : World}
    (hready : world.Ready (number :: other :: numbers)) {value value' : Number}
    {between after : World}
    (hfirst :
      focused [number] (inOrder (execute turns depth mode) 0 body) world =
        .ok value between)
    (hsecond :
      focused [other] (inOrder (execute turns depth mode) 0 body) between =
        .ok value' after) :
    ∃ between',
      focused [other] (inOrder (execute turns depth mode) 0 body) world =
        .ok value' between' ∧
        focused [number] (inOrder (execute turns depth mode) 0 body) between' =
          .ok value after := by
  obtain ⟨ident, hident, hthere⟩ := hready.there number List.mem_cons_self
  obtain ⟨named, hnamed, hthere'⟩ :=
    hready.there other (List.mem_cons_of_mem number List.mem_cons_self)
  have hne : ident ≠ named := by
    intro heq
    have hdistinct :=
      (List.pairwise_cons.mp hready.distinct).1 other List.mem_cons_self
    rw [hident, hnamed, heq] at hdistinct
    exact hdistinct rfl
  obtain ⟨-, alarms, marks, turtles, -, hturned, -⟩ :=
    turned_of_focused hbody hident
      ⟨rfl, rfl, rfl, rfl⟩ rfl rfl hthere hready.stored hfirst
  have hbetween := hready.later hturned
  have hagree := (hturned.agreeOn hne.symm).symm
  obtain ⟨between', alarms', marks', turtles', hfocused, hturned', hearly⟩ :=
    turned_of_focused hbody hnamed hagree hturned.entries hturned.frames
      ((hturned.contains named).trans hthere') hbetween.stored hsecond
  obtain ⟨last, _, _, _, hlate, hagain, hlast⟩ :=
    turned_of_focused hbody hident
      (hearly.agreeOn hne) hearly.entries.symm hearly.frames.symm
      hthere hready.stored hfirst
  have hsame : after = last :=
    World.Turned.diamond hne hagain hturned' hearly hlast
  rw [hsame]
  exact ⟨between', hfocused, hlate⟩

theorem dispatch_perm
    {numbers numbers' : List Number} (hperm : numbers.Perm numbers')
    {world after : World} (hready : world.Ready numbers) {result value : Number}
    (hrun :
      dispatch
        (inOrder (execute turns depth mode) 0 body) result numbers world =
        .ok value after)
    (result' : Number) :
    ∃ value',
      dispatch
        (inOrder (execute turns depth mode) 0 body) result' numbers' world =
        .ok value' after := by
  induction hperm generalizing world result result' value with
  | nil =>
      cases hrun
      exact ⟨result', rfl⟩
  | cons number _ ih =>
      obtain ⟨first, between, hfirst, hrest⟩ := exists_of_bind_eq_ok hrun
      obtain ⟨ident, hident, hthere⟩ := hready.there number List.mem_cons_self
      obtain ⟨-, alarms, marks, turtles, -, hturned, -⟩ :=
        turned_of_focused hbody hident
          ⟨rfl, rfl, rfl, rfl⟩ rfl rfl hthere hready.stored hfirst
      obtain ⟨value', hvalue'⟩ := ih (hready.later hturned) hrest first
      refine ⟨value', ?_⟩
      unfold dispatch
      rw [bind_eq_of_ok hfirst]
      exact hvalue'
  | swap other number rest =>
      obtain ⟨first, between, hfirst, hrun⟩ := exists_of_bind_eq_ok hrun
      obtain ⟨second, last, hsecond, hrest⟩ := exists_of_bind_eq_ok hrun
      obtain ⟨between', hother, hnumber⟩ :=
        turns_swap hbody hready hfirst hsecond
      obtain ⟨value', hvalue'⟩ := dispatch_of_result hrest first
      refine ⟨value', ?_⟩
      unfold dispatch
      rw [bind_eq_of_ok hother]
      unfold dispatch
      rw [bind_eq_of_ok hnumber]
      exact hvalue'
  | trans hperm _ ih ih' =>
      obtain ⟨value', hvalue'⟩ := ih hready hrun result'
      exact ih' (hready.perm hperm) hvalue' result'

end Turn

/-! ## Asking several turtles -/

/-- The number of a turtle, where it is written down as a constant. -/
def Expr.named? : Expr → Option Nat
  | .literal _ value => (Flock.identOf value).toOption
  | _ => none

def Expr.constant : Expr → Number
  | .literal _ value => value
  | _ => 0

theorem Expr.identOf_constant
    {expr : Expr} {ident : Nat} (hnamed : expr.named? = some ident) :
    Flock.identOf expr.constant = .ok ident := by
  cases expr with
  | literal head value =>
      cases hident : Flock.identOf value with
      | ok other =>
          simp only [named?, hident, Except.toOption,
            Option.some.injEq] at hnamed
          rw [constant, hident, hnamed]
      | error trouble => simp [named?, hident, Except.toOption] at hnamed
  | _ => cases hnamed

theorem execute_of_named?
    (turns depth : Nat) (mode : Mode) {expr : Expr} {ident : Nat}
    (hnamed : expr.named? = some ident) :
    execute turns (depth + 1) mode expr = pure expr.constant := by
  cases expr with
  | literal head value => exact if_neg (by simp [Expr.isPure])
  | _ => cases hnamed

theorem each_of_named?
    (turns depth : Nat) (mode : Mode) {list : List Expr}
    (hlist : ∀ expr ∈ list, ∃ ident, expr.named? = some ident) (world : World) :
    each (execute turns (depth + 1) mode) list world =
      .ok (list.map Expr.constant) world := by
  induction list with
  | nil => rfl
  | cons expr rest ih =>
      rw [List.forall_mem_cons] at hlist
      obtain ⟨⟨ident, hnamed⟩, hrest⟩ := hlist
      unfold each
      rw [execute_of_named? turns depth mode hnamed, pure_bind,
        bind_eq_of_ok (ih hrest)]
      rfl

theorem address_of_named?
    (expr place : Expr) {list : List Expr}
    (hlist : ∀ expr ∈ list, ∃ ident, expr.named? = some ident) (world : World) :
    address .effectful expr place (list.map Expr.constant) world =
      .ok ()
        { world with
          flock :=
            (list.filterMap Expr.named?).foldl Flock.hatch world.flock } := by
  induction list generalizing world with
  | nil => rfl
  | cons first rest ih =>
      rw [List.forall_mem_cons] at hlist
      obtain ⟨⟨ident, hnamed⟩, hrest⟩ := hlist
      rw [List.map_cons, address_effectful_cons, Expr.identOf_constant hnamed,
        List.filterMap_cons_some hnamed]
      exact ih hrest _

/-- Turtles that are named by constants hatch first, and then they take their
turns. -/
theorem execute_ask_of_named?
    (turns depth : Nat) {list : List Expr}
    (hlist : ∀ expr ∈ list, ∃ ident, expr.named? = some ident) (head : Token)
    (listBrackets brackets : Brackets) (body : List Expr) (world : World) :
    execute turns (depth + 2) .effectful
      (.ask head listBrackets list brackets body) world =
      dispatch (inOrder (execute turns (depth + 1) .effectful) 0 body) 0
        (list.map Expr.constant)
        { world with
          flock :=
            (list.filterMap Expr.named?).foldl Flock.hatch world.flock } := by
  rw [execute_ask,
    bind_eq_of_ok (each_of_named? turns depth .effectful hlist world),
    bind_eq_of_ok (address_of_named? _ _ hlist world)]

/-- Different turtles are ready for their turns once they have hatched. -/
theorem World.ready_of_named?
    {list : List Expr}
    (hlist : ∀ expr ∈ list, ∃ ident, expr.named? = some ident)
    (hdistinct : (list.map Expr.named?).Nodup) {world : World}
    (hstored : world.bindings.entries.All
      (Entry.Sound True (Expr.FitsTurn False))) :
    ({ world with
        flock :=
          (list.filterMap Expr.named?).foldl Flock.hatch world.flock } :
            World).Ready
      (list.map Expr.constant) := by
  constructor
  · intro number hnumber
    obtain ⟨expr, hexpr, rfl⟩ := List.mem_map.mp hnumber
    obtain ⟨ident, hnamed⟩ := hlist expr hexpr
    have hmem : ident ∈ list.filterMap Expr.named? :=
      List.mem_filterMap.mpr ⟨expr, hexpr, hnamed⟩
    exact ⟨ident, Expr.identOf_constant hnamed,
      Flock.contains_foldl_hatch _ (.inl hmem)⟩
  · rw [List.pairwise_map]
    refine (List.pairwise_map.mp hdistinct).imp_of_mem ?_
    intro expr other hexpr hother hne heq
    obtain ⟨ident, hnamed⟩ := hlist expr hexpr
    obtain ⟨ident', hnamed'⟩ := hlist other hother
    rw [Expr.identOf_constant hnamed, Expr.identOf_constant hnamed'] at heq
    rw [hnamed, hnamed', Except.ok.inj heq] at hne
    exact hne rfl
  · exact hstored

/-- Different turtles listed by their numbers leave the same world behind in
whatever order they are listed, if the body keeps to the turtle that listens,
binds nothing for good and draws no random number.  Only the value, which is
that of the last turn, may be another one. -/
theorem turtles_take_their_turns_in_any_order
    (turns depth : Nat) {list list' body : List Expr} {world : World}
    (hlist : ∀ expr ∈ list, ∃ ident, expr.named? = some ident)
    (hdistinct : (list.map Expr.named?).Nodup) (hperm : list.Perm list')
    (hbody :
      ∀ part : Expr, part.OccursIn body world →
        part.keepsToItself = true ∧ part.isTraceless = true)
    (head head' : Token)
    (listBrackets listBrackets' brackets brackets' : Brackets)
    {value : Number} {after : World}
    (hrun :
      execute turns depth .effectful
        (.ask head listBrackets list brackets body) world = .ok value after) :
    ∃ value',
      execute turns depth .effectful
        (.ask head' listBrackets' list' brackets' body) world =
        .ok value' after := by
  have hparts (part : Expr) (hpart : part.OccursIn body world) :
      part.keepsToItself = true ∧ (False ∨ part.isTraceless = true) :=
    ⟨(hbody part hpart).1, .inr (hbody part hpart).2⟩
  obtain ⟨hfits, hstored⟩ := Solo.fits_of_occursIn hparts
  have hlist' (expr : Expr) (hexpr : expr ∈ list') :
      ∃ ident, expr.named? = some ident :=
    hlist expr (hperm.mem_iff.mpr hexpr)
  have hhatched :
      (list'.filterMap Expr.named?).foldl Flock.hatch world.flock =
        (list.filterMap Expr.named?).foldl Flock.hatch world.flock :=
    ((hperm.filterMap Expr.named?).foldl_eq'
      (fun _ _ _ _ flock => Flock.hatch_comm flock _ _) world.flock).symm
  cases depth with
  | zero => cases hrun
  | succ depth =>
      cases depth with
      | zero =>
          -- There is no room for the numbers of turtles, so there are none.
          cases list with
          | nil =>
              obtain rfl := hperm.nil_eq
              exact ⟨value, hrun⟩
          | cons expr rest => cases hrun
      | succ depth =>
          rw [execute_ask_of_named? turns depth hlist] at hrun
          rw [execute_ask_of_named? turns depth hlist', hhatched]
          exact dispatch_perm hfits (hperm.map Expr.constant)
            (World.ready_of_named? hlist hdistinct hstored) hrun 0

def Ending.succeeds {α : Type} : EStateM.Result Fault World α → Bool
  | .ok .. => true
  | .error .. => false

theorem two_turtles_pace_in_either_order :
    let number (n : Nat) : Expr :=
      .literal ⟨.constant, toString n, 0, 0⟩ (.integer n)
    let brackets : Brackets := ⟨⟨.command, "[", 0, 0⟩, ⟨.command, "]", 0, 0⟩⟩
    let ask (list : List Expr) : Expr :=
      .ask ⟨.command, "ask", 0, 0⟩ brackets list brackets pacing
    let world := World.fresh 1 (Draws.seeded 0)
    (∀ part : Expr, part.OccursIn pacing world →
        part.keepsToItself = true ∧ part.isTraceless = true) ∧
      ∃ value value' after,
        execute 9 9 .effectful (ask [number 1, number 2]) world =
          .ok value after ∧
          execute 9 9 .effectful (ask [number 2, number 1]) world =
            .ok value' after := by
  intro number brackets ask world
  have hbody (part : Expr) (hpart : part.OccursIn pacing world) :
      part.keepsToItself = true ∧ part.isTraceless = true :=
    ⟨(pacing_fits rfl hpart).1, (pacing_fits rfl hpart).2.1⟩
  have hlist (expr : Expr) (hexpr : expr ∈ [number 1, number 2]) :
      ∃ ident, expr.named? = some ident := by
    simp only [List.mem_cons, List.not_mem_nil, or_false] at hexpr
    rcases hexpr with rfl | rfl
    · exact ⟨1, rfl⟩
    · exact ⟨2, rfl⟩
  have hdistinct : ([number 1, number 2].map Expr.named?).Nodup := by decide
  have hsucceeds :
      Ending.succeeds
        (execute 9 9 .effectful (ask [number 1, number 2]) world) = true := by
    decide +kernel
  cases hrun : execute 9 9 .effectful (ask [number 1, number 2]) world with
  | ok value after =>
      obtain ⟨value', hrun'⟩ :=
        turtles_take_their_turns_in_any_order 9 9 hlist hdistinct
          (.swap _ _ _) hbody _ _ brackets brackets brackets brackets hrun
      exact ⟨hbody, value, value', after, rfl, hrun'⟩
  | error fault after =>
      rw [hrun] at hsucceeds
      cases hsucceeds

end Logo
