import Logo.Proofs.Execution.Actions
import Logo.Proofs.Execution.Discipline

/-!
# Pure attempts leave no mark

A pure attempt writes to the table all the same: its loops and calls bind names,
and each turtle that is asked listens alone for a while.  All of this is undone
on the way out.  Inside of a scope the entries may differ from those outside in
the name of the scope, and in nothing else.
-/

namespace Logo

open Logo.Action Execution NameMap

/-- Nothing about the table and the flock has changed, up to the entries and to
the notifications, of which every observer has got the same number. -/
structure Alike
    (Same : NameMap Entry → NameMap Entry → Prop)
    (before after : World) : Prop where
  entries : Same before.bindings.entries after.bindings.entries
  frames : after.bindings.frames = before.bindings.frames
  flock : after.flock = before.flock
  alarms :
    ∃ count, after.bindings.alarms = before.bindings.alarms.map (· + count)

/-- The entries agree once a name has got the same value or none in both. -/
def SameBut (name : String) (entries later : NameMap Entry) : Prop :=
  ∀ value, NameMap.assign name value later = NameMap.assign name value entries

theorem Alike.trans
    {Same : NameMap Entry → NameMap Entry → Prop}
    (hsame : ∀ a b c, Same a b → Same b c → Same a c)
    {first second third : World}
    (hfirst : Alike Same first second) (hsecond : Alike Same second third) :
    Alike Same first third := by
  obtain ⟨early, hearly⟩ := hfirst.alarms
  obtain ⟨late, hlate⟩ := hsecond.alarms
  constructor
  · exact hsame _ _ _ hfirst.entries hsecond.entries
  · exact hsecond.frames.trans hfirst.frames
  · exact hsecond.flock.trans hfirst.flock
  · refine ⟨early + late, ?_⟩
    rw [hlate, hearly, List.map_map]
    apply List.map_congr_left
    intro alarms _
    simp only [Function.comp_apply]
    omega

/-- Nothing but notifications, marks and draws. -/
def Unmarked : World → World → Prop := Alike Eq

namespace Unmarked

theorem of_eq
    {before after : World} (hbindings : after.bindings = before.bindings)
    (hflock : after.flock = before.flock) :
    Unmarked before after := by
  constructor
  · rw [hbindings]
  · rw [hbindings]
  · exact hflock
  · refine ⟨0, ?_⟩
    simp [hbindings]

theorem trans
    {first second third : World}
    (hfirst : Unmarked first second) (hsecond : Unmarked second third) :
    Unmarked first third := by
  apply Alike.trans _ hfirst hsecond
  intro entries later latest hlater hlatest
  exact hlater.trans hlatest

theorem sameBut
    {before after : World} (hunmarked : Unmarked before after) (name : String) :
    Alike (SameBut name) before after where
  entries value := by rw [hunmarked.entries]
  frames := hunmarked.frames
  flock := hunmarked.flock
  alarms := hunmarked.alarms

theorem rebind_keeps (name : String) (number : Number) :
    Keeps (Alike (SameBut name)) (Action.bind name number) := by
  intro world
  rw [bind_eq]
  constructor
  · intro value
    exact assign_insert name value _ _
  · rfl
  · rfl
  · exact ⟨1, rfl⟩

/-- A scope is undone by its end, if its inside touches no other name. -/
theorem scope_keeps
    (name : String) (number : Number) {body : Action Number}
    (hbody : Keeps (Alike (SameBut name)) body) :
    Keeps Unmarked (withLocal name number body) := by
  intro world
  have hinner := hbody (world.entered name number)
  obtain ⟨count, hcount⟩ := hinner.alarms
  rw [finalState_withLocal hinner.frames]
  constructor
  · exact (Bindings.closed_entries_eq hinner.entries).symm
  · rfl
  · exact hinner.flock
  · refine ⟨count + 2, ?_⟩
    change List.map (· + 1)
      (finalState (body (world.entered name number))).bindings.alarms = _
    rw [hcount]
    change List.map (· + 1) (List.map (· + count)
      (List.map (· + 1) world.bindings.alarms)) = _
    rw [List.map_map, List.map_map]
    apply List.map_congr_left
    intro alarms _
    simp only [Function.comp_apply]
    omega

/-- A turtle that exists may listen alone for a while. -/
theorem focus_keeps
    {number : Number} {body : Action Number} {world : World}
    (hknows : world.flock.Knows number) (hbody : Keeps Unmarked body) :
    Unmarked world (finalState (focused [number] body world)) := by
  cases hident : Flock.identOf number with
  | error trouble =>
      rw [focused_of_error hident]
      exact of_eq rfl rfl
  | ok ident =>
      have hhatch := Flock.hatch_eq_self (hknows ident hident)
      have hinner := hbody (world.focusedOn ident)
      have hflock :
          (finalState (body (world.focusedOn ident))).flock =
            { world.flock with active := [ident] } := by
        rw [hinner.flock, World.focusedOn, hhatch]
      rw [finalState_focused hident]
      constructor
      · exact hinner.entries
      · exact hinner.frames
      · rw [World.refocused, hflock]
      · exact hinner.alarms

theorem discipline :
    Discipline .pureAttempt Unmarked (fun name => Alike (SameBut name)) where
  refl _ := of_eq rfl rfl
  trans _ _ _ := trans
  stays _ _ hunmarked ident hident := by rwa [hunmarked.flock]
  marks _ _ := of_eq rfl rfl
  draws _ _ := of_eq rfl rfl
  inside name _ _ hunmarked := hunmarked.sameBut name
  insideTrans _ _ _ _ :=
    Alike.trans fun _ _ _ hfirst hsecond value =>
      (hsecond value).trans (hfirst value)
  rebind := rebind_keeps
  scope name number _ := scope_keeps name number
  focus number body world hknows hbody := by
    rcases hknows with hmode | hknows
    · contradiction
    · exact focus_keeps hknows hbody
  bind hmode := nomatch hmode
  install hmode := nomatch hmode
  command hmode := nomatch hmode
  flock hmode := nomatch hmode
  hatch hmode := nomatch hmode
  tell hmode := nomatch hmode

end Unmarked

/-- A pure attempt at an expression or a program leaves no lasting mark, whether
it yields a value or fails at any depth: the entries in their order, the frames,
and the whole flock with its turtles, listeners, palette and background are
exactly as before, and every observer has been notified some number of times. -/
theorem pure_attempt_leaves_no_mark (world : World) :
    (∀ turns depth expr,
      let final := finalState (execute turns depth .pureAttempt expr world)
      final.bindings.entries = world.bindings.entries ∧
        final.bindings.frames = world.bindings.frames ∧
        final.flock = world.flock ∧
        ∃ count,
          final.bindings.alarms = world.bindings.alarms.map (· + count)) ∧
    (∀ limits body,
      let final := finalState (program limits .pureAttempt body world)
      final.bindings.entries = world.bindings.entries ∧
        final.bindings.frames = world.bindings.frames ∧
        final.flock = world.flock ∧
        ∃ count,
          final.bindings.alarms = world.bindings.alarms.map (· + count)) := by
  constructor
  · intro turns depth expr
    have hunmarked := Unmarked.discipline.keeps_execute turns depth expr world
    exact ⟨hunmarked.entries.symm, hunmarked.frames, hunmarked.flock,
      hunmarked.alarms⟩
  · intro limits body
    have hunmarked := Unmarked.discipline.keeps_program limits body world
    exact ⟨hunmarked.entries.symm, hunmarked.frames, hunmarked.flock,
      hunmarked.alarms⟩

end Logo
