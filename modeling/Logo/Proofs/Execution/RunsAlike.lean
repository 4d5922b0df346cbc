import Logo.Proofs.Execution.InStep

/-!
# Similar programs run alike

Two worlds are similar when they differ in nothing but the tokens of the
procedures that are kept in their tables.  Similar programs, executed in similar
worlds, yield the same value or similar faults, and the worlds behind them are
similar again.  They keep step, and nobody has moved in advance.
-/

namespace Logo

open Execution

structure World.Similar (T : Token → Token → Prop)
    (world world' : World) : Prop where
  bindings : world.bindings.Similar T world'.bindings
  flock : world.flock = world'.flock
  draws : world.draws = world'.draws
  marks : world.marks = world'.marks

/-- The outcomes of two runs: related values or similar faults, in similar
worlds. -/
inductive Outcome.Similar
    (T : Token → Token → Prop) {α α' : Type} (R : α → α' → Prop) :
    EStateM.Result Fault World α → EStateM.Result Fault World α' → Prop where
  | value {a : α} {a' : α'} {final final' : World}
      (hvalue : R a a') (hfinal : final.Similar T final') :
      Similar T R (.ok a final) (.ok a' final')
  | failure {fault fault' : Fault} {final final' : World}
      (hfault : fault.Similar T fault') (hfinal : final.Similar T final') :
      Similar T R (.error fault final) (.error fault' final')

/-- From similar worlds two actions have similar outcomes. -/
def RunsAlike (T : Token → Token → Prop) {α α' : Type} (R : α → α' → Prop)
    (action : Action α) (action' : Action α') : Prop :=
  ∀ world world', world.Similar T world' →
    Outcome.Similar T R (action world) (action' world')

section Similarity

variable {T : Token → Token → Prop}

theorem World.similar_refl (world : World) : world.Similar T world where
  bindings :=
    ⟨NameMap.related_refl .same _,
      NameMap.related_refl Frames.similar_refl _, rfl⟩
  flock := rfl
  draws := rfl
  marks := rfl

theorem World.Similar.ahead
    {world world' : World} (hworld : world.Similar T world') :
    world.Ahead T (fun _ => false) world' where
  bindings := hworld.bindings
  flock := hworld.flock ▸ world.flock.ahead_never
  draws := hworld.draws
  marks := hworld.marks

theorem World.Ahead.similar
    {world world' : World} (hworld : world.Ahead T (fun _ => false) world') :
    world.Similar T world' where
  bindings := hworld.bindings
  flock := hworld.flock.stirred.trans world'.flock.stirred_never
  draws := hworld.draws
  marks := hworld.marks

theorem Mishap.Alike.unworded_eq
    {mishap mishap' : Mishap} (hmishap : mishap.Alike T mishap') :
    mishap.unworded = mishap'.unworded := by
  cases hmishap <;> rfl

theorem Fault.InStep.similar
    {fault fault' : Fault} (hfault : fault.InStep T fault') :
    fault.Similar T fault' := by
  cases hfault with
  | mishap hmishap hplace =>
      exact .complaint (.mishap hmishap.unworded_eq hplace)
  | undefined name hplace => exact .complaint (.undefined name false hplace)
  | noLocalScope name => exact .complaint (.noLocalScope name)
  | impure hplace => exact .complaint (.impure hplace)
  | arithmetic fault => exact .arithmetic fault
  | broken breach => exact .broken breach
  | tooDeep => exact .tooDeep
  | unfinished => exact .unfinished

theorem runsAlike_program
    (hrefl : ∀ token, T token token) (limits : Limits) (mode : Mode)
    {body body' : List Expr}
    (hbody : List.Forall₂ (Expr.Similar T) body body') :
    RunsAlike T Eq (program limits mode body) (program limits mode body') := by
  intro world world' hworld
  have hrun := inStep_body hrefl limits mode hbody world world' hworld.ahead
  unfold program
  generalize inOrder (execute limits.turns limits.depth mode) 0 body world =
    outcome at hrun
  generalize inOrder (execute limits.turns limits.depth mode) 0 body' world' =
    outcome' at hrun
  cases hrun with
  | value hvalue hfinal => exact .value hvalue hfinal.similar
  | failure hfault hfinal =>
      have hsimilar := hfault.similar
      cases hfault with
      | tooDeep =>
          exact .failure
            (.complaint (.mishap rfl (.some (.program hbody)))) hfinal.similar
      | _ => exact .failure hsimilar hfinal.similar

end Similarity

end Logo
