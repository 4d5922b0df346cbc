import Logo.Proofs.Session.Failures

/-!
# Promises that are never broken

The parts of the interpreter rely on each other: every instruction in a program
has as many operands as it takes, whatever is bound as a function is a
procedure, the turtles that listen exist, and local variables are removed where
they were bound.  None of these promises is broken in any session, so a call
fails by a complaint about the program, by arithmetic, or at a limit.
-/

namespace Logo

/-- Faults by which one part of the interpreter reproaches another. -/
def Fault.isInternal : Fault → Bool
  | .broken _ => true
  | .complaint (.noLocalScope _) => true
  | .complaint (.illTyped ..) => true
  | _ => false

theorem Fault.Foreseen.isInternal_eq_false
    {Good : Expr → Prop} {fault : Fault} (hfault : fault.Foreseen False Good) :
    fault.isInternal = false := by
  cases hfault with
  | operandCount hlenient => exact hlenient.elim
  | notAProcedure hlenient value => exact hlenient.elim
  | _ => rfl

theorem Fault.Blames.isInternal_eq_false
    {Known : Token → Prop} {fault : Fault} (hfault : fault.Blames Known) :
    fault.isInternal = false := by
  cases hfault <;> rfl

theorem Expr.hereditary_complete : Hereditary False Expr.Complete where
  part _ _ hexpr hpart := hexpr.part hpart
  addressed expr list hexpr hlist := by
    cases expr with
    | tell head brackets numbers =>
        cases hlist
        exact (complete_iff _).mpr ⟨trivial, fun part hpart => hexpr.part hpart⟩
    | ask head listBrackets numbers brackets body =>
        cases hlist
        refine (complete_iff _).mpr ⟨trivial, fun part hpart => hexpr.part ?_⟩
        exact List.mem_append_left body hpart
    | _ => cases hlist
  counted expr hexpr := .inr (hexpr expr .self)

namespace Session

theorem complete_of_parse
    {text : String} {path : Option String} {session between : Session}
    {body : List Expr}
    (hparse : Session.parse text path session = .ok body between) :
    ∀ expr ∈ body, expr.Complete := by
  obtain ⟨arities, tokens, index, reader, -, -, hread, rfl, -⟩ :=
    parse_eq_ok hparse
  have houtcome :=
    Reader.outcome_read session.lexicon session.limits.nesting arities tokens
  rw [hread] at houtcome
  exact houtcome.body

theorem sound_performAll
    {session : Session} (hworld : session.world.Sound False Expr.Complete)
    (calls : List Call) :
    (session.performAll calls).world.Sound False Expr.Complete := by
  induction calls generalizing session with
  | nil => exact hworld
  | cons call rest ih =>
      refine ih (sound_perform Expr.hereditary_complete hworld
        fun text path body between _ => ?_)
      exact complete_of_parse

theorem sound_of_start
    (limits : Limits) (language : String) (report : Report) (observers : Nat)
    (draws : Draws) (calls : List Call) :
    ((startWithin limits language report observers draws).performAll
      calls).world.Sound False Expr.Complete := by
  refine sound_performAll ⟨Flock.sound_fresh, fun _ hentry => ?_⟩ calls
  cases hentry

theorem isInternal_of_fails
    {session : Session} (hworld : session.world.Sound False Expr.Complete)
    {text : String} {path : Option String} {fault : Fault}
    (hfails : session.Fails text path fault) :
    fault.isInternal = false := by
  have hprogram {mode : Mode} {body : List Expr}
      (hbody : ∀ expr ∈ body, expr.Complete) {world after : World}
      (hstart : world.Sound False Expr.Complete)
      (hrun : Execution.program session.limits mode body world =
        .error fault after) :
      fault.isInternal = false := by
    rcases ending_program Expr.hereditary_complete session.limits mode
        hbody hstart with
      hends | ⟨_, -, -, hdeep⟩
    · rw [hrun] at hends
      exact hends.1.isInternal_eq_false
    · rw [hrun] at hdeep
      cases hdeep
      rfl
  cases hfails with
  | parse hparse =>
      rcases parse_eq_error hparse with
        hprocedures | ⟨token, index, -, rfl⟩ |
        ⟨arities, tokens, index, -, hread⟩
      · obtain ⟨arities, harities⟩ := procedures_eq_ok hworld
        rw [harities] at hprocedures
        cases hprocedures
      · rfl
      · have houtcome :=
          Reader.outcome_read session.lexicon session.limits.nesting
            arities tokens
        rw [hread] at houtcome
        exact houtcome.isInternal_eq_false
  | run hparse hrun =>
      have hrested : (rested session.world).Sound False Expr.Complete :=
        hworld.withFlock hworld.flock.clearMotion
      exact hprogram (complete_of_parse hparse) hrested hrun
  | evaluate hparse hrun =>
      exact hprogram (complete_of_parse hparse) hworld hrun
  | announce fault => rfl

/-- No call of a session fails for a reason inside the interpreter, at any
limits.  The reader only holds complete expressions at every point, and between
two calls the table holds complete procedures and numbers, without a frame left
over, and everyone who listens exists. -/
theorem promises_are_never_broken
    (limits : Limits) (language : String) (report : Report) (observers : Nat)
    (draws : Draws) (calls : List Call) :
    let session :=
      (startWithin limits language report observers draws).performAll calls
    (∀ call fault, session.fault? call = some fault →
      fault.isInternal = false) ∧ session.world.Sound False Expr.Complete ∧
      session.world.bindings.frames = [] ∧
      (∃ arities, session.procedures = .ok arities) ∧
      (∀ text path body between,
        Session.parse text path session = .ok body between →
        ∀ expr ∈ body, expr.Complete) ∧
      ∀ lexicon arities tokens reader,
        (Reader.start arities).steps lexicon limits.nesting
          tokens = .ok reader → reader.Holds (· ∈ tokens) := by
  intro session
  have hworld := sound_of_start limits language report observers draws calls
  refine ⟨?_, hworld, frames_performAll rfl calls,
    procedures_eq_ok hworld, ?_, ?_⟩
  · intro call fault hfault
    obtain ⟨text, path, -, hfails⟩ := fails_of_fault? hfault
    exact isInternal_of_fails hworld hfails
  · intro text path body between hparse
    exact complete_of_parse hparse
  · intro lexicon arities tokens reader hsteps
    have hstart : (Reader.start arities).Holds (· ∈ tokens) :=
      Reader.holds_start arities
    have houtcome :=
      hstart.steps (fun _ htoken => htoken) lexicon limits.nesting
    rw [hsteps] at houtcome
    exact houtcome

end Session

end Logo
