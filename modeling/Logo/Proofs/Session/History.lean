import Logo.Proofs.Execution.Keeps
import Logo.Session

/-!
# Histories of a session

A host drives a session by calls, some of which fail.  Between two calls only
the world carries over what programs have done, and each call changes it in one
of three ways: by a run, by an evaluation, or by a reset.
-/

namespace Logo.Session

open Execution

inductive Call where
  | run (text : String) (path : Option String)
  | evaluate (text : String)
  | parse (text : String) (path : Option String)
  | setLanguage (language : String)
  | reset

/-- The session behind a call, whether the call has succeeded or not. -/
def perform (session : Session) : Call → Session
  | .run text path => finalState (Session.run text path session)
  | .evaluate text => finalState (Session.evaluate text session)
  | .parse text path => finalState (Session.parse text path session)
  | .setLanguage language => session.setLanguage language
  | .reset => session.reset

def performAll (session : Session) (calls : List Call) : Session :=
  calls.foldl perform session

/-- Nothing has happened to the world or to the limits of the session. -/
def Undisturbed (before after : Session) : Prop :=
  after.world = before.world ∧ after.limits = before.limits

theorem undisturbed_refl (session : Session) : Undisturbed session session :=
  ⟨rfl, rfl⟩

theorem undisturbed_trans
    (first second third : Session) (hfirst : Undisturbed first second)
    (hsecond : Undisturbed second third) :
    Undisturbed first third :=
  ⟨hsecond.1.trans hfirst.1, hsecond.2.trans hfirst.2⟩

theorem ofExcept_undisturbed {α : Type} (result : Except Fault α) :
    Keeps Undisturbed (ofExcept result) := by
  intro session
  cases result <;> exact ⟨rfl, rfl⟩

theorem ofExcept_eq_error
    {α : Type} {result : Except Fault α} {session after : Session}
    {fault : Fault} (herror : ofExcept result session = .error fault after) :
    result = .error fault := by
  cases result with
  | ok a => cases herror
  | error trouble =>
      cases herror
      rfl

theorem ofExcept_eq_ok
    {α : Type} {result : Except Fault α} {session after : Session} {a : α}
    (hok : ofExcept result session = .ok a after) :
    result = .ok a ∧ after = session := by
  cases result with
  | ok b =>
      cases hok
      exact ⟨rfl, rfl⟩
  | error trouble => cases hok

theorem scan_undisturbed (text : String) (path : Option String) :
    Keeps Undisturbed (scan text path) := by
  intro session
  unfold scan
  split <;> exact ⟨rfl, rfl⟩

theorem parseKnowing_undisturbed
    (arities : NameMap Nat) (text : String) (path : Option String) :
    Keeps Undisturbed (parseKnowing arities text path) := by
  refine (scan_undisturbed text path).bind undisturbed_trans fun tokens => ?_
  intro session
  exact (ofExcept_undisturbed _).bind undisturbed_trans
    (fun _ _ => ⟨rfl, rfl⟩) session

/-- Reading a text has no effect on the world, whether the text can be read or
not. -/
theorem parse_undisturbed (text : String) (path : Option String) :
    Keeps Undisturbed (Session.parse text path) := by
  intro session
  refine (ofExcept_undisturbed session.procedures).bind undisturbed_trans
    (fun arities => ?_) session
  refine (parseKnowing_undisturbed arities text path).bind undisturbed_trans
    fun body => ?_
  intro between
  exact ⟨rfl, rfl⟩

theorem announce_undisturbed (label : String) (number : Number) :
    Keeps Undisturbed (announce label number) := by
  intro session
  unfold announce
  split <;> exact ⟨rfl, rfl⟩

/-- The world in which a run starts: nobody has moved yet. -/
def rested (world : World) : World :=
  { world with flock := world.flock.clearMotion }

def renewed (world : World) : World :=
  { world with bindings := world.bindings.reset, flock := .fresh }

theorem execute_world (mode : Mode) (body : List Expr) (session : Session) :
    (finalState (Session.execute mode body session)).world =
      finalState (program session.limits mode body session.world) := by
  unfold Session.execute
  cases hrun : program session.limits mode body session.world <;> rfl

theorem execute_eq_error
    {mode : Mode} {body : List Expr} {session after : Session} {fault : Fault}
    (herror : Session.execute mode body session = .error fault after) :
    ∃ world, program session.limits mode body session.world =
      .error fault world := by
  unfold Session.execute at herror
  split at herror
  next => cases herror
  next world hrun =>
    cases herror
    exact ⟨world, hrun⟩

theorem execute_eq_ok
    {mode : Mode} {body : List Expr} {session after : Session} {number : Number}
    (hok : Session.execute mode body session = .ok number after) :
    after.report = session.report ∧
      ∃ world, program session.limits mode body session.world =
        .ok number world := by
  unfold Session.execute at hok
  split at hok
  next world hrun =>
    cases hok
    exact ⟨rfl, world, hrun⟩
  next => cases hok

theorem parse_ok_undisturbed
    {text : String} {path : Option String} {session between : Session}
    {body : List Expr}
    (hparse : Session.parse text path session = .ok body between) :
    Undisturbed session between := by
  have hundisturbed := parse_undisturbed text path session
  rw [hparse] at hundisturbed
  exact hundisturbed

/-- A text that cannot be read is not acted on. -/
theorem parse_error_world
    {text : String} {path : Option String} {session between : Session}
    {fault : Fault}
    (hparse : Session.parse text path session = .error fault between)
    (next : List Expr → Act Number) :
    (finalState ((Session.parse text path >>= next) session)).world =
      session.world := by
  have hundisturbed := parse_undisturbed text path session
  rw [hparse] at hundisturbed
  rw [bind_eq_of_error hparse]
  exact hundisturbed.1

theorem run_world
    {text : String} {path : Option String} {session between : Session}
    {body : List Expr}
    (hparse : Session.parse text path session = .ok body between) :
    (finalState (Session.run text path session)).world =
      finalState
        (program session.limits .effectful body (rested session.world)) := by
  have hbetween := parse_ok_undisturbed hparse
  let ready : Session := { between with world := rested between.world }
  have hannounced (number : Number) :
      Keeps Undisturbed
        (announce "Result:" number >>= fun _ => (pure number : Act Number)) :=
    (announce_undisturbed "Result:" number).bind undisturbed_trans
      fun _ _ => ⟨rfl, rfl⟩
  have hbehind :=
    Keeps.behind undisturbed_refl
      (Session.execute .effectful body) hannounced ready
  have hstart :
      Session.run text path session =
        (Session.execute .effectful body >>= fun number =>
          announce "Result:" number >>= fun _ => pure number) ready := by
    unfold Session.run
    rw [bind_eq_of_ok hparse]
    rfl
  rw [hstart, hbehind.1, execute_world]
  simp only [ready, hbetween.1, hbetween.2]

theorem evaluate_world
    {text : String} {session between : Session} {body : List Expr}
    (hparse : Session.parse text none session = .ok body between) :
    (finalState (Session.evaluate text session)).world =
      finalState (program session.limits .pureAttempt body session.world) := by
  have hbetween := parse_ok_undisturbed hparse
  unfold Session.evaluate
  rw [bind_eq_of_ok hparse, execute_world, hbetween.1, hbetween.2]

/-- All that a call can do to the world. -/
theorem perform_world_cases (session : Session) (call : Call) :
    (session.perform call).world = session.world ∨
      (∃ text path body between,
        Session.parse text path session = .ok body between ∧
          (session.perform call).world =
            finalState
              (program session.limits .effectful body (rested session.world))) ∨
      (∃ text body between,
        Session.parse text none session = .ok body between ∧
          (session.perform call).world =
            finalState
              (program session.limits .pureAttempt body session.world)) ∨
      (session.perform call).world = renewed session.world := by
  cases call with
  | run text path =>
      cases hparse : Session.parse text path session with
      | ok body between =>
          exact .inr
            (.inl ⟨text, path, body, between, hparse, run_world hparse⟩)
      | error fault between => exact .inl (parse_error_world hparse _)
  | evaluate text =>
      cases hparse : Session.parse text none session with
      | ok body between =>
          exact .inr
            (.inr (.inl ⟨text, body, between, hparse, evaluate_world hparse⟩))
      | error fault between => exact .inl (parse_error_world hparse _)
  | parse text path => exact .inl (parse_undisturbed text path session).1
  | setLanguage language => exact .inl rfl
  | reset => exact .inr (.inr (.inr rfl))

/-- A property of the world behind a call, by what the call can do. -/
theorem perform_world
    {J : World → Prop} {session : Session} (hworld : J session.world)
    {call : Call}
    (hrun :
      ∀ text path body between, call = .run text path →
        Session.parse text path session = .ok body between →
          J (finalState
            (program session.limits .effectful body (rested session.world))))
    (hevaluate :
      ∀ text body between, call = .evaluate text →
        Session.parse text none session = .ok body between →
          J (finalState
            (program session.limits .pureAttempt body session.world)))
    (hreset : J (renewed session.world)) :
    J (session.perform call).world := by
  cases call with
  | run text path =>
      cases hparse : Session.parse text path session with
      | ok body between =>
          rw [perform, run_world hparse]
          exact hrun text path body between rfl hparse
      | error fault between =>
          rw [perform, Session.run, parse_error_world hparse]
          exact hworld
  | evaluate text =>
      cases hparse : Session.parse text none session with
      | ok body between =>
          rw [perform, evaluate_world hparse]
          exact hevaluate text body between rfl hparse
      | error fault between =>
          rw [perform, Session.evaluate, parse_error_world hparse]
          exact hworld
  | parse text path =>
      rw [perform, (parse_undisturbed text path session).1]
      exact hworld
  | setLanguage language => exact hworld
  | reset => exact hreset

end Logo.Session
