import Logo.Proofs.Execution.Safe
import Logo.Proofs.Session.History

/-!
# How the calls of a session fail

A call that hears a text fails while the text is cut into words, while its words
are read, or while the program runs.  What a call fails with, and what it leaves
behind, is told here for all calls at once, for any property of programs that
reading establishes.
-/

namespace Logo.Session

open Execution

/-! ## Reading a text -/

theorem scan_eq_error
    {text : String} {path : Option String} {session : Session} {token : Token}
    {index : Source.Index}
    (hscan : Token.scan session.index path text = (.error token, index)) :
    Session.scan text path session =
      .error (.complaint (.unrecognized token.text (some token)))
        { session with index := index } := by
  unfold Session.scan
  rw [hscan]

theorem scan_eq_ok
    {text : String} {path : Option String} {session : Session}
    {tokens : List Token} {index : Source.Index}
    (hscan : Token.scan session.index path text = (.ok tokens, index)) :
    Session.scan text path session = .ok tokens
      { session with index := index } := by
  unfold Session.scan
  rw [hscan]

theorem parseKnowing_eq
    (arities : NameMap Nat) (text : String) (path : Option String)
    (session : Session) :
    parseKnowing arities text path session =
      match Token.scan session.index path text with
      | (.error token, index) =>
        .error (.complaint (.unrecognized token.text (some token)))
          { session with index := index }
      | (.ok tokens, index) =>
        match Reader.read session.lexicon session.limits.nesting
          arities tokens with
        | .error fault => .error fault { session with index := index }
        | .ok reader => .ok reader.body { session with index := index } := by
  unfold parseKnowing
  cases hscan : Token.scan session.index path text with
  | mk result index =>
      cases result with
      | error token => exact bind_eq_of_error (scan_eq_error hscan)
      | ok tokens =>
          rw [bind_eq_of_ok (scan_eq_ok hscan)]
          change (ofExcept
            (Reader.read session.lexicon session.limits.nesting arities
              tokens) >>= _) _ =
            _
          simp only
          cases Reader.read session.lexicon session.limits.nesting
            arities tokens with
          | error fault => rfl
          | ok reader => rfl

/-- The session behind a text that has been read. -/
def heardOut (session : Session) (index : Source.Index)
    (body : List Expr) : Session :=
  { session with
    index := index
    report :=
      session.report.remark
        ["Parsed " ++ toString body.length ++ " top-level instructions."] }

/-- Reading a text in one view: the procedures, the words, the program. -/
theorem parse_eq (text : String) (path : Option String) (session : Session) :
    Session.parse text path session =
      match session.procedures with
      | .error fault => .error fault session
      | .ok arities =>
        match Token.scan session.index path text with
        | (.error token, index) =>
          .error (.complaint (.unrecognized token.text (some token)))
            { session with index := index }
        | (.ok tokens, index) =>
          match Reader.read session.lexicon session.limits.nesting
            arities tokens with
          | .error fault => .error fault { session with index := index }
          | .ok reader =>
            .ok reader.body (session.heardOut index reader.body) := by
  unfold Session.parse
  change (ofExcept session.procedures >>= _) session = _
  cases session.procedures with
  | error fault => rfl
  | ok arities =>
      have hread := parseKnowing_eq arities text path session
      change (parseKnowing arities text path >>= _) session = _
      simp only
      split at hread
      next => rw [bind_eq_of_error hread]
      next =>
        split at hread
        next => rw [bind_eq_of_error hread]
        next =>
          rw [bind_eq_of_ok hread]
          rfl

theorem parse_eq_ok
    {text : String} {path : Option String} {session between : Session}
    {body : List Expr}
    (hparse : Session.parse text path session = .ok body between) :
    ∃ arities tokens index reader, session.procedures = .ok arities ∧
      Token.scan session.index path text = (.ok tokens, index) ∧
      Reader.read session.lexicon session.limits.nesting arities
        tokens = .ok reader ∧
      body = reader.body ∧ between = session.heardOut index body := by
  rw [parse_eq] at hparse
  split at hparse
  next => cases hparse
  next arities harities =>
    split at hparse
    next => cases hparse
    next tokens index hscan =>
      split at hparse
      next => cases hparse
      next reader hread =>
        cases hparse
        exact ⟨arities, tokens, index, reader, harities, hscan, hread, rfl, rfl⟩

theorem parse_eq_error
    {text : String} {path : Option String} {session between : Session}
    {fault : Fault}
    (hparse : Session.parse text path session = .error fault between) :
    session.procedures = .error fault ∨
      (∃ token index,
        Token.scan session.index path text = (.error token, index) ∧
        fault = .complaint (.unrecognized token.text (some token))) ∨
      ∃ arities tokens index,
        Token.scan session.index path text = (.ok tokens, index) ∧
        Reader.read session.lexicon session.limits.nesting arities tokens =
          .error fault := by
  rw [parse_eq] at hparse
  split at hparse
  next hprocedures =>
    cases hparse
    exact .inl hprocedures
  next arities _ =>
    split at hparse
    next token index hscan =>
      cases hparse
      exact .inr (.inl ⟨token, index, hscan, rfl⟩)
    next tokens index hscan =>
      split at hparse
      next hread =>
        cases hparse
        exact .inr (.inr ⟨arities, tokens, index, hscan, hread⟩)
      next => cases hparse

/-! ## Calls -/

/-- A session in a fresh world, with limits of its own. -/
def startWithin (limits : Limits) (language : String) (report : Report)
    (observers : Nat) (draws : Draws) : Session :=
  { start language report observers draws with limits := limits }

def Call.heard? : Call → Option (String × Option String)
  | .run text path => some (text, path)
  | .evaluate text => some (text, none)
  | .parse text path => some (text, path)
  | .setLanguage _ => none
  | .reset => none

def faultOf {σ α : Type} : EStateM.Result Fault σ α → Option Fault
  | .ok _ _ => none
  | .error fault _ => some fault

def fault? (session : Session) : Call → Option Fault
  | .run text path => faultOf (Session.run text path session)
  | .evaluate text => faultOf (Session.evaluate text session)
  | .parse text path => faultOf (Session.parse text path session)
  | .setLanguage _ => none
  | .reset => none

/-- The ways for a call to fail that hears a text. -/
inductive Fails (session : Session) (text : String) (path : Option String) :
    Fault → Prop where
  | parse {fault : Fault} {between : Session}
      (hparse : Session.parse text path session = .error fault between) :
      Fails session text path fault
  | run {fault : Fault} {between : Session} {body : List Expr} {after : World}
      (hparse : Session.parse text path session = .ok body between)
      (hrun : program session.limits .effectful body (rested session.world) =
        .error fault after) :
      Fails session text path fault
  | evaluate {fault : Fault} {between : Session} {body : List Expr}
      {after : World}
      (hparse : Session.parse text path session = .ok body between)
      (hrun : program session.limits .pureAttempt body session.world =
        .error fault after) :
      Fails session text path fault
  | announce (fault : ArithmeticFault) :
      Fails session text path (.arithmetic fault)

theorem eq_error_of_faultOf
    {σ α : Type} {result : EStateM.Result Fault σ α} {fault : Fault}
    (hfault : faultOf result = some fault) :
    ∃ after, result = .error fault after := by
  cases result with
  | ok a after => cases hfault
  | error other after =>
      cases hfault
      exact ⟨after, rfl⟩

theorem fails_run
    {text : String} {path : Option String} {session after : Session}
    {fault : Fault}
    (herror : Session.run text path session = .error fault after) :
    session.Fails text path fault := by
  rcases exists_of_bind_eq_error herror with
    hparse | ⟨body, between, hparse, hrest⟩
  · exact .parse hparse
  rcases exists_of_bind_eq_error hrest with hmodify | ⟨_, ready, hmodify, hrest⟩
  · cases hmodify
  cases hmodify
  have hbetween := parse_ok_undisturbed hparse
  rcases exists_of_bind_eq_error hrest with
    hexecute | ⟨number, last, -, hannounced⟩
  · obtain ⟨world, hrun⟩ := execute_eq_error hexecute
    simp only [hbetween.1, hbetween.2] at hrun
    exact .run hparse hrun
  · rcases exists_of_bind_eq_error hannounced with hannounce | ⟨_, _, -, hpure⟩
    · unfold Session.announce at hannounce
      split at hannounce
      · cases hannounce
      · cases hannounce
        exact .announce _
    · cases hpure

theorem fails_evaluate
    {text : String} {session after : Session} {fault : Fault}
    (herror : Session.evaluate text session = .error fault after) :
    session.Fails text none fault := by
  rcases exists_of_bind_eq_error herror with
    hparse | ⟨body, between, hparse, hexecute⟩
  · exact .parse hparse
  · have hbetween := parse_ok_undisturbed hparse
    obtain ⟨world, hrun⟩ := execute_eq_error hexecute
    rw [hbetween.1, hbetween.2] at hrun
    exact .evaluate hparse hrun

/-- Only a call that hears a text fails. -/
theorem fails_of_fault?
    {session : Session} {call : Call} {fault : Fault}
    (hfault : session.fault? call = some fault) :
    ∃ text path, call.heard? = some (text, path) ∧
      session.Fails text path fault := by
  cases call with
  | run text path =>
      obtain ⟨after, herror⟩ := eq_error_of_faultOf hfault
      exact ⟨text, path, rfl, fails_run herror⟩
  | evaluate text =>
      obtain ⟨after, herror⟩ := eq_error_of_faultOf hfault
      exact ⟨text, none, rfl, fails_evaluate herror⟩
  | parse text path =>
      obtain ⟨after, herror⟩ := eq_error_of_faultOf hfault
      exact ⟨text, path, rfl, .parse herror⟩
  | setLanguage language => cases hfault
  | reset => cases hfault

/-! ## What carries over -/

/-- A call for a text that reads as a program with a hereditary property leads
from a sound world to a sound world. -/
theorem sound_perform
    {lenient : Prop} {Good : Expr → Prop} (hgood : Hereditary lenient Good)
    {session : Session} (hworld : session.world.Sound lenient Good)
    {call : Call}
    (hparse :
      ∀ text path body between, call.heard? = some (text, path) →
        Session.parse text path session = .ok body between →
          ∀ expr ∈ body, Good expr) :
    (session.perform call).world.Sound lenient Good := by
  have hprogram {mode : Mode} {body : List Expr}
      (hbody : ∀ expr ∈ body, Good expr) {world : World}
      (hstart : world.Sound lenient Good) :
      (finalState (program session.limits mode body world)).Sound
        lenient Good := by
    rcases ending_program hgood session.limits mode hbody hstart with
      hends | ⟨after, hafter, -, hrun⟩
    · exact hends.finalState
    · rw [hrun]
      exact hafter
  refine perform_world hworld ?_ ?_
    ⟨Flock.sound_fresh, fun _ hentry => by cases hentry⟩
  · rintro text path body between rfl hread
    have hrested : (rested session.world).Sound lenient Good :=
      hworld.withFlock hworld.flock.clearMotion
    exact hprogram (hparse text path body between rfl hread) hrested
  · rintro text body between rfl hread
    exact hprogram (hparse text none body between rfl hread) hworld

/-- The procedures of a sound world can be listed. -/
theorem procedures_eq_ok
    {Good : Expr → Prop} {session : Session}
    (hworld : session.world.Sound False Good) :
    ∃ arities, session.procedures = .ok arities := by
  unfold procedures Bindings.functions
  have hentries := hworld.entries
  generalize session.world.bindings.entries = entries at hentries
  induction entries with
  | nil => exact ⟨[], rfl⟩
  | cons binding rest ih =>
      obtain ⟨hfirst, hrest⟩ := List.forall_mem_cons.mp hentries
      obtain ⟨arities, harities⟩ := ih hrest
      obtain ⟨name, entry⟩ := binding
      cases entry with
      | function value =>
          cases value with
          | procedure found =>
              refine ⟨(name, found.params.length) :: arities, ?_⟩
              simp only [List.filterMap_cons]
              unfold aritiesOf at harities ⊢
              rw [List.mapM_cons, harities]
              rfl
          | _ => exact absurd hfirst id
      | _ => exact ⟨arities, harities⟩

/-! ## The index of places -/

def SameIndex (before after : Session) : Prop := after.index = before.index

theorem sameIndex_refl (session : Session) : SameIndex session session := rfl

theorem sameIndex_trans
    (first second third : Session) (hfirst : SameIndex first second)
    (hsecond : SameIndex second third) : SameIndex first third :=
  Eq.trans hsecond hfirst

theorem execute_sameIndex (mode : Mode) (body : List Expr) :
    Keeps SameIndex (Session.execute mode body) := by
  intro session
  unfold Session.execute
  split <;> rfl

theorem announce_sameIndex (label : String) (number : Number) :
    Keeps SameIndex (Session.announce label number) := by
  intro session
  unfold Session.announce
  split <;> rfl

theorem index_parse
    {session : Session} {arities : NameMap Nat}
    (hprocedures : session.procedures = .ok arities)
    (text : String) (path : Option String) :
    (finalState (Session.parse text path session)).index =
      (Token.scan session.index path text).2 := by
  rw [parse_eq, hprocedures]
  simp only
  split
  next hscan => rw [hscan, finalState_error]
  next hscan =>
    rw [hscan]
    split <;> rfl

/-- A call adds the text that it hears to the index, and nothing else. -/
theorem index_perform
    {session : Session} {arities : NameMap Nat}
    (hprocedures : session.procedures = .ok arities) (call : Call) :
    (session.perform call).index =
      match call.heard? with
      | some (text, path) => (Token.scan session.index path text).2
      | none => session.index := by
  have hbehind {text : String} {path : Option String}
      {next : List Expr → Act Number}
      (hnext : ∀ body, Keeps SameIndex (next body)) :
      (finalState ((Session.parse text path >>= next) session)).index =
        (Token.scan session.index path text).2 := by
    have hsame :=
      Keeps.behind sameIndex_refl (Session.parse text path) hnext session
    rw [hsame, index_parse hprocedures]
  cases call with
  | run text path =>
      refine hbehind fun body between => ?_
      refine (execute_sameIndex .effectful body).bind sameIndex_trans
        (fun number => ?_) _
      exact (announce_sameIndex "Result:" number).bind sameIndex_trans
        fun _ _ => rfl
  | evaluate text =>
      exact hbehind fun body => execute_sameIndex .pureAttempt body
  | parse text path => exact index_parse hprocedures text path
  | setLanguage language => rfl
  | reset => rfl

end Logo.Session
