import Logo.Proofs.Execution.Confined
import Logo.Proofs.Number.Constants
import Logo.Proofs.Program.LeftToRight
import Logo.Proofs.Scopes

/-!
# Arithmetic faults that escape from a session

Nearly all arithmetic that fails in a session ends in a complaint.  A fault that
escapes comes from a constant of too many digits, from an unguarded place of the
program or of a procedure that exists, or from an integer that is too long to be
announced.
-/

namespace Logo

open Vocabulary Execution

namespace Reader

theorem callee_ne_arithmetic
    {lexicon : Lexicon} {reader : Reader} {token : Token}
    {fault : ArithmeticFault} :
    reader.callee lexicon token ≠ .error (.arithmetic fault) := by
  intro herror
  unfold callee at herror
  split at herror
  next =>
    split at herror
    · cases herror
    · cases herror
    · cases herror
    · cases herror
  next =>
    split at herror
    · cases herror
    · cases herror

theorem instruction_ne_arithmetic
    {lexicon : Lexicon} {reader : Reader} {token : Token}
    {fault : ArithmeticFault} :
    reader.instruction lexicon token ≠ .error (.arithmetic fault) := by
  intro herror
  unfold instruction at herror
  split at herror
  next => cases herror
  next =>
    rcases Except.cases_of_bind_eq_error herror with
      hcallee | ⟨callee, -, herror⟩
    · exact callee_ne_arithmetic hcallee
    · split at herror
      · cases herror
      · cases herror

theorem close_ne_arithmetic
    {reader : Reader} {token : Token} {fault : ArithmeticFault} :
    reader.close token ≠ .error (.arithmetic fault) := by
  intro herror
  unfold close at herror
  split at herror
  next => cases herror
  next =>
    split at herror
    · split at herror
      · cases herror
      · cases herror
    · cases herror
  next =>
    split at herror
    · cases herror
    · cases herror
  next => cases herror

theorem expression_eq_arithmetic
    {lexicon : Lexicon} {reader : Reader} {token : Token}
    {fault : ArithmeticFault}
    (herror : reader.expression lexicon token = .error (.arithmetic fault)) :
    token.kind = .constant ∧ Number.constant token.text = .error fault := by
  unfold expression at herror
  split at herror
  next hkind =>
    split at herror
    next => cases herror
    next hconstant =>
      cases herror
      exact ⟨hkind, hconstant⟩
  next => cases herror
  next => exact absurd herror instruction_ne_arithmetic
  next => cases herror
  next => cases herror
  next => exact absurd herror close_ne_arithmetic
  next => exact absurd herror close_ne_arithmetic
  next => cases herror
  next => cases herror

theorem leader_ne_arithmetic
    {lexicon : Lexicon} {reader : Reader} {opener token : Token}
    {fault : ArithmeticFault} :
    reader.leader lexicon opener token ≠ .error (.arithmetic fault) := by
  intro herror
  unfold leader at herror
  split at herror
  next => cases herror
  next =>
    split at herror
    next => cases herror
    next =>
      rcases Except.cases_of_bind_eq_error herror with
        hcallee | ⟨callee, -, herror⟩
      · exact callee_ne_arithmetic hcallee
      · cases herror

/-- Only a constant makes the reader do arithmetic. -/
theorem step_eq_arithmetic
    {lexicon : Lexicon} {nesting : Nat} {reader : Reader} {token : Token}
    {fault : ArithmeticFault}
    (herror : step lexicon nesting reader token = .error (.arithmetic fault)) :
    token.kind = .constant ∧ Number.constant token.text = .error fault := by
  unfold step at herror
  split at herror
  next => cases herror
  next =>
    split at herror
    next => exact expression_eq_arithmetic herror
    next => exact expression_eq_arithmetic herror
    next => exact expression_eq_arithmetic herror
    next => split at herror <;> cases herror
    next => split at herror <;> cases herror
    next => split at herror <;> cases herror
    next => split at herror <;> cases herror
    next =>
      split at herror
      · cases herror
      · split at herror <;> cases herror
    next =>
      split at herror
      · cases herror
      · split at herror <;> cases herror
    next => exact absurd herror leader_ne_arithmetic

theorem steps_eq_arithmetic
    {lexicon : Lexicon} {nesting : Nat} {reader : Reader} {tokens : List Token}
    {fault : ArithmeticFault}
    (herror : steps lexicon nesting reader tokens =
      .error (.arithmetic fault)) :
    ∃ token ∈ tokens, token.kind = .constant ∧
      Number.constant token.text = .error fault := by
  induction tokens generalizing reader with
  | nil => cases herror
  | cons token rest ih =>
      rw [steps_cons] at herror
      rcases Except.cases_of_bind_eq_error herror with hstep | ⟨next, -, hrest⟩
      · exact ⟨token, List.mem_cons_self, step_eq_arithmetic hstep⟩
      · obtain ⟨found, hfound, hconstant⟩ := ih hrest
        exact ⟨found, List.mem_cons_of_mem token hfound, hconstant⟩

theorem read_eq_arithmetic
    {lexicon : Lexicon} {nesting : Nat} {arities : NameMap Nat}
    {tokens : List Token} {fault : ArithmeticFault}
    (herror : read lexicon nesting arities tokens =
      .error (.arithmetic fault)) :
    ∃ token ∈ tokens, token.kind = .constant ∧
      Number.constant token.text = .error fault := by
  rcases Except.cases_of_bind_eq_error herror with hsteps | ⟨last, -, hfinish⟩
  · exact steps_eq_arithmetic hsteps
  · unfold finish at hfinish
    split at hfinish <;> cases hfinish

end Reader

namespace Session

theorem procedures_ne_arithmetic {session : Session} {fault : ArithmeticFault} :
    session.procedures ≠ .error (.arithmetic fault) := by
  unfold procedures
  generalize session.world.bindings.functions = functions
  induction functions with
  | nil => nofun
  | cons function rest ih =>
      intro herror
      unfold aritiesOf at herror
      rw [List.mapM_cons] at herror
      rcases Except.cases_of_bind_eq_error herror with
        hfirst | ⟨arity, -, herror⟩
      · split at hfirst <;> cases hfirst
      · rcases Except.cases_of_bind_eq_error herror with
          hrest | ⟨arities, -, herror⟩
        · exact ih hrest
        · cases herror

theorem parseKnowing_eq_arithmetic
    {arities : NameMap Nat} {text : String} {path : Option String}
    {session after : Session} {fault : ArithmeticFault}
    (herror : parseKnowing arities text path session =
      .error (.arithmetic fault) after) :
    ∃ tokens, (Token.scan session.index path text).1 = .ok tokens ∧
      ∃ token ∈ tokens, token.kind = .constant ∧
        Number.constant token.text = .error fault := by
  rcases exists_of_bind_eq_error herror with
    hscan | ⟨tokens, between, hscan, herror⟩
  · unfold scan at hscan
    split at hscan <;> cases hscan
  · have htokens : (Token.scan session.index path text).1 = .ok tokens := by
      unfold scan at hscan
      split at hscan
      next heq =>
        cases hscan
        rw [heq]
      next => cases hscan
    refine ⟨tokens, htokens, ?_⟩
    rcases exists_of_bind_eq_error herror with hget | ⟨_, _, hget, herror⟩
    · cases hget
    cases hget
    rcases exists_of_bind_eq_error herror with hread | ⟨reader, last, -, herror⟩
    · exact Reader.read_eq_arithmetic (ofExcept_eq_error hread)
    · cases herror

/-- A text whose reading fails at arithmetic has a constant of too many
digits. -/
theorem parse_eq_arithmetic
    {text : String} {path : Option String} {session after : Session}
    {fault : ArithmeticFault}
    (herror : Session.parse text path session =
      .error (.arithmetic fault) after) :
    ∃ tokens, (Token.scan session.index path text).1 = .ok tokens ∧
      ∃ token ∈ tokens, token.kind = .constant ∧
        digitLimit < token.text.toList.countP Char.isDigit ∧
        fault = .tooManyDigits
          (some (token.text.toList.countP Char.isDigit)) := by
  rcases exists_of_bind_eq_error herror with hget | ⟨_, _, hget, hrest⟩
  · cases hget
  cases hget
  rcases exists_of_bind_eq_error hrest with
    hprocedures | ⟨arities, between, hprocedures, hknowing⟩
  · exact absurd (ofExcept_eq_error hprocedures) procedures_ne_arithmetic
  · have hbetween : between = session := (ofExcept_eq_ok hprocedures).2
    subst hbetween
    rcases exists_of_bind_eq_error hknowing with
      hparse | ⟨body, last, -, hremark⟩
    · obtain ⟨tokens, hscan, token, hmem, hkind, hconstant⟩ :=
        parseKnowing_eq_arithmetic hparse
      have hspelled : token.Spelled :=
        Token.IsScanned.spelled ⟨_, _, _, hscan⟩ token hmem
      unfold Token.Spelled at hspelled
      rw [hkind] at hspelled
      have hfault :=
        Number.constant_eq_error (WordKind.isConstant_of_of? hspelled) hconstant
      exact ⟨tokens, hscan, token, hmem, hkind, hfault⟩
    · cases hremark

theorem parseKnowing_report
    {arities : NameMap Nat} {text : String} {path : Option String}
    {session between : Session} {body : List Expr}
    (hparse : parseKnowing arities text path session = .ok body between) :
    between.report = session.report := by
  obtain ⟨tokens, scanned, hscan, hrest⟩ := exists_of_bind_eq_ok hparse
  obtain ⟨_, _, hget, hread⟩ := exists_of_bind_eq_ok hrest
  cases hget
  obtain ⟨reader, last, hreader, hpure⟩ := exists_of_bind_eq_ok hread
  have hscanned : scanned.report = session.report := by
    unfold scan at hscan
    split at hscan
    · cases hscan
      rfl
    · cases hscan
  have hlast : last = scanned := (ofExcept_eq_ok hreader).2
  cases hpure
  rw [hlast, hscanned]

theorem parse_verbose
    {text : String} {path : Option String} {session between : Session}
    {body : List Expr}
    (hparse : Session.parse text path session = .ok body between) :
    between.report.verbose = session.report.verbose := by
  obtain ⟨_, _, hget, hrest⟩ := exists_of_bind_eq_ok hparse
  cases hget
  obtain ⟨arities, known, hprocedures, hrest⟩ := exists_of_bind_eq_ok hrest
  obtain ⟨found, last, hknowing, hremark⟩ := exists_of_bind_eq_ok hrest
  have hknown : known = session := (ofExcept_eq_ok hprocedures).2
  have hlast : last.report = known.report := parseKnowing_report hknowing
  cases hremark
  change (last.report.remark _).verbose = session.report.verbose
  rw [← hknown, ← hlast]
  unfold Report.remark
  split <;> rfl

theorem announce_eq_arithmetic
    {label : String} {number : Number} {session after : Session}
    {fault : ArithmeticFault}
    (herror : announce label number session =
      .error (.arithmetic fault) after) :
    session.report.verbose = true ∧ number.text = .error fault := by
  unfold announce at herror
  split at herror
  next => cases herror
  next hannounce =>
    cases herror
    unfold Report.announce at hannounce
    split at hannounce
    next hverbose =>
      split at hannounce
      next => cases hannounce
      next htext =>
        cases hannounce
        exact ⟨hverbose, htext⟩
    next => cases hannounce

/-- The sessions that a host can get to by calls. -/
def Reachable (session : Session) : Prop :=
  ∃ language report observers draws calls,
    session = (start language report observers draws).performAll calls

theorem callable_perform
    {session : Session} (hcallable : session.world.flock.Callable)
    (call : Call) :
    (session.perform call).world.flock.Callable := by
  rcases perform_world_cases session call with
    hsame | ⟨text, path, body, between, -, hrun⟩ |
    ⟨text, body, between, -, hrun⟩ | hreset
  · rw [hsame]
    exact hcallable
  · have hrested : (rested session.world).flock.Callable :=
      hcallable.clearMotion
    rw [hrun]
    exact callable_program hrested _ _ _
  · rw [hrun]
    exact callable_program hcallable _ _ _
  · rw [hreset]
    exact Flock.callable_fresh

theorem callable_performAll
    {session : Session} (hcallable : session.world.flock.Callable)
    (calls : List Call) :
    (session.performAll calls).world.flock.Callable := by
  induction calls generalizing session with
  | nil => exact hcallable
  | cons call rest ih => exact ih (callable_perform hcallable call)

theorem Reachable.callable {session : Session} (hsession : session.Reachable) :
    session.world.flock.Callable := by
  obtain ⟨language, report, observers, draws, calls, rfl⟩ := hsession
  exact callable_performAll Flock.callable_fresh calls

theorem Reachable.frames {session : Session} (hsession : session.Reachable) :
    session.world.bindings.frames = [] := by
  obtain ⟨language, report, observers, draws, calls, rfl⟩ := hsession
  exact frames_performAll rfl calls

/-- The arithmetic fault that a call of a session fails with, if it fails with
one. -/
def escaped? {α : Type} : EStateM.Result Fault Session α →
    Option ArithmeticFault
  | .error (.arithmetic fault) _ => some fault
  | _ => none

theorem eq_error_of_escaped?
    {α : Type} {result : EStateM.Result Fault Session α}
    {fault : ArithmeticFault} (hescaped : escaped? result = some fault) :
    ∃ after, result = .error (.arithmetic fault) after := by
  unfold escaped? at hescaped
  split at hescaped
  next after =>
    cases hescaped
    exact ⟨after, rfl⟩
  next => cases hescaped

/-- The world in which a text is executed.  Before a run the flock forgets how
its turtles have moved. -/
def worldFor (session : Session) : Mode → World
  | .effectful => rested session.world
  | .pureAttempt => session.world

/-- Where an arithmetic fault can come from that escapes from a text: a constant
of too many digits, an expression of the text or of an existing procedure at
which the execution fails, for an integer met there that is too large, or a
result that is announced and has too many digits. -/
inductive Escape (session : Session) (mode : Mode) (text : String)
    (path : Option String) :
    ArithmeticFault → Prop where
  | constant {tokens : List Token} {token : Token}
      (hscan : (Token.scan session.index path text).1 = .ok tokens)
      (htoken : token ∈ tokens) (hkind : token.kind = .constant)
      (hdigits : digitLimit < token.text.toList.countP Char.isDigit) :
      Escape session mode text path
        (.tooManyDigits (some (token.text.toList.countP Char.isDigit)))
  | unguarded {body : List Expr} {between : Session} {part : Expr} {depth : Nat}
      {inner : Mode} {met : World}
      (hparse : Session.parse text path session = .ok body between)
      (hpart : part.OccursIn body session.world)
      (hinner : inner = .effectful → mode = .effectful)
      (hunguarded : part.Unguarded session.limits.turns depth inner met)
      (hfails : FailsAt session.limits mode body
        (session.worldFor mode) depth inner part met) :
      Escape session mode text path .integerTooLarge
  | result {body : List Expr} {between : Session} {n : Int} {world : World}
      (hmode : mode = .effectful) (hverbose : session.report.verbose = true)
      (hparse : Session.parse text path session = .ok body between)
      (hrun :
        program session.limits mode body (rested session.world) =
          .ok (.integer n) world)
      (hdigits : Nat.pow 10 digitLimit ≤ n.natAbs) :
      Escape session mode text path (.tooManyDigits none)

theorem escape_of_parse
    {text : String} {path : Option String} {session after : Session}
    {fault : ArithmeticFault}
    (herror : Session.parse text path session =
      .error (.arithmetic fault) after) (mode : Mode) :
    session.Escape mode text path fault := by
  obtain ⟨tokens, hscan, token, htoken, hkind, hdigits, rfl⟩ :=
    parse_eq_arithmetic herror
  exact .constant hscan htoken hkind hdigits

theorem escape_of_run
    {session : Session} (hsession : session.Reachable) {text : String}
    {path : Option String} {fault : ArithmeticFault} {after : Session}
    (herror : Session.run text path session =
      .error (.arithmetic fault) after) :
    session.Escape .effectful text path fault := by
  rcases exists_of_bind_eq_error herror with
    hparse | ⟨body, between, hparse, hrest⟩
  · exact escape_of_parse hparse _
  rcases exists_of_bind_eq_error hrest with
    hmodify | ⟨_, ready, hmodify, hexecute⟩
  · cases hmodify
  cases hmodify
  have hbetween := parse_ok_undisturbed hparse
  rcases exists_of_bind_eq_error hexecute with
    hfails | ⟨number, last, hvalue, hannounce⟩
  · obtain ⟨world, hrun⟩ := execute_eq_error hfails
    dsimp only at hrun
    rw [hbetween.1, hbetween.2] at hrun
    have hframes : (rested session.world).bindings.frames = [] :=
      hsession.frames
    obtain ⟨rfl, part, depth, inner, met, hpart, hinner, hunguarded, hfails⟩ :=
      program_eq_arithmetic hsession.callable.clearMotion hframes hrun
    exact .unguarded hparse hpart hinner hunguarded hfails
  · obtain ⟨hreport, world, hrun⟩ := execute_eq_ok hvalue
    dsimp only at hreport hrun
    rw [hbetween.1, hbetween.2] at hrun
    rcases exists_of_bind_eq_error hannounce with hfails | ⟨_, _, _, hpure⟩
    · obtain ⟨hverbose, htext⟩ := announce_eq_arithmetic hfails
      obtain ⟨rfl, n, rfl, hdigits⟩ := Number.text_eq_error htext
      rw [hreport, parse_verbose hparse] at hverbose
      exact .result rfl hverbose hparse hrun hdigits
    · cases hpure

theorem escape_of_evaluate
    {session : Session} (hsession : session.Reachable) {text : String}
    {fault : ArithmeticFault} {after : Session}
    (herror : Session.evaluate text session =
      .error (.arithmetic fault) after) :
    session.Escape .pureAttempt text none fault := by
  rcases exists_of_bind_eq_error herror with
    hparse | ⟨body, between, hparse, hfails⟩
  · exact escape_of_parse hparse _
  · have hbetween := parse_ok_undisturbed hparse
    obtain ⟨world, hrun⟩ := execute_eq_error hfails
    rw [hbetween.1, hbetween.2] at hrun
    obtain ⟨rfl, part, depth, inner, met, hpart, hinner, hunguarded, hfails⟩ :=
      program_eq_arithmetic hsession.callable hsession.frames hrun
    exact .unguarded hparse hpart hinner hunguarded hfails

/-- A text begins with a loop, and the number of its turns is an integer that is
too large. -/
def CountsTooFar
    (session : Session) (mode : Mode) (world : World) (text : String)
    (path : Option String) :
    Prop :=
  ∃ loop limit rest between depth number after,
    Session.parse text path session = .ok (loop :: rest) between ∧
      loop.turns? = some limit ∧ session.limits.depth = depth + 1 ∧
      Execution.execute session.limits.turns depth mode limit world =
        .ok number after ∧
      number.IsOversize

theorem execute_of_program
    {mode : Mode} {body : List Expr} {session : Session} {fault : Fault}
    {world : World}
    (hrun : program session.limits mode body session.world =
      .error fault world) :
    Session.execute mode body session = .error fault
      { session with world := world } := by
  unfold Session.execute
  rw [hrun]

theorem escaped?_run_of_countsTooFar
    {session : Session} {text : String} {path : Option String}
    (hfar : session.CountsTooFar .effectful (rested session.world) text path) :
    escaped? (Session.run text path session) = some .integerTooLarge := by
  obtain ⟨loop, limit, rest, between, depth, number, after, hparse, hturns,
    hdepth, hlimit, hlarge⟩ := hfar
  obtain ⟨hworld, hlimits⟩ := parse_ok_undisturbed hparse
  let settle (session : Session) : Session :=
    { session with
      world := { session.world with flock := session.world.flock.clearMotion } }
  let ready := settle between
  have hprogram :
      program ready.limits .effectful (loop :: rest) ready.world =
        .error (.arithmetic .integerTooLarge) after := by
    have hready : ready.world = rested session.world := by
      rw [← hworld]
      rfl
    rw [hready, show ready.limits = session.limits from hlimits]
    exact program_of_turns? hdepth hturns hlimit hlarge
  have hmodify : (modify settle : Act PUnit) between = .ok ⟨⟩ ready := rfl
  have hexecute := execute_of_program hprogram
  unfold Session.run
  rw [bind_eq_of_ok hparse, bind_eq_of_ok hmodify, bind_eq_of_error hexecute]
  rfl

theorem escaped?_evaluate_of_countsTooFar
    {session : Session} {text : String}
    (hfar : session.CountsTooFar .pureAttempt session.world text none) :
    escaped? (Session.evaluate text session) = some .integerTooLarge := by
  obtain ⟨loop, limit, rest, between, depth, number, after, hparse, hturns,
    hdepth, hlimit, hlarge⟩ := hfar
  obtain ⟨hworld, hlimits⟩ := parse_ok_undisturbed hparse
  have hprogram :
      program between.limits .pureAttempt (loop :: rest) between.world =
        .error (.arithmetic .integerTooLarge) after := by
    rw [hworld, hlimits]
    exact program_of_turns? hdepth hturns hlimit hlarge
  have hexecute := execute_of_program hprogram
  unfold Session.evaluate
  rw [bind_eq_of_ok hparse, hexecute]
  rfl

/-- Arithmetic that fails ends in a complaint, whatever the size of the numbers,
but for three places.  An arithmetic fault that escapes from a run or an
evaluation, after any calls, comes from a constant of more digits than are ever
read, from a loop or a measured command of the program or of an existing
procedure that meets, in the world that the execution has come to when it fails
there, an integer too large for double precision, or from a result of a run that
has more digits than are ever written and is to be announced.  Nothing else lets
one escape: no operator, no change of a turtle and no call of a turtle by its
number.  A text that begins with a loop of too many turns never gets a
complaint. -/
theorem arithmetic_escapes_only_where_unguarded
    {session : Session} (hsession : session.Reachable) (text : String) :
    (∀ path fault, escaped? (Session.run text path session) = some fault →
      session.Escape .effectful text path fault) ∧
    (∀ fault, escaped? (Session.evaluate text session) = some fault →
      session.Escape .pureAttempt text none fault) ∧
    (∀ path, session.CountsTooFar .effectful (rested session.world) text path →
      escaped? (Session.run text path session) = some .integerTooLarge) ∧
    (session.CountsTooFar .pureAttempt session.world text none →
      escaped? (Session.evaluate text session) = some .integerTooLarge) := by
  refine ⟨?_, ?_,
    fun _ => escaped?_run_of_countsTooFar, escaped?_evaluate_of_countsTooFar⟩
  · intro path fault hescaped
    obtain ⟨after, herror⟩ := eq_error_of_escaped? hescaped
    exact escape_of_run hsession herror
  · intro fault hescaped
    obtain ⟨after, herror⟩ := eq_error_of_escaped? hescaped
    exact escape_of_evaluate hsession herror

/-- A turtle is sent to a place that an earlier run has computed, too far away
to be measured. -/
theorem setxy_out_of_reach_escapes :
    let session :=
      (start "English" (Report.fresh false none) 0 (Draws.seeded 0)).performAll
        [.run "make :n 9 repeat 10 [ make :n * :n :n ]" none]
    escaped? (Session.run "setxy :n 0" none session) = some .integerTooLarge ∧
      session.Escape .effectful "setxy :n 0" none .integerTooLarge := by
  intro session
  have hsession : session.Reachable := ⟨_, _, _, _, _, rfl⟩
  have hescaped : escaped? (Session.run "setxy :n 0" none session) =
      some .integerTooLarge := by
    decide +kernel
  have hall := arithmetic_escapes_only_where_unguarded hsession "setxy :n 0"
  exact ⟨hescaped, hall.1 none _ hescaped⟩

/-- A loop whose number of turns is too large for double precision fails without
a complaint. -/
theorem repeat_out_of_range_escapes :
    escaped?
      (Session.run "make :n 9 repeat 10 [ make :n * :n :n ] repeat :n [ ]" none
        (start "English" (Report.fresh false none) 0 (Draws.seeded 0))) =
      some .integerTooLarge := by
  decide +kernel

end Session

end Logo
