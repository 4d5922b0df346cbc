import Logo.Proofs.Execution.RunsAlike
import Logo.Proofs.Program.Joined
import Logo.Proofs.Session.Escapes
import Logo.Proofs.Session.Failures

/-!
# Running a program piece by piece

A program text can be run as a whole, or its first lines first and then the rest
in the session they leave.  As long as the words of the rest are read with the
same procedures, the outcome is the same: the same value or the same error, the
same table, the same turtles.  Two things tell the two ways apart: where the
words lie, and that a run makes the turtles forget whether they have moved.
-/

namespace Logo

open Execution

/-! ## Errors -/

namespace Complaint

/-- The classes of complaints. -/
inductive Kind where
  | unrecognized
  | malformed
  | undefined
  | noLocalScope
  | illTyped
  | mishap
  | impure
deriving Repr, DecidableEq

def kind : Complaint → Kind
  | .unrecognized .. => .unrecognized
  | .malformed .. => .malformed
  | .undefined .. => .undefined
  | .noLocalScope _ => .noLocalScope
  | .illTyped .. => .illTyped
  | .mishap .. => .mishap
  | .impure _ => .impure

end Complaint

/-- Two faults of the same class and with the same message, wherever their words
are looked up. -/
inductive Fault.SameError : Fault → Fault → Prop where
  | complaint {complaint complaint' : Complaint}
      (hkind : complaint.kind = complaint'.kind)
      (hmessage : ∀ index index',
        complaint.message index = complaint'.message index') :
      SameError (.complaint complaint) (.complaint complaint')
  | same (fault : Fault) : SameError fault fault

theorem Quoted.eq_of_sameWord
    {word word' : String} (hword : Quoted Token.SameWord word word') :
    word = word' := by
  cases hword with
  | same => rfl
  | token htoken => exact htoken.text

theorem Mishap.Alike.eq_of_sameWord
    {mishap mishap' : Mishap} (hmishap : mishap.Alike Token.SameWord mishap') :
    mishap = mishap' := by
  cases hmishap with
  | same => rfl
  | failed hword fault => rw [hword.eq_of_sameWord]

theorem Fault.sameError_mishap (mishap : Mishap)
    (place place' : Option Phrase) :
    SameError (.complaint (.mishap mishap place))
      (.complaint (.mishap mishap place')) :=
  .complaint rfl fun _ _ => rfl

theorem Fault.InStep.sameError
    {fault fault' : Fault} (hfault : fault.InStep Token.SameWord fault') :
    fault.SameError fault' := by
  cases hfault with
  | mishap hmishap hplace =>
      rw [hmishap.eq_of_sameWord]
      exact sameError_mishap _ _ _
  | undefined name hplace => exact .complaint rfl fun _ _ => rfl
  | noLocalScope name => exact .same _
  | impure hplace => exact .complaint rfl fun _ _ => rfl
  | arithmetic fault => exact .same _
  | broken breach => exact .same _
  | tooDeep => exact .same _
  | unfinished => exact .same _

/-! ## Programs -/

namespace Execution

/-- Only where there is nothing to execute, the value before matters. -/
theorem inOrder_of_ne_nil
    {body : List Expr} (hbody : body ≠ []) (run : Expr → Action Number)
    (result other : Number) :
    inOrder run result body = inOrder run other body := by
  cases body with
  | nil => exact absurd rfl hbody
  | cons expr rest => rfl

theorem inOrder_of_program
    {limits : Limits} {mode : Mode} {body : List Expr} {world after : World}
    {value : Number} (hrun : program limits mode body world = .ok value after) :
    inOrder (execute limits.turns limits.depth mode) 0 body world =
      .ok value after := by
  unfold program at hrun
  split at hrun
  next => cases hrun
  next => exact hrun

end Execution

/-- The outcomes of a whole program and of its last part, in states that hold a
world. -/
inductive Outcome.Alike (moved : Nat → Bool) {σ : Type} (worldOf : σ → World) :
    EStateM.Result Fault σ Number → EStateM.Result Fault σ Number → Prop where
  | value (number : Number) {whole part : σ}
      (hworld : (worldOf whole).Ahead Token.SameWord moved (worldOf part)) :
      Alike moved worldOf (.ok number whole) (.ok number part)
  | failure {fault fault' : Fault} {whole part : σ}
      (hfault : fault.SameError fault')
      (hworld : (worldOf whole).Ahead Token.SameWord moved (worldOf part)) :
      Alike moved worldOf (.error fault whole) (.error fault' part)

/-- Executions that keep step make programs that end alike.  A program that is
nested too deeply is blamed as a whole, so only the place of the complaint
depends on its other parts. -/
theorem alike_program
    {limits : Limits} {mode : Mode} {body body' : List Expr}
    {world world' : World} {moved : Nat → Bool}
    (hrun :
      Outcome.InStep Token.SameWord moved Eq
        (inOrder (execute limits.turns limits.depth mode) 0 body world)
        (inOrder (execute limits.turns limits.depth mode) 0 body' world')) :
    Outcome.Alike moved id (program limits mode body world)
      (program limits mode body' world') := by
  unfold program
  generalize inOrder (execute limits.turns limits.depth mode) 0 body world =
    outcome at hrun
  generalize inOrder (execute limits.turns limits.depth mode) 0 body' world' =
    outcome' at hrun
  cases hrun with
  | value hvalue hfinal =>
      cases hvalue
      exact .value _ hfinal
  | failure hfault hfinal =>
      have hsame := hfault.sameError
      cases hfault with
      | tooDeep => exact .failure (Fault.sameError_mishap _ _ _) hfinal
      | _ => exact .failure hsame hfinal

/-- A world is ahead of itself at rest by the motion of the run that led to
it. -/
theorem World.Similar.ahead_rested
    {world between : World} (hworld : world.Similar Token.SameWord between)
    (hsound : between.flock.Sound) :
    world.Ahead Token.SameWord between.flock.hasMoved
      (Session.rested between) where
  bindings := hworld.bindings
  flock := by
    rw [hworld.flock]
    exact Flock.ahead_clearMotion hsound.sorted
  draws := hworld.draws
  marks := hworld.marks

/-- A program whose first part has been executed goes on as its last part does
behind a rest. -/
theorem program_joined
    {limits : Limits} {first last body body' : List Expr}
    (hfirst : List.Forall₂ (Expr.Similar Token.SameWord) body first)
    (hlast : List.Forall₂ (Expr.Similar Token.SameWord) body' last)
    (hnonempty : last ≠ []) {world between : World} {value : Number}
    (hrun : program limits .effectful first world = .ok value between)
    (hsound : between.flock.Sound) :
    Outcome.Alike between.flock.hasMoved id
      (program limits .effectful (body ++ body') world)
      (program limits .effectful last (Session.rested between)) := by
  apply alike_program
  have hnonempty' : body' ≠ [] := by
    rintro rfl
    cases hlast
    exact hnonempty rfl
  have hbegun :=
    inStep_body Token.sameWord_refl limits .effectful hfirst world world
      world.similar_refl.ahead
  rw [inOrder_of_program hrun] at hbegun
  generalize hwhole :
    inOrder (execute limits.turns limits.depth .effectful) 0 body world =
      outcome at hbegun
  cases hbegun with
  | value hvalue hbetween =>
      rw [inOrder_append, bind_eq_of_ok hwhole,
        inOrder_of_ne_nil hnonempty' _ _ 0]
      exact inStep_body Token.sameWord_refl limits .effectful hlast _ _
        (hbetween.similar.ahead_rested hsound)

/-! ## Sessions -/

namespace Session

/-- The sessions that a host can get to, by calls and by its own work on the
table. -/
inductive Visited : Session → Prop where
  | start (limits : Limits) (language : String) (report : Report)
      (observers : Nat) (draws : Draws) :
      Visited (startWithin limits language report observers draws)
  | call {session : Session} (hsession : Visited session) (call : Call) :
      Visited (session.perform call)
  | table {session : Session} (hsession : Visited session) {α : Type}
      (change : Bindings → α × Bindings) : Visited (session.onBindings change).2

theorem Visited.sound {session : Session} (hsession : session.Visited) :
    session.world.flock.Sound := by
  induction hsession with
  | start limits language report observers draws => exact Flock.sound_fresh
  | call _ call ih =>
      have hworld := World.sound_of_flock ih
      exact (sound_perform hereditary_true hworld fun _ _ _ _ _ _ _ _ =>
        trivial).flock
  | table _ change ih => exact ih

/-- The numbers of inputs that are known behind a text, if it can be read. -/
def knownAfter (session : Session) (text : String) (path : Option String) :
    Except Fault (NameMap Nat) := do
  let arities ← session.procedures
  match (Token.scan session.index path text).1 with
  | .error token => throw (.complaint (.unrecognized token.text (some token)))
  | .ok tokens =>
    return (← Reader.read session.lexicon session.limits.nesting arities
      tokens).arities

/-- A run in one view: the program, then a word about its value. -/
theorem run_eq
    {text : String} {path : Option String} {session between : Session}
    {body : List Expr}
    (hparse : Session.parse text path session = .ok body between) :
    Session.run text path session =
      match program session.limits .effectful body (rested session.world) with
      | .error fault world => .error fault { between with world := world }
      | .ok number world =>
        match between.report.announce "Result:" number with
        | (.ok (), report) =>
          .ok number { between with world := world, report := report }
        | (.error fault, report) =>
          .error (.arithmetic fault)
            { between with world := world, report := report } := by
  obtain ⟨hworld, hlimits⟩ := parse_ok_undisturbed hparse
  unfold Session.run
  rw [bind_eq_of_ok hparse, ← hworld, ← hlimits]
  change
    (Session.execute .effectful body >>= fun number =>
      announce "Result:" number >>= fun _ => pure number)
        { between with world := rested between.world } = _
  cases hprogram :
    program between.limits .effectful body (rested between.world) with
  | error fault world =>
      apply bind_eq_of_error
      unfold Session.execute
      rw [hprogram]
  | ok number world =>
      have hexecute :
          Session.execute .effectful body
            { between with world := rested between.world } =
            .ok number { between with world := world } := by
        unfold Session.execute
        rw [hprogram]
      rw [bind_eq_of_ok hexecute]
      simp only
      split
      next report hannounce =>
        apply bind_eq_of_ok
        unfold announce
        rw [hannounce]
      next fault report hannounce =>
        apply bind_eq_of_error
        unfold announce
        rw [hannounce]

/-- Whether a value can be said depends on the value, and on whether anything is
to be said. -/
theorem announce_of_verbose
    {report report' : Report} (hverbose : report.verbose = report'.verbose)
    (label : String) (number : Number) :
    (report.announce label number).1 = (report'.announce label number).1 := by
  unfold Report.announce
  rw [hverbose]
  split
  · cases number.text <;> rfl
  · rfl

theorem verbose_announce (report : Report) (label : String) (number : Number) :
    (report.announce label number).2.verbose = report.verbose := by
  unfold Report.announce
  split
  · cases number.text <;> rfl
  · rfl

/-- What is behind a run that succeeds. -/
theorem run_eq_ok
    {text : String} {path : Option String} {session after : Session}
    {value : Number} (hrun : Session.run text path session = .ok value after) :
    ∃ body between, Session.parse text path session = .ok body between ∧
      program session.limits .effectful body (rested session.world) =
        .ok value after.world ∧
      after.lexicon = between.lexicon ∧ after.limits = between.limits ∧
      after.report.verbose = session.report.verbose := by
  cases hparse : Session.parse text path session with
  | error fault between =>
      unfold Session.run at hrun
      rw [bind_eq_of_error hparse] at hrun
      cases hrun
  | ok body between =>
      rw [run_eq hparse] at hrun
      split at hrun
      next => cases hrun
      next number world hprogram =>
        have hsilent := verbose_announce between.report "Result:" number
        split at hrun
        next report hannounce =>
          rw [hannounce, parse_verbose hparse] at hsilent
          cases hrun
          exact ⟨body, between, rfl, hprogram, rfl, rfl, hsilent⟩
        next => cases hrun

/-- Runs of programs that end alike end alike. -/
theorem alike_run
    {text text' : String} {path path' : Option String}
    {session session' between between' : Session}
    {body body' : List Expr} {moved : Nat → Bool}
    (hparse : Session.parse text path session = .ok body between)
    (hparse' : Session.parse text' path' session' = .ok body' between')
    (hverbose : session.report.verbose = session'.report.verbose)
    (hprogram :
      Outcome.Alike moved id
        (program session.limits .effectful body (rested session.world))
        (program session'.limits .effectful body' (rested session'.world))) :
    Outcome.Alike moved (·.world) (Session.run text path session)
      (Session.run text' path' session') := by
  have hsaid : between.report.verbose = between'.report.verbose := by
    rw [parse_verbose hparse, parse_verbose hparse', hverbose]
  rw [run_eq hparse, run_eq hparse']
  generalize program session.limits .effectful body (rested session.world) =
    outcome at hprogram
  generalize program session'.limits .effectful body' (rested session'.world) =
    outcome' at hprogram
  cases hprogram with
  | failure hfault hworld => exact .failure hfault hworld
  | value number hworld =>
      have hsame := announce_of_verbose hsaid "Result:" number
      simp only
      generalize between.report.announce "Result:" number = said at hsame
      generalize between'.report.announce "Result:" number = said' at hsame
      obtain ⟨result, report⟩ := said
      obtain ⟨result', report'⟩ := said'
      cases hsame
      cases result with
      | ok _ => exact .value number hworld
      | error fault => exact .failure (.same _) hworld

theorem knownAfter_of_parse
    {text : String} {path : Option String} {session : Session}
    {arities : NameMap Nat} {tokens : List Token} {index : Source.Index}
    {reader : Reader} (hprocedures : session.procedures = .ok arities)
    (hscan : Token.scan session.index path text = (.ok tokens, index))
    (hread : Reader.read session.lexicon session.limits.nesting arities
      tokens = .ok reader) :
    session.knownAfter text path = .ok reader.arities := by
  unfold knownAfter
  rw [hprocedures, hscan]
  simp only [bind, Except.bind]
  rw [hread]
  rfl

/-- Running a program piece by piece is running it as a whole.  When a first
text runs without an error, leaves the procedures that its words were read with,
and a second text with at least one instruction can be read then, both texts
with a line end between them can be read as one.  Running this ends alike with
running the second text behind the first: with the same value, or an error of
the same class with the same message.  In the table there is the same in the
same order, up to the places of the words in stored procedures.  The flocks are
the same, except that the turtles which have moved in the first text still count
as moved, and as many random numbers have been drawn. -/
theorem runs_whole_as_piece_by_piece
    {session after between : Session} (hsession : session.Visited)
    {text more : String} {path path' : Option String} {value : Number}
    {known procedures : NameMap Nat} {body : List Expr}
    (hrun : Session.run text path session = .ok value after)
    (hknown : session.knownAfter text path = .ok known)
    (hprocedures : after.procedures = .ok procedures)
    (hagree : known.Agree procedures)
    (hparse : Session.parse more path' after = .ok body between)
    (hbody : body ≠ []) (name : Option String) :
    (∃ whole ready, Session.parse (text ++ "\n" ++ more) name session =
      .ok whole ready) ∧ Outcome.Alike after.world.flock.hasMoved (·.world)
        (Session.run (text ++ "\n" ++ more) name session)
        (Session.run more path' after) := by
  obtain ⟨first, ready, hfirst, hprogram, hlexicon, hlimits, hverbose⟩ :=
    run_eq_ok hrun
  have hsound : after.world.flock.Sound := by
    have hvisited := (hsession.call (.run text path)).sound
    rw [perform, hrun] at hvisited
    exact hvisited
  obtain ⟨arities, tokens, index, reader, harities, hscan, hread, rfl, rfl⟩ :=
    parse_eq_ok hfirst
  obtain ⟨arities', others, index', last, harities', hscan', hmore, rfl, -⟩ :=
    parse_eq_ok hparse
  obtain rfl : reader.arities = known := by
    rw [knownAfter_of_parse harities hscan hread] at hknown
    exact Except.ok.inj hknown
  obtain rfl : arities' = procedures := by
    rw [harities'] at hprocedures
    exact Except.ok.inj hprocedures
  have hlimits : after.limits = session.limits := hlimits
  have hlexicon : after.lexicon = session.lexicon := hlexicon
  rw [hlexicon, hlimits] at hmore
  obtain ⟨tokens', others', final, hwords, htokens, hothers⟩ :=
    Token.scan_joined hscan hscan' session.index name
  obtain ⟨whole, body, body', hwhole, hsplit, hbegun, hgone⟩ :=
    Reader.read_joined hread hmore hagree htokens hothers
  have hparsed :
      Session.parse (text ++ "\n" ++ more) name session =
        .ok whole.body (session.heardOut final whole.body) := by
    rw [parse_eq, harities]
    simp only [hwords, hwhole]
  refine ⟨⟨_, _, hparsed⟩, alike_run hparsed hparse hverbose.symm ?_⟩
  rw [hsplit, hlimits]
  exact program_joined hbegun hgone hbody hprogram hsound

/-- Whether a second text can follow a first one piece by piece as it can in one
text. -/
def follows (session : Session) (text more : String) : Bool :=
  match Session.run text none session with
  | .error _ _ => false
  | .ok _ after =>
    match session.knownAfter text none, after.procedures,
      Session.parse more none after with
    | .ok known, .ok procedures, .ok body _ =>
      known == procedures && !body.isEmpty
    | _, _, _ => false

theorem exists_of_follows
    {session : Session} {text more : String}
    (hfollows : session.follows text more = true) :
    ∃ value after known body between,
      Session.run text none session = .ok value after ∧
      session.knownAfter text none = .ok known ∧ after.procedures = .ok known ∧
      Session.parse more none after = .ok body between ∧ body ≠ [] := by
  unfold follows at hfollows
  split at hfollows
  next => cases hfollows
  next value after hrun =>
    split at hfollows
    next known procedures body between hknown hprocedures hparse =>
      simp only [Bool.and_eq_true, beq_iff_eq, Bool.not_eq_true',
        List.isEmpty_eq_false_iff]
        at hfollows
      obtain ⟨rfl, hbody⟩ := hfollows
      exact ⟨value, after, known, body, between, hrun, hknown, hprocedures,
        hparse, hbody⟩
    next => cases hfollows

/-- A remark ends the first text, and the second text fails in its last
instruction. -/
theorem hop_runs_whole_as_piece_by_piece :
    let unused :=
      startWithin .standard "English" (Report.fresh true none) 0
        (Draws.seeded 0)
    let text := "to hop [ ] [ fd 5 ] # once"
    let more := "hop fd :y"
    ∃ value after known body between,
      Session.run text none unused = .ok value after ∧
      unused.knownAfter text none = .ok known ∧ after.procedures = .ok known ∧
      Session.parse more none after = .ok body between ∧ body ≠ [] ∧
      (∃ whole ready, Session.parse (text ++ "\n" ++ more) none unused =
        .ok whole ready) ∧
      Outcome.Alike after.world.flock.hasMoved (·.world)
        (Session.run (text ++ "\n" ++ more) none unused)
        (Session.run more none after) := by
  intro unused text more
  have hfollows : unused.follows text more = true := by decide +kernel
  have hvisited : unused.Visited := .start _ _ _ _ _
  obtain ⟨value, after, known, body, between, hrun, hknown, hprocedures,
      hparse, hbody⟩ :=
    exists_of_follows hfollows
  exact ⟨value, after, known, body, between, hrun, hknown, hprocedures,
    hparse, hbody, runs_whole_as_piece_by_piece hvisited hrun hknown hprocedures
      (fun _ => rfl) hparse hbody none⟩

end Session

end Logo
