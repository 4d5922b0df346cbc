import Logo.Proofs.Execution.Answered
import Logo.Proofs.Session.Failures

/-!
# Histories of well-scoped programs

In a history of calls, procedures are known from one text to the next, texts may
be run only in part, and a procedure may be defined anew.  If all texts define
their procedures at the top level, agree on the number of parameters of each
procedure and use its name for nothing else, every call that is ever executed
finds its procedure.
-/

namespace Logo

open Logo.Action Execution

/-! ## Well-scoped programs -/

def Expr.defined? : Expr → Option (String × Nat)
  | .define _ name params _ _ => some (name.procedureName, params.length)
  | _ => none

/-- An expression occurs in one of several programs, at any depth. -/
def OccursAmong (programs : List (List Expr)) (part : Expr) : Prop :=
  ∃ body ∈ programs, ∃ expr ∈ body, part.Within expr

structure WellScoped (programs : List (List Expr)) : Prop where
  /-- Nothing is defined inside of an instruction at the top level. -/
  topLevel : ∀ body ∈ programs, ∀ expr ∈ body, ∀ part ∈ expr.parts, part.Settled
  /-- Definitions of the same name have as many parameters. -/
  arities :
    ∀ part other name m n, OccursAmong programs part →
      OccursAmong programs other →
      part.defined? = some (name, m) → other.defined? = some (name, n) → m = n
  /-- No variable, no counter of a loop and no parameter has the name of a
  procedure. -/
  apart :
    ∀ part other name n, OccursAmong programs part →
      OccursAmong programs other →
      part.defined? = some (name, n) → name ∉ other.boundNames

/-- The definitions give every name that stands for a procedure its number of
parameters. -/
theorem WellScoped.exists_signature {programs : List (List Expr)}
    (hscoped : WellScoped programs) :
    ∃ signature : Signature, ∀ body ∈ programs, ∀ expr ∈ body,
      expr.Admissible signature := by
  classical
  let Defines (name : String) (n : Nat) : Prop :=
    ∃ part, OccursAmong programs part ∧ part.defined? = some (name, n)
  refine ⟨fun name => if h : ∃ n, Defines name n then some h.choose
    else none, ?_⟩
  intro body hbody expr hexpr
  refine ⟨hscoped.topLevel body hbody expr hexpr,
    fun part hpart name hname => ?_, ?_⟩
  · apply dif_neg
    rintro ⟨n, other, hother, hdefined⟩
    exact hscoped.apart other part name n hother
      ⟨body, hbody, expr, hexpr, hpart⟩ hdefined hname
  · rintro head name params brackets inner rfl
    have hoccurs :
        OccursAmong programs (.define head name params brackets inner) :=
      ⟨body, hbody, _, hexpr, .self⟩
    have hdefines : ∃ n, Defines name.procedureName n := ⟨_, _, hoccurs, rfl⟩
    obtain ⟨other, hother, hdefined⟩ := hdefines.choose_spec
    rw [dif_pos hdefines]
    exact congrArg some
      (hscoped.arities other _ _ _ _ hother hoccurs hdefined rfl)

/-- Whether some programs are well-scoped, as far as a depth, below which there
is nothing. -/
def isWellScopedDownTo (depth : Nat) (programs : List (List Expr)) : Bool :=
  let parts := programs.flatten.flatMap (Expr.flattened depth)
  let defined := parts.filterMap Expr.defined?
  programs.flatten.all (Expr.isShallow depth) &&
    programs.flatten.all (fun expr => expr.parts.all fun part =>
      part.isShallow depth && (part.flattened depth).all
        fun inner => !inner.isDefinition) &&
    defined.all
      (fun pair => defined.all fun other =>
        pair.1 ≠ other.1 || pair.2 = other.2) &&
    defined.all fun pair => parts.all fun part => pair.1 ∉ part.boundNames

theorem wellScoped_of_isWellScopedDownTo
    (depth : Nat) {programs : List (List Expr)}
    (hscoped : isWellScopedDownTo depth programs = true) :
    WellScoped programs := by
  simp only [isWellScopedDownTo, Bool.and_eq_true, List.all_eq_true,
    List.mem_filterMap, Bool.or_eq_true, decide_eq_true_eq, Bool.not_eq_true',
    Prod.forall] at hscoped
  obtain ⟨⟨⟨hshallow, htop⟩, harities⟩, hapart⟩ := hscoped
  have hparts {part : Expr} (hoccurs : OccursAmong programs part) :
      part ∈ programs.flatten.flatMap (Expr.flattened depth) := by
    obtain ⟨body, hbody, expr, hexpr, hpart⟩ := hoccurs
    have hmem := List.mem_flatten_of_mem hbody hexpr
    exact List.mem_flatMap.mpr
      ⟨expr, hmem, Expr.mem_flattened_of_within hpart (hshallow expr hmem)⟩
  constructor
  · intro body hbody expr hexpr part hpart inner hinner
    obtain ⟨hshallow, hnone⟩ :=
      htop expr (List.mem_flatten_of_mem hbody hexpr) part hpart
    exact hnone inner (Expr.mem_flattened_of_within hinner hshallow)
  · intro part other name m n hpart hother hdefined hdefined'
    have hsame :=
      harities name m ⟨part, hparts hpart, hdefined⟩ name n
        ⟨other, hparts hother, hdefined'⟩
    exact hsame.resolve_left fun hne => hne rfl
  · intro part other name n hpart hother hdefined
    exact hapart name n ⟨part, hparts hpart, hdefined⟩ other (hparts hother)

/-! ## The procedures of a lawful world -/

theorem mem_functions {bindings : Bindings} {name : String} {value : Value} :
    (name, value) ∈ bindings.functions ↔
      (name, .function value) ∈ bindings.entries := by
  unfold Bindings.functions
  rw [List.mem_filterMap]
  constructor
  · rintro ⟨⟨key, entry⟩, hmem, hsome⟩
    cases entry with
    | function other =>
        cases hsome
        exact hmem
    | _ => cases hsome
  · exact fun hmem => ⟨_, hmem, rfl⟩

namespace Session

theorem mem_aritiesOf
    {functions : List (String × Value)} {arities : NameMap Nat}
    (harities : aritiesOf functions = .ok arities) {name : String} {n : Nat} :
    (name, n) ∈ arities ↔ ∃ found, (name, .procedure found) ∈ functions ∧
      found.params.length = n := by
  unfold aritiesOf at harities
  induction functions generalizing arities with
  | nil =>
      cases harities
      simp
  | cons function rest ih =>
      rw [List.mapM_cons] at harities
      obtain ⟨first, hfirst, harities⟩ := Except.exists_of_bind_eq_ok harities
      obtain ⟨others, hothers, harities⟩ := Except.exists_of_bind_eq_ok harities
      cases harities
      obtain ⟨key, value⟩ := function
      cases value with
      | procedure procedure =>
          cases hfirst
          simp only [List.mem_cons, ih hothers, Prod.mk.injEq,
            Value.procedure.injEq]
          constructor
          · rintro (⟨rfl, rfl⟩ | ⟨found, hmem, hlength⟩)
            · exact ⟨procedure, .inl ⟨rfl, rfl⟩, rfl⟩
            · exact ⟨found, .inr hmem, hlength⟩
          · rintro ⟨found, ⟨rfl, rfl⟩ | hmem, hlength⟩
            · exact .inl ⟨rfl, hlength.symm⟩
            · exact .inr ⟨found, hmem, hlength⟩
      | _ => cases hfirst

variable {signature : Signature} {arities found : NameMap Nat}
  {session : Session}

theorem lawful_of_entries_eq_nil {world : World}
    (hentries : world.bindings.entries = []) :
    world.Lawful signature [] := by
  refine ⟨?_, fun _ _ hget => (by cases hget), fun _ _ hget => (by cases hget)⟩
  rw [hentries]
  exact fun _ hentry => absurd hentry List.not_mem_nil

/-- What the reader is told about the procedures is what the table holds. -/
theorem lawful_procedures
    (hworld : session.world.Lawful signature arities)
    (hfound : session.procedures = .ok found) :
    session.world.Lawful signature found := by
  have hmem {name : String} {n : Nat} (hget : found.get? name = some n) :
      ∃ procedure,
        (name, Entry.function (.procedure procedure)) ∈
            session.world.bindings.entries ∧
          procedure.params.length = n := by
    obtain ⟨procedure, hprocedure, hlength⟩ :=
      (mem_aritiesOf hfound).mp (NameMap.mem_of_get? hget)
    exact ⟨procedure, mem_functions.mp hprocedure, hlength⟩
  have hdeclared (name : String) (n : Nat) (hget : found.get? name = some n) :
      signature name = some n := by
    obtain ⟨procedure, hprocedure, rfl⟩ := hmem hget
    exact (hworld.entries _ hprocedure).arity procedure rfl
  have hle (name : String) (n : Nat) (hget : arities.get? name = some n) :
      found.get? name = some n := by
    obtain ⟨procedure, hentry, hlength, -⟩ := hworld.exists_procedure hget
    have hthere :=
      (mem_aritiesOf hfound).mpr
        ⟨procedure, mem_functions.mpr (NameMap.mem_of_get? hentry), hlength⟩
    obtain ⟨other, hother⟩ := NameMap.exists_of_mem hthere
    rw [hother, ← hdeclared name other hother, hworld.declared name n hget]
  refine ⟨fun binding hbinding => (hworld.entries binding hbinding).mono hle,
    hdeclared, ?_⟩
  intro name n hget
  obtain ⟨procedure, hprocedure, -⟩ := hmem hget
  exact Option.isSome_iff_exists.mpr (NameMap.exists_of_mem hprocedure)

/-! ## Calls -/

def programs (session : Session) : List Call → List (List Expr)
  | [] => []
  | call :: rest =>
    let read :=
      match call.heard? with
      | some (text, path) =>
        match Session.parse text path session with
        | .ok body _ => [body]
        | .error _ _ => []
      | none => []
    read ++ (session.perform call).programs rest

theorem mem_programs_cons
    {call : Call} {rest : List Call} {text : String} {path : Option String}
    {body : List Expr} {between : Session}
    (hheard : call.heard? = some (text, path))
    (hparse : Session.parse text path session = .ok body between) :
    body ∈ session.programs (call :: rest) := by
  simp [programs, hheard, hparse]

theorem programs_append (session : Session) (earlier later : List Call) :
    session.programs (earlier ++ later) =
      session.programs earlier ++
        (session.performAll earlier).programs later := by
  induction earlier generalizing session with
  | nil => rfl
  | cons call rest ih =>
      have hrest := ih (session.perform call)
      simp only [List.cons_append, programs, hrest, List.append_assoc]
      rfl

/-- A program runs lawfully wherever the table is that of the session. -/
theorem lawful_body
    (hworld : session.world.Lawful signature arities) {text : String}
    {path : Option String} {body : List Expr} {between : Session}
    (hparse : Session.parse text path session = .ok body between)
    (hbody : ∀ expr ∈ body, expr.Admissible signature) (world : World)
    (hentries : world.bindings.entries = session.world.bindings.entries)
    (alarm : Expr → Action Number) (mode : Mode) :
    ∃ after,
      Ending.Lawful signature after
        (inOrder
          (Execution.execute session.limits.turns session.limits.depth mode)
          0 body world)
        (inOrder
          (executeAlarmed alarm session.limits.turns session.limits.depth mode)
          0 body world) := by
  obtain ⟨known, tokens, index, reader, hknown, -, hread, rfl, -⟩ :=
    parse_eq_ok hparse
  obtain ⟨-, -, hreads⟩ := read_eq_ok_iff_reads.mp hread
  have hannounced :=
    hreads.announced fun expr hexpr => (hbody expr hexpr).settled
  have hstart := (lawful_procedures hworld hknown).of_entries hentries
  exact ⟨_, lawful_inOrder alarm _ _ mode hannounced hbody hstart⟩

theorem lawful_perform
    (hworld : session.world.Lawful signature arities) {call : Call}
    (hbody :
      ∀ text path body between, call.heard? = some (text, path) →
        Session.parse text path session = .ok body between →
          ∀ expr ∈ body, expr.Admissible signature) :
    ∃ known, (session.perform call).world.Lawful signature known := by
  have hprogram {text : String} {path : Option String} {body : List Expr}
      {between : Session} (hheard : call.heard? = some (text, path))
      (hparse : Session.parse text path session = .ok body between)
      (mode : Mode) (world : World)
      (hentries : world.bindings.entries = session.world.bindings.entries) :
      ∃ known,
        (finalState (program session.limits mode body world)).Lawful
          signature known := by
    obtain ⟨after, hends⟩ :=
      lawful_body hworld hparse
        (hbody text path body between hheard hparse) world
        hentries (fun _ => throw .tooDeep) mode
    rw [finalState_program]
    exact hends.world
  refine perform_world (J := fun world => ∃ known, world.Lawful signature known)
    ⟨_, hworld⟩ ?_ ?_ ?_
  · rintro text path body between rfl hparse
    exact hprogram rfl hparse .effectful (rested session.world) rfl
  · rintro text body between rfl hparse
    exact hprogram rfl hparse .pureAttempt session.world rfl
  · exact ⟨[], lawful_of_entries_eq_nil rfl⟩

theorem lawful_performAll
    (hworld : session.world.Lawful signature arities) {calls : List Call}
    (hprograms : ∀ body ∈ session.programs calls, ∀ expr ∈ body,
      expr.Admissible signature) :
    ∃ known, (session.performAll calls).world.Lawful signature known := by
  induction calls generalizing session arities with
  | nil => exact ⟨arities, hworld⟩
  | cons call rest ih =>
      have hcall :=
        lawful_perform hworld fun text path body between hheard hparse =>
          hprograms body (mem_programs_cons hheard hparse)
      obtain ⟨known, hknown⟩ := hcall
      exact ih hknown
        fun body hbody => hprograms body (List.mem_append_right _ hbody)

/-! ## Faults -/

theorem isMisdirected_of_aritiesOf
    {functions : List (String × Value)} {fault : Fault}
    (herror : aritiesOf functions = .error fault) :
    fault.isMisdirected = false := by
  unfold aritiesOf at herror
  induction functions with
  | nil => cases herror
  | cons function rest ih =>
      obtain ⟨name, value⟩ := function
      rw [List.mapM_cons] at herror
      cases value with
      | procedure procedure =>
          revert herror ih
          cases rest.mapM (m := Except Fault) _ with
          | ok arities => exact fun _ herror => (by cases herror)
          | error other => exact fun ih herror => ih herror
      | _ =>
          cases herror
          rfl

theorem isMisdirected_of_parse
    {text : String} {path : Option String} {between : Session} {fault : Fault}
    (herror : Session.parse text path session = .error fault between) :
    fault.isMisdirected = false := by
  rcases parse_eq_error herror with
    hprocedures | ⟨token, index, -, rfl⟩ | ⟨arities, tokens, index, -, hread⟩
  · exact isMisdirected_of_aritiesOf hprocedures
  · rfl
  · have houtcome :=
      Reader.outcome_read session.lexicon session.limits.nesting arities tokens
    rw [hread] at houtcome
    cases houtcome <;> rfl

theorem isMisdirected_of_program
    {limits : Limits} {mode : Mode} {body : List Expr} {world after : World}
    {fault : Fault}
    (hbody :
      ∀ fault last,
        inOrder
          (Execution.execute limits.turns limits.depth mode) 0 body world =
        .error fault last → fault.isMisdirected = false)
    (herror : program limits mode body world = .error fault after) :
    fault.isMisdirected = false := by
  unfold program at herror
  split at herror
  next =>
    cases herror
    rfl
  next => exact hbody fault after herror

theorem isMisdirected_of_fails
    (hworld : session.world.Lawful signature arities) {text : String}
    {path : Option String}
    (hbody :
      ∀ body between, Session.parse text path session = .ok body between →
        ∀ expr ∈ body, expr.Admissible signature)
    {fault : Fault} (hfails : session.Fails text path fault) :
    fault.isMisdirected = false := by
  have hprogram {body : List Expr} {between : Session}
      (hparse : Session.parse text path session = .ok body between)
      (mode : Mode) (world : World)
      (hentries : world.bindings.entries = session.world.bindings.entries) :=
    (lawful_body hworld hparse (hbody body between hparse) world hentries
      (fun _ => throw .tooDeep) mode).choose_spec.fault
  cases hfails with
  | parse hparse => exact isMisdirected_of_parse hparse
  | run hparse hrun =>
      exact isMisdirected_of_program
        (hprogram hparse .effectful (rested session.world) rfl) hrun
  | evaluate hparse hrun =>
      exact isMisdirected_of_program (hprogram hparse .pureAttempt _ rfl) hrun
  | announce fault => rfl

end Session

/-- After any history of well-scoped programs, no call fails because a procedure
is missing, because its name is a variable or because it takes another number of
inputs.  Nor does this happen to any call inside of a program while it is
executed: an alarm that takes its place makes no difference. -/
theorem calls_find_their_procedures
    (limits : Limits) (language : String) (report : Report) (observers : Nat)
    (draws : Draws) (earlier later : List Session.Call) (call : Session.Call)
    (hscoped :
      WellScoped
        ((Session.startWithin limits language report observers draws).programs
          (earlier ++ call :: later))) :
    let session :=
      (Session.startWithin limits language report observers
        draws).performAll earlier
    (∀ fault, session.fault? call = some fault → fault.isMisdirected = false) ∧
      ∀ text path body between, call.heard? = some (text, path) →
        Session.parse text path session = .ok body between →
          ∀ mode alarm, ∀ world ∈ [session.world, Session.rested session.world],
            inOrder
              (executeAlarmed alarm session.limits.turns
                session.limits.depth mode) 0 body world =
              inOrder (execute session.limits.turns session.limits.depth mode) 0
                body world := by
  intro session
  obtain ⟨signature, hadmissible⟩ := hscoped.exists_signature
  rw [Session.programs_append] at hadmissible
  have hfirst :
      (Session.startWithin limits language report observers draws).world.Lawful
        signature [] :=
    Session.lawful_of_entries_eq_nil rfl
  obtain ⟨arities, hworld⟩ :=
    Session.lawful_performAll hfirst fun body hbody =>
      hadmissible body (List.mem_append_left _ hbody)
  have hbody (text : String) (path : Option String) (body : List Expr)
      (between : Session) (hheard : call.heard? = some (text, path))
      (hparse : Session.parse text path session = .ok body between) :
      ∀ expr ∈ body, expr.Admissible signature :=
    hadmissible body
      (List.mem_append_right _ (Session.mem_programs_cons hheard hparse))
  constructor
  · intro fault hfault
    obtain ⟨text, path, hheard, hfails⟩ := Session.fails_of_fault? hfault
    exact Session.isMisdirected_of_fails hworld
      (hbody text path · · hheard) hfails
  · intro text path body between hheard hparse mode alarm world hstart
    have hentries :
        world.bindings.entries = session.world.bindings.entries := by
      rcases List.mem_pair.mp hstart with rfl | rfl <;> rfl
    obtain ⟨after, hends⟩ :=
      Session.lawful_body hworld hparse
        (hbody text path body between hheard hparse) world hentries alarm mode
    exact hends.same

/-- A procedure is defined, called, and called again by another one after a run
that has failed. -/
theorem second_run_finds_procedure_of_first :
    let first :=
      Session.startWithin .standard "English" (Report.fresh false none) 0
        (Draws.seeded 0)
    let failing : Session.Call :=
      .run "to Grow [ :n ] [ repeat 2 [ make :x + :x :n ] ] make :x 1 grow 5 make :y :z" none
    let calling : Session.Call :=
      .run "to again [ :k ] [ GROW :k ] again 3" none
    WellScoped (first.programs [failing, calling]) ∧
      (first.fault? failing).isSome ∧
      ∀ fault, (first.performAll [failing]).fault? calling = some fault →
        fault.isMisdirected = false := by
  intro first failing calling
  have hchecked :
      isWellScopedDownTo 4 (first.programs [failing, calling]) = true ∧
        (first.fault? failing).isSome = true := by
    decide +kernel
  have hscoped := wellScoped_of_isWellScopedDownTo 4 hchecked.1
  have hfinds :=
    calls_find_their_procedures .standard "English" (Report.fresh false none) 0
      (Draws.seeded 0) [failing] [] calling hscoped
  exact ⟨hscoped, hchecked.2, hfinds.1⟩

end Logo
