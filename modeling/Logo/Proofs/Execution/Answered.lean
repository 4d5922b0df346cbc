import Logo.Proofs.Execution.Invariant
import Logo.Proofs.Program.Resolved

/-!
# Calls that find their procedures

A signature says which names are procedures and how many parameters they have.
As long as nothing else is ever bound to these names, a procedure that has been
defined stays one with as many parameters, so a call that was resolved when it
was read finds its procedure whenever it is executed.

To say so of every call that is executed on the way, the calls are watched:
wherever a call does not find its procedure, an alarm takes its place.  Whatever
the alarm does, it makes no difference.
-/

namespace Logo

open Logo.Action Execution

/-- Whether an expression is a call that does not find its procedure. -/
def Expr.isStray (world : World) : Expr → Bool
  | .call head args =>
    match procedure (.call head args) head.procedureName args.length world with
    | .ok _ _ => false
    | .error _ _ => true
  | _ => false

namespace Execution

/-- One expression, with an alarm in the place of a call that does not find its
procedure. -/
def stepAlarmed (alarm : Expr → Action Number) (turns : Nat)
    (execute : Mode → Expr → Action Number) (mode : Mode) (expr : Expr) :
    Action Number :=
  fun world => if expr.isStray world then alarm expr world
    else step turns execute mode expr world

def executeAlarmed (alarm : Expr → Action Number) (turns : Nat) :
    (depth : Nat) → Mode → Expr → Action Number
  | 0 => fun _ _ => throw .tooDeep
  | depth + 1 => stepAlarmed alarm turns (executeAlarmed alarm turns depth)

theorem stepAlarmed_eq
    {alarm : Expr → Action Number} {turns : Nat}
    {execute : Mode → Expr → Action Number} {mode : Mode} {expr : Expr}
    {world : World} (hexpr : expr.isStray world = false) :
    stepAlarmed alarm turns execute mode expr world =
      step turns execute mode expr world := by
  unfold stepAlarmed
  rw [hexpr]
  rfl

end Execution

/-- The names that stand for procedures, with their numbers of parameters. -/
abbrev Signature := String → Option Nat

section Lawful

variable (signature : Signature) (arities : NameMap Nat)

/-- An expression defines nothing, calls known procedures only, and binds no
name of a procedure, as far as it itself is concerned. -/
structure Expr.Conforms (expr : Expr) : Prop where
  settled : expr.isDefinition = false
  answered : expr.Answered arities
  bound : ∀ name ∈ expr.boundNames, signature name = none

def Expr.Lawful (expr : Expr) : Prop :=
  ∀ part : Expr, part.Within expr → part.Conforms signature arities

/-- The names of procedures are bound to procedures with as many parameters, and
no other names are. -/
structure Entry.Lawful (name : String) (entry : Entry) : Prop where
  declared : ∀ n, signature name = some n →
    ∃ found, entry = .function (.procedure found)
  arity : ∀ found, entry = .function (.procedure found) →
    signature name = some found.params.length
  params :
    ∀ found, entry = .function (.procedure found) →
      ∀ param ∈ found.params, signature param = none
  body :
    ∀ found, entry = .function (.procedure found) →
      ∀ expr ∈ found.body, expr.Lawful signature arities

/-- The table is lawful, and the procedures whose arities are known are in
it. -/
structure World.Lawful (world : World) : Prop where
  entries : world.bindings.entries.AllNamed (Entry.Lawful signature arities)
  declared : ∀ name n, arities.get? name = some n → signature name = some n
  there : ∀ name n, arities.get? name = some n →
    (world.bindings.entries.get? name).isSome

end Lawful

variable {signature : Signature} {arities known : NameMap Nat}

theorem Expr.Lawful.part
    {expr part : Expr} (hexpr : expr.Lawful signature arities)
    (hpart : part ∈ expr.parts) :
    part.Lawful signature arities :=
  (forall_within_iff.mp hexpr).2 part hpart

/-- Knowing more arities does no harm. -/
theorem Expr.Lawful.mono
    {expr : Expr} (hexpr : expr.Lawful signature arities)
    (hle : ∀ name n, arities.get? name = some n → known.get? name = some n) :
    expr.Lawful signature known := by
  intro part hpart
  obtain ⟨hsettled, hanswered, hbound⟩ := hexpr part hpart
  refine ⟨hsettled, ?_, hbound⟩
  cases part with
  | call head args => exact hle _ _ hanswered
  | _ => trivial

theorem Entry.Lawful.mono
    {name : String} {entry : Entry}
    (hentry : entry.Lawful signature arities name)
    (hle : ∀ name n, arities.get? name = some n → known.get? name = some n) :
    entry.Lawful signature known name :=
  { hentry with
    body :=
      fun found hfound expr hexpr =>
        (hentry.body found hfound expr hexpr).mono hle }

theorem Entry.lawful_ofNumber {name : String} (hname : signature name = none)
    (number : Number) :
    (Entry.ofNumber number).Lawful signature arities name := by
  have hnumber (found : Procedure) :
      Entry.ofNumber number ≠ .function (.procedure found) := by
    cases number <;> simp [Entry.ofNumber]
  refine ⟨fun n hn => ?_, fun found hfound => absurd hfound (hnumber found),
    fun found hfound => absurd hfound (hnumber found),
    fun found hfound => absurd hfound (hnumber found)⟩
  rw [hname] at hn
  cases hn

namespace World.Lawful

variable {world : World}

/-- Only the entries of the table matter. -/
theorem of_entries
    {other : World} (hworld : world.Lawful signature arities)
    (hentries : other.bindings.entries = world.bindings.entries) :
    other.Lawful signature arities := by
  obtain ⟨hlawful, hdeclared, hthere⟩ := hworld
  rw [← hentries] at hlawful hthere
  exact ⟨hlawful, hdeclared, hthere⟩

/-- A name that is no procedure's gets another entry. -/
theorem with_entries
    {other : World} (hworld : world.Lawful signature arities) {name : String}
    (hname : signature name = none)
    (hentries : other.bindings.entries.AllNamed
      (Entry.Lawful signature arities))
    (hothers :
      ∀ key ≠ name,
        other.bindings.entries.get? key = world.bindings.entries.get? key) :
    other.Lawful signature arities := by
  refine ⟨hentries, hworld.declared, fun key n hkey => ?_⟩
  have hne : key ≠ name := by
    rintro rfl
    cases (hworld.declared key n hkey).symm.trans hname
  rw [hothers key hne]
  exact hworld.there key n hkey

/-- A resolved call finds its procedure. -/
theorem exists_procedure
    (hworld : world.Lawful signature arities) {name : String} {n : Nat}
    (hknown : arities.get? name = some n) :
    ∃ found,
      world.bindings.entries.get? name = some (.function (.procedure found)) ∧
      found.params.length = n ∧
        (∀ param ∈ found.params, signature param = none) ∧
        ∀ expr ∈ found.body, expr.Lawful signature arities := by
  have hdeclared := hworld.declared name n hknown
  obtain ⟨entry, hentry⟩ :=
    Option.isSome_iff_exists.mp (hworld.there name n hknown)
  have hlawful := hworld.entries.get? hentry
  obtain ⟨found, rfl⟩ := hlawful.declared n hdeclared
  have hlength := (hlawful.arity found rfl).symm.trans hdeclared
  exact ⟨found, hentry, Option.some.inj hlength, hlawful.params found rfl,
    hlawful.body found rfl⟩

theorem procedure_call
    (hworld : world.Lawful signature arities) {head : Token} {args : List Expr}
    (hcall : (Expr.call head args).Answered arities) :
    ∃ found, procedure (.call head args) head.procedureName args.length world =
      .ok found world ∧ (∀ param ∈ found.params, signature param = none) ∧
        ∀ expr ∈ found.body, expr.Lawful signature arities := by
  obtain ⟨found, hentry, hlength, hrest⟩ := hworld.exists_procedure hcall
  exact ⟨found, procedure_eq_ok hentry hlength, hrest⟩

theorem isStray_eq_false
    (hworld : world.Lawful signature arities) {expr : Expr}
    (hexpr : expr.Answered arities) :
    expr.isStray world = false := by
  cases expr with
  | call head args =>
      obtain ⟨found, hfound, -⟩ := hworld.procedure_call hexpr
      simp only [Expr.isStray, hfound]
  | _ => rfl

theorem invariant :
    Invariant (World.Lawful signature arities)
      (fun fault => fault.isMisdirected = false)
      (Expr.Conforms signature arities) (Expr.Lawful signature arities)
      (fun name => signature name = none) where
  fault _ hfault := hfault
  names _ hnode := hnode.bound
  marks _ _ hworld := hworld.of_entries rfl
  draws _ _ hworld := hworld.of_entries rfl
  select _ _ hworld := hworld.of_entries rfl
  hatch _ _ hworld := hworld.of_entries rfl
  bind _ _ number hworld hname :=
    hworld.with_entries hname
      (hworld.entries.insert (Entry.lawful_ofNumber hname number))
      fun _ hne => NameMap.get?_insert_of_ne hne _ _
  opened _ _ number hworld hname :=
    hworld.with_entries hname
      (hworld.entries.insert (Entry.lawful_ofNumber hname number))
      fun _ hne => NameMap.get?_insert_of_ne hne _ _
  left world inner name hworld hinner hname :=
    hinner.with_entries hname
      (hinner.entries.assign fun _ hentry => hworld.entries.get? hentry)
      fun _ hne => NameMap.get?_assign_of_ne hne _ _
  define _ _ _ _ _ _ hnode _ _ := by cases hnode.settled
  found world head args hnode hworld :=
    .inl (hworld.procedure_call hnode.answered)
  command _ _ _ _ _ _ _ hworld :=
    hworld.of_entries (by rw [bindings_commandOne])
  flock _ _ _ _ _ _ hworld := hworld.of_entries (by rw [bindings_flockCommand])

/-- A new procedure, or another one under an old name, that takes as many inputs
as declared. -/
theorem define
    (hworld : world.Lawful signature arities) {name : String}
    {params : List String} {body : List Expr}
    (hname : signature name = some params.length)
    (hparams : ∀ param ∈ params, signature param = none)
    (hbody :
      ∀ expr ∈ body,
        expr.Lawful signature (NameMap.insert name params.length arities)) :
    ({ world with
        bindings :=
          world.bindings.install name
            (.function (.procedure ⟨name, params, body⟩)) } :
      World).Lawful signature (NameMap.insert name params.length arities) := by
  have hle (other : String) (n : Nat) (hother : arities.get? other = some n) :
      (NameMap.insert name params.length arities).get? other = some n := by
    by_cases heq : other = name
    · subst heq
      rw [NameMap.get?_insert_self, ← hname, hworld.declared other n hother]
    · rw [NameMap.get?_insert_of_ne heq, hother]
  have hentry :
      (Entry.function (.procedure ⟨name, params, body⟩)).Lawful signature
        (NameMap.insert name params.length arities) name := by
    constructor
    · exact fun _ _ => ⟨_, rfl⟩
    all_goals
      intro found hfound
      cases hfound
      assumption
  have hentries :
      world.bindings.entries.AllNamed
        (Entry.Lawful signature (NameMap.insert name params.length arities)) :=
    fun binding hbinding => (hworld.entries binding hbinding).mono hle
  refine ⟨hentries.insert hentry, ?_, ?_⟩
  · intro other n hother
    by_cases heq : other = name
    · subst heq
      rw [NameMap.get?_insert_self] at hother
      rw [hname, hother]
    · rw [NameMap.get?_insert_of_ne heq] at hother
      exact hworld.declared other n hother
  · intro other n hother
    change (NameMap.get?
      (NameMap.insert name _ world.bindings.entries) other).isSome
    by_cases heq : other = name
    · subst heq
      rw [NameMap.get?_insert_self]
      rfl
    · rw [NameMap.get?_insert_of_ne heq] at hother ⊢
      exact hworld.there other n hother

end World.Lawful

/-! ## Executions -/

section Executions

variable (alarm : Expr → Action Number) (turns depth : Nat) (mode : Mode)

/-- No alarm is raised in a lawful expression, at any depth. -/
theorem abreast_executeAlarmed {expr : Expr}
    (hexpr : expr.Lawful signature arities) :
    Abreast
      (fun world world' => world = world' ∧ world.Lawful signature arities)
      (fun fault => fault.isMisdirected = false) (execute turns depth mode expr)
      (executeAlarmed alarm turns depth mode expr) := by
  induction depth generalizing mode expr with
  | zero => exact .of_throw rfl
  | succ depth ih =>
      rintro world _ ⟨rfl, hworld⟩
      have hconforms := hexpr expr .self
      have hsame :
          executeAlarmed alarm turns (depth + 1) mode expr world =
            step turns (executeAlarmed alarm turns depth) mode expr world :=
        stepAlarmed_eq (hworld.isStray_eq_false hconforms.answered)
      rw [hsame]
      exact World.Lawful.invariant.regime.step turns
        (fun _ mode part hpart => ih mode hpart)
        (balanced_execute turns depth) mode hconforms
          (fun part hpart => hexpr.part hpart) ()
        world world ⟨rfl, hworld⟩

/-- What the top level of a program may hold. -/
structure Expr.Admissible (signature : Signature) (expr : Expr) : Prop where
  settled : ∀ part ∈ expr.parts, part.Settled
  bound : ∀ part : Expr, part.Within expr →
    ∀ name ∈ part.boundNames, signature name = none
  declared :
    ∀ head name params brackets body,
      expr = .define head name params brackets body →
      signature name.procedureName = some params.length

theorem Expr.Admissible.lawful
    {expr : Expr} (hexpr : expr.Admissible signature)
    (hdefinition : expr.isDefinition = false)
    (hresolved : expr.Resolved arities) : expr.Lawful signature arities := by
  have hsettled : expr.Settled :=
    forall_within_iff.mpr ⟨hdefinition, hexpr.settled⟩
  exact fun part hpart => ⟨hsettled part hpart, hresolved part hpart,
    hexpr.bound part hpart⟩

/-- The parts of a definition, which become the body of the procedure. -/
theorem Expr.Admissible.lawful_part
    {expr part : Expr} (hexpr : expr.Admissible signature)
    (hresolved : expr.Resolved arities) (hpart : part ∈ expr.parts) :
    part.Lawful signature arities :=
  fun inner hinner =>
    ⟨hexpr.settled part hpart inner hinner,
      hresolved inner (.inside hpart hinner),
      hexpr.bound inner (.inside hpart hinner)⟩

/-- A lawful end: some arities are known, and those that are announced if
nothing has failed. -/
structure Ending.Lawful
    (signature : Signature) (after : NameMap Nat)
    (result result' : EStateM.Result Fault World Number) :
    Prop where
  same : result' = result
  fault : ∀ fault world, result = .error fault world →
    fault.isMisdirected = false
  world : ∃ known, (finalState result).Lawful signature known
  value : ∀ number world, result = .ok number world →
    world.Lawful signature after

theorem Ending.Lawful.of_abreast
    {result result' : EStateM.Result Fault World Number}
    (hresult :
      Ending.Abreast
        (fun world world' => world = world' ∧ world.Lawful signature arities)
        (fun fault => fault.isMisdirected = false) result result') :
    Ending.Lawful signature arities result result' := by
  refine ⟨hresult.eq_of_diagonal,
    fun fault world hrun => ?_, ⟨_, hresult.finalState.2⟩,
    fun number world hrun => ?_⟩
  · subst hrun
    cases hresult with
    | failure hfault hworld => exact hfault
  · subst hrun
    exact hresult.finalState.2

/-- One expression at the top level. -/
theorem lawful_executeAlarmed
    {expr : Expr} (hexpr : expr.Admissible signature)
    (hresolved : expr.Resolved (expr.announced arities)) {world : World}
    (hworld : world.Lawful signature arities) :
    Ending.Lawful signature (expr.announced arities)
      (execute turns depth mode expr world)
      (executeAlarmed alarm turns depth mode expr world) := by
  by_cases hdefinition : expr.isDefinition = false
  · rw [Expr.announced_of_isDefinition_eq_false hdefinition] at hresolved ⊢
    have hlawful := hexpr.lawful hdefinition hresolved
    exact .of_abreast
      (abreast_executeAlarmed alarm turns depth mode hlawful world world
        ⟨rfl, hworld⟩)
  · -- A definition executes nothing, so there is nothing to watch.
    cases expr with
    | define head name params brackets body =>
        have hname := hexpr.declared head name params brackets body rfl
        rw [← List.length_map (·.variableName)] at hname
        have hparams :
            ∀ param ∈ params.map (·.variableName), signature param = none :=
          hexpr.bound _ .self
        have hinner (part : Expr) (hpart : part ∈ body) :
            part.Lawful signature
              (NameMap.insert name.procedureName
                (params.map (·.variableName)).length arities) := by
          rw [List.length_map]
          exact hexpr.lawful_part hresolved hpart
        have hdefined := hworld.define hname hparams hinner
        cases depth with
        | zero =>
            exact ⟨rfl, fun _ _ hrun => by cases hrun; rfl, ⟨arities, hworld⟩,
              fun _ _ hrun => by cases hrun⟩
        | succ depth =>
            cases mode with
            | pureAttempt =>
                exact ⟨rfl,
                  fun _ _ hrun => by cases hrun; rfl, ⟨arities, hworld⟩,
                  fun _ _ hrun => by cases hrun⟩
            | effectful =>
                rw [List.length_map] at hdefined
                refine ⟨rfl, fun _ _ hrun => (by cases hrun), ⟨_, hdefined⟩,
                  fun _ _ hrun => ?_⟩
                cases hrun
                exact hdefined
    | _ => exact absurd rfl hdefinition

/-- A program that announces its procedures before it calls them. -/
theorem lawful_inOrder
    {body : List Expr} {after : NameMap Nat}
    (hannounced : Announced arities body after)
    (hbody : ∀ expr ∈ body, expr.Admissible signature) {world : World}
    (hworld : world.Lawful signature arities) :
    Ending.Lawful signature after
      (inOrder (execute turns depth mode) 0 body world)
      (inOrder (executeAlarmed alarm turns depth mode) 0 body world) := by
  induction hannounced with
  | nil =>
      refine ⟨rfl, fun _ _ hrun => (by cases hrun), ⟨arities, hworld⟩,
        fun _ _ hrun => ?_⟩
      cases hrun
      exact hworld
  | @snoc exprs between expr hbefore hresolved ih =>
      simp only [List.forall_mem_append, List.forall_mem_singleton] at hbody
      obtain ⟨hsame, hfault, hfinal, hvalue⟩ := ih hbody.1
      rw [inOrder_append, inOrder_append]
      cases hrun : inOrder (execute turns depth mode) 0 exprs world with
      | error fault last =>
          rw [hrun] at hsame hfinal
          rw [bind_eq_of_error hrun, bind_eq_of_error hsame]
          refine ⟨rfl,
            fun _ _ herror => ?_, hfinal, fun _ _ hok => (by cases hok)⟩
          cases herror
          exact hfault fault last hrun
      | ok number last =>
          rw [hrun] at hsame
          have hlast :=
            lawful_executeAlarmed alarm turns depth mode hbody.2 hresolved
              (hvalue number last hrun)
          rw [bind_eq_of_ok hrun, bind_eq_of_ok hsame]
          have hsingle (run : Expr → Action Number) :
              inOrder run number [expr] = run expr := by
            simp [inOrder]
          rw [hsingle, hsingle]
          exact hlast

end Executions

end Logo
