import Logo.Proofs.Program.Derivation
import Logo.Proofs.Program.Groups
import Logo.Proofs.Program.Parts

/-!
# Calls and the definitions before them

The reader only takes a word for a call if it knows the procedure, from the
table or from a definition further up in the text.  Where nothing is defined
inside of an expression, the arities stay the same while it is read, and all
calls in it have as many operands as these arities say.  A program that defines
its procedures at the top level hence announces every procedure before it is
called.
-/

namespace Logo

open Vocabulary Reader

namespace Expr

def isDefinition : Expr → Bool
  | .define .. => true
  | _ => false

/-- Nothing is defined anywhere in an expression. -/
def Settled (expr : Expr) : Prop :=
  ∀ part : Expr, part.Within expr → part.isDefinition = false

/-- If an expression is a call, it has as many operands as the procedure has
parameters. -/
def Answered (arities : NameMap Nat) : Expr → Prop
  | .call head args => arities.get? head.procedureName = some args.length
  | _ => True

/-- All calls in an expression have as many operands as their procedures have
parameters. -/
def Resolved (arities : NameMap Nat) (expr : Expr) : Prop :=
  ∀ part : Expr, part.Within expr → part.Answered arities

/-- The arities that are known behind an expression at the top level. -/
def announced (arities : NameMap Nat) : Expr → NameMap Nat
  | .define _ name params _ _ =>
      NameMap.insert name.procedureName params.length arities
  | _ => arities

variable {expr : Expr} {arities : NameMap Nat}

theorem announced_of_isDefinition_eq_false (hexpr : expr.isDefinition = false) :
    expr.announced arities = arities := by
  cases expr with
  | define head name params brackets body => cases hexpr
  | _ => rfl

theorem Settled.part {part : Expr} (hexpr : expr.Settled)
    (hpart : part ∈ expr.parts) :
    part.Settled :=
  (forall_within_iff.mp hexpr).2 part hpart

theorem resolved_iff :
    expr.Resolved arities ↔ expr.Answered arities ∧
      ∀ part ∈ expr.parts, part.Resolved arities :=
  forall_within_iff

end Expr

namespace Callee

variable {lexicon : Lexicon} {arities : NameMap Nat} {head : Token}
  {callee : Callee} {args : List Expr}

theorem isDefinition_call (callee : Callee) (head : Token) (args : List Expr) :
    (callee.call head args).isDefinition = false := by
  cases callee <;> rfl

/-- The reader has looked the procedure up. -/
theorem answered_call
    (hcalls : Calls lexicon arities head callee)
    (haccepts : callee.Accepts args.length) :
    (callee.call head args).Answered arities := by
  cases callee with
  | procedure arity =>
      have hcallee := hcalls.callee
      unfold Reader.callee at hcallee
      split at hcallee
      next => split at hcallee <;> cases hcallee
      next =>
        split at hcallee
        next found hfound =>
          cases hcallee
          have hlength : args.length = arity :=
            haccepts.resolve_right (by simp [folds])
          exact hfound.trans (congrArg some hlength.symm)
        next => cases hcallee
  | _ => trivial

theorem resolved_call
    (hcalls : Calls lexicon arities head callee)
    (haccepts : callee.Accepts args.length)
    (hargs : ∀ arg ∈ args, arg.Resolved arities) :
    (callee.call head args).Resolved arities := by
  rw [Expr.resolved_iff, parts_call]
  exact ⟨answered_call hcalls haccepts, hargs⟩

theorem isDefinition_group
    {brackets : Brackets} {expr : Expr}
    (hgroup : callee.group brackets head args = .ok expr) :
    expr.isDefinition = false := by
  rcases group_eq_ok hgroup with ⟨-, rfl, -⟩ | ⟨runs, -, -, -, rfl⟩
  · exact isDefinition_call callee head args
  · rfl

/-- Where nothing is defined in a group, nothing is defined in its operands. -/
theorem settled_args
    {brackets : Brackets} {expr : Expr}
    (hgroup : callee.group brackets head args = .ok expr)
    (hexpr : expr.Settled) : ∀ arg ∈ args, arg.Settled := by
  intro arg harg
  rcases group_eq_ok hgroup with ⟨-, rfl, -⟩ | ⟨runs, -, rfl, -, rfl⟩
  · apply hexpr.part
    rwa [parts_call]
  · obtain ⟨run, hrun, harg⟩ := List.mem_flatten.mp harg
    have hcall : (callee.call head run).Settled :=
      hexpr.part (List.mem_map_of_mem (f := callee.call head) hrun)
    apply hcall.part
    rwa [parts_call]

theorem resolved_group
    (hcalls : Calls lexicon arities head callee) {brackets : Brackets}
    {expr : Expr} (hgroup : callee.group brackets head args = .ok expr)
    (hargs : ∀ arg ∈ args, arg.Resolved arities) : expr.Resolved arities := by
  rcases group_eq_ok hgroup with
    ⟨haccepts, rfl, -⟩ | ⟨runs, -, rfl, hlengths, rfl⟩
  · exact resolved_call hcalls haccepts hargs
  · rw [Expr.resolved_iff]
    refine ⟨trivial, fun part hpart => ?_⟩
    obtain ⟨run, hrun, rfl⟩ := List.mem_map.mp hpart
    refine resolved_call hcalls (.inl (hlengths run hrun)) fun arg harg => ?_
    exact hargs arg (List.mem_flatten_of_mem hrun harg)

end Callee

/-! ## Expressions in which nothing is defined -/

/-- A need that holds some parts already completes an expression of these parts
and of those still to come, which is neither a call nor a definition. -/
def Need.Gathers : Need → List Expr → Prop
  | .done expr, held =>
      expr.parts = held ∧ expr.isDefinition = false ∧
        ∀ arities, expr.Answered arities
  | .value next, held => ∀ expr, (next expr).Gathers (held ++ [expr])
  | .target next, held => ∀ token, (next token).Gathers held
  | .block next, held =>
      ∀ brackets body, (next brackets body).Gathers (held ++ body)
  | .opening _ next, held => next.Gathers held
  | .closing _ next, held => next.Gathers held
  | .name _, _ => False
  | .params _ _ _, _ => False
  | .leader _, held => held = []

/-- All forms but definitions gather their parts. -/
theorem Form.need_gathers {form : Form} (hform : form ≠ .define)
    (head : Token) :
    (form.need head).Gathers [] := by
  cases form with
  | define => exact absurd rfl hform
  | _ =>
      simp [Form.need, Need.Gathers, Expr.parts, Expr.isDefinition,
        Expr.Answered]

/-- Reading something in which nothing is defined leaves the arities as they
are, and these resolve all calls in it. -/
def Reading.Settles (arities after : NameMap Nat) : Reading → Prop
  | .value expr => expr.Settled → after = arities ∧ expr.Resolved arities
  | .list exprs =>
      (∀ expr ∈ exprs, expr.Settled) → after = arities ∧
        ∀ expr ∈ exprs, expr.Resolved arities
  | .rest need expr =>
      ∀ held, need.Gathers held →
        expr.isDefinition = false ∧ (∀ part ∈ held, part ∈ expr.parts) ∧
          (expr.Settled → (∀ part ∈ held, part.Resolved arities) →
            after = arities ∧ expr.Resolved arities)

section Reads

variable {lexicon : Lexicon} {room : Nat} {arities after : NameMap Nat}
  {tokens : List Token} {expr : Expr}

theorem Reads.of_params
    {name : Token} {read : List Token} {next : List Token → Need}
    (hreads : Reads lexicon room arities tokens
      (.rest (.params name read next) expr) after) :
    ∃ params others,
      Reads lexicon room
        (NameMap.insert name.procedureName params.length arities) others
        (.rest (next params) expr) after := by
  generalize hreading : Reading.rest (.params name read next) expr =
    reading at hreads
  induction hreads generalizing read with
  | param hkind hrest ih =>
      cases hreading
      exact ih rfl
  | params hkind hrest ih =>
      cases hreading
      exact ⟨_, _, hrest⟩
  | _ => cases hreading

/-- A definition knows its own arity while its body is read. -/
theorem Reads.of_define
    {head : Token}
    (hreads : Reads lexicon room arities tokens
      (.rest (Form.define.need head) expr) after) :
    ∃ name params brackets body inner others,
      expr = .define head name params brackets body ∧
        Reads lexicon inner
          (NameMap.insert name.procedureName params.length arities) others
          (.list body) after := by
  cases hreads with
  | @name _ _ name _ _ _ _ _ _ hrest =>
      cases hrest with
      | opening _ hrest =>
          obtain ⟨params, others, hblock⟩ := hrest.of_params
          cases hblock with
          | block _ hbody _ hdone =>
              cases hdone
              exact ⟨name, params, _, _, _, _, rfl, hbody⟩

theorem Reads.settles
    {reading : Reading}
    (hreads : Reads lexicon room arities tokens reading after) :
    reading.Settles arities after := by
  induction hreads with
  | constant hkind hvalue =>
      intro _
      exact ⟨rfl, Expr.resolved_iff.mpr ⟨trivial, by simp [Expr.parts]⟩⟩
  | «variable» hkind =>
      intro _
      exact ⟨rfl, Expr.resolved_iff.mpr ⟨trivial, by simp [Expr.parts]⟩⟩
  | @form _ _ token form _ expr _ hkind hform hrest ih =>
      intro hexpr
      by_cases hdefine : form = .define
      · subst hdefine
        obtain ⟨name, params, brackets, body, _, _, rfl, -⟩ := hrest.of_define
        cases hexpr _ .self
      · exact (ih [] (Form.need_gathers hdefine token)).2.2 hexpr (by simp)
  | @call _ _ head callee _ args _ hcalls hargs hlength ih =>
      intro hexpr
      obtain ⟨hafter, hresolved⟩ :=
        ih fun arg harg => hexpr.part (by rwa [Callee.parts_call])
      exact ⟨hafter, Callee.resolved_call hcalls (.inl hlength) hresolved⟩
  | group hopener hrest ih =>
      intro hexpr
      exact (ih [] rfl).2.2 hexpr (by simp)
  | empty =>
      intro _
      exact ⟨rfl, by simp⟩
  | snoc hlist hvalue ihlist ihvalue =>
      intro hexprs
      simp only [List.forall_mem_append, List.forall_mem_singleton] at hexprs ⊢
      obtain ⟨rfl, hbefore⟩ := ihlist hexprs.1
      obtain ⟨hafter, hlast⟩ := ihvalue hexprs.2
      exact ⟨hafter, hbefore, hlast⟩
  | @done _ arities expr =>
      rintro _ ⟨rfl, hdefinition, hanswered⟩
      refine ⟨hdefinition, fun _ hpart => hpart, fun _ hparts => ⟨rfl, ?_⟩⟩
      exact Expr.resolved_iff.mpr ⟨hanswered arities, hparts⟩
  | @value _ _ _ input _ _ _ expr _ hvalue hrest ihvalue ihrest =>
      intro held hgathers
      obtain ⟨hdefinition, hparts, hresolved⟩ := ihrest _ (hgathers input)
      simp only [List.forall_mem_append,
        List.forall_mem_singleton] at hparts hresolved
      refine ⟨hdefinition, hparts.1, fun hexpr hheld => ?_⟩
      obtain ⟨rfl, hinput⟩ := ihvalue (hexpr.part hparts.2)
      exact hresolved hexpr ⟨hheld, hinput⟩
  | @block _ _ opener _ body _ closer _ _ expr _ hopener hbody hcloser hrest
    ihbody ihrest =>
      intro held hgathers
      obtain ⟨hdefinition, hparts, hresolved⟩ :=
        ihrest _ (hgathers ⟨opener, closer⟩ body)
      simp only [List.forall_mem_append] at hparts hresolved
      refine ⟨hdefinition, hparts.1, fun hexpr hheld => ?_⟩
      obtain ⟨rfl, hinside⟩ :=
        ihbody fun part hpart => hexpr.part (hparts.2 part hpart)
      exact hresolved hexpr ⟨hheld, hinside⟩
  | @target _ _ token _ _ _ _ hkind hrest ih =>
      exact fun held hgathers => ih held (hgathers token)
  | opening hkind hrest ih => exact ih
  | closing hkind hrest ih => exact ih
  | name hkind hnew hrest ih => exact fun held hgathers => hgathers.elim
  | param hkind hrest ih => exact fun held hgathers => hgathers.elim
  | params hkind hrest ih => exact fun held hgathers => hgathers.elim
  | leader hcalls hargs hcloser hgroup ih =>
      rintro _ rfl
      refine ⟨Callee.isDefinition_group hgroup, by simp, fun hexpr _ => ?_⟩
      obtain ⟨hafter, hresolved⟩ := ih (Callee.settled_args hgroup hexpr)
      exact ⟨hafter, Callee.resolved_group hcalls hgroup hresolved⟩

/-! ## The top level -/

/-- With some arities to begin with, the calls of each expression are resolved
by what is known by then, and in a definition also by the arity of the procedure
itself. -/
inductive Announced (arities : NameMap Nat) :
    List Expr → NameMap Nat → Prop where
  | nil : Announced arities [] arities
  | snoc {exprs between expr} (hbefore : Announced arities exprs between)
      (hexpr : expr.Resolved (expr.announced between)) :
      Announced arities (exprs ++ [expr]) (expr.announced between)

/-- One expression at the top level, in whose parts nothing is defined. -/
theorem Reads.announced_value
    (hreads : Reads lexicon room arities tokens (.value expr) after)
    (hparts : ∀ part ∈ expr.parts, part.Settled) :
    after = expr.announced arities ∧ expr.Resolved after := by
  by_cases hdefinition : expr.isDefinition = false
  · have hsettled : expr.Settled :=
      Expr.forall_within_iff.mpr ⟨hdefinition, hparts⟩
    obtain ⟨rfl, hresolved⟩ := hreads.settles hsettled
    exact ⟨(Expr.announced_of_isDefinition_eq_false hdefinition).symm,
      hresolved⟩
  · -- Only the form of definitions completes a definition.
    cases hreads with
    | constant => exact absurd rfl hdefinition
    | «variable» => exact absurd rfl hdefinition
    | call => exact absurd (Callee.isDefinition_call _ _ _) hdefinition
    | group hopener hrest => exact absurd (hrest.settles [] rfl).1 hdefinition
    | @form _ _ token form _ _ _ hkind hform hrest =>
        by_cases hdefine : form = .define
        · subst hdefine
          obtain ⟨name, params, brackets, body, _, _, rfl, hbody⟩ :=
            hrest.of_define
          obtain ⟨rfl, hresolved⟩ := hbody.settles hparts
          exact ⟨rfl, Expr.resolved_iff.mpr ⟨trivial, hresolved⟩⟩
        · exact absurd
            (hrest.settles [] (Form.need_gathers hdefine token)).1 hdefinition

theorem Reads.announced
    {body : List Expr}
    (hreads : Reads lexicon room arities tokens (.list body) after)
    (hbody : ∀ expr ∈ body, ∀ part ∈ expr.parts, part.Settled) :
    Announced arities body after := by
  generalize hreading : Reading.list body = reading at hreads
  induction hreads generalizing body with
  | empty =>
      cases hreading
      exact .nil
  | snoc hlist hvalue ihlist ihvalue =>
      cases hreading
      simp only [List.forall_mem_append, List.forall_mem_singleton] at hbody
      obtain ⟨rfl, hresolved⟩ := hvalue.announced_value hbody.2
      exact .snoc (ihlist hbody.1 rfl) hresolved
  | _ => cases hreading

end Reads

end Logo
