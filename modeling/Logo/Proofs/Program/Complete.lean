import Logo.Proofs.Program.Groups
import Logo.Proofs.Program.LeftToRight
import Logo.Proofs.Program.Parts

/-!
# Operand counts

Whatever the reader puts together has as many operands as it takes: a command
exactly its number, an operator exactly its number or, in a group, more to be
folded.  This holds of every expression that the reader holds between two
tokens, also of a program that turns out to be malformed further on.  A text
that is not accepted is blamed on one of its tokens.
-/

namespace Logo

open Vocabulary

namespace Expr

/-- An instruction has as many operands as it takes. -/
def Counted : Expr → Prop
  | .command _ c args => args.length = c.arity
  | .flock _ c args => args.length = c.arity
  | .operation _ o args =>
      args.length = o.arity ∨ o.isReducible = true ∧ o.arity < args.length
  | _ => True

/-- Every instruction in an expression has as many operands as it takes. -/
def Complete (expr : Expr) : Prop :=
  ∀ part : Expr, part.Within expr → part.Counted

theorem complete_iff (expr : Expr) :
    expr.Complete ↔ expr.Counted ∧ ∀ part ∈ expr.parts, part.Complete :=
  forall_within_iff

theorem Complete.part {expr part : Expr} (hexpr : expr.Complete)
    (hpart : part ∈ expr.parts) :
    part.Complete :=
  (expr.complete_iff.mp hexpr).2 part hpart

end Expr

theorem Callee.counted_call
    {callee : Callee} {head : Token} {args : List Expr}
    (haccepts : callee.Accepts args.length) :
    (callee.call head args).Counted := by
  cases callee with
  | command c => exact haccepts.resolve_right (by simp [Callee.folds])
  | flock c => exact haccepts.resolve_right (by simp [Callee.folds])
  | operator o =>
      rcases haccepts with hexact | hfolds
      · exact .inl hexact
      · simp only [Callee.folds, Bool.and_eq_true, decide_eq_true_eq] at hfolds
        rcases hfolds.2.eq_or_lt with hexact | hmore
        · exact .inl hexact.symm
        · exact .inr ⟨hfolds.1, hmore⟩
  | procedure arity => trivial

theorem Callee.complete_call
    {callee : Callee} {head : Token} {args : List Expr}
    (haccepts : callee.Accepts args.length)
    (hargs : ∀ arg ∈ args, arg.Complete) :
    (callee.call head args).Complete := by
  rw [Expr.complete_iff, callee.parts_call]
  exact ⟨callee.counted_call haccepts, hargs⟩

theorem Callee.complete_group
    {callee : Callee} {brackets : Brackets} {head : Token} {args : List Expr}
    {expr : Expr} (hargs : ∀ arg ∈ args, arg.Complete)
    (hgroup : callee.group brackets head args = .ok expr) :
    expr.Complete := by
  rcases Callee.group_eq_ok hgroup with
    ⟨haccepts, rfl, -⟩ | ⟨runs, -, rfl, hlengths, rfl⟩
  · exact callee.complete_call haccepts hargs
  · rw [Expr.complete_iff]
    refine ⟨trivial, fun part hpart => ?_⟩
    obtain ⟨run, hrun, rfl⟩ := List.mem_map.mp hpart
    refine callee.complete_call (.inl (hlengths run hrun)) fun arg harg => ?_
    exact hargs arg (List.mem_flatten_of_mem hrun harg)

/-! ## The reader between two tokens -/

section Reading

variable (Known : Token → Prop)

/-- What a form makes of complete parts is complete, and a group begins with a
known token. -/
def Need.Holds : Need → Prop
  | .done expr => expr.Complete
  | .value next => ∀ expr, expr.Complete → (next expr).Holds
  | .target next => ∀ token, (next token).Holds
  | .block next =>
      ∀ brackets body, (∀ expr ∈ body, expr.Complete) →
        (next brackets body).Holds
  | .opening _ next => next.Holds
  | .closing _ next => next.Holds
  | .name next => ∀ token, (next token).Holds
  | .params _ _ next => ∀ params, (next params).Holds
  | .leader opener => Known opener

/-- A call still wants operands, and what a frame holds already is complete. -/
def Frame.Holds : Frame → Prop
  | .call head callee args =>
      Known head ∧ (∀ expr ∈ args, expr.Complete) ∧ args.length < callee.arity
  | .group opener head _ args =>
      Known opener ∧ Known head ∧ ∀ expr ∈ args, expr.Complete
  | .list _ body next =>
      (∀ expr ∈ body, expr.Complete) ∧
        ∀ brackets body, (∀ expr ∈ body, expr.Complete) →
          (next brackets body).Holds Known
  | .input next => ∀ expr, expr.Complete → (next expr).Holds Known

structure Reader.Holds (reader : Reader) : Prop where
  body : ∀ expr ∈ reader.body, expr.Complete
  frames : ∀ frame ∈ reader.frames, frame.Holds Known
  need : ∀ need, reader.need = some need → need.Holds Known

/-- A text is turned down for a word of it, for a constant of too many digits,
or for being nested too deeply. -/
inductive Fault.Blames : Fault → Prop where
  | unrecognized {token : Token} (hknown : Known token) (word : String) :
      Blames (.complaint (.unrecognized word (some token)))
  | malformed {token : Token} (hknown : Known token) (flaw : Flaw) :
      Blames (.complaint (.malformed flaw (some token)))
  | arithmetic (fault : ArithmeticFault) : Blames (.arithmetic fault)
  | tooDeep : Blames .tooDeep

/-- What a step of the reader may come out as. -/
def Reader.Outcome : Except Fault Reader → Prop
  | .ok reader => reader.Holds Known
  | .error fault => fault.Blames Known

variable {Known}

/-- A form takes no operands of its own, so it is complete as soon as its parts
are. -/
theorem Form.need_holds (form : Form) (head : Token) :
    (form.need head).Holds Known := by
  cases form <;> simp only [Form.need, Need.Holds] <;> intros <;>
    refine (Expr.complete_iff _).mpr ⟨trivial, ?_⟩ <;>
    simp_all [Expr.parts, or_imp]

namespace Reader

theorem holds_start (arities : NameMap Nat) : (start arities).Holds Known :=
  ⟨by simp [start], by simp [start], by simp [start]⟩

theorem Outcome.of_flawAt {token : Token} (hknown : Known token) (flaw : Flaw) :
    Outcome Known (flawAt token flaw) :=
  Fault.Blames.malformed hknown flaw

theorem Holds.deliver
    {reader : Reader} (hbody : ∀ expr ∈ reader.body, expr.Complete)
    {expr : Expr} (hexpr : expr.Complete) {frames : List Frame}
    (hframes : ∀ frame ∈ frames, frame.Holds Known) :
    (reader.deliver expr frames).Holds Known := by
  have hnone (need : Need) (hneed : none = some need) : need.Holds Known :=
    nomatch hneed
  have hsnoc {exprs : List Expr} (hexprs : ∀ expr ∈ exprs, expr.Complete) :
      ∀ other ∈ exprs ++ [expr], other.Complete := by
    rw [List.forall_mem_append, List.forall_mem_singleton]
    exact ⟨hexprs, hexpr⟩
  induction frames generalizing expr with
  | nil => exact ⟨hsnoc hbody, by simp [Reader.deliver], hnone⟩
  | cons frame frames ih =>
      rw [List.forall_mem_cons] at hframes
      obtain ⟨hframe, hframes⟩ := hframes
      cases frame with
      | call head callee args =>
          obtain ⟨hknown, hargs, hfewer⟩ := hframe
          simp only [Reader.deliver]
          split
          next hmore =>
            refine ⟨hbody, ?_, hnone⟩
            rw [List.forall_mem_cons]
            exact ⟨⟨hknown, hsnoc hargs, by simpa using hmore⟩, hframes⟩
          next hlast =>
            have hexact : (args ++ [expr]).length = callee.arity := by
              rw [List.length_append, List.length_singleton]
              omega
            have hcall : (callee.call head (args ++ [expr])).Complete :=
              callee.complete_call (.inl hexact) (hsnoc hargs)
            refine ih hcall hframes fun {exprs} hexprs => ?_
            rw [List.forall_mem_append, List.forall_mem_singleton]
            exact ⟨hexprs, hcall⟩
      | group opener head callee args =>
          obtain ⟨hopener, hhead, hargs⟩ := hframe
          refine ⟨hbody, ?_, hnone⟩
          simp only [Reader.deliver, List.forall_mem_cons]
          exact ⟨⟨hopener, hhead, hsnoc hargs⟩, hframes⟩
      | list opener body next =>
          refine ⟨hbody, ?_, hnone⟩
          simp only [Reader.deliver, List.forall_mem_cons]
          exact ⟨⟨hsnoc hframe.1, hframe.2⟩, hframes⟩
      | input next =>
          have hnext : (next expr).Holds Known := hframe expr hexpr
          simp only [Reader.deliver]
          split
          next complete heq =>
            rw [heq] at hnext
            refine ih hnext hframes fun {exprs} hexprs => ?_
            rw [List.forall_mem_append, List.forall_mem_singleton]
            exact ⟨hexprs, hnext⟩
          next later heq =>
            rw [heq] at hnext
            refine ⟨hbody, ?_, hnone⟩
            rw [List.forall_mem_cons]
            exact ⟨hnext, hframes⟩
          next need _ _ =>
            refine ⟨hbody, hframes, fun found hfound => ?_⟩
            cases hfound
            exact hnext

theorem Holds.advance
    {reader : Reader} (hreader : reader.Holds Known) {need : Need}
    (hneed : need.Holds Known) :
    (reader.advance need).Holds Known := by
  unfold Reader.advance
  split
  next expr => exact Holds.deliver hreader.body hneed hreader.frames
  next next' =>
    refine ⟨hreader.body, ?_, nofun⟩
    rw [List.forall_mem_cons]
    exact ⟨hneed, hreader.frames⟩
  next =>
    refine ⟨hreader.body, hreader.frames, fun found hfound => ?_⟩
    cases hfound
    exact hneed

theorem blames_of_callee
    {lexicon : Lexicon} {reader : Reader} {token : Token} {fault : Fault}
    (hknown : Known token)
    (herror : reader.callee lexicon token = .error fault) :
    fault.Blames Known := by
  unfold callee at herror
  split at herror
  next =>
    split at herror
    · cases herror
    · cases herror
    · cases herror
    · cases herror
      exact .malformed hknown _
  next =>
    split at herror
    · cases herror
    · cases herror
      exact .unrecognized hknown _

variable {lexicon : Lexicon} {reader : Reader} {token : Token}

theorem Holds.instruction (hreader : reader.Holds Known)
    (hknown : Known token) :
    Outcome Known (reader.instruction lexicon token) := by
  unfold Reader.instruction
  split
  next form _ => exact hreader.advance (form.need_holds token)
  next =>
    cases hcallee : reader.callee lexicon token with
    | error fault => exact blames_of_callee hknown hcallee
    | ok callee =>
        change Outcome Known (if callee.arity = 0 then _ else _)
        split
        next hnone =>
          have hcall : (callee.call token []).Complete :=
            callee.complete_call (.inl hnone.symm) (by simp)
          exact Holds.deliver hreader.body hcall hreader.frames
        next hsome =>
          refine ⟨hreader.body, ?_, hreader.need⟩
          rw [List.forall_mem_cons]
          exact ⟨⟨hknown, by simp, Nat.pos_of_ne_zero hsome⟩, hreader.frames⟩

theorem Holds.close (hreader : reader.Holds Known) (hknown : Known token) :
    Outcome Known (reader.close token) := by
  have hframes := hreader.frames
  unfold Reader.close
  split
  next heq =>
    rw [heq, List.forall_mem_cons] at hframes
    exact .of_flawAt hframes.1.1 _
  next opener head callee args frames heq =>
    rw [heq, List.forall_mem_cons] at hframes
    split
    next =>
      split
      next expr hgroup =>
        exact Holds.deliver hreader.body
          (callee.complete_group hframes.1.2.2 hgroup) hframes.2
      next => exact .of_flawAt hframes.1.2.1 _
    next => exact .of_flawAt hframes.1.1 _
  next opener body next frames heq =>
    rw [heq, List.forall_mem_cons] at hframes
    split
    next =>
      have hrest : ({ reader with frames := frames } : Reader).Holds Known :=
        ⟨hreader.body, hframes.2, hreader.need⟩
      exact hrest.advance (hframes.1.2 _ body hframes.1.1)
    next => exact .of_flawAt hknown _
  next => exact .of_flawAt hknown _

theorem Holds.expression (hreader : reader.Holds Known) (hknown : Known token) :
    Outcome Known (reader.expression lexicon token) := by
  have hleaf {expr : Expr} (hcounted : expr.Counted)
      (hparts : expr.parts = []) :
      (reader.deliver expr reader.frames).Holds Known := by
    refine Holds.deliver hreader.body ?_ hreader.frames
    rw [Expr.complete_iff, hparts]
    exact ⟨hcounted, by simp⟩
  unfold Reader.expression
  split
  next =>
    split
    next => exact hleaf trivial rfl
    next fault _ => exact Fault.Blames.arithmetic fault
  next => exact hleaf trivial rfl
  next => exact hreader.instruction hknown
  next =>
    refine ⟨hreader.body, hreader.frames, fun need hneed => ?_⟩
    cases hneed
    exact hknown
  next => exact .of_flawAt hknown _
  next => exact hreader.close hknown
  next => exact hreader.close hknown
  next => exact .of_flawAt hknown _
  next => exact .of_flawAt hknown _

theorem Holds.leader
    (hreader : reader.Holds Known) {opener : Token} (hopener : Known opener)
    (hknown : Known token) :
    Outcome Known (reader.leader lexicon opener token) := by
  unfold Reader.leader
  split
  next => exact .of_flawAt hknown _
  next =>
    split
    next => exact .of_flawAt hknown _
    next =>
      cases hcallee : reader.callee lexicon token with
      | error fault => exact blames_of_callee hknown hcallee
      | ok callee =>
          refine ⟨hreader.body, ?_, nofun⟩
          rw [List.forall_mem_cons]
          exact ⟨⟨hopener, hknown, by simp⟩, hreader.frames⟩

/-- One token: all that the reader holds stays complete, or the text is blamed
on a token. -/
theorem Holds.step
    (hreader : reader.Holds Known) (hknown : Known token) (lexicon : Lexicon)
    (nesting : Nat) :
    Outcome Known (reader.step lexicon nesting token) := by
  have hneed := hreader.need
  have hgoes {need : Need} (hholds : need.Holds Known) :
      (reader.advance need).Holds Known := hreader.advance hholds
  unfold Reader.step
  split
  next => exact Fault.Blames.tooDeep
  next =>
    split
    next => exact hreader.expression hknown
    next expr heq =>
      exact (Holds.deliver hreader.body
        (hneed _ heq) hreader.frames).expression hknown
    next next' heq =>
      have hwaits :
          ({ reader with
            frames := .input next' :: reader.frames, need := none } :
            Reader).Holds Known := by
        refine ⟨hreader.body, ?_, nofun⟩
        rw [List.forall_mem_cons]
        exact ⟨hneed _ heq, hreader.frames⟩
      exact hwaits.expression hknown
    next next' heq =>
      split
      · exact hgoes (hneed _ heq token)
      · exact .of_flawAt hknown _
    next next' heq =>
      split
      · refine ⟨hreader.body, ?_, nofun⟩
        rw [List.forall_mem_cons]
        exact ⟨⟨by simp, hneed _ heq⟩, hreader.frames⟩
      · exact .of_flawAt hknown _
    next what next' heq =>
      split
      · exact hgoes (hneed (.opening what next') heq)
      · exact .of_flawAt hknown _
    next what next' heq =>
      split
      · exact hgoes (hneed (.closing what next') heq)
      · exact .of_flawAt hknown _
    next next' heq =>
      split
      · exact .of_flawAt hknown _
      · split
        · exact .of_flawAt hknown _
        · exact hgoes (hneed _ heq token)
    next name read next' heq =>
      split
      · have hlearned :
            ({ reader with
                arities :=
                  NameMap.insert name.procedureName read.length
                    reader.arities } :
              Reader).Holds Known :=
          ⟨hreader.body, hreader.frames, hreader.need⟩
        exact hlearned.advance (hneed _ heq read)
      · split
        · refine ⟨hreader.body, hreader.frames, fun need hfound => ?_⟩
          cases hfound
          exact hneed (.params name read next') heq
        · exact .of_flawAt hknown _
    next opener heq => exact hreader.leader (hneed _ heq) hknown

theorem Holds.steps
    (hreader : reader.Holds Known) {tokens : List Token}
    (hknown : ∀ token ∈ tokens, Known token)
    (lexicon : Lexicon) (nesting : Nat) :
    Outcome Known (reader.steps lexicon nesting tokens) := by
  induction tokens generalizing reader with
  | nil => exact hreader
  | cons token rest ih =>
      rw [List.forall_mem_cons] at hknown
      have hstep := hreader.step hknown.1 lexicon nesting
      rw [steps_cons]
      cases hnext : Reader.step lexicon nesting reader token with
      | error fault =>
          rw [hnext] at hstep
          exact hstep
      | ok next =>
          rw [hnext] at hstep
          exact ih hstep hknown.2

/-- A text is accepted with complete expressions only, or turned down for one of
its tokens. -/
theorem outcome_read
    (lexicon : Lexicon) (nesting : Nat) (arities : NameMap Nat)
    (tokens : List Token) :
    Outcome (· ∈ tokens) (read lexicon nesting arities tokens) := by
  have hstart : (start arities).Holds (· ∈ tokens) := holds_start arities
  have hsteps := hstart.steps (fun _ htoken => htoken) lexicon nesting
  unfold read
  cases hlast : (start arities).steps lexicon nesting tokens with
  | error fault =>
      rw [hlast] at hsteps
      exact hsteps
  | ok reader =>
      rw [hlast] at hsteps
      change Outcome (· ∈ tokens) (reader.finish tokens.getLast?)
      unfold finish
      split
      next => exact hsteps
      next hincomplete =>
        cases htokens : tokens.getLast? with
        | some token =>
            exact Fault.Blames.malformed (List.mem_of_getLast? htokens) _
        | none =>
            -- Without tokens the reader is where it started, and nothing is
            -- missing there.
            rw [List.getLast?_eq_none_iff] at htokens
            subst htokens
            cases hlast
            exact absurd rfl hincomplete

end Reader

end Reading

end Logo
