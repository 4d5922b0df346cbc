import Logo.Proofs.Program.LeftToRight

/-!
# The grammar of programs

The reader goes from token to token and keeps what is not complete on a stack.
Seen as a whole, programs have a grammar: an expression is a constant, a
variable, a special form with its parts, an instruction word with its operands,
or a group.  The arities of procedures change along the way, so each rule says
with which arities its parts are read, and how much room there is for further
nesting.  The reader accepts exactly what the grammar derives.
-/

namespace Logo

open Vocabulary Reader

inductive Reading where
  /-- One expression. -/
  | value (expr : Expr)
  /-- Expressions one after the other. -/
  | list (exprs : List Expr)
  /-- All that a special form or a group still needs, and the expression that it
  completes. -/
  | rest (need : Need) (expr : Expr)

/-- A token is an instruction word that calls something with operands. -/
structure Calls (lexicon : Lexicon) (arities : NameMap Nat) (token : Token)
    (callee : Callee) :
    Prop where
  kind : token.kind = .command
  form : formOf? lexicon token = none
  callee : (start arities).callee lexicon token = .ok callee

/-- `Reads lexicon room arities tokens reading after`: with the known arities,
the tokens are read as something, and then the arities after are known.  No
token may stand deeper than the room. -/
inductive Reads (lexicon : Lexicon) :
    Nat → NameMap Nat → List Token → Reading → NameMap Nat → Prop where
  | constant {room arities token value} (hkind : token.kind = .constant)
      (hvalue : Number.constant token.text = .ok value) :
      Reads lexicon (room + 1) arities [token]
        (.value (.literal token value)) arities
  | «variable» {room arities token} (hkind : token.kind = .variable) :
      Reads lexicon (room + 1) arities [token]
        (.value (.variable token)) arities
  | form {room arities token form tokens expr after}
      (hkind : token.kind = .command)
      (hform : formOf? lexicon token = some form)
      (hrest : Reads lexicon (room + 1) arities tokens
        (.rest (form.need token) expr) after) :
      Reads lexicon (room + 1) arities (token :: tokens) (.value expr) after
  | call {room arities head callee tokens args after}
      (hcalls : Calls lexicon arities head callee)
      (hargs : Reads lexicon room arities tokens (.list args) after)
      (hlength : args.length = callee.arity) :
      Reads lexicon (room + 1) arities (head :: tokens)
        (.value (callee.call head args)) after
  | group {room arities opener tokens expr after}
      (hopener : opener.kind = .groupStart)
      (hrest : Reads lexicon (room + 1) arities tokens
        (.rest (.leader opener) expr) after) :
      Reads lexicon (room + 1) arities (opener :: tokens) (.value expr) after
  | empty {room arities} : Reads lexicon room arities [] (.list []) arities
  | snoc {room arities tokens exprs between others expr after}
      (hlist : Reads lexicon room arities tokens (.list exprs) between)
      (hvalue : Reads lexicon room between others (.value expr) after) :
      Reads lexicon room arities (tokens ++ others)
        (.list (exprs ++ [expr])) after
  | done {room arities expr} :
      Reads lexicon room arities [] (.rest (.done expr) expr) arities
  | value {room arities tokens input between others next expr after}
      (hvalue : Reads lexicon room arities tokens (.value input) between)
      (hrest : Reads lexicon (room + 1) between others
        (.rest (next input) expr) after) :
      Reads lexicon (room + 1) arities (tokens ++ others)
        (.rest (.value next) expr) after
  | target {room arities token tokens next expr after}
      (hkind : token.kind = .variable)
      (hrest : Reads lexicon (room + 1) arities tokens
        (.rest (next token) expr) after) :
      Reads lexicon (room + 1) arities (token :: tokens)
        (.rest (.target next) expr) after
  | block
      {room arities opener tokens body between closer others next expr after}
      (hopener : opener.kind = .listStart)
      (hbody : Reads lexicon (room + 1) arities tokens (.list body) between)
      (hcloser : closer.kind = .listEnd)
      (hrest : Reads lexicon (room + 2) between others
        (.rest (next ⟨opener, closer⟩ body) expr) after) :
      Reads lexicon (room + 2) arities (opener :: (tokens ++ closer :: others))
        (.rest (.block next) expr) after
  | opening {room arities token tokens what next expr after}
      (hkind : token.kind = .listStart)
      (hrest : Reads lexicon (room + 1) arities tokens
        (.rest next expr) after) :
      Reads lexicon (room + 1) arities (token :: tokens)
        (.rest (.opening what next) expr) after
  | closing {room arities token tokens what next expr after}
      (hkind : token.kind = .listEnd)
      (hrest : Reads lexicon (room + 1) arities tokens
        (.rest next expr) after) :
      Reads lexicon (room + 1) arities (token :: tokens)
        (.rest (.closing what next) expr) after
  | name {room arities token tokens next expr after}
      (hkind : token.kind = .command) (hnew : lexicon.knows token.text = false)
      (hrest : Reads lexicon (room + 1) arities tokens
        (.rest (next token) expr) after) :
      Reads lexicon (room + 1) arities (token :: tokens)
        (.rest (.name next) expr) after
  | param {room arities token tokens name read next expr after}
      (hkind : token.kind = .variable)
      (hrest : Reads lexicon (room + 1) arities tokens
        (.rest (.params name (read ++ [token]) next) expr) after) :
      Reads lexicon (room + 1) arities (token :: tokens)
        (.rest (.params name read next) expr) after
  | params {room arities token tokens name read next expr after}
      (hkind : token.kind = .listEnd)
      (hrest : Reads lexicon (room + 1)
        (NameMap.insert name.procedureName read.length arities) tokens
        (.rest (next read) expr) after) :
      Reads lexicon (room + 1) arities (token :: tokens)
        (.rest (.params name read next) expr) after
  | leader {room arities head callee tokens args closer opener expr after}
      (hcalls : Calls lexicon arities head callee)
      (hargs : Reads lexicon (room + 1) arities tokens (.list args) after)
      (hcloser : closer.kind = .groupEnd)
      (hgroup : callee.group ⟨opener, closer⟩ head args = .ok expr) :
      Reads lexicon (room + 2) arities (head :: (tokens ++ [closer]))
        (.rest (.leader opener) expr) after

namespace Reader

variable {lexicon : Lexicon} {nesting : Nat}

theorem deliver_eq (reader : Reader) (expr : Expr) (frames : List Frame) :
    deliver reader expr frames =
      deliver ⟨reader.body, [], none, reader.arities⟩ expr frames := by
  induction frames generalizing expr with
  | nil => rfl
  | cons frame frames ih =>
      cases frame with
      | call head callee args =>
          simp only [deliver]
          split
          · rfl
          · exact ih _
      | group opener head callee args => rfl
      | list opener body next => rfl
      | input next =>
          simp only [deliver]
          cases next expr <;> first | exact ih _ | rfl

theorem advance_eq (reader : Reader) (need : Need) :
    reader.advance need =
      advance ⟨reader.body, reader.frames, none, reader.arities⟩ need := by
  cases need with
  | done expr =>
      exact (deliver_eq _ _ _).trans
        (deliver_eq ⟨reader.body, reader.frames, none, reader.arities⟩ _ _).symm
  | _ => rfl

/-- A value that a special form waits for lets the form go on. -/
theorem deliver_input
    (reader : Reader) (expr : Expr) (next : Expr → Need) (frames : List Frame) :
    deliver reader expr (.input next :: frames) =
      advance ⟨reader.body, frames, none, reader.arities⟩ (next expr) := by
  simp only [deliver]
  cases next expr with
  | done complete =>
      exact (deliver_eq _ _ _).trans
        (deliver_eq ⟨reader.body, frames, none, reader.arities⟩ _ _).symm
  | _ => rfl

theorem step_of_need_none
    {body : List Expr} {frames : List Frame} {arities : NameMap Nat}
    {token : Token} (hroom : frames.length ≤ nesting) :
    step lexicon nesting ⟨body, frames, none, arities⟩ token =
      expression lexicon ⟨body, frames, none, arities⟩ token :=
  if_neg (Nat.not_lt.mpr hroom)

section Needs

variable {body : List Expr} {frames : List Frame} {arities : NameMap Nat}
  {token : Token}

theorem step_target
    {next : Token → Need} (hkind : token.kind = .variable)
    (hroom : frames.length ≤ nesting) :
    step lexicon nesting
      (advance ⟨body, frames, none, arities⟩ (.target next)) token =
      .ok (advance ⟨body, frames, none, arities⟩ (next token)) := by
  have hnext :=
    advance_eq ⟨body, frames, some (.target next), arities⟩ (next token)
  refine (if_neg (Nat.not_lt.mpr hroom)).trans ((if_pos hkind).trans ?_)
  exact congrArg Except.ok hnext

theorem step_block
    {next : Brackets → List Expr → Need} (hkind : token.kind = .listStart)
    (hroom : frames.length ≤ nesting) :
    step lexicon nesting
      (advance ⟨body, frames, none, arities⟩ (.block next)) token =
      .ok ⟨body, .list token [] next :: frames, none, arities⟩ :=
  (if_neg (Nat.not_lt.mpr hroom)).trans (if_pos hkind)

theorem step_opening
    {what : String} {next : Need} (hkind : token.kind = .listStart)
    (hroom : frames.length ≤ nesting) :
    step lexicon nesting
      (advance ⟨body, frames, none, arities⟩ (.opening what next)) token =
      .ok (advance ⟨body, frames, none, arities⟩ next) := by
  have hnext :=
    advance_eq ⟨body, frames, some (.opening what next), arities⟩ next
  refine (if_neg (Nat.not_lt.mpr hroom)).trans ((if_pos hkind).trans ?_)
  exact congrArg Except.ok hnext

theorem step_closing
    {what : String} {next : Need} (hkind : token.kind = .listEnd)
    (hroom : frames.length ≤ nesting) :
    step lexicon nesting
      (advance ⟨body, frames, none, arities⟩ (.closing what next)) token =
      .ok (advance ⟨body, frames, none, arities⟩ next) := by
  have hnext :=
    advance_eq ⟨body, frames, some (.closing what next), arities⟩ next
  refine (if_neg (Nat.not_lt.mpr hroom)).trans ((if_pos hkind).trans ?_)
  exact congrArg Except.ok hnext

theorem step_name
    {next : Token → Need} (hkind : token.kind = .command)
    (hnew : lexicon.knows token.text = false)
    (hroom : frames.length ≤ nesting) :
    step lexicon nesting
      (advance ⟨body, frames, none, arities⟩ (.name next)) token =
      .ok (advance ⟨body, frames, none, arities⟩ (next token)) := by
  have hnext :=
    advance_eq ⟨body, frames, some (.name next), arities⟩ (next token)
  refine (if_neg (Nat.not_lt.mpr hroom)).trans
    ((if_neg (not_not.mpr hkind)).trans ?_)
  exact (if_neg (by simp [hnew])).trans (congrArg Except.ok hnext)

variable {name : Token} {read : List Token} {next : List Token → Need}

theorem step_param
    (hkind : token.kind = .variable) (hroom : frames.length ≤ nesting) :
    step lexicon nesting
      (advance ⟨body, frames, none, arities⟩ (.params name read next)) token =
      .ok (advance ⟨body, frames, none, arities⟩
        (.params name (read ++ [token]) next)) := by
  have hmore : token.kind ≠ .listEnd := by simp [hkind]
  exact (if_neg (Nat.not_lt.mpr hroom)).trans
    ((if_neg hmore).trans (if_pos hkind))

/-- The bracket behind the parameters of a procedure makes its arity known. -/
theorem step_params
    (hkind : token.kind = .listEnd) (hroom : frames.length ≤ nesting) :
    step lexicon nesting
      (advance ⟨body, frames, none, arities⟩ (.params name read next)) token =
      .ok (advance
        ⟨body, frames, none,
          NameMap.insert name.procedureName read.length arities⟩
        (next read)) := by
  have hnext :=
    advance_eq
      ⟨body, frames, some (.params name read next),
        NameMap.insert name.procedureName read.length arities⟩ (next read)
  refine (if_neg (Nat.not_lt.mpr hroom)).trans ((if_pos hkind).trans ?_)
  exact congrArg Except.ok hnext

end Needs

/-- Whether the innermost frame, or the program itself, still waits for
expressions after so many further ones. -/
def Takes (count : Nat) : List Frame → Prop
  | [] => True
  | .call _ callee args :: _ => args.length + count < callee.arity
  | .group .. :: _ => True
  | .list .. :: _ => True
  | .input _ :: _ => count = 0

/-- The reader behind some expressions that the innermost frame, or the program
itself, takes. -/
def taking (reader : Reader) (exprs : List Expr) : Reader :=
  match reader.frames with
  | [] => { reader with body := reader.body ++ exprs }
  | .call head callee args :: frames =>
      { reader with frames := .call head callee (args ++ exprs) :: frames }
  | .group opener head callee args :: frames =>
      { reader with
        frames := .group opener head callee (args ++ exprs) :: frames }
  | .list opener body next :: frames =>
      { reader with frames := .list opener (body ++ exprs) next :: frames }
  | .input _ :: _ => reader

theorem Takes.of_succ
    {count : Nat} {frames : List Frame} (htakes : Takes (count + 1) frames) :
    Takes count frames := by
  cases frames with
  | nil => trivial
  | cons frame frames =>
      cases frame with
      | call head callee args =>
          simp only [Takes] at htakes ⊢
          omega
      | group opener head callee args => trivial
      | list opener body next => trivial
      | input next => simp [Takes] at htakes

theorem taking_nil (reader : Reader) : reader.taking [] = reader := by
  obtain ⟨body, frames, need, arities⟩ := reader
  cases frames with
  | nil => simp [taking]
  | cons frame frames => cases frame <;> simp [taking]

/-- A frame that waits for more than the expression that is delivered to it
takes it. -/
theorem deliver_taking
    {body : List Expr} {frames : List Frame} {arities : NameMap Nat}
    {init : List Expr} (last : Expr) (htakes : Takes (init.length + 1) frames) :
    deliver (taking ⟨body, frames, none, arities⟩ init) last
        (taking ⟨body, frames, none, arities⟩ init).frames =
      taking ⟨body, frames, none, arities⟩ (init ++ [last]) := by
  cases frames with
  | nil => simp [taking, deliver]
  | cons frame frames =>
      cases frame with
      | call head callee args =>
          have hmore : (args ++ init).length + 1 < callee.arity := by
            simp only [Takes] at htakes
            simp only [List.length_append]
            omega
          simp only [taking, deliver, if_pos hmore, List.append_assoc]
      | group opener head callee args => simp [taking, deliver]
      | list opener items next => simp [taking, deliver]
      | input next => simp [Takes] at htakes

/-- The reader behind some expressions is as deeply nested as before. -/
theorem taking_eq
    (body : List Expr) (frames : List Frame) (exprs : List Expr) :
    ∃ body' frames', frames'.length = frames.length ∧
      ∀ arities, taking ⟨body, frames, none, arities⟩ exprs =
        ⟨body', frames', none, arities⟩ := by
  cases frames with
  | nil => exact ⟨body ++ exprs, [], rfl, fun _ => rfl⟩
  | cons frame frames =>
      cases frame with
      | call head callee args =>
          exact ⟨body, .call head callee (args ++ exprs) :: frames,
            rfl, fun _ => rfl⟩
      | group opener head callee args =>
          exact ⟨body, .group opener head callee (args ++ exprs) :: frames,
            rfl, fun _ => rfl⟩
      | list opener items next =>
          exact ⟨body, .list opener (items ++ exprs) next :: frames,
            rfl, fun _ => rfl⟩
      | input next => exact ⟨body, .input next :: frames, rfl, fun _ => rfl⟩

/-- What the reader does with tokens that are read as something, wherever there
is room. -/
def Runs (lexicon : Lexicon) (nesting room : Nat) (arities : NameMap Nat)
    (tokens : List Token) (reading : Reading) (after : NameMap Nat) : Prop :=
  match reading with
  | .value expr =>
      ∀ body frames, room + frames.length = nesting + 1 →
        steps lexicon nesting ⟨body, frames, none, arities⟩ tokens =
          .ok (deliver ⟨body, frames, none, after⟩ expr frames)
  | .list exprs =>
      ∀ body frames, room + frames.length = nesting + 1 →
        (exprs = [] →
          steps lexicon nesting ⟨body, frames, none, arities⟩ tokens =
          .ok ⟨body, frames, none, after⟩) ∧
        ∀ init last, exprs = init ++ [last] → Takes init.length frames →
          steps lexicon nesting ⟨body, frames, none, arities⟩ tokens =
            .ok (deliver (taking ⟨body, frames, none, after⟩ init) last
              (taking ⟨body, frames, none, after⟩ init).frames)
  | .rest need expr =>
      ∀ body frames, room + frames.length = nesting + 1 →
        steps lexicon nesting
          (advance ⟨body, frames, none, arities⟩ need) tokens =
          .ok (deliver ⟨body, frames, none, after⟩ expr frames)

/-- A frame that waits for even more takes all the expressions of a list. -/
theorem Runs.taking
    {room : Nat} {arities after : NameMap Nat} {tokens : List Token}
    {exprs : List Expr}
    (hruns : Runs lexicon nesting room arities tokens (.list exprs) after)
    {frames : List Frame} (hroom : room + frames.length = nesting + 1)
    (htakes : Takes exprs.length frames) (body : List Expr) :
    steps lexicon nesting ⟨body, frames, none, arities⟩ tokens =
      .ok (Reader.taking ⟨body, frames, none, after⟩ exprs) := by
  obtain ⟨hempty, hsnoc⟩ := hruns body frames hroom
  rcases List.eq_nil_or_concat' exprs with rfl | ⟨init, last, rfl⟩
  · rw [hempty rfl, taking_nil]
  · rw [List.length_append, List.length_singleton] at htakes
    rw [hsnoc init last rfl htakes.of_succ, deliver_taking last htakes]

end Reader

section Acceptance

variable {lexicon : Lexicon} {nesting : Nat}

theorem Calls.instruction
    {arities : NameMap Nat} {token : Token} {callee : Callee}
    (hcalls : Calls lexicon arities token callee) (body : List Expr)
    (frames : List Frame) :
    expression lexicon ⟨body, frames, none, arities⟩ token =
      .ok (if callee.arity = 0 then
          deliver ⟨body, frames, none, arities⟩ (callee.call token []) frames
        else ⟨body, .call token callee [] :: frames, none, arities⟩) := by
  have hcallee :
      Reader.callee lexicon ⟨body, frames, none, arities⟩ token = .ok callee :=
    hcalls.callee
  simp only [expression, hcalls.kind, Reader.instruction, hcalls.form,
    hcallee, bind, Except.bind, pure, Except.pure]
  split <;> rfl

theorem Calls.leader
    {arities : NameMap Nat} {token : Token} {callee : Callee}
    (hcalls : Calls lexicon arities token callee) (body : List Expr)
    (frames : List Frame) (need : Option Need) (opener : Token) :
    leader lexicon ⟨body, frames, need, arities⟩ opener token =
      .ok ⟨body, .group opener token callee [] :: frames, none, arities⟩ := by
  have hcallee :
      Reader.callee lexicon ⟨body, frames, need, arities⟩ token = .ok callee :=
    hcalls.callee
  simp [Reader.leader, hcalls.kind, hcalls.form, hcallee, bind, Except.bind,
    pure, Except.pure]

theorem Reads.of_list_nil
    {room : Nat} {arities after : NameMap Nat} {tokens : List Token}
    (hreads : Reads lexicon room arities tokens (.list []) after) :
    tokens = [] ∧ after = arities := by
  generalize hreading : Reading.list [] = reading at hreads
  cases hreads with
  | empty => exact ⟨rfl, rfl⟩
  | snoc hlist hvalue => simp at hreading
  | _ => cases hreading

/-- The reader accepts what the grammar derives. -/
theorem Reads.runs
    {room : Nat} {arities after : NameMap Nat} {tokens : List Token}
    {reading : Reading}
    (hreads : Reads lexicon room arities tokens reading after) (nesting : Nat) :
    Runs lexicon nesting room arities tokens reading after := by
  induction hreads with
  | constant hkind hvalue =>
      intro body frames hroom
      rw [steps_cons, step_of_need_none (by omega)]
      simp only [expression, hkind, hvalue]
      rfl
  | «variable» hkind =>
      intro body frames hroom
      rw [steps_cons, step_of_need_none (by omega)]
      simp only [expression, hkind]
      rfl
  | @form room arities token form tokens expr after hkind hform _ ih =>
      intro body frames hroom
      have hstep :
          expression lexicon ⟨body, frames, none, arities⟩ token =
            .ok (advance ⟨body, frames, none, arities⟩ (form.need token)) := by
        simp only [expression, hkind, instruction, hform]
      rw [steps_cons, step_of_need_none (by omega), hstep]
      exact ih body frames hroom
  | @call room arities head callee tokens args after hcalls hargs hlength ih =>
      intro body frames hroom
      rw [steps_cons, step_of_need_none (by omega), hcalls.instruction]
      rcases List.eq_nil_or_concat' args with rfl | ⟨init, last, rfl⟩
      · obtain ⟨rfl, rfl⟩ := hargs.of_list_nil
        have harity : callee.arity = 0 := hlength.symm
        rw [if_pos harity]
        rfl
      · rw [List.length_append, List.length_singleton] at hlength
        have htakes : Takes init.length (.call head callee [] :: frames) := by
          simp only [Takes, List.length_nil]
          omega
        have hroom' : room + (Frame.call head callee [] :: frames).length =
            nesting + 1 := by
          simp only [List.length_cons]
          omega
        have hsteps := (ih body _ hroom').2 init last rfl htakes
        have hlast : ¬ init.length + 1 < callee.arity := by omega
        rw [if_neg (by omega)]
        refine hsteps.trans ?_
        simp only [taking, deliver, List.nil_append, if_neg hlast]
        rw [deliver_eq, deliver_eq ⟨body, frames, none, after⟩]
  | @group room arities opener tokens expr after hopener _ ih =>
      intro body frames hroom
      have hstep :
          expression lexicon ⟨body, frames, none, arities⟩ opener =
            .ok (advance ⟨body, frames, none, arities⟩ (.leader opener)) := by
        simp only [expression, hopener]
        rfl
      rw [steps_cons, step_of_need_none (by omega), hstep]
      exact ih body frames hroom
  | empty =>
      intro body frames hroom
      refine ⟨fun _ => rfl, fun init last hlast => ?_⟩
      simp at hlast
  | @snoc room arities tokens exprs between others expr after
    _ _ ihlist ihvalue =>
      intro body frames hroom
      refine ⟨fun hnil => by simp at hnil, fun init last hlast htakes => ?_⟩
      obtain ⟨rfl, hlast⟩ := List.append_inj' hlast rfl
      obtain rfl : expr = last := by simpa using hlast
      obtain ⟨body', frames', hlength, htaking⟩ := taking_eq body frames exprs
      have hvalue := ihvalue body' frames' (by omega)
      rw [steps_append, ihlist.taking hroom htakes body, htaking, htaking]
      exact hvalue
  | done =>
      intro body frames hroom
      rfl
  | @value room arities tokens input between others next expr after
    _ _ ihvalue ihrest =>
      intro body frames hroom
      have hroom' :
          room + (Frame.input next :: frames).length = nesting + 1 := by
        simp only [List.length_cons]
        omega
      have hvalue :
          steps lexicon nesting
            (advance ⟨body, frames, none, arities⟩ (.value next)) tokens =
            .ok (advance ⟨body, frames, none, between⟩ (next input)) :=
        (ihvalue body _ hroom').trans
          (congrArg Except.ok (deliver_input _ _ _ _))
      rw [steps_append, hvalue]
      exact ihrest body frames hroom
  | @target room arities token tokens next expr after hkind _ ih =>
      intro body frames hroom
      rw [steps_cons, step_target hkind (by omega)]
      exact ih body frames hroom
  | @block room arities opener tokens items between closer others next expr
      after hopener _ hcloser _ ihbody ihrest =>
      intro body frames hroom
      have hroom' : room + 1 + (Frame.list opener [] next :: frames).length =
          nesting + 1 := by
        simp only [List.length_cons]
        omega
      have hclose :
          step lexicon nesting ⟨body, .list opener items next :: frames, none,
            between⟩ closer =
            .ok (advance ⟨body, frames, none, between⟩
              (next ⟨opener, closer⟩ items)) := by
        rw [step_of_need_none (by simp only [List.length_cons]; omega)]
        simp only [expression, hcloser, close]
        rfl
      rw [steps_cons, step_block hopener (by omega)]
      change steps lexicon nesting _ (tokens ++ closer :: others) = _
      rw [steps_append, ihbody.taking hroom' trivial body]
      change steps lexicon nesting ⟨body, .list opener items next :: frames,
        none, between⟩ (closer :: others) = _
      rw [steps_cons, hclose]
      exact ihrest body frames hroom
  | @opening room arities token tokens what next expr after hkind _ ih =>
      intro body frames hroom
      rw [steps_cons, step_opening hkind (by omega)]
      exact ih body frames hroom
  | @closing room arities token tokens what next expr after hkind _ ih =>
      intro body frames hroom
      rw [steps_cons, step_closing hkind (by omega)]
      exact ih body frames hroom
  | @name room arities token tokens next expr after hkind hnew _ ih =>
      intro body frames hroom
      rw [steps_cons, step_name hkind hnew (by omega)]
      exact ih body frames hroom
  | @param room arities token tokens name read next expr after hkind _ ih =>
      intro body frames hroom
      rw [steps_cons, step_param hkind (by omega)]
      exact ih body frames hroom
  | @params room arities token tokens name read next expr after hkind _ ih =>
      intro body frames hroom
      rw [steps_cons, step_params hkind (by omega)]
      exact ih body frames hroom
  | @leader room arities head callee tokens args closer opener expr after
      hcalls _ hcloser hgroup ih =>
      intro body frames hroom
      have hroom' :
          room + 1 + (Frame.group opener head callee [] :: frames).length =
            nesting + 1 := by
        simp only [List.length_cons]
        omega
      have hleader :
          step lexicon nesting
            (advance ⟨body, frames, none, arities⟩ (.leader opener)) head =
            .ok ⟨body, .group opener head callee [] :: frames, none,
              arities⟩ := by
        unfold step
        rw [if_neg (by simp only [advance]; omega)]
        exact hcalls.leader body frames _ opener
      have hclose :
          step lexicon nesting
            ⟨body, .group opener head callee args :: frames, none, after⟩
              closer =
            .ok (deliver ⟨body, frames, none, after⟩ expr frames) := by
        rw [step_of_need_none (by simp only [List.length_cons]; omega)]
        simp only [expression, hcloser, close, hgroup]
        rw [deliver_eq, deliver_eq ⟨body, frames, none, after⟩]
        rfl
      rw [steps_cons, hleader]
      change steps lexicon nesting _ (tokens ++ [closer]) = _
      rw [steps_append, ih.taking hroom' trivial body]
      change steps lexicon nesting
        ⟨body, .group opener head callee args :: frames, none, after⟩
        [closer] = _
      rw [steps_cons, hclose]
      rfl

end Acceptance

end Logo
