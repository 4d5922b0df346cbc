import Logo.Proofs.Program.LeftToRight
import Logo.Proofs.Program.Similar

/-!
# The same program in other words

A program can be rendered in another language, or in the same language with
other words for the same instructions.  The tokens of both correspond one by
one, and the reader never looks at more of a token than what corresponding
tokens have in common.  So it goes through similar states, and ends with similar
expressions or with similar faults.
-/

namespace Logo

open Vocabulary Token

/-- What corresponding tokens have in common, for a reader of each language:
their kind, the text of constants and variables, and the meaning of an
instruction word, which is the name of a procedure if neither language knows the
word. -/
structure Rendering (lexicon lexicon' : Lexicon)
    (T : Token → Token → Prop) : Prop where
  kind : ∀ {token token'}, T token token' → token.kind = token'.kind
  constant :
    ∀ {token token'}, T token token' → token.kind = .constant →
      token.text = token'.text
  «variable» :
    ∀ {token token'}, T token token' → token.kind = .variable →
      token.text = token'.text
  translate :
    ∀ {token token'}, T token token' → token.kind = .command →
      lexicon.translate? token.text = lexicon'.translate? token'.text
  name :
    ∀ {token token'}, T token token' → token.kind = .command →
      lexicon.translate? token.text = none →
        token.procedureName = token'.procedureName

/-- Two computations both succeed or both fail, with related results. -/
inductive Likewise {ε ε' α α' : Type} (F : ε → ε' → Prop) (R : α → α' → Prop) :
    Except ε α → Except ε' α' → Prop where
  | ok {a : α} {a' : α'} (hvalue : R a a') : Likewise F R (.ok a) (.ok a')
  | error {fault : ε} {fault' : ε'} (hfault : F fault fault') :
      Likewise F R (.error fault) (.error fault')

/-- Two callees' heads name the same procedure, if a procedure is called. -/
def Callee.SameName (callee : Callee) (head head' : Token) : Prop :=
  match callee with
  | .procedure _ => head.procedureName = head'.procedureName
  | _ => True

inductive Need.Similar (T : Token → Token → Prop) : Need → Need → Prop where
  | done {expr expr' : Expr} (hexpr : expr.Similar T expr') :
      Similar T (.done expr) (.done expr')
  | value {next next' : Expr → Need}
      (hnext : ∀ expr expr', expr.Similar T expr' →
        Similar T (next expr) (next' expr')) :
      Similar T (.value next) (.value next')
  | target {next next' : Token → Need}
      (hnext : ∀ token token', SameVariable T token token' →
        Similar T (next token) (next' token')) :
      Similar T (.target next) (.target next')
  | block {next next' : Brackets → List Expr → Need}
      (hnext : ∀ brackets brackets' body body', brackets.Similar T brackets' →
        List.Forall₂ (Expr.Similar T) body body' →
          Similar T (next brackets body) (next' brackets' body')) :
      Similar T (.block next) (.block next')
  | opening (what : String) {next next' : Need} (hnext : Similar T next next') :
      Similar T (.opening what next) (.opening what next')
  | closing (what : String) {next next' : Need} (hnext : Similar T next next') :
      Similar T (.closing what next) (.closing what next')
  | name {next next' : Token → Need}
      (hnext : ∀ token token', SameProcedure T token token' →
        Similar T (next token) (next' token')) :
      Similar T (.name next) (.name next')
  | params {name name' : Token} {read read' : List Token}
      {next next' : List Token → Need} (hname : SameProcedure T name name')
      (hread : List.Forall₂ (SameVariable T) read read')
      (hnext : ∀ params params', List.Forall₂ (SameVariable T) params params' →
        Similar T (next params) (next' params')) :
      Similar T (.params name read next) (.params name' read' next')
  | leader {opener opener' : Token} (hopener : T opener opener') :
      Similar T (.leader opener) (.leader opener')

theorem Form.need_similar
    {T : Token → Token → Prop} {head head' : Token} (hhead : T head head')
    (form : Form) :
    (form.need head).Similar T (form.need head') := by
  cases form with
  | make =>
      refine .target fun target target' htarget =>
        .value fun value value' hvalue => ?_
      exact .done (.make hhead htarget hvalue)
  | repeatTimes =>
      refine .value fun count count' hcount =>
        .block fun brackets brackets' body body' hbrackets hbody => ?_
      exact .done (.repeatTimes hhead hcount hbrackets hbody)
  | countTo =>
      refine .opening _ (.target fun target target' htarget =>
        .value fun limit limit' hlimit => .closing _
          (.block fun brackets brackets' body body' hbrackets hbody => ?_))
      exact .done (.countTo hhead htarget hlimit hbrackets hbody)
  | countBy =>
      refine .opening _ (.target fun target target' htarget =>
        .value fun first first' hfirst => .value fun last last' hlast =>
          .value fun step step' hstep => .closing _
            (.block fun brackets brackets' body body' hbrackets hbody => ?_))
      exact .done (.countBy hhead htarget hfirst hlast hstep hbrackets hbody)
  | ifThen =>
      refine .value fun condition condition' hcondition =>
        .block fun brackets brackets' body body' hbrackets hbody => ?_
      exact .done (.ifThen hhead hcondition hbrackets hbody)
  | ifElse =>
      refine .value fun condition condition' hcondition =>
        .block fun brackets brackets' body body' hbrackets hbody =>
          .block fun others others' rest rest' hothers hrest => ?_
      exact .done (.ifElse hhead hcondition hbrackets hbody hothers hrest)
  | define =>
      refine .name fun name name' hname => .opening _
        (.params hname .nil fun params params' hparams =>
          .block fun brackets brackets' body body' hbrackets hbody => ?_)
      exact .done (.define hhead hname hparams hbrackets hbody)
  | tell =>
      refine .block fun brackets brackets' list list' hbrackets hlist => ?_
      exact .done (.tell hhead hbrackets hlist)
  | ask =>
      refine .block fun brackets brackets' list list' hbrackets hlist =>
        .block fun others others' body body' hothers hbody => ?_
      exact .done (.ask hhead hbrackets hlist hothers hbody)
  | askWith =>
      refine .block
        fun brackets brackets' condition condition' hbrackets hcondition =>
          .block fun others others' body body' hothers hbody => ?_
      exact .done (.askWith hhead hbrackets hcondition hothers hbody)

inductive Frame.Similar (T : Token → Token → Prop) : Frame → Frame → Prop where
  | call {head head' : Token} (callee : Callee) {args args' : List Expr}
      (hhead : T head head') (hname : callee.SameName head head')
      (hargs : List.Forall₂ (Expr.Similar T) args args') :
      Similar T (.call head callee args) (.call head' callee args')
  | group {opener opener' head head' : Token} (callee : Callee)
      {args args' : List Expr} (hopener : T opener opener')
      (hhead : T head head') (hname : callee.SameName head head')
      (hargs : List.Forall₂ (Expr.Similar T) args args') :
      Similar T (.group opener head callee args)
        (.group opener' head' callee args')
  | list {opener opener' : Token} {body body' : List Expr}
      {next next' : Brackets → List Expr → Need} (hopener : T opener opener')
      (hbody : List.Forall₂ (Expr.Similar T) body body')
      (hnext : (Need.block next).Similar T (.block next')) :
      Similar T (.list opener body next) (.list opener' body' next')
  | input {next next' : Expr → Need}
      (hnext : (Need.value next).Similar T (.value next')) :
      Similar T (.input next) (.input next')

/-- Two readers are in similar states and have learned the same arities. -/
structure Reader.Similar (T : Token → Token → Prop)
    (reader reader' : Reader) : Prop where
  body : List.Forall₂ (Expr.Similar T) reader.body reader'.body
  frames : List.Forall₂ (Frame.Similar T) reader.frames reader'.frames
  need : Option.Rel (Need.Similar T) reader.need reader'.need
  arities : reader.arities = reader'.arities

section Groups

variable {T : Token → Token → Prop}

theorem Callee.call_similar
    {callee : Callee} {head head' : Token} {args args' : List Expr}
    (hhead : T head head') (hname : callee.SameName head head')
    (hargs : List.Forall₂ (Expr.Similar T) args args') :
    (callee.call head args).Similar T (callee.call head' args') := by
  cases callee with
  | command c => exact .command c hhead hargs
  | flock c => exact .flock c hhead hargs
  | operator o => exact .operation o hhead hargs
  | procedure arity => exact .call ⟨hhead, hname⟩ hargs

theorem pieces_similar
    {α : Type} {R : α → α → Prop} (size count : Nat) {items items' : List α}
    (hitems : List.Forall₂ R items items') :
    List.Forall₂ (List.Forall₂ R) (pieces size count items)
      (pieces size count items') := by
  induction count generalizing items items' with
  | zero => exact .nil
  | succ count ih =>
      cases hitems with
      | nil => exact .nil
      | cons hfirst hrest =>
          have hall := List.Forall₂.cons hfirst hrest
          exact .cons (List.forall₂_take size hall)
            (ih (List.forall₂_drop size hall))

/-- A group closes alike in both languages. -/
theorem Callee.group_similar
    {callee : Callee} {brackets brackets' : Brackets} {head head' : Token}
    {args args' : List Expr} (hbrackets : brackets.Similar T brackets')
    (hhead : T head head') (hname : callee.SameName head head')
    (hargs : List.Forall₂ (Expr.Similar T) args args') :
    Likewise (fun flaw flaw' => flaw.unworded = flaw'.unworded) (Expr.Similar T)
      (callee.group brackets head args)
      (callee.group brackets' head' args') := by
  have hlength := hargs.length_eq
  have hempty : args.isEmpty = args'.isEmpty := by
    cases hargs <;> rfl
  have hcalls :
      List.Forall₂ (Expr.Similar T)
        ((pieces callee.arity args.length args).map (callee.call head))
        ((pieces callee.arity args.length args').map (callee.call head')) := by
    rw [List.forall₂_map_left_iff, List.forall₂_map_right_iff]
    exact (pieces_similar callee.arity args.length hargs).imp
      fun _ _ hpiece => call_similar hhead hname hpiece
  unfold Callee.group
  rw [← hlength, hempty]
  split
  · exact .ok (call_similar hhead hname hargs)
  · split
    · exact .error rfl
    · generalize (pieces callee.arity args.length args).map
        (callee.call head) = calls
        at hcalls
      generalize (pieces callee.arity args.length args').map
        (callee.call head') = calls'
        at hcalls
      match hcalls with
      | .nil => exact .ok (.block hbrackets .nil)
      | .cons hfirst .nil => exact .ok hfirst
      | .cons hfirst (.cons hsecond hrest) =>
          exact .ok (.block hbrackets (.cons hfirst (.cons hsecond hrest)))

end Groups

namespace Reader

section Reading

variable {T : Token → Token → Prop} {reader reader' : Reader}

theorem deliver_similar
    (hreader : reader.Similar T reader') {expr expr' : Expr}
    (hexpr : expr.Similar T expr') {frames frames' : List Frame}
    (hframes : List.Forall₂ (Frame.Similar T) frames frames') :
    (deliver reader expr frames).Similar T (deliver reader' expr' frames') := by
  induction hframes generalizing expr expr' with
  | nil =>
      exact
        { body := List.rel_append hreader.body (.cons hexpr .nil)
          frames := .nil
          need := .none
          arities := hreader.arities }
  | @cons frame frame' frames frames' hframe hframes ih =>
      have hpending (frame frame' : Frame) (hframe : frame.Similar T frame') :
          Reader.Similar T
            { reader with frames := frame :: frames, need := none }
            { reader' with frames := frame' :: frames', need := none } :=
        { body := hreader.body
          frames := .cons hframe hframes
          need := .none
          arities := hreader.arities }
      cases hframe with
      | @call head head' callee args args' hhead hname hargs =>
          have hall := List.rel_append hargs (.cons hexpr .nil)
          simp only [deliver, hargs.length_eq]
          split
          · exact hpending _ _ (.call callee hhead hname hall)
          · exact ih (Callee.call_similar hhead hname hall)
      | group callee hopener hhead hname hargs =>
          exact hpending _ _ (.group callee hopener hhead hname
            (List.rel_append hargs (.cons hexpr .nil)))
      | list hopener hbody hnext =>
          exact hpending _ _ (.list hopener
            (List.rel_append hbody (.cons hexpr .nil)) hnext)
      | @input next next' hnext =>
          have hneeded (need need' : Need) (hneed : need.Similar T need') :
              Reader.Similar T
                { reader with frames := frames, need := some need }
                { reader' with frames := frames', need := some need' } :=
            { body := hreader.body
              frames := hframes
              need := .some hneed
              arities := hreader.arities }
          have hneed : (next expr).Similar T (next' expr') := by
            cases hnext with
            | value hnext => exact hnext expr expr' hexpr
          simp only [deliver]
          generalize next expr = need at hneed
          generalize next' expr' = need' at hneed
          cases hneed with
          | done hcomplete => exact ih hcomplete
          | value hnext => exact hpending _ _ (.input (.value hnext))
          | target hnext => exact hneeded _ _ (.target hnext)
          | block hnext => exact hneeded _ _ (.block hnext)
          | opening what hnext => exact hneeded _ _ (.opening what hnext)
          | closing what hnext => exact hneeded _ _ (.closing what hnext)
          | name hnext => exact hneeded _ _ (.name hnext)
          | params hname hread hnext =>
              exact hneeded _ _ (.params hname hread hnext)
          | leader hopener => exact hneeded _ _ (.leader hopener)

theorem advance_similar
    (hreader : reader.Similar T reader') {need need' : Need}
    (hneed : need.Similar T need') :
    (reader.advance need).Similar T (reader'.advance need') := by
  have hneeded (need need' : Need) (hneed : need.Similar T need') :
      Reader.Similar T { reader with need := some need }
        { reader' with need := some need' } :=
    { body := hreader.body
      frames := hreader.frames
      need := .some hneed
      arities := hreader.arities }
  cases hneed with
  | done hexpr => exact deliver_similar hreader hexpr hreader.frames
  | value hnext =>
      exact
        { body := hreader.body
          frames := .cons (.input (.value hnext)) hreader.frames
          need := .none
          arities := hreader.arities }
  | target hnext => exact hneeded _ _ (.target hnext)
  | block hnext => exact hneeded _ _ (.block hnext)
  | opening what hnext => exact hneeded _ _ (.opening what hnext)
  | closing what hnext => exact hneeded _ _ (.closing what hnext)
  | name hnext => exact hneeded _ _ (.name hnext)
  | params hname hread hnext => exact hneeded _ _ (.params hname hread hnext)
  | leader hopener => exact hneeded _ _ (.leader hopener)

theorem flawAt_likewise
    {α α' : Type} {R : α → α' → Prop} {token token' : Token} {flaw flaw' : Flaw}
    (htoken : T token token') (hflaw : flaw.unworded = flaw'.unworded) :
    Likewise (Fault.Similar T) R (flawAt token flaw) (flawAt token' flaw') :=
  .error (.complaint (.malformed hflaw (.some htoken)))

variable {lexicon lexicon' : Lexicon} {token token' : Token}

theorem callee_likewise
    (hrendering : Rendering lexicon lexicon' T)
    (hreader : reader.Similar T reader') (htoken : T token token')
    (hcommand : token.kind = .command) :
    Likewise (Fault.Similar T)
      (fun callee callee' => callee = callee' ∧ callee.SameName token token')
      (reader.callee lexicon token) (reader'.callee lexicon' token') := by
  have hname := hrendering.name htoken hcommand
  unfold callee
  rw [← hrendering.translate htoken hcommand, ← hreader.arities]
  cases htranslate : lexicon.translate? token.text with
  | some symbol =>
      simp only
      split
      · exact .ok ⟨rfl, trivial⟩
      · exact .ok ⟨rfl, trivial⟩
      · exact .ok ⟨rfl, trivial⟩
      · exact flawAt_likewise htoken rfl
  | none =>
      rw [← hname htranslate]
      cases reader.arities.get? token.procedureName with
      | some arity => exact .ok ⟨rfl, hname htranslate⟩
      | none => exact .error (.complaint (.unrecognized _ _ (.some htoken)))

theorem formOf?_eq
    (hrendering : Rendering lexicon lexicon' T)
    (htoken : T token token') (hcommand : token.kind = .command) :
    formOf? lexicon' token' = formOf? lexicon token := by
  unfold formOf?
  rw [hrendering.translate htoken hcommand]

theorem instruction_likewise
    (hrendering : Rendering lexicon lexicon' T)
    (hreader : reader.Similar T reader') (htoken : T token token')
    (hcommand : token.kind = .command) :
    Likewise (Fault.Similar T) (Reader.Similar T)
      (reader.instruction lexicon token)
      (reader'.instruction lexicon' token') := by
  have hcallee := callee_likewise hrendering hreader htoken hcommand
  unfold instruction
  rw [formOf?_eq hrendering htoken hcommand]
  cases formOf? lexicon token with
  | some form => exact .ok (advance_similar hreader (form.need_similar htoken))
  | none =>
      simp only
      generalize reader.callee lexicon token = found at hcallee
      generalize reader'.callee lexicon' token' = found' at hcallee
      cases hcallee with
      | error hfault => exact .error hfault
      | @ok callee callee' hsame =>
          obtain ⟨rfl, hname⟩ := hsame
          simp only [bind, Except.bind, pure, Except.pure]
          split
          · exact .ok (deliver_similar hreader
              (Callee.call_similar htoken hname .nil) hreader.frames)
          · exact .ok
              { body := hreader.body
                frames := .cons (.call callee htoken hname .nil) hreader.frames
                need := hreader.need
                arities := hreader.arities }

theorem close_likewise
    (hrendering : Rendering lexicon lexicon' T)
    (hreader : reader.Similar T reader') (htoken : T token token') :
    Likewise (Fault.Similar T) (Reader.Similar T)
      (reader.close token) (reader'.close token') := by
  have hframes := hreader.frames
  have hkind := hrendering.kind htoken
  unfold close
  generalize reader.frames = frames at hframes
  generalize reader'.frames = frames' at hframes
  cases hframes with
  | nil => exact flawAt_likewise htoken rfl
  | cons hframe hframes =>
      cases hframe with
      | call callee hhead hname hargs =>
          simp only [hargs.length_eq]
          exact flawAt_likewise hhead rfl
      | input hnext => exact flawAt_likewise htoken rfl
      | @group opener opener' head head' callee args args' hopener hhead
        hname hargs =>
          have hbrackets :
              Brackets.Similar T ⟨opener, token⟩ ⟨opener', token'⟩ :=
            ⟨hopener, htoken⟩
          have hgroup := Callee.group_similar hbrackets hhead hname hargs
          simp only [← hkind]
          split
          · generalize callee.group ⟨opener, token⟩ head args = closed at hgroup
            generalize callee.group ⟨opener', token'⟩ head' args' =
              closed' at hgroup
            cases hgroup with
            | ok hexpr => exact .ok (deliver_similar hreader hexpr hframes)
            | error hflaw => exact flawAt_likewise hhead hflaw
          · exact flawAt_likewise hopener rfl
      | @list opener opener' body body' next next' hopener hbody hnext =>
          have hneed :
              (next ⟨opener, token⟩ body).Similar T
                (next' ⟨opener', token'⟩ body') := by
            cases hnext with
            | block hnext => exact hnext _ _ _ _ ⟨hopener, htoken⟩ hbody
          simp only [← hkind]
          split
          · refine .ok (advance_similar ?_ hneed)
            exact
              { body := hreader.body
                frames := hframes
                need := hreader.need
                arities := hreader.arities }
          · exact flawAt_likewise htoken rfl

theorem expression_likewise
    (hrendering : Rendering lexicon lexicon' T)
    (hreader : reader.Similar T reader') (htoken : T token token') :
    Likewise (Fault.Similar T) (Reader.Similar T)
      (reader.expression lexicon token)
      (reader'.expression lexicon' token') := by
  have hclose := close_likewise hrendering hreader htoken
  unfold expression
  rw [← hrendering.kind htoken]
  cases hkind : token.kind with
  | constant =>
      rw [← hrendering.constant htoken hkind]
      cases Number.constant token.text with
      | ok value =>
          exact .ok (deliver_similar hreader
            (.literal value htoken) hreader.frames)
      | error fault => exact .error (.arithmetic fault)
  | «variable» =>
      have hname : token.variableName = token'.variableName := by
        unfold variableName
        rw [hrendering.variable htoken hkind]
      exact .ok (deliver_similar hreader
        (.variable ⟨htoken, hname⟩) hreader.frames)
  | command => exact instruction_likewise hrendering hreader htoken hkind
  | groupStart =>
      exact .ok { hreader with need := .some (.leader htoken) }
  | listStart => exact flawAt_likewise htoken rfl
  | listEnd => exact hclose
  | groupEnd => exact hclose
  | comment => exact flawAt_likewise htoken rfl
  | unknown => exact flawAt_likewise htoken rfl

theorem leader_likewise
    (hrendering : Rendering lexicon lexicon' T)
    (hreader : reader.Similar T reader') {opener opener' : Token}
    (hopener : T opener opener') (htoken : T token token') :
    Likewise (Fault.Similar T) (Reader.Similar T)
      (reader.leader lexicon opener token)
      (reader'.leader lexicon' opener' token') := by
  unfold leader
  rw [← hrendering.kind htoken]
  split
  next => exact flawAt_likewise htoken rfl
  next hkind =>
    have hcommand : token.kind = .command := not_not.mp hkind
    have hcallee := callee_likewise hrendering hreader htoken hcommand
    rw [formOf?_eq hrendering htoken hcommand]
    split
    · exact flawAt_likewise htoken rfl
    · generalize reader.callee lexicon token = found at hcallee
      generalize reader'.callee lexicon' token' = found' at hcallee
      cases hcallee with
      | error hfault => exact .error hfault
      | @ok callee callee' hsame =>
          obtain ⟨rfl, hname⟩ := hsame
          exact .ok
            { body := hreader.body
              frames :=
                .cons (.group callee hopener htoken hname .nil) hreader.frames
              need := .none
              arities := hreader.arities }

/-- Corresponding tokens take readers in similar states to similar states or
faults. -/
theorem step_likewise
    (hrendering : Rendering lexicon lexicon' T) (nesting : Nat)
    (hreader : reader.Similar T reader') (htoken : T token token') :
    Likewise (Fault.Similar T) (Reader.Similar T)
      (step lexicon nesting reader token)
      (step lexicon' nesting reader' token') := by
  have hkind := hrendering.kind htoken
  have hneed := hreader.need
  unfold step
  rw [← hreader.frames.length_eq, ← hkind]
  split
  next => exact .error .tooDeep
  next =>
    generalize reader.need = need at hneed
    generalize reader'.need = need' at hneed
    cases hneed with
    | none => exact expression_likewise hrendering hreader htoken
    | some hneed =>
        cases hneed with
        | done hexpr =>
            exact expression_likewise hrendering
              (deliver_similar hreader hexpr hreader.frames) htoken
        | value hnext =>
            exact expression_likewise hrendering
              { hreader with
                frames := .cons (.input (.value hnext)) hreader.frames
                need := .none } htoken
        | target hnext =>
            simp only
            split
            next hvariable =>
              have hname : token.variableName = token'.variableName := by
                unfold variableName
                rw [hrendering.variable htoken hvariable]
              exact .ok (advance_similar hreader (hnext _ _ ⟨htoken, hname⟩))
            next => exact flawAt_likewise htoken rfl
        | block hnext =>
            simp only
            split
            · exact .ok
                { hreader with
                  frames :=
                    .cons (.list htoken .nil (.block hnext)) hreader.frames
                  need := .none }
            · exact flawAt_likewise htoken rfl
        | opening what hnext =>
            simp only
            split
            · exact .ok (advance_similar hreader hnext)
            · exact flawAt_likewise htoken rfl
        | closing what hnext =>
            simp only
            split
            · exact .ok (advance_similar hreader hnext)
            · exact flawAt_likewise htoken rfl
        | name hnext =>
            simp only
            split
            next => exact flawAt_likewise htoken rfl
            next hnot =>
              have hcommand : token.kind = .command := not_not.mp hnot
              have htranslate := hrendering.translate htoken hcommand
              unfold Lexicon.knows
              rw [← htranslate]
              split
              next => exact flawAt_likewise htoken rfl
              next hunknown =>
                have hnone : lexicon.translate? token.text = none := by
                  simpa using hunknown
                exact .ok (advance_similar hreader
                  (hnext _ _ ⟨htoken, hrendering.name htoken hcommand hnone⟩))
        | params hname hread hnext =>
            simp only
            split
            next =>
              refine .ok (advance_similar ?_ (hnext _ _ hread))
              exact
                { body := hreader.body
                  frames := hreader.frames
                  need := .some (.params hname hread hnext)
                  arities := by
                    simp only [hname.name, hread.length_eq, hreader.arities] }
            next =>
              split
              next hvariable =>
                have hsame : token.variableName = token'.variableName := by
                  unfold variableName
                  rw [hrendering.variable htoken hvariable]
                exact .ok
                  { hreader with
                    need := .some (.params hname
                      (List.rel_append hread
                        (.cons ⟨htoken, hsame⟩ .nil)) hnext) }
              next => exact flawAt_likewise htoken rfl
        | leader hopener =>
            exact leader_likewise hrendering hreader hopener htoken

theorem steps_likewise
    (hrendering : Rendering lexicon lexicon' T) (nesting : Nat)
    (hreader : reader.Similar T reader') {tokens tokens' : List Token}
    (htokens : List.Forall₂ T tokens tokens') :
    Likewise (Fault.Similar T) (Reader.Similar T)
      (steps lexicon nesting reader tokens)
      (steps lexicon' nesting reader' tokens') := by
  induction htokens generalizing reader reader' with
  | nil => exact .ok hreader
  | @cons token token' rest rest' htoken _ ih =>
      have hstep := step_likewise hrendering nesting hreader htoken
      rw [steps_cons, steps_cons]
      generalize step lexicon nesting reader token = next at hstep
      generalize step lexicon' nesting reader' token' = next' at hstep
      cases hstep with
      | ok hnext => exact ih hnext
      | error hfault => exact .error hfault

theorem finish_likewise
    (hreader : reader.Similar T reader') {last last' : Option Token}
    (hlast : Option.Rel T last last') :
    Likewise (Fault.Similar T) (Reader.Similar T)
      (reader.finish last) (reader'.finish last') := by
  have hcomplete : reader.isComplete = reader'.isComplete := by
    obtain ⟨_, hframes, hneed, _⟩ := hreader
    unfold isComplete
    generalize reader.frames = frames at hframes
    generalize reader'.frames = frames' at hframes
    generalize reader.need = need at hneed
    generalize reader'.need = need' at hneed
    cases hframes <;> cases hneed <;> rfl
  unfold finish
  rw [← hcomplete]
  split
  · exact .ok hreader
  · exact .error (.complaint (.malformed rfl hlast))

theorem getLast?_rel {tokens tokens' : List Token}
    (htokens : List.Forall₂ T tokens tokens') :
    Option.Rel T tokens.getLast? tokens'.getLast? := by
  induction htokens with
  | nil => exact .none
  | cons htoken hrest ih =>
      cases hrest with
      | nil => exact .some htoken
      | cons hsecond hrest =>
          simpa [List.getLast?_cons] using ih

/-- A program and its rendering in other words are read to similar expressions,
with the same arities learned, or to similar faults. -/
theorem read_likewise
    (hrendering : Rendering lexicon lexicon' T) (nesting : Nat)
    (arities : NameMap Nat) {tokens tokens' : List Token}
    (htokens : List.Forall₂ T tokens tokens') :
    Likewise (Fault.Similar T) (Reader.Similar T)
      (read lexicon nesting arities tokens)
      (read lexicon' nesting arities tokens') := by
  have hstart : (start arities).Similar T (start arities) :=
    ⟨.nil, .nil, .none, rfl⟩
  have hsteps := steps_likewise hrendering nesting hstart htokens
  unfold read
  generalize steps lexicon nesting (start arities) tokens = last at hsteps
  generalize steps lexicon' nesting (start arities) tokens' = last' at hsteps
  cases hsteps with
  | ok hlast => exact finish_likewise hlast (getLast?_rel htokens)
  | error hfault => exact .error hfault

end Reading

end Reader

end Logo
