import Logo.Program.Need
import Mathlib.Tactic

/-!
# Expressions that differ in their tokens only

Two expressions are similar when they are built alike, from the same values,
commands and operators and with the same names of variables and procedures.
Their tokens correspond one by one, and a relation between tokens says what is
asked of those that do.  Faults are similar when they have the same cause, up to
words that are quoted in it, at corresponding places.
-/

namespace Logo

structure Brackets.Similar
    (T : Token → Token → Prop) (brackets others : Brackets) : Prop where
  opener : T brackets.opener others.opener
  closer : T brackets.closer others.closer

/-- Two tokens correspond and name the same variable. -/
structure Token.SameVariable
    (T : Token → Token → Prop) (token other : Token) : Prop where
  tokens : T token other
  name : token.variableName = other.variableName

/-- Two tokens correspond and name the same procedure. -/
structure Token.SameProcedure
    (T : Token → Token → Prop) (token other : Token) : Prop where
  tokens : T token other
  name : token.procedureName = other.procedureName

open Token

inductive Expr.Similar (T : Token → Token → Prop) : Expr → Expr → Prop where
  | literal {head head' : Token} (value : Number) (hhead : T head head') :
      Similar T (.literal head value) (.literal head' value)
  | «variable» {head head' : Token} (hhead : SameVariable T head head') :
      Similar T (.variable head) (.variable head')
  | command {head head' : Token} (command : TurtleCommand)
      {args args' : List Expr} (hhead : T head head')
      (hargs : List.Forall₂ (Similar T) args args') :
      Similar T (.command head command args) (.command head' command args')
  | flock {head head' : Token} (command : FlockCommand) {args args' : List Expr}
      (hhead : T head head') (hargs : List.Forall₂ (Similar T) args args') :
      Similar T (.flock head command args) (.flock head' command args')
  | operation {head head' : Token} (operator : Operator)
      {args args' : List Expr} (hhead : T head head')
      (hargs : List.Forall₂ (Similar T) args args') :
      Similar T (.operation head operator args)
        (.operation head' operator args')
  | block {brackets brackets' : Brackets} {body body' : List Expr}
      (hbrackets : brackets.Similar T brackets')
      (hbody : List.Forall₂ (Similar T) body body') :
      Similar T (.block brackets body) (.block brackets' body')
  | make {head head' target target' : Token} {value value' : Expr}
      (hhead : T head head') (htarget : SameVariable T target target')
      (hvalue : Similar T value value') :
      Similar T (.make head target value) (.make head' target' value')
  | repeatTimes {head head' : Token} {count count' : Expr}
      {brackets brackets' : Brackets} {body body' : List Expr}
      (hhead : T head head') (hcount : Similar T count count')
      (hbrackets : brackets.Similar T brackets')
      (hbody : List.Forall₂ (Similar T) body body') :
      Similar T (.repeatTimes head count brackets body)
        (.repeatTimes head' count' brackets' body')
  | countTo {head head' target target' : Token} {limit limit' : Expr}
      {brackets brackets' : Brackets} {body body' : List Expr}
      (hhead : T head head') (htarget : SameVariable T target target')
      (hlimit : Similar T limit limit')
      (hbrackets : brackets.Similar T brackets')
      (hbody : List.Forall₂ (Similar T) body body') :
      Similar T (.countTo head target limit brackets body)
        (.countTo head' target' limit' brackets' body')
  | countBy {head head' target target' : Token}
      {first first' last last' step step' : Expr}
      {brackets brackets' : Brackets} {body body' : List Expr}
      (hhead : T head head') (htarget : SameVariable T target target')
      (hfirst : Similar T first first') (hlast : Similar T last last')
      (hstep : Similar T step step') (hbrackets : brackets.Similar T brackets')
      (hbody : List.Forall₂ (Similar T) body body') :
      Similar T (.countBy head target first last step brackets body)
        (.countBy head' target' first' last' step' brackets' body')
  | ifThen {head head' : Token} {condition condition' : Expr}
      {brackets brackets' : Brackets} {body body' : List Expr}
      (hhead : T head head') (hcondition : Similar T condition condition')
      (hbrackets : brackets.Similar T brackets')
      (hbody : List.Forall₂ (Similar T) body body') :
      Similar T (.ifThen head condition brackets body)
        (.ifThen head' condition' brackets' body')
  | ifElse {head head' : Token} {condition condition' : Expr}
      {brackets brackets' others others' : Brackets}
      {body body' rest rest' : List Expr}
      (hhead : T head head') (hcondition : Similar T condition condition')
      (hbrackets : brackets.Similar T brackets')
      (hbody : List.Forall₂ (Similar T) body body')
      (hothers : others.Similar T others')
      (hrest : List.Forall₂ (Similar T) rest rest') :
      Similar T (.ifElse head condition brackets body others rest)
        (.ifElse head' condition' brackets' body' others' rest')
  | define {head head' name name' : Token} {params params' : List Token}
      {brackets brackets' : Brackets} {body body' : List Expr}
      (hhead : T head head') (hname : SameProcedure T name name')
      (hparams : List.Forall₂ (SameVariable T) params params')
      (hbrackets : brackets.Similar T brackets')
      (hbody : List.Forall₂ (Similar T) body body') :
      Similar T (.define head name params brackets body)
        (.define head' name' params' brackets' body')
  | call {head head' : Token} {args args' : List Expr}
      (hhead : SameProcedure T head head')
      (hargs : List.Forall₂ (Similar T) args args') :
      Similar T (.call head args) (.call head' args')
  | tell {head head' : Token} {brackets brackets' : Brackets}
      {list list' : List Expr} (hhead : T head head')
      (hbrackets : brackets.Similar T brackets')
      (hlist : List.Forall₂ (Similar T) list list') :
      Similar T (.tell head brackets list) (.tell head' brackets' list')
  | ask {head head' : Token} {brackets brackets' others others' : Brackets}
      {list list' body body' : List Expr}
      (hhead : T head head') (hbrackets : brackets.Similar T brackets')
      (hlist : List.Forall₂ (Similar T) list list')
      (hothers : others.Similar T others')
      (hbody : List.Forall₂ (Similar T) body body') :
      Similar T (.ask head brackets list others body)
        (.ask head' brackets' list' others' body')
  | askWith {head head' : Token} {brackets brackets' others others' : Brackets}
      {condition condition' body body' : List Expr}
      (hhead : T head head') (hbrackets : brackets.Similar T brackets')
      (hcondition : List.Forall₂ (Similar T) condition condition')
      (hothers : others.Similar T others')
      (hbody : List.Forall₂ (Similar T) body body') :
      Similar T (.askWith head brackets condition others body)
        (.askWith head' brackets' condition' others' body')

section Reflexivity

variable {T : Token → Token → Prop}

theorem Brackets.similar_refl (hrefl : ∀ token, T token token)
    (brackets : Brackets) :
    brackets.Similar T brackets :=
  ⟨hrefl _, hrefl _⟩

theorem Token.sameVariable_refl (hrefl : ∀ token, T token token)
    (token : Token) :
    SameVariable T token token :=
  ⟨hrefl token, rfl⟩

theorem Token.sameProcedure_refl (hrefl : ∀ token, T token token)
    (token : Token) :
    SameProcedure T token token :=
  ⟨hrefl token, rfl⟩

mutual

theorem Expr.similar_refl (hrefl : ∀ token, T token token) :
    ∀ expr : Expr, expr.Similar T expr
  | .literal _ value => .literal value (hrefl _)
  | .variable _ => .variable (sameVariable_refl hrefl _)
  | .command _ c args => .command c (hrefl _) (similar_refl_all hrefl args)
  | .flock _ c args => .flock c (hrefl _) (similar_refl_all hrefl args)
  | .operation _ operator args =>
      .operation operator (hrefl _) (similar_refl_all hrefl args)
  | .block brackets body =>
      .block (brackets.similar_refl hrefl) (similar_refl_all hrefl body)
  | .make _ _ value =>
      .make (hrefl _) (sameVariable_refl hrefl _) (value.similar_refl hrefl)
  | .repeatTimes _ count brackets body =>
      .repeatTimes (hrefl _) (count.similar_refl hrefl)
        (brackets.similar_refl hrefl) (similar_refl_all hrefl body)
  | .countTo _ _ limit brackets body =>
      .countTo (hrefl _) (sameVariable_refl hrefl _) (limit.similar_refl hrefl)
        (brackets.similar_refl hrefl) (similar_refl_all hrefl body)
  | .countBy _ _ first last step brackets body =>
      .countBy (hrefl _) (sameVariable_refl hrefl _) (first.similar_refl hrefl)
        (last.similar_refl hrefl) (step.similar_refl hrefl)
        (brackets.similar_refl hrefl) (similar_refl_all hrefl body)
  | .ifThen _ condition brackets body =>
      .ifThen (hrefl _) (condition.similar_refl hrefl)
        (brackets.similar_refl hrefl) (similar_refl_all hrefl body)
  | .ifElse _ condition brackets body others rest =>
      .ifElse (hrefl _) (condition.similar_refl hrefl)
        (brackets.similar_refl hrefl)
        (similar_refl_all hrefl body) (others.similar_refl hrefl)
        (similar_refl_all hrefl rest)
  | .define _ _ _ brackets body =>
      .define (hrefl _) (sameProcedure_refl hrefl _)
        (List.forall₂_same.mpr fun param _ => sameVariable_refl hrefl param)
        (brackets.similar_refl hrefl) (similar_refl_all hrefl body)
  | .call _ args =>
      .call (sameProcedure_refl hrefl _) (similar_refl_all hrefl args)
  | .tell _ brackets list =>
      .tell (hrefl _) (brackets.similar_refl hrefl)
        (similar_refl_all hrefl list)
  | .ask _ brackets list others body =>
      .ask (hrefl _) (brackets.similar_refl hrefl) (similar_refl_all hrefl list)
        (others.similar_refl hrefl) (similar_refl_all hrefl body)
  | .askWith _ brackets condition others body =>
      .askWith (hrefl _) (brackets.similar_refl hrefl)
        (similar_refl_all hrefl condition)
        (others.similar_refl hrefl) (similar_refl_all hrefl body)

theorem Expr.similar_refl_all (hrefl : ∀ token, T token token) :
    ∀ exprs : List Expr, List.Forall₂ (Expr.Similar T) exprs exprs
  | [] => .nil
  | expr :: rest =>
      .cons (expr.similar_refl hrefl) (similar_refl_all hrefl rest)

end

end Reflexivity

section Widening

variable {T S : Token → Token → Prop}

theorem Brackets.Similar.mono (hle : ∀ t t', T t t' → S t t')
    {brackets others : Brackets} (hsimilar : brackets.Similar T others) :
    brackets.Similar S others :=
  ⟨hle _ _ hsimilar.opener, hle _ _ hsimilar.closer⟩

theorem Token.SameVariable.mono (hle : ∀ t t', T t t' → S t t')
    {token other : Token} (hsame : SameVariable T token other) :
    SameVariable S token other :=
  ⟨hle _ _ hsame.tokens, hsame.name⟩

theorem Token.SameProcedure.mono (hle : ∀ t t', T t t' → S t t')
    {token other : Token} (hsame : SameProcedure T token other) :
    SameProcedure S token other :=
  ⟨hle _ _ hsame.tokens, hsame.name⟩

mutual

/-- Similar expressions stay similar when less is asked of their tokens. -/
theorem Expr.Similar.mono (hle : ∀ t t', T t t' → S t t') :
    ∀ {expr other : Expr}, expr.Similar T other → expr.Similar S other
  | .literal .., _, .literal value hhead => .literal value (hle _ _ hhead)
  | .variable _, _, .variable hhead => .variable (hhead.mono hle)
  | .command .., _, .command c hhead hargs =>
      .command c (hle _ _ hhead) (similar_mono_all hle hargs)
  | .flock .., _, .flock c hhead hargs =>
      .flock c (hle _ _ hhead) (similar_mono_all hle hargs)
  | .operation .., _, .operation operator hhead hargs =>
      .operation operator (hle _ _ hhead) (similar_mono_all hle hargs)
  | .block .., _, .block hbrackets hbody =>
      .block (hbrackets.mono hle) (similar_mono_all hle hbody)
  | .make .., _, .make hhead htarget hvalue =>
      .make (hle _ _ hhead) (htarget.mono hle) (hvalue.mono hle)
  | .repeatTimes .., _, .repeatTimes hhead hcount hbrackets hbody =>
      .repeatTimes (hle _ _ hhead) (hcount.mono hle) (hbrackets.mono hle)
        (similar_mono_all hle hbody)
  | .countTo .., _, .countTo hhead htarget hlimit hbrackets hbody =>
      .countTo (hle _ _ hhead) (htarget.mono hle) (hlimit.mono hle)
        (hbrackets.mono hle) (similar_mono_all hle hbody)
  | .countBy .., _, .countBy hhead htarget hfirst hlast hstep hbrackets hbody =>
      .countBy (hle _ _ hhead) (htarget.mono hle) (hfirst.mono hle)
        (hlast.mono hle) (hstep.mono hle) (hbrackets.mono hle)
        (similar_mono_all hle hbody)
  | .ifThen .., _, .ifThen hhead hcondition hbrackets hbody =>
      .ifThen (hle _ _ hhead) (hcondition.mono hle) (hbrackets.mono hle)
        (similar_mono_all hle hbody)
  | .ifElse .., _, .ifElse hhead hcondition hbrackets hbody hothers hrest =>
      .ifElse (hle _ _ hhead) (hcondition.mono hle) (hbrackets.mono hle)
        (similar_mono_all hle hbody) (hothers.mono hle)
        (similar_mono_all hle hrest)
  | .define .., _, .define hhead hname hparams hbrackets hbody =>
      .define (hle _ _ hhead) (hname.mono hle)
        (hparams.imp fun _ _ hparam => hparam.mono hle)
        (hbrackets.mono hle) (similar_mono_all hle hbody)
  | .call .., _, .call hhead hargs =>
      .call (hhead.mono hle) (similar_mono_all hle hargs)
  | .tell .., _, .tell hhead hbrackets hlist =>
      .tell (hle _ _ hhead) (hbrackets.mono hle) (similar_mono_all hle hlist)
  | .ask .., _, .ask hhead hbrackets hlist hothers hbody =>
      .ask (hle _ _ hhead) (hbrackets.mono hle) (similar_mono_all hle hlist)
        (hothers.mono hle) (similar_mono_all hle hbody)
  | .askWith .., _, .askWith hhead hbrackets hcondition hothers hbody =>
      .askWith (hle _ _ hhead) (hbrackets.mono hle)
        (similar_mono_all hle hcondition)
        (hothers.mono hle) (similar_mono_all hle hbody)

theorem Expr.similar_mono_all (hle : ∀ t t', T t t' → S t t') :
    ∀ {exprs others : List Expr},
      List.Forall₂ (Expr.Similar T) exprs others →
        List.Forall₂ (Expr.Similar S) exprs others
  | [], _, .nil => .nil
  | _ :: _, _, .cons hfirst hrest =>
      .cons (hfirst.mono hle) (similar_mono_all hle hrest)

end

end Widening

/-- A flaw without the words of the program that its message quotes. -/
def Flaw.unworded : Flaw → Flaw
  | .tooFewInputs _ arity count => .tooFewInputs "" arity count
  | .unevenGroup count _ arity => .unevenGroup count "" arity
  | .builtIn _ => .builtIn ""
  | flaw => flaw

/-- A mishap without the word of the program that its message quotes. -/
def Mishap.unworded : Mishap → Mishap
  | .failed _ fault => .failed "" fault
  | mishap => mishap

inductive Phrase.Similar (T : Token → Token → Prop) :
    Phrase → Phrase → Prop where
  | word {token token' : Token} (htoken : T token token') :
      Similar T (.word token) (.word token')
  | expr {expr expr' : Expr} (hexpr : expr.Similar T expr') :
      Similar T (.expr expr) (.expr expr')
  | program {body body' : List Expr}
      (hbody : List.Forall₂ (Expr.Similar T) body body') :
      Similar T (.program body) (.program body')

inductive Complaint.Similar (T : Token → Token → Prop) :
    Complaint → Complaint → Prop where
  | unrecognized (word word' : String) {place place' : Option Token}
      (hplace : Option.Rel T place place') :
      Similar T (.unrecognized word place) (.unrecognized word' place')
  | malformed {flaw flaw' : Flaw} {place place' : Option Token}
      (hflaw : flaw.unworded = flaw'.unworded)
      (hplace : Option.Rel T place place') :
      Similar T (.malformed flaw place) (.malformed flaw' place')
  | undefined (name : String) (removing : Bool) {place place' : Option Phrase}
      (hplace : Option.Rel (Phrase.Similar T) place place') :
      Similar T (.undefined name removing place)
        (.undefined name removing place')
  | noLocalScope (name : String) :
      Similar T (.noLocalScope name) (.noLocalScope name)
  | illTyped (name value : String) (type : ValueType) :
      Similar T (.illTyped name value type) (.illTyped name value type)
  | mishap {mishap mishap' : Mishap} {place place' : Option Phrase}
      (hmishap : mishap.unworded = mishap'.unworded)
      (hplace : Option.Rel (Phrase.Similar T) place place') :
      Similar T (.mishap mishap place) (.mishap mishap' place')
  | impure {place place' : Phrase} (hplace : place.Similar T place') :
      Similar T (.impure place) (.impure place')

inductive Fault.Similar (T : Token → Token → Prop) : Fault → Fault → Prop where
  | complaint {complaint complaint' : Complaint}
      (hcomplaint : complaint.Similar T complaint') :
      Similar T (.complaint complaint) (.complaint complaint')
  | arithmetic (fault : ArithmeticFault) :
      Similar T (.arithmetic fault) (.arithmetic fault)
  | broken (breach : Breach) : Similar T (.broken breach) (.broken breach)
  | tooDeep : Similar T .tooDeep .tooDeep
  | unfinished : Similar T .unfinished .unfinished

end Logo
