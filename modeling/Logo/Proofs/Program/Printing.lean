import Logo.Proofs.Program.Derivation
import Logo.Proofs.Program.Groups
import Logo.Proofs.Program.Rendering
import Logo.Proofs.Vocabulary.Spelling

/-!
# The words of an expression

An expression can be written down again, word by word in the order in which they
were read.  The parentheses of a group are only written where the group is more
than a single call.  Compared with the tokens that an accepted program was read
from, nothing else is missing or new, and what is written down is read as the
same program.

Which parentheses are missing is told by the expressions themselves: every
expression takes its words from the tokens in turn, and one that a group of as
many operands as its instruction takes stands for may take the parentheses of
that group along.
-/

namespace Logo

open Vocabulary Reader

/-- Two tokens are the same word, at whatever places. -/
structure Token.SameWord (token token' : Token) : Prop where
  kind : token.kind = token'.kind
  text : token.text = token'.text

/-- The token of a bracket that an expression does not remember. -/
def Token.bracket (kind : WordKind) : Token :=
  ⟨kind, String.ofList kind.bracket?.toList, 0, 0⟩

def Brackets.around (brackets : Brackets) (words : List Token) : List Token :=
  brackets.opener :: (words ++ [brackets.closer])

namespace Expr

mutual

/-- The words of an expression.  A block writes the word that its calls share
once, and then all their operands; an operation is a group where it has more
operands than its operator takes. -/
def words : Expr → List Token
  | .literal head _ => [head]
  | .variable head => [head]
  | .command head _ args => head :: wordsAll args
  | .flock head _ args => head :: wordsAll args
  | .operation head operator args =>
      if operator.arity < args.length then
        Brackets.around ⟨.bracket .groupStart, .bracket .groupEnd⟩
          (head :: wordsAll args)
      else head :: wordsAll args
  | .block brackets calls =>
      brackets.around ((calls.take 1).map head ++ operandWords calls)
  | .make head target value => head :: target :: value.words
  | .repeatTimes head count brackets body =>
      head :: (count.words ++ brackets.around (wordsAll body))
  | .countTo head target limit brackets body =>
      head :: .bracket .listStart :: target ::
        (limit.words ++ .bracket .listEnd :: brackets.around (wordsAll body))
  | .countBy head target first last step brackets body =>
      head :: .bracket .listStart :: target ::
        (first.words ++ last.words ++ step.words ++
          .bracket .listEnd :: brackets.around (wordsAll body))
  | .ifThen head condition brackets body =>
      head :: (condition.words ++ brackets.around (wordsAll body))
  | .ifElse head condition thenBrackets thenPart elseBrackets elsePart =>
      head :: (condition.words ++ thenBrackets.around (wordsAll thenPart) ++
        elseBrackets.around (wordsAll elsePart))
  | .define head name params brackets body =>
      head :: name :: .bracket .listStart ::
        (params ++ .bracket .listEnd :: brackets.around (wordsAll body))
  | .call head args => head :: wordsAll args
  | .tell head brackets list => head :: brackets.around (wordsAll list)
  | .ask head listBrackets list brackets body =>
      head ::
        (listBrackets.around (wordsAll list) ++ brackets.around (wordsAll body))
  | .askWith head conditionBrackets condition brackets body =>
      head :: (conditionBrackets.around (wordsAll condition) ++
        brackets.around (wordsAll body))

def wordsAll : List Expr → List Token
  | [] => []
  | expr :: rest => expr.words ++ wordsAll rest

def operandWordsOf : Expr → List Token
  | .command _ _ args => wordsAll args
  | .flock _ _ args => wordsAll args
  | .operation _ _ args => wordsAll args
  | .call _ args => wordsAll args
  | _ => []

def operandWords : List Expr → List Token
  | [] => []
  | first :: rest => first.operandWordsOf ++ operandWords rest

end

@[simp] theorem wordsAll_append (exprs others : List Expr) :
    wordsAll (exprs ++ others) = wordsAll exprs ++ wordsAll others := by
  induction exprs with
  | nil => simp [wordsAll]
  | cons expr rest ih => simp [wordsAll, ih]

@[simp] theorem wordsAll_singleton (expr : Expr) :
    wordsAll [expr] = expr.words := by
  simp [wordsAll]

/-- The operands that a call is applied to. -/
def callArgs : Expr → List Expr
  | .command _ _ args => args
  | .flock _ _ args => args
  | .operation _ _ args => args
  | .call _ args => args
  | _ => []

theorem operandWordsOf_eq (expr : Expr) :
    expr.operandWordsOf = wordsAll expr.callArgs := by
  cases expr <;> simp [operandWordsOf, callArgs, wordsAll]

theorem operandWords_eq (calls : List Expr) :
    operandWords calls = wordsAll (calls.flatMap callArgs) := by
  induction calls with
  | nil => simp [operandWords, wordsAll]
  | cons call rest ih => simp [operandWords, operandWordsOf_eq, ih]

end Expr

open Logo.Expr

/-! ## Constituents -/

/-- What an expression is written with: its own words and its parts.  Behind the
parameters of a definition the arity of the procedure is known. -/
inductive Constituent where
  | word (token : Token)
  | part (expr : Expr)
  | learns (name : String) (arity : Nat)

namespace Constituent

def words : Constituent → List Token
  | .word token => [token]
  | .part expr => expr.words
  | .learns _ _ => []

def wordsOf (constituents : List Constituent) : List Token :=
  constituents.flatMap words

@[simp] theorem wordsOf_nil : wordsOf [] = [] := rfl

@[simp] theorem wordsOf_word (token : Token) (others : List Constituent) :
    wordsOf (.word token :: others) = token :: wordsOf others := rfl

@[simp] theorem wordsOf_part (expr : Expr) (others : List Constituent) :
    wordsOf (.part expr :: others) = expr.words ++ wordsOf others := rfl

@[simp] theorem wordsOf_learns (name : String) (arity : Nat)
    (others : List Constituent) :
    wordsOf (.learns name arity :: others) = wordsOf others := rfl

@[simp] theorem wordsOf_append (constituents others : List Constituent) :
    wordsOf (constituents ++ others) = wordsOf constituents ++ wordsOf others :=
  List.flatMap_append

@[simp] theorem wordsOf_parts (exprs : List Expr) :
    wordsOf (exprs.map .part) = wordsAll exprs := by
  induction exprs with
  | nil => simp [wordsAll]
  | cons expr rest ih => simp [wordsAll, ih]

@[simp] theorem wordsOf_words (tokens : List Token) :
    wordsOf (tokens.map .word) = tokens := by
  induction tokens with
  | nil => rfl
  | cons token rest ih => simp [ih]

end Constituent

open Constituent (wordsOf)

def Brackets.enclosing (brackets : Brackets) (inner : List Constituent) :
    List Constituent :=
  .word brackets.opener :: (inner ++ [.word brackets.closer])

/-- What an expression is written with, in order. -/
def Expr.constituents : Expr → List Constituent
  | .literal head _ => [.word head]
  | .variable head => [.word head]
  | .command head _ args => .word head :: args.map .part
  | .flock head _ args => .word head :: args.map .part
  | .operation head operator args =>
      if operator.arity < args.length then
        Brackets.enclosing ⟨.bracket .groupStart, .bracket .groupEnd⟩
          (.word head :: args.map .part)
      else .word head :: args.map .part
  | .block brackets calls =>
      brackets.enclosing
        (((calls.take 1).map head).map .word ++
          (calls.flatMap callArgs).map .part)
  | .make head target value => [.word head, .word target, .part value]
  | .repeatTimes head count brackets body =>
      .word head :: .part count :: brackets.enclosing (body.map .part)
  | .countTo head target limit brackets body =>
      .word head :: .word (.bracket .listStart) :: .word target ::
        .part limit :: .word (.bracket .listEnd) ::
        brackets.enclosing (body.map .part)
  | .countBy head target first last step brackets body =>
      .word head :: .word (.bracket .listStart) :: .word target ::
        .part first :: .part last :: .part step :: .word (.bracket .listEnd) ::
        brackets.enclosing (body.map .part)
  | .ifThen head condition brackets body =>
      .word head :: .part condition :: brackets.enclosing (body.map .part)
  | .ifElse head condition thenBrackets thenPart elseBrackets elsePart =>
      .word head :: .part condition ::
        (thenBrackets.enclosing (thenPart.map .part) ++
          elseBrackets.enclosing (elsePart.map .part))
  | .define head name params brackets body =>
      .word head :: .word name :: .word (.bracket .listStart) ::
        (params.map .word ++ .word (.bracket .listEnd) ::
          .learns name.procedureName params.length ::
          brackets.enclosing (body.map .part))
  | .call head args => .word head :: args.map .part
  | .tell head brackets list =>
      .word head :: brackets.enclosing (list.map .part)
  | .ask head listBrackets list brackets body =>
      .word head :: (listBrackets.enclosing (list.map .part) ++
        brackets.enclosing (body.map .part))
  | .askWith head conditionBrackets condition brackets body =>
      .word head :: (conditionBrackets.enclosing (condition.map .part) ++
        brackets.enclosing (body.map .part))

@[simp] theorem Brackets.wordsOf_enclosing (brackets : Brackets)
    (inner : List Constituent) :
    wordsOf (brackets.enclosing inner) = brackets.around (wordsOf inner) := by
  simp [Brackets.enclosing, Brackets.around]

/-- The words of an expression are those of its constituents. -/
theorem Expr.wordsOf_constituents (expr : Expr) :
    wordsOf expr.constituents = expr.words := by
  cases expr with
  | operation head operator args =>
      simp only [Expr.constituents, words]
      split <;> simp
  | block brackets calls =>
      simp only [Expr.constituents, Brackets.wordsOf_enclosing,
        Constituent.wordsOf_append, Constituent.wordsOf_words,
        Constituent.wordsOf_parts, words, operandWords_eq]
  | _ => simp [Expr.constituents, words]

/-! ## Parentheses that are not written -/

/-- `Sheds lexicon known constituents tokens words after`: the constituents are
written with the words, and these are the tokens but for some parentheses.  The
parentheses are those of groups that became single calls: such a group stands
for an expression among the constituents, and its instruction, which the lexicon
and the arities known at this point resolve, takes as many operands as the group
has. -/
inductive Sheds (lexicon : Lexicon) :
    NameMap Nat → List Constituent → List Token → List Token →
      NameMap Nat → Prop where
  | nil {known} : Sheds lexicon known [] [] [] known
  | word {known token token' others tokens words after}
      (hword : token.SameWord token')
      (hrest : Sheds lexicon known others tokens words after) :
      Sheds lexicon known (.word token' :: others) (token :: tokens)
        (token' :: words) after
  | learns {known name arity others tokens words after}
      (hrest : Sheds lexicon
        (NameMap.insert name arity known) others tokens words after) :
      Sheds lexicon known (.learns name arity :: others) tokens words after
  | part {known expr inner words between others tokens more after}
      (hinner : Sheds lexicon known expr.constituents inner words between)
      (hrest : Sheds lexicon between others tokens more after) :
      Sheds lexicon known (.part expr :: others) (inner ++ tokens)
        (words ++ more) after
  | drop
      {known opener closer head callee args expr inner words between others
        tokens more after}
      (hopener : opener.kind = .groupStart) (hcloser : closer.kind = .groupEnd)
      (hcalls : Calls lexicon known head callee)
      (hlength : args.length = callee.arity)
      (hgroup : callee.group ⟨opener, closer⟩ head args = .ok expr)
      (hinner : Sheds lexicon known expr.constituents inner words between)
      (hrest : Sheds lexicon between others tokens more after) :
      Sheds lexicon known (.part expr :: others)
        (opener :: (inner ++ closer :: tokens)) (words ++ more) after

namespace Sheds

variable {lexicon : Lexicon} {known between after : NameMap Nat}
  {tokens words : List Token}

theorem append
    {constituents others : List Constituent} {more moreWords : List Token}
    (hsheds : Sheds lexicon known constituents tokens words between)
    (hmore : Sheds lexicon between others more moreWords after) :
    Sheds lexicon known (constituents ++ others) (tokens ++ more)
      (words ++ moreWords) after := by
  induction hsheds with
  | nil => exact hmore
  | word hword hrest ih => exact .word hword (ih hmore)
  | learns hrest ih => exact .learns (ih hmore)
  | part hinner hrest ihinner ihrest =>
      simp only [List.cons_append, List.append_assoc]
      exact .part hinner (ihrest hmore)
  | drop hopener hcloser hcalls hlength hgroup hinner hrest ihinner ihrest =>
      simp only [List.cons_append, List.append_assoc]
      exact .drop hopener hcloser hcalls hlength hgroup hinner (ihrest hmore)

theorem one
    {expr : Expr}
    (hsheds : Sheds lexicon known expr.constituents tokens words after) :
    Sheds lexicon known [.part expr] tokens words after := by
  have hpart := Sheds.part hsheds .nil
  rwa [List.append_nil, List.append_nil] at hpart

end Sheds

theorem Token.sameWord_refl (token : Token) : token.SameWord token := ⟨rfl, rfl⟩

/-- All brackets of a kind are the same word. -/
theorem Token.Spelled.sameWord_bracket
    {token : Token} (hspelled : token.Spelled) {kind : WordKind}
    (hkind : token.kind = kind) {c : Char} (hbracket : kind.bracket? = some c) :
    token.SameWord (.bracket kind) where
  kind := hkind
  text := by
    subst hkind
    rw [WordKind.eq_of_bracket? hspelled hbracket]
    simp [Token.bracket, hbracket]

section Groups

variable {callee : Callee} {head : Token} {args : List Expr}

theorem Callee.constituents_call (head : Token)
    (hargs : args.length ≤ callee.arity) :
    (callee.call head args).constituents = .word head :: args.map .part := by
  cases callee with
  | operator o => exact if_neg (Nat.not_lt.mpr hargs)
  | _ => rfl

theorem Callee.words_call (head : Token) (hargs : args.length ≤ callee.arity) :
    (callee.call head args).words = head :: wordsAll args := by
  rw [← Expr.wordsOf_constituents, callee.constituents_call head hargs,
    Constituent.wordsOf_word, Constituent.wordsOf_parts]

@[simp] theorem Callee.head_call : (callee.call head args).head = head := by
  cases callee <;> rfl

@[simp] theorem Callee.callArgs_call :
    (callee.call head args).callArgs = args := by
  cases callee <;> rfl

theorem Callee.constituents_folded
    (hfolds : callee.folds args.length = true)
    (hmore : args.length ≠ callee.arity) :
    (callee.call head args).constituents =
      Brackets.enclosing ⟨.bracket .groupStart, .bracket .groupEnd⟩
        (.word head :: args.map .part) := by
  cases callee with
  | operator o =>
      simp only [Callee.folds, Bool.and_eq_true, decide_eq_true_eq] at hfolds
      exact if_pos (lt_of_le_of_ne hfolds.2 hmore.symm)
  | command c => cases hfolds
  | flock c => cases hfolds
  | procedure arity => cases hfolds

/-- What a group can stand for: a single call, an operator folded over more
operands than it takes, or a block of calls that share a word. -/
theorem Callee.group_cases
    {brackets : Brackets} {expr : Expr}
    (hgroup : callee.group brackets head args = .ok expr) :
    (args.length = callee.arity ∧ expr = callee.call head args) ∨
    (expr.constituents =
        Brackets.enclosing ⟨.bracket .groupStart, .bracket .groupEnd⟩
          (.word head :: args.map .part) ∧
      ∀ others, callee.group others head args = .ok expr) ∨
    expr.constituents = brackets.enclosing (.word head :: args.map .part) := by
  rcases Callee.group_eq_ok hgroup with
    ⟨haccepts, rfl, hothers⟩ | ⟨runs, hsome, rfl, -, rfl⟩
  · by_cases hlength : args.length = callee.arity
    · exact .inl ⟨hlength, rfl⟩
    · have hfolds := haccepts.resolve_left hlength
      exact .inr (.inl
        ⟨callee.constituents_folded hfolds hlength,
          fun others => hothers others hfolds⟩)
  · have hhead :
        ((runs.map (callee.call head)).take 1).map Expr.head = [head] := by
      cases runs with
      | nil => exact absurd rfl hsome
      | cons run rest => simp
    have hoperands :
        (runs.map (callee.call head)).flatMap callArgs = runs.flatten := by
      simp only [List.flatMap_map, Callee.callArgs_call, List.flatMap_id']
    refine .inr (.inr ?_)
    rw [Expr.constituents, hhead, hoperands]
    rfl

end Groups

/-! ## Reading what is written -/

/-- The constituents of the expression that a need leads to are some in front,
followed by those that meet the need. -/
def Need.Continues : Need → List Constituent → Prop
  | .done expr, front => expr.constituents = front
  | .value next, front => ∀ expr, (next expr).Continues (front ++ [.part expr])
  | .target next, front =>
      ∀ token, (next token).Continues (front ++ [.word token])
  | .block next, front =>
      ∀ brackets body,
        (next brackets body).Continues
          (front ++ brackets.enclosing (body.map .part))
  | .opening _ next, front =>
      next.Continues (front ++ [.word (.bracket .listStart)])
  | .closing _ next, front =>
      next.Continues (front ++ [.word (.bracket .listEnd)])
  | .name next, front =>
      ∀ token, (next token).Continues (front ++ [.word token])
  | .params procedure given next, front =>
      ∀ more, (next (given ++ more)).Continues (front ++ more.map .word ++
        [.word (.bracket .listEnd),
          .learns procedure.procedureName (given ++ more).length])
  | .leader _, _ => False

/-- Every form is written as its word followed by what it needs. -/
theorem Form.need_continues (form : Form) (head : Token) :
    (form.need head).Continues [.word head] := by
  cases form <;> simp [Form.need, Need.Continues, Expr.constituents]

/-- The words of a reading are those of the tokens, but for parentheses, and are
read in the same way.  What the rest of a form is read from is the rest of the
words of the form. -/
def Faithful (lexicon : Lexicon) (room : Nat) (arities : NameMap Nat)
    (tokens : List Token) (reading : Reading) (after : NameMap Nat) : Prop :=
  match reading with
  | .value expr =>
      Sheds lexicon arities [.part expr] tokens expr.words after ∧
        Reads lexicon room arities expr.words (.value expr) after
  | .list exprs =>
      Sheds lexicon arities (exprs.map .part) tokens (wordsAll exprs) after ∧
        Reads lexicon room arities (wordsAll exprs) (.list exprs) after
  | .rest need expr =>
      (∀ front, need.Continues front →
        ∃ back, expr.constituents = front ++ back ∧
        Sheds lexicon arities back tokens (wordsOf back) after ∧
          Reads lexicon room arities (wordsOf back) (.rest need expr) after) ∧
      ∀ opener, need = .leader opener → opener.kind = .groupStart →
        opener.Spelled →
        Sheds lexicon arities [.part expr] (opener :: tokens) expr.words after ∧
          Reads lexicon room arities expr.words (.value expr) after

section Steps

variable {lexicon : Lexicon} {room : Nat} {arities after : NameMap Nat}
  {tokens : List Token} {expr : Expr}

/-- A need that a single word meets. -/
theorem Faithful.of_word
    {need next : Need} {token token' : Token} (hword : token.SameWord token')
    (hcontinues : ∀ front, need.Continues front →
      next.Continues (front ++ [.word token']))
    (hneed : ∀ opener, need ≠ .leader opener)
    (hreads : ∀ words,
      Reads lexicon room arities words (.rest next expr) after →
      Reads lexicon room arities (token' :: words) (.rest need expr) after)
    (hrest : Faithful lexicon room arities tokens (.rest next expr) after) :
    Faithful lexicon room arities (token :: tokens) (.rest need expr) after := by
  refine ⟨fun front hfront => ?_, fun opener heq => absurd heq (hneed opener)⟩
  obtain ⟨back, hback, hsheds, hagain⟩ := hrest.1 _ (hcontinues front hfront)
  refine ⟨.word token' :: back, ?_, .word hword hsheds, hreads _ hagain⟩
  rw [hback, List.append_assoc, List.singleton_append]

/-- A group is written without its parentheses if it is a single call.  Those of
an operator that is folded are no part of the operation, so others are written
for them. -/
theorem Faithful.of_group
    {opener head closer : Token} {callee : Callee} {args : List Expr}
    (hopener : opener.kind = .groupStart) (hopened : opener.Spelled)
    (hcloser : closer.kind = .groupEnd) (hclosed : closer.Spelled)
    (hcalls : Calls lexicon arities head callee)
    (hgroup : callee.group ⟨opener, closer⟩ head args = .ok expr)
    (hargs : Faithful lexicon (room + 1) arities tokens (.list args) after) :
    Faithful lexicon (room + 2) arities
      (opener :: head :: (tokens ++ [closer])) (.value expr) after := by
  obtain ⟨hsheds, hreads⟩ := hargs
  have hcall :
      Sheds lexicon arities (.word head :: args.map .part) (head :: tokens)
        (head :: wordsAll args) after :=
    .word head.sameWord_refl hsheds
  rcases callee.group_cases hgroup with
    ⟨hlength, rfl⟩ | ⟨hfolded, hany⟩ | hblock
  · rw [← callee.constituents_call head hlength.le] at hcall
    rw [Faithful, callee.words_call head hlength.le]
    refine ⟨?_, .call hcalls hreads hlength⟩
    have hdropped :=
      Sheds.drop hopener hcloser hcalls hlength hgroup hcall .nil
    rwa [List.append_nil] at hdropped
  · have hwords :
        expr.words = .bracket .groupStart ::
          (head :: wordsAll args ++ [.bracket .groupEnd]) := by
      rw [← Expr.wordsOf_constituents, hfolded]
      simp [Brackets.around]
    rw [Faithful, hwords]
    refine ⟨.one ?_, .group rfl (.leader hcalls hreads rfl (hany _))⟩
    rw [hfolded]
    exact .word (hopened.sameWord_bracket hopener rfl)
      (hcall.append (.word (hclosed.sameWord_bracket hcloser rfl) .nil))
  · have hwords :
        expr.words = opener :: (head :: wordsAll args ++ [closer]) := by
      rw [← Expr.wordsOf_constituents, hblock]
      simp [Brackets.around]
    rw [Faithful, hwords]
    refine ⟨.one ?_, .group hopener (.leader hcalls hreads hcloser hgroup)⟩
    rw [hblock]
    exact .word opener.sameWord_refl
      (hcall.append (.word closer.sameWord_refl .nil))

end Steps

theorem Reads.faithful
    {lexicon : Lexicon} {room : Nat} {arities after : NameMap Nat}
    {tokens : List Token} {reading : Reading}
    (hreads : Reads lexicon room arities tokens reading after)
    (hspelled : ∀ token ∈ tokens, token.Spelled) :
    Faithful lexicon room arities tokens reading after := by
  -- Parentheses are shed where their leader is read, so a rest has to answer
  -- for its opener too.
  induction hreads with
  | constant hkind hvalue =>
      simp only [Faithful, words]
      exact ⟨.one (.word (Token.sameWord_refl _) .nil), .constant hkind hvalue⟩
  | «variable» hkind =>
      simp only [Faithful, words]
      exact ⟨.one (.word (Token.sameWord_refl _) .nil), .variable hkind⟩
  | @form room arities token form tokens expr after hkind hform _ ih =>
      rw [List.forall_mem_cons] at hspelled
      obtain ⟨back, hback, hsheds, hrest⟩ :=
        (ih hspelled.2).1 [.word token] (form.need_continues token)
      have hwords : expr.words = token :: wordsOf back := by
        rw [← Expr.wordsOf_constituents, hback]
        rfl
      have hform' :
          Sheds lexicon arities expr.constituents
            (token :: tokens) expr.words after := by
        rw [hback, hwords]
        exact .word token.sameWord_refl hsheds
      refine ⟨hform'.one, ?_⟩
      rw [hwords]
      exact .form hkind hform hrest
  | @call room arities head callee tokens args after hcalls _ hlength ih =>
      rw [List.forall_mem_cons] at hspelled
      obtain ⟨hsheds, hargs⟩ := ih hspelled.2
      simp only [Faithful, callee.words_call head hlength.le]
      refine ⟨.one ?_, .call hcalls hargs hlength⟩
      rw [callee.constituents_call head hlength.le]
      exact .word head.sameWord_refl hsheds
  | @group room arities opener tokens expr after hopener _ ih =>
      rw [List.forall_mem_cons] at hspelled
      exact (ih hspelled.2).2 opener rfl hopener hspelled.1
  | empty =>
      simp only [Faithful, wordsAll]
      exact ⟨.nil, .empty⟩
  | snoc _ _ ihlist ihvalue =>
      rw [List.forall_mem_append] at hspelled
      obtain ⟨hlist, hreads⟩ := ihlist hspelled.1
      obtain ⟨hvalue, hreads'⟩ := ihvalue hspelled.2
      simp only [Faithful, wordsAll_append, wordsAll_singleton, List.map_append]
      exact ⟨hlist.append hvalue, .snoc hreads hreads'⟩
  | done =>
      refine ⟨fun front hcontinues => ⟨[], ?_, .nil, .done⟩, nofun⟩
      rw [List.append_nil]
      exact hcontinues
  | @value room arities tokens input between others next expr after
    _ _ ihvalue ihrest =>
      rw [List.forall_mem_append] at hspelled
      obtain ⟨hvalue, hreads⟩ := ihvalue hspelled.1
      refine ⟨fun front hcontinues => ?_, nofun⟩
      obtain ⟨back, hback, hsheds, hrest⟩ :=
        (ihrest hspelled.2).1 _ (hcontinues input)
      refine ⟨.part input :: back, ?_, hvalue.append hsheds,
        .value hreads hrest⟩
      rw [hback, List.append_assoc, List.singleton_append]
  | @target room arities token tokens next expr after hkind _ ih =>
      rw [List.forall_mem_cons] at hspelled
      exact .of_word token.sameWord_refl (fun _ hfront => hfront token) nofun
        (fun _ hrest => .target hkind hrest) (ih hspelled.2)
  | @block room arities opener tokens body between closer others next expr
      after hopener _ hcloser _ ihbody ihrest =>
      rw [List.forall_mem_cons, List.forall_mem_append,
        List.forall_mem_cons] at hspelled
      obtain ⟨-, htokens, -, hothers⟩ := hspelled
      obtain ⟨hbody, hreads⟩ := ihbody htokens
      refine ⟨fun front hcontinues => ?_, nofun⟩
      obtain ⟨back, hback, hsheds, hrest⟩ :=
        (ihrest hothers).1 _ (hcontinues ⟨opener, closer⟩ body)
      have hwords :
          wordsOf (.word opener :: (body.map .part ++ .word closer :: back)) =
            opener :: (wordsAll body ++ closer :: wordsOf back) := by
        simp
      refine
        ⟨.word opener :: (body.map .part ++ .word closer :: back), ?_, ?_, ?_⟩
      · simp [hback, Brackets.enclosing]
      · rw [hwords]
        exact .word opener.sameWord_refl
          (hbody.append (.word closer.sameWord_refl hsheds))
      · rw [hwords]
        exact .block hopener hreads hcloser hrest
  | @opening room arities token tokens what next expr after hkind _ ih =>
      rw [List.forall_mem_cons] at hspelled
      exact .of_word (hspelled.1.sameWord_bracket hkind rfl)
        (fun _ hfront => hfront) nofun (fun _ hrest => .opening rfl hrest)
        (ih hspelled.2)
  | @closing room arities token tokens what next expr after hkind _ ih =>
      rw [List.forall_mem_cons] at hspelled
      exact .of_word (hspelled.1.sameWord_bracket hkind rfl)
        (fun _ hfront => hfront) nofun (fun _ hrest => .closing rfl hrest)
        (ih hspelled.2)
  | @name room arities token tokens next expr after hkind hnew _ ih =>
      rw [List.forall_mem_cons] at hspelled
      exact .of_word token.sameWord_refl (fun _ hfront => hfront token) nofun
        (fun _ hrest => .name hkind hnew hrest) (ih hspelled.2)
  | @param room arities token tokens name params next expr after hkind _ ih =>
      rw [List.forall_mem_cons] at hspelled
      refine .of_word token.sameWord_refl ?_ nofun
        (fun _ hrest => .param hkind hrest) (ih hspelled.2)
      intro front hfront more
      simpa using hfront (token :: more)
  | @params room arities token tokens name params next expr after hkind _ ih =>
      rw [List.forall_mem_cons] at hspelled
      refine ⟨fun front hcontinues => ?_, nofun⟩
      have hall :
          (next params).Continues (front ++
            [.word (.bracket .listEnd),
              .learns name.procedureName params.length]) := by
        simpa using hcontinues []
      obtain ⟨back, hback, hsheds, hrest⟩ := (ih hspelled.2).1 _ hall
      refine ⟨.word (.bracket .listEnd) ::
        .learns name.procedureName params.length :: back, ?_,
        .word ?_ (.learns hsheds), .params rfl hrest⟩
      · rw [hback, List.append_assoc]
        rfl
      · exact hspelled.1.sameWord_bracket hkind rfl
  | @leader room arities head callee tokens args closer opener expr after
      hcalls _ hcloser hgroup ih =>
      rw [List.forall_mem_cons, List.forall_mem_append,
        List.forall_mem_singleton] at hspelled
      obtain ⟨-, htokens, hclosed⟩ := hspelled
      refine ⟨fun front hcontinues => hcontinues.elim, ?_⟩
      rintro _ ⟨⟩ hopener hopened
      exact Faithful.of_group hopener hopened hcloser hclosed hcalls hgroup
        (ih htokens)

/-- The reader sees nothing of a token but its word. -/
theorem rendering_sameWord (lexicon : Lexicon) :
    Rendering lexicon lexicon Token.SameWord where
  kind hsame := hsame.kind
  constant hsame _ := hsame.text
  «variable» hsame _ := hsame.text
  translate hsame _ := by rw [hsame.text]
  name hsame _ _ := by rw [Token.procedureName, Token.procedureName, hsame.text]

/-- An accepted program is faithful to its words.  The words of its expressions
are those of the text, in their order, without the parentheses of groups that
became single calls of the program; and these words, at whatever places they
stand, are read as the same expressions and with the same arities learned. -/
theorem program_is_faithful_to_words
    (lexicon : Lexicon) (nesting : Nat) (arities : NameMap Nat)
    {tokens : List Token} (hscanned : Token.IsScanned tokens) {reader : Reader}
    (hread : read lexicon nesting arities tokens = .ok reader) :
    Sheds lexicon arities (reader.body.map .part) tokens
      (wordsAll reader.body) reader.arities ∧
    read lexicon nesting arities (wordsAll reader.body) = .ok reader ∧
    ∀ again, List.Forall₂ Token.SameWord (wordsAll reader.body) again →
      ∃ reader', read lexicon nesting arities again = .ok reader' ∧
        List.Forall₂ (Expr.Similar Token.SameWord) reader.body reader'.body ∧
        reader'.arities = reader.arities := by
  obtain ⟨hframes, hneed, hreads⟩ := read_eq_ok_iff_reads.mp hread
  obtain ⟨hsheds, hwords⟩ := hreads.faithful hscanned.spelled
  have hreread := read_eq_ok_iff_reads.mpr ⟨hframes, hneed, hwords⟩
  refine ⟨hsheds, hreread, fun again hagain => ?_⟩
  have hlikewise :=
    read_likewise (rendering_sameWord lexicon) nesting arities hagain
  rw [hreread] at hlikewise
  generalize read lexicon nesting arities again = found at hlikewise
  cases hlikewise with
  | ok hsimilar => exact ⟨_, rfl, hsimilar.body, hsimilar.arities.symm⟩

/-- A group that is a single call, one that is folded and one that is a
block. -/
def threeGroups : String := "( fd 5 ) ( sum 1 2 3 ) ( fd 1 2 )"

theorem three_groups_lose_two_words :
    ∃ tokens reader,
      Token.IsScanned tokens ∧ tokens.length = 15 ∧
        read (Lexicon.speaking "English") 9 [] tokens = .ok reader ∧
        Sheds (Lexicon.speaking "English") [] (reader.body.map .part) tokens
          (wordsAll reader.body) reader.arities ∧
        (wordsAll reader.body).length = 13 ∧
        read (Lexicon.speaking "English") 9 [] (wordsAll reader.body) =
          .ok reader := by
  have hlengths :
      ((Token.scan .fresh none threeGroups).1.toOption.bind fun tokens =>
        (read (Lexicon.speaking "English") 9
            [] tokens).toOption.map fun reader =>
          (tokens.length, (wordsAll reader.body).length)) = some (15, 13) := by
    decide +kernel
  cases hscan : (Token.scan .fresh none threeGroups).1 with
  | error token => simp [hscan, Except.toOption] at hlengths
  | ok tokens =>
      cases hread : read (Lexicon.speaking "English") 9 [] tokens with
      | error fault => simp [hscan, hread, Except.toOption] at hlengths
      | ok reader =>
          simp only [hscan, hread, Except.toOption, Option.bind_some,
            Option.map_some, Option.some.injEq, Prod.mk.injEq] at hlengths
          have hscanned : Token.IsScanned tokens :=
            ⟨.fresh, none, threeGroups, hscan⟩
          obtain ⟨hsheds, hreread, -⟩ :=
            program_is_faithful_to_words (Lexicon.speaking "English") 9
              [] hscanned hread
          exact ⟨tokens, reader, hscanned, hlengths.1, hread, hsheds,
            hlengths.2, hreread⟩

end Logo
