import Logo.Proofs.Program.Printing
import Logo.Proofs.Program.Spans

/-!
# Spans are nested

The nodes of a syntax tree are the program, its expressions with their lists,
variables and parameters, and the names of new procedures.  The tokens that a
node remembers were read one after the other, so they are some of the tokens of
the text, in their order; the first and the last of them make the span of the
node.  Those of a child are among those of its parent, and different children
have tokens of their own, except for the calls of a group, which share the word
behind the parenthesis.
-/

namespace Logo

open Vocabulary

namespace Expr

mutual

/-- The tokens that an expression remembers, in the order in which they were
read. -/
def tokens : Expr → List Token
  | .literal head _ => [head]
  | .variable head => [head]
  | .command head _ args => head :: tokensAll args
  | .flock head _ args => head :: tokensAll args
  | .operation head _ args => head :: tokensAll args
  | .block brackets body => tokensBetween brackets body
  | .make head target value => head :: target :: value.tokens
  | .repeatTimes head count brackets body =>
      head :: (count.tokens ++ tokensBetween brackets body)
  | .countTo head target limit brackets body =>
      head :: target :: (limit.tokens ++ tokensBetween brackets body)
  | .countBy head target first last step brackets body =>
      head :: target ::
        (first.tokens ++ last.tokens ++ step.tokens ++
          tokensBetween brackets body)
  | .ifThen head condition brackets body =>
      head :: (condition.tokens ++ tokensBetween brackets body)
  | .ifElse head condition thenBrackets thenPart elseBrackets elsePart =>
      head :: (condition.tokens ++ tokensBetween thenBrackets thenPart ++
        tokensBetween elseBrackets elsePart)
  | .define head name params brackets body =>
      head :: name :: (params ++ tokensBetween brackets body)
  | .call head args => head :: tokensAll args
  | .tell head brackets list => head :: tokensBetween brackets list
  | .ask head listBrackets list brackets body =>
      head :: (tokensBetween listBrackets list ++ tokensBetween brackets body)
  | .askWith head conditionBrackets condition brackets body =>
      head ::
        (tokensBetween conditionBrackets condition ++
          tokensBetween brackets body)

def tokensAll : List Expr → List Token
  | [] => []
  | expr :: rest => expr.tokens ++ tokensAll rest

/-- The tokens of a list with its brackets.  Between parentheses the calls share
their first word. -/
def tokensBetween (brackets : Brackets) (body : List Expr) : List Token :=
  if brackets.opener.kind = .groupStart then
    brackets.around ((body.take 1).map head ++ operandTokensAll body)
  else brackets.around (tokensAll body)

def operandTokens : Expr → List Token
  | .command _ _ args => tokensAll args
  | .flock _ _ args => tokensAll args
  | .operation _ _ args => tokensAll args
  | .call _ args => tokensAll args
  | _ => []

def operandTokensAll : List Expr → List Token
  | [] => []
  | first :: rest => first.operandTokens ++ operandTokensAll rest

end

/-- The nodes directly below an expression, in the order in which they were
read. -/
def children : Expr → List Phrase
  | .literal _ _ => []
  | .variable _ => []
  | .command _ _ args => args.map .expr
  | .flock _ _ args => args.map .expr
  | .operation _ _ args => args.map .expr
  | .block _ body => body.map .expr
  | .make _ target value => [.expr (.variable target), .expr value]
  | .repeatTimes _ count brackets body =>
      [.expr count, .expr (.block brackets body)]
  | .countTo _ target limit brackets body =>
      [.expr (.variable target), .expr limit, .expr (.block brackets body)]
  | .countBy _ target first last step brackets body =>
      [.expr (.variable target), .expr first, .expr last, .expr step,
        .expr (.block brackets body)]
  | .ifThen _ condition brackets body =>
      [.expr condition, .expr (.block brackets body)]
  | .ifElse _ condition thenBrackets thenPart elseBrackets elsePart =>
      [.expr condition, .expr (.block thenBrackets thenPart),
        .expr (.block elseBrackets elsePart)]
  | .define _ name params brackets body =>
      .word name :: (params.map fun param => .expr (.variable param)) ++
        [.expr (.block brackets body)]
  | .call _ args => args.map .expr
  | .tell _ brackets list => [.expr (.block brackets list)]
  | .ask _ listBrackets list brackets body =>
      [.expr (.block listBrackets list), .expr (.block brackets body)]
  | .askWith _ conditionBrackets condition brackets body =>
      [.expr (.block conditionBrackets condition), .expr (.block brackets body)]

@[simp] theorem tokensAll_append (exprs others : List Expr) :
    tokensAll (exprs ++ others) = tokensAll exprs ++ tokensAll others := by
  induction exprs with
  | nil => simp [tokensAll]
  | cons expr rest ih => simp [tokensAll, ih]

theorem tokensAll_eq_flatMap (exprs : List Expr) :
    tokensAll exprs = exprs.flatMap tokens := by
  induction exprs with
  | nil => simp [tokensAll]
  | cons expr rest ih => simp [tokensAll, ih]

theorem tokensAll_flatten (runs : List (List Expr)) :
    tokensAll runs.flatten = (runs.map tokensAll).flatten := by
  induction runs with
  | nil => simp [tokensAll]
  | cons run runs ih => simp [ih]

theorem tokensBetween_list
    {brackets : Brackets} (hopener : brackets.opener.kind = .listStart)
    (body : List Expr) :
    tokensBetween brackets body = brackets.around (tokensAll body) := by
  simp [tokensBetween, hopener]

end Expr

open Logo.Expr

section Groups

variable {callee : Callee} {head : Token} {args : List Expr}

@[simp] theorem Callee.tokens_call :
    (callee.call head args).tokens = head :: tokensAll args := by
  cases callee <;> simp [Callee.call, tokens]

@[simp] theorem Callee.children_call :
    (callee.call head args).children = args.map .expr := by
  cases callee <;> rfl

@[simp] theorem Callee.operandTokens_call :
    (callee.call head args).operandTokens = tokensAll args := by
  cases callee <;> simp [Callee.call, operandTokens]

theorem operandTokensAll_calls (callee : Callee) (head : Token)
    (runs : List (List Expr)) :
    operandTokensAll (runs.map (callee.call head)) =
      tokensAll runs.flatten := by
  induction runs with
  | nil => simp [operandTokensAll, tokensAll]
  | cons run runs ih => simp [operandTokensAll, ih]

end Groups

/-- The calls that a group stands for: one instruction that takes operands,
called with runs of them. -/
def AreRepeated (calls : List Expr) : Prop :=
  ∃ callee head runs, runs ≠ [] ∧ 0 < callee.arity ∧
    (∀ run ∈ runs, run.length = callee.arity) ∧
      calls = runs.map (Callee.call callee head)

namespace Phrase

def children : Phrase → List Phrase
  | .word _ => []
  | .expr e => e.children
  | .program body => body.map .expr

def tokens : Phrase → List Token
  | .word token => [token]
  | .expr e => e.tokens
  | .program body => tokensAll body

/-- A node occurs in another one, at any depth. -/
inductive OccursIn (node : Phrase) : Phrase → Prop where
  | self : OccursIn node node
  | inside {parent child : Phrase} (hchild : child ∈ parent.children)
      (hnode : OccursIn node child) : OccursIn node parent

/-- A block made from a group. -/
def IsGroup : Phrase → Prop
  | .expr (.block brackets _) => brackets.opener.kind = .groupStart
  | _ => False

/-- A block is a list or a group of repeated calls. -/
def Shaped : Phrase → Prop
  | .expr (.block brackets body) =>
      brackets.opener.kind = .listStart ∨
        brackets.opener.kind = .groupStart ∧ AreRepeated body
  | _ => True

def ShapedThroughout (node : Phrase) : Prop :=
  ∀ part : Phrase, part.OccursIn node → part.Shaped

theorem shapedThroughout_iff {node : Phrase} :
    node.ShapedThroughout ↔
      node.Shaped ∧ ∀ child ∈ node.children, child.ShapedThroughout := by
  constructor
  · intro hnode
    exact ⟨hnode node .self,
      fun child hchild part hpart => hnode part (.inside hchild hpart)⟩
  · rintro ⟨hself, hchildren⟩ part hpart
    cases hpart with
    | self => exact hself
    | inside hchild hpart => exact hchildren _ hchild part hpart

/-! ## The tokens of a node and of its children -/

@[simp] theorem flatMap_tokens_expr (body : List Expr) :
    (body.map Phrase.expr).flatMap tokens = tokensAll body := by
  rw [tokensAll_eq_flatMap, List.flatMap_map]
  rfl

@[simp] theorem flatMap_tokens_variable (params : List Token) :
    (params.map fun param => Phrase.expr (.variable param)).flatMap
      tokens = params := by
  simp [List.flatMap_map, tokens, Expr.tokens]

/-- Where children are not calls of a group, each has tokens of its own. -/
theorem children_tokens_sublist {node : Phrase} (hnode : ¬ node.IsGroup) :
    (node.children.flatMap tokens).Sublist node.tokens := by
  cases node with
  | word token => simp [children]
  | program body => simp [children, tokens]
  | expr e =>
      cases e with
      | block brackets body =>
          have hlist : ¬ brackets.opener.kind = .groupStart := hnode
          simp [children, tokens, Expr.children, Expr.tokens, tokensBetween,
            hlist, Brackets.around]
      | _ => simp [children, tokens, Expr.children, Expr.tokens]

theorem tokens_repeated
    (brackets : Brackets) (hopener : brackets.opener.kind = .groupStart)
    (callee : Callee) (head : Token) {runs : List (List Expr)}
    (hsome : runs ≠ []) :
    (Phrase.expr (.block brackets (runs.map (callee.call head)))).tokens =
      brackets.around (head :: tokensAll runs.flatten) := by
  obtain ⟨run, rest, rfl⟩ := List.exists_cons_of_ne_nil hsome
  have hoperands := operandTokensAll_calls callee head (run :: rest)
  rw [tokens, Expr.tokens, tokensBetween, if_pos hopener, hoperands]
  simp

/-- The tokens of a child are among those of its parent. -/
theorem child_tokens_sublist
    {node child : Phrase} (hshaped : node.Shaped)
    (hchild : child ∈ node.children) :
    child.tokens.Sublist node.tokens := by
  by_cases hgroup : node.IsGroup
  · cases node with
    | word token => exact hgroup.elim
    | program body => exact hgroup.elim
    | expr e =>
        cases e with
        | block brackets body =>
            have hopener : brackets.opener.kind = .groupStart := hgroup
            obtain ⟨-, callee, head, runs, hsome, -, -, rfl⟩ :=
              hshaped.resolve_left (by simp [hopener])
            simp only [children, Expr.children, List.map_map,
              List.mem_map] at hchild
            obtain ⟨run, hrun, rfl⟩ := hchild
            rw [tokens_repeated brackets hopener callee head hsome]
            have hoperands :
                (tokensAll run).Sublist (tokensAll runs.flatten) := by
              rw [tokensAll_flatten]
              exact List.sublist_flatten_of_mem (List.mem_map_of_mem hrun)
            have hcall := hoperands.cons_cons head
            simpa [tokens, Brackets.around] using
              (hcall.trans (List.sublist_append_left _ [brackets.closer])).cons
                brackets.opener
        | _ => exact hgroup.elim
  · refine List.Sublist.trans ?_ (children_tokens_sublist hgroup)
    rw [List.flatMap_def]
    exact List.sublist_flatten_of_mem (List.mem_map_of_mem hchild)

end Phrase

/-! ## The span of a node -/

namespace Expr

theorem tokens_eq_cons (expr : Expr) :
    ∃ rest, expr.tokens = expr.head :: rest := by
  cases expr with
  | block brackets body =>
      by_cases hopener : brackets.opener.kind = .groupStart
      · simp [tokens, tokensBetween, hopener, Brackets.around, head]
      · simp [tokens, tokensBetween, hopener, Brackets.around, head]
  | _ => simp [tokens, head]

theorem tokensBetween_eq_concat (brackets : Brackets) (body : List Expr) :
    ∃ init, tokensBetween brackets body = init ++ [brackets.closer] := by
  unfold tokensBetween
  split
  · exact ⟨brackets.opener :: _, rfl⟩
  · exact ⟨brackets.opener :: _, rfl⟩

/-- Some tokens end with one at a spot. -/
def EndsAt (tokens : List Token) (spot : Nat) : Prop :=
  ∃ init last, tokens = init ++ [last] ∧ last.spot = spot

theorem EndsAt.append {tokens : List Token} {spot : Nat}
    (hends : EndsAt tokens spot) (front : List Token) :
    EndsAt (front ++ tokens) spot := by
  obtain ⟨init, last, rfl, hspot⟩ := hends
  exact ⟨front ++ init, last, (List.append_assoc _ _ _).symm, hspot⟩

theorem EndsAt.cons {tokens : List Token} {spot : Nat}
    (hends : EndsAt tokens spot) (token : Token) :
    EndsAt (token :: tokens) spot :=
  hends.append [token]

theorem endsAt_tokensBetween (brackets : Brackets) (body : List Expr) :
    EndsAt (tokensBetween brackets body) brackets.closer.spot := by
  obtain ⟨init, hinit⟩ := tokensBetween_eq_concat brackets body
  exact ⟨init, _, hinit, rfl⟩

mutual

theorem endsAt_right : (expr : Expr) → EndsAt expr.tokens expr.right
  | .literal head _ => ⟨[], head, by simp [tokens], by simp [right]⟩
  | .variable head => ⟨[], head, by simp [tokens], by simp [right]⟩
  | .command head _ args => by
      rw [tokens, right]
      exact endsAt_rightOfLast head args
  | .flock head _ args => by
      rw [tokens, right]
      exact endsAt_rightOfLast head args
  | .operation head _ args => by
      rw [tokens, right]
      exact endsAt_rightOfLast head args
  | .block brackets body => by
      rw [tokens, right]
      exact endsAt_tokensBetween brackets body
  | .make head target value => by
      rw [tokens, right]
      exact ((endsAt_right value).cons target).cons head
  | .repeatTimes head count brackets body => by
      rw [tokens, right]
      exact ((endsAt_tokensBetween brackets body).append _).cons head
  | .countTo head target limit brackets body => by
      rw [tokens, right]
      exact (((endsAt_tokensBetween brackets body).append _).cons
        target).cons head
  | .countBy head target first last step brackets body => by
      rw [tokens, right]
      exact (((endsAt_tokensBetween brackets body).append _).cons
        target).cons head
  | .ifThen head condition brackets body => by
      rw [tokens, right]
      exact ((endsAt_tokensBetween brackets body).append _).cons head
  | .ifElse head condition _ _ brackets body => by
      rw [tokens, right]
      exact ((endsAt_tokensBetween brackets body).append _).cons head
  | .define head name params brackets body => by
      rw [tokens, right]
      exact (((endsAt_tokensBetween brackets body).append params).cons
        name).cons head
  | .call head args => by
      rw [tokens, right]
      exact endsAt_rightOfLast head args
  | .tell head brackets list => by
      rw [tokens, right]
      exact (endsAt_tokensBetween brackets list).cons head
  | .ask head _ _ brackets body => by
      rw [tokens, right]
      exact ((endsAt_tokensBetween brackets body).append _).cons head
  | .askWith head _ _ brackets body => by
      rw [tokens, right]
      exact ((endsAt_tokensBetween brackets body).append _).cons head

theorem endsAt_rightOfLast (head : Token) :
    (args : List Expr) →
      EndsAt (head :: tokensAll args) (rightOfLast head.spot args)
  | [] => ⟨[], head, by simp [tokensAll], by simp [rightOfLast]⟩
  | arg :: rest => by
      obtain ⟨init, last, hinit, hspot⟩ := endsAt_right arg
      have hrest := (endsAt_rightOfLast last rest).append (head :: init)
      simpa [tokensAll, rightOfLast, hinit, hspot] using hrest

end

end Expr

namespace Phrase

/-- A node with words.  Only an empty program has none. -/
def IsProper : Phrase → Prop
  | .program [] => False
  | _ => True

theorem isProper_child {node child : Phrase} (hchild : child ∈ node.children) :
    child.IsProper := by
  cases child with
  | word token => trivial
  | expr e => trivial
  | program body =>
      exfalso
      cases node with
      | word token => simp [children] at hchild
      | program others => simp [children] at hchild
      | expr e => cases e <;> simp [children, Expr.children] at hchild

/-- The first and the last token of a node make its span. -/
theorem tokens_span {node : Phrase} (hproper : node.IsProper) :
    (∃ first rest, node.tokens = first :: rest ∧ first.spot = node.span.1) ∧
      EndsAt node.tokens node.span.2 := by
  cases node with
  | word token => exact ⟨⟨token, [], rfl, rfl⟩, [], token, rfl, rfl⟩
  | expr e =>
      obtain ⟨rest, hrest⟩ := e.tokens_eq_cons
      exact ⟨⟨e.head, rest, hrest, rfl⟩, e.endsAt_right⟩
  | program body =>
      cases body with
      | nil => exact hproper.elim
      | cons expr others =>
          obtain ⟨rest, hrest⟩ := expr.tokens_eq_cons
          refine ⟨⟨expr.head, rest ++ tokensAll others, ?_, rfl⟩, ?_⟩
          · rw [tokens, tokensAll, hrest, List.cons_append]
          · obtain ⟨init, last, hinit, hspot⟩ := expr.endsAt_right
            have hends := (endsAt_rightOfLast last others).append init
            rw [hspot] at hends
            simpa [tokens, tokensAll, span, hinit] using hends

/-- All tokens of a node lie in its span. -/
theorem span_le_of_mem
    {node : Phrase} (hproper : node.IsProper) (hordered : Ordered node.tokens)
    {token : Token} (htoken : token ∈ node.tokens) :
    node.span.1 ≤ token.spot ∧ token.spot ≤ node.span.2 := by
  obtain ⟨⟨first, rest, hfirst, hleft⟩, init, last, hlast, hright⟩ :=
    tokens_span hproper
  constructor
  · rw [hfirst] at hordered htoken
    rw [← hleft]
    rcases List.mem_cons.mp htoken with rfl | hlater
    · exact le_rfl
    · exact ((List.pairwise_cons.mp hordered).1 token hlater).le
  · rw [hlast] at hordered htoken
    rw [← hright]
    rcases List.mem_append.mp htoken with hearlier | hmem
    · exact ((List.pairwise_append.mp hordered).2.2 token hearlier
        last (by simp)).le
    · rw [List.mem_singleton.mp hmem]

theorem exists_mem_span {node : Phrase} (hproper : node.IsProper) :
    (∃ first ∈ node.tokens, first.spot = node.span.1) ∧
      ∃ last ∈ node.tokens, last.spot = node.span.2 := by
  obtain ⟨⟨first, rest, hfirst, hleft⟩, init, last, hlast, hright⟩ :=
    tokens_span hproper
  exact ⟨⟨first, by simp [hfirst], hleft⟩, last, by simp [hlast], hright⟩

/-- The spans of a node and of its children are as they should be.  Both ends of
a span are spots of tokens, and a child lies within its parent.  Children come
one behind the other, except for the calls of a group: these start at the same
word, lie between the parentheses, and each ends behind the one before. -/
structure WellNested (text : List Token) (node : Phrase) : Prop where
  spans : Spans text node.span.1 node.span.2
  inside : ∀ child ∈ node.children,
    node.span.1 ≤ child.span.1 ∧ child.span.2 ≤ node.span.2
  apart : ¬ node.IsGroup →
    node.children.Pairwise fun child later => child.span.2 < later.span.1
  group : ∀ brackets calls, node = .expr (.block brackets calls) →
    brackets.opener.kind = .groupStart →
    (∃ head, ∀ call ∈ calls, call.head = head) ∧
      (∀ call ∈ calls,
        brackets.opener.spot < call.left ∧ call.right < brackets.closer.spot) ∧
      calls.Pairwise fun call later => call.right < later.right

variable {text : List Token} {node : Phrase}

theorem apart_of_ordered (hgroup : ¬ node.IsGroup)
    (hordered : Ordered node.tokens) :
    node.children.Pairwise fun child later => child.span.2 < later.span.1 := by
  have hchildren : Ordered (node.children.flatMap tokens) :=
    hordered.sublist (children_tokens_sublist hgroup)
  rw [Ordered, List.flatMap_def, List.pairwise_flatten,
    List.pairwise_map] at hchildren
  refine hchildren.2.imp_of_mem fun {child later} hchild hlater hbefore => ?_
  obtain ⟨-, last, hlast, hright⟩ := exists_mem_span (isProper_child hchild)
  obtain ⟨⟨first, hfirst, hleft⟩, -⟩ := exists_mem_span (isProper_child hlater)
  rw [← hright, ← hleft]
  exact hbefore last hlast first hfirst

/-- The calls of a group, whose tokens are the shared word and the operands of
all of them. -/
theorem repeated_of_ordered
    {brackets : Brackets} {callee : Callee} {head : Token}
    {runs : List (List Expr)}
    (hordered : Ordered (brackets.around (head :: tokensAll runs.flatten)))
    (hsome : ∀ run ∈ runs, run ≠ []) :
    (∀ call ∈ runs.map (callee.call head),
      brackets.opener.spot < call.left ∧ call.right < brackets.closer.spot) ∧
      (runs.map (callee.call head)).Pairwise fun call later =>
        call.right < later.right := by
  have hright (run : List Expr) (hrun : run ∈ runs) :
      ∃ last ∈ tokensAll run, last.spot = (callee.call head run).right := by
    obtain ⟨init, last, hlast, hspot⟩ := (callee.call head run).endsAt_right
    obtain ⟨arg, rest, rfl⟩ := List.exists_cons_of_ne_nil (hsome run hrun)
    obtain ⟨others, hothers⟩ := arg.tokens_eq_cons
    refine ⟨last, ?_, hspot⟩
    rw [Callee.tokens_call, tokensAll, hothers, List.cons_append] at hlast
    rw [tokensAll, hothers, List.cons_append]
    cases init with
    | nil => simp at hlast
    | cons token init => simp [(List.cons.inj hlast).2]
  obtain ⟨hopener, hinside⟩ := List.pairwise_cons.mp hordered
  obtain ⟨hwords, -, hcloser⟩ := List.pairwise_append.mp hinside
  have hoperands := (List.pairwise_cons.mp hwords).2
  rw [tokensAll_flatten, List.pairwise_flatten, List.pairwise_map] at hoperands
  constructor
  · intro call hcall
    obtain ⟨run, hrun, rfl⟩ := List.mem_map.mp hcall
    obtain ⟨last, hlast, hspot⟩ := hright run hrun
    have hmem : last ∈ tokensAll runs.flatten := by
      rw [tokensAll_flatten]
      exact List.mem_flatten_of_mem (List.mem_map_of_mem hrun) hlast
    constructor
    · rw [left, Callee.head_call]
      exact hopener head (by simp)
    · rw [← hspot]
      exact hcloser last (by simp [hmem]) brackets.closer (by simp)
  · refine List.pairwise_map.mpr
      (hoperands.2.imp_of_mem fun {run later} hrun hlater hbefore => ?_)
    obtain ⟨last, hlast, hspot⟩ := hright run hrun
    obtain ⟨other, hother, hlaterSpot⟩ := hright later hlater
    rw [← hspot, ← hlaterSpot]
    exact hbefore last hlast other hother

/-- A node whose tokens are some of the text, in order, is well nested. -/
theorem wellNested_of_sublist
    (hordered : Ordered text) (hproper : node.IsProper) (hshaped : node.Shaped)
    (hsublist : node.tokens.Sublist text) : node.WellNested text := by
  have hown : Ordered node.tokens := hordered.sublist hsublist
  obtain ⟨⟨first, hfirst, hleft⟩, last, hlast, hright⟩ :=
    exists_mem_span hproper
  refine ⟨⟨first, hsublist.subset hfirst, last, hsublist.subset hlast,
    hleft, hright, ?_⟩,
    fun child hchild => ?_, fun hgroup => apart_of_ordered hgroup hown, ?_⟩
  · rw [← hright]
    exact (span_le_of_mem hproper hown hlast).1
  · have hchildTokens := child_tokens_sublist hshaped hchild
    obtain ⟨⟨start, hstart, hchildLeft⟩, finish, hfinish, hchildRight⟩ :=
      exists_mem_span (isProper_child hchild)
    rw [← hchildLeft, ← hchildRight]
    exact ⟨(span_le_of_mem hproper hown (hchildTokens.subset hstart)).1,
      (span_le_of_mem hproper hown (hchildTokens.subset hfinish)).2⟩
  · rintro brackets calls rfl hopener
    obtain ⟨-, callee, head, runs, hsome, harity, hlengths, rfl⟩ :=
      hshaped.resolve_left (by simp [hopener])
    rw [tokens_repeated brackets hopener callee head hsome] at hown
    refine ⟨⟨head, by simp⟩, repeated_of_ordered hown fun run hrun => ?_⟩
    exact List.ne_nil_of_length_pos (by rw [hlengths run hrun]; exact harity)

end Phrase

/-! ## What is read from tokens -/

/-- An expression remembers some of the tokens, in their order, and its blocks
are lists and groups. -/
structure Expr.ReadFrom (text : List Token) (expr : Expr) : Prop where
  sublist : expr.tokens.Sublist text
  shaped : (Phrase.expr expr).ShapedThroughout

structure Expr.AllReadFrom (text : List Token) (exprs : List Expr) : Prop where
  sublist : (tokensAll exprs).Sublist text
  shaped : ∀ expr ∈ exprs, (Phrase.expr expr).ShapedThroughout

@[simp] theorem Phrase.shapedThroughout_word (token : Token) :
    (Phrase.word token).ShapedThroughout :=
  shapedThroughout_iff.mpr ⟨trivial, by simp [children]⟩

@[simp] theorem Phrase.shapedThroughout_variable (token : Token) :
    (Phrase.expr (.variable token)).ShapedThroughout :=
  shapedThroughout_iff.mpr ⟨trivial, by simp [children, Expr.children]⟩

theorem Expr.AllReadFrom.block
    {text : List Token} {body : List Expr} (hbody : AllReadFrom text body)
    {opener : Token} (hopener : opener.kind = .listStart) (closer : Token) :
    (Expr.block ⟨opener, closer⟩ body).ReadFrom
      (opener :: (text ++ [closer])) where
  sublist := by
    rw [tokens, tokensBetween_list hopener]
    exact (hbody.sublist.append (.refl [closer])).cons_cons opener
  shaped := by
    refine Phrase.shapedThroughout_iff.mpr ⟨.inl hopener, ?_⟩
    simpa [Phrase.children, Expr.children] using hbody.shaped

theorem Callee.readFrom_call
    (callee : Callee) (head : Token) {text : List Token} {args : List Expr}
    (hargs : AllReadFrom text args) :
    (callee.call head args).ReadFrom (head :: text) where
  sublist := by
    rw [Callee.tokens_call]
    exact hargs.sublist.cons_cons head
  shaped := by
    refine Phrase.shapedThroughout_iff.mpr ⟨by cases callee <;> trivial, ?_⟩
    simpa [Phrase.children] using hargs.shaped

theorem Callee.arity_pos_of_group
    {callee : Callee} {brackets others : Brackets} {head : Token}
    {args calls : List Expr}
    (hgroup : callee.group brackets head args = .ok (.block others calls)) :
    0 < callee.arity := by
  by_contra hzero
  unfold group at hgroup
  split at hgroup
  · cases callee <;> cases hgroup
  · rw [if_pos (.inl (by omega))] at hgroup
    cases hgroup

theorem Callee.readFrom_group
    {callee : Callee} {opener head closer : Token}
    (hopener : opener.kind = .groupStart) {text : List Token} {args : List Expr}
    (hargs : AllReadFrom text args) {expr : Expr}
    (hgroup : callee.group ⟨opener, closer⟩ head args = .ok expr) :
    expr.ReadFrom (opener :: head :: (text ++ [closer])) := by
  rcases Callee.group_eq_ok hgroup with
    ⟨-, rfl, -⟩ | ⟨runs, hsome, rfl, hlengths, rfl⟩
  · have hcall := callee.readFrom_call head hargs
    refine ⟨(hcall.sublist.trans ?_).cons opener, hcall.shaped⟩
    exact (List.sublist_append_left text [closer]).cons_cons head
  · refine ⟨?_, Phrase.shapedThroughout_iff.mpr
      ⟨.inr ⟨hopener, callee, head, runs, hsome, ?_,
      hlengths, rfl⟩, fun child hchild => ?_⟩⟩
    · have htokens :=
        Phrase.tokens_repeated ⟨opener, closer⟩ hopener callee head hsome
      rw [Phrase.tokens] at htokens
      rw [htokens]
      exact ((hargs.sublist.cons_cons head).append
        (.refl [closer])).cons_cons opener
    · exact Callee.arity_pos_of_group hgroup
    · simp only [Phrase.children, Expr.children, List.map_map,
        List.mem_map] at hchild
      obtain ⟨run, hrun, rfl⟩ := hchild
      have hoperands : AllReadFrom (tokensAll run) run :=
        ⟨.refl _,
          fun arg harg => hargs.shaped arg (List.mem_flatten_of_mem hrun harg)⟩
      exact (callee.readFrom_call head hoperands).shaped

/-- Whatever a need makes of further tokens remembers some of these and of those
before. -/
def Need.Remembers : Need → List Token → Prop
  | .done expr, prior => expr.ReadFrom prior
  | .value next, prior =>
      ∀ more expr, expr.ReadFrom more → (next expr).Remembers (prior ++ more)
  | .target next, prior => ∀ token, (next token).Remembers (prior ++ [token])
  | .block next, prior =>
      ∀ more brackets body, (Expr.block brackets body).ReadFrom more →
        (next brackets body).Remembers (prior ++ more)
  | .opening _ next, prior => ∀ token, next.Remembers (prior ++ [token])
  | .closing _ next, prior => ∀ token, next.Remembers (prior ++ [token])
  | .name next, prior => ∀ token, (next token).Remembers (prior ++ [token])
  | .params _ given next, prior =>
      ∀ more closer,
        (next (given ++ more)).Remembers (prior ++ (more ++ [closer]))
  | .leader opener, prior => opener.kind = .groupStart ∧ prior = [opener]

theorem Form.need_remembers (form : Form) (head : Token) :
    (form.need head).Remembers [head] := by
  cases form with
  | make =>
      intro target more value hvalue
      refine ⟨?_, Phrase.shapedThroughout_iff.mpr ⟨trivial, ?_⟩⟩
      · simpa [tokens] using hvalue.sublist
      · simp [Phrase.children, Expr.children, hvalue.shaped]
  | repeatTimes =>
      intro inputs count hcount more brackets body hbody
      refine ⟨?_, Phrase.shapedThroughout_iff.mpr ⟨trivial, ?_⟩⟩
      · simpa [tokens] using hcount.sublist.append hbody.sublist
      · simp [Phrase.children, Expr.children, hcount.shaped, hbody.shaped]
  | countTo =>
      intro outer target inputs limit hlimit inner more brackets body hbody
      refine ⟨?_, Phrase.shapedThroughout_iff.mpr ⟨trivial, ?_⟩⟩
      · have hparts := hlimit.sublist.append (hbody.sublist.cons inner)
        simpa [tokens] using (hparts.cons_cons target).cons outer
      · simp [Phrase.children, Expr.children, hlimit.shaped, hbody.shaped]
  | countBy =>
      intro outer target firsts first hfirst lasts last hlast steps
        step hstep inner more brackets body hbody
      refine ⟨?_, Phrase.shapedThroughout_iff.mpr ⟨trivial, ?_⟩⟩
      · have hparts := hfirst.sublist.append (hlast.sublist.append
          (hstep.sublist.append (hbody.sublist.cons inner)))
        simpa [tokens] using (hparts.cons_cons target).cons outer
      · simp [Phrase.children, Expr.children, hfirst.shaped,
          hlast.shaped, hstep.shaped, hbody.shaped]
  | ifThen =>
      intro inputs condition hcondition more brackets body hbody
      refine ⟨?_, Phrase.shapedThroughout_iff.mpr ⟨trivial, ?_⟩⟩
      · simpa [tokens] using hcondition.sublist.append hbody.sublist
      · simp [Phrase.children, Expr.children, hcondition.shaped, hbody.shaped]
  | ifElse =>
      intro inputs condition hcondition thenTokens thenBrackets thenPart hthen
        more brackets elsePart helse
      refine ⟨?_, Phrase.shapedThroughout_iff.mpr ⟨trivial, ?_⟩⟩
      · simpa [tokens] using hcondition.sublist.append
          (hthen.sublist.append helse.sublist)
      · simp [Phrase.children, Expr.children, hcondition.shaped,
          hthen.shaped, helse.shaped]
  | define =>
      intro name outer params inner more brackets body hbody
      refine ⟨?_, Phrase.shapedThroughout_iff.mpr ⟨trivial, ?_⟩⟩
      · have hparts :=
          (List.Sublist.refl params).append (hbody.sublist.cons inner)
        simpa [tokens] using hparts.cons outer
      · rw [Phrase.children, Expr.children, List.cons_append,
          List.forall_mem_cons, List.forall_mem_append, List.forall_mem_map,
          List.forall_mem_singleton]
        exact ⟨Phrase.shapedThroughout_word name,
          fun param _ => Phrase.shapedThroughout_variable param, hbody.shaped⟩
  | tell =>
      intro more brackets list hlist
      refine ⟨?_, Phrase.shapedThroughout_iff.mpr ⟨trivial, ?_⟩⟩
      · simpa [tokens] using hlist.sublist
      · simp [Phrase.children, Expr.children, hlist.shaped]
  | ask =>
      intro listTokens listBrackets list hlist more brackets body hbody
      refine ⟨?_, Phrase.shapedThroughout_iff.mpr ⟨trivial, ?_⟩⟩
      · simpa [tokens] using hlist.sublist.append hbody.sublist
      · simp [Phrase.children, Expr.children, hlist.shaped, hbody.shaped]
  | askWith =>
      intro askTokens askBrackets condition hcondition more brackets body hbody
      refine ⟨?_, Phrase.shapedThroughout_iff.mpr ⟨trivial, ?_⟩⟩
      · simpa [tokens] using hcondition.sublist.append hbody.sublist
      · simp [Phrase.children, Expr.children, hcondition.shaped, hbody.shaped]

/-- What is read from some tokens remembers some of them, in their order. -/
def Reading.Remembers (text : List Token) : Reading → Prop
  | .value expr => expr.ReadFrom text
  | .list exprs => AllReadFrom text exprs
  | .rest need expr =>
      ∀ prior, need.Remembers prior → expr.ReadFrom (prior ++ text)

theorem Reads.remembers
    {lexicon : Lexicon} {room : Nat} {arities after : NameMap Nat}
    {text : List Token} {reading : Reading}
    (hreads : Reads lexicon room arities text reading after) :
    reading.Remembers text := by
  induction hreads with
  | constant hkind hvalue =>
      refine ⟨by simp [tokens], Phrase.shapedThroughout_iff.mpr ⟨trivial, ?_⟩⟩
      simp [Phrase.children, Expr.children]
  | «variable» hkind =>
      exact ⟨by simp [tokens], Phrase.shapedThroughout_variable _⟩
  | @form room arities token form others expr after hkind hform hrest ih =>
      exact ih [token] (form.need_remembers token)
  | call hcalls hargs hlength ih => exact Callee.readFrom_call _ _ ih
  | @group room arities opener others expr after hopener hrest ih =>
      exact ih [opener] ⟨hopener, rfl⟩
  | empty => exact ⟨by simp [tokensAll], by simp⟩
  | snoc hlist hvalue ihlist ihvalue =>
      refine ⟨?_, ?_⟩
      · rw [tokensAll_append, tokensAll, tokensAll, List.append_nil]
        exact ihlist.sublist.append ihvalue.sublist
      · rw [List.forall_mem_append, List.forall_mem_singleton]
        exact ⟨ihlist.shaped, ihvalue.shaped⟩
  | done =>
      intro prior hneed
      rw [List.append_nil]
      exact hneed
  | @value room arities inputs input between others next expr after hvalue hrest
    ihvalue ihrest =>
      intro prior hneed
      rw [← List.append_assoc]
      exact ihrest _ (hneed inputs input ihvalue)
  | @target room arities token others next expr after hkind hrest ih =>
      intro prior hneed
      rw [List.append_cons]
      exact ih _ (hneed token)
  | @block room arities opener inputs body between closer others next expr
      after hopener hbody hcloser hrest ihbody ihrest =>
      intro prior hneed
      have hsplit :
          prior ++ opener :: (inputs ++ closer :: others) =
            prior ++ opener :: (inputs ++ [closer]) ++ others := by simp
      rw [hsplit]
      exact ihrest _ (hneed _ _ _ (ihbody.block hopener closer))
  | @opening room arities token others what next expr after hkind hrest ih =>
      intro prior hneed
      rw [List.append_cons]
      exact ih _ (hneed token)
  | @closing room arities token others what next expr after hkind hrest ih =>
      intro prior hneed
      rw [List.append_cons]
      exact ih _ (hneed token)
  | @name room arities token others next expr after hkind hnew hrest ih =>
      intro prior hneed
      rw [List.append_cons]
      exact ih _ (hneed token)
  | @param room arities token others name given next expr after
    hkind hrest ih =>
      intro prior hneed
      rw [List.append_cons]
      refine ih _ fun more closer => ?_
      simpa using hneed (token :: more) closer
  | @params room arities token others name given next expr after
    hkind hrest ih =>
      intro prior hneed
      rw [List.append_cons]
      refine ih _ ?_
      simpa using hneed [] token
  | @leader room arities head callee inputs args closer opener expr after
      hcalls hargs hcloser hgroup ih =>
      rintro prior ⟨hopener, rfl⟩
      exact Callee.readFrom_group hopener ih hgroup

/-! ## Programs -/

theorem Phrase.OccursIn.tokens_sublist
    {node whole : Phrase} (hnode : node.OccursIn whole)
    (hshaped : whole.ShapedThroughout) :
    node.tokens.Sublist whole.tokens := by
  induction hnode with
  | self => exact .refl _
  | inside hchild hnode ih =>
      obtain ⟨hself, hchildren⟩ := shapedThroughout_iff.mp hshaped
      exact (ih (hchildren _ hchild)).trans (child_tokens_sublist hself hchild)

theorem Phrase.OccursIn.isProper
    {node whole : Phrase} (hnode : node.OccursIn whole)
    (hproper : whole.IsProper) :
    node.IsProper := by
  induction hnode with
  | self => exact hproper
  | inside hchild hnode ih => exact ih (isProper_child hchild)

/-- The spans of a program are well nested: every node of an accepted program
that is not empty, from the program itself down to its last constant, lies
between two tokens of the text, inside of its parent, and apart from its
neighbours unless they are calls of a group. -/
theorem spans_are_well_nested
    (lexicon : Lexicon) (nesting : Nat) (arities : NameMap Nat)
    {text : List Token} (hordered : Ordered text) {reader : Reader}
    (hread : Reader.read lexicon nesting arities text = .ok reader)
    (hsome : reader.body ≠ []) :
    ∀ node : Phrase, node.OccursIn (.program reader.body) →
      node.WellNested text := by
  intro node hnode
  obtain ⟨-, -, hreads⟩ := read_eq_ok_iff_reads.mp hread
  obtain ⟨hsublist, hbody⟩ := hreads.remembers
  have hshaped : (Phrase.program reader.body).ShapedThroughout := by
    refine Phrase.shapedThroughout_iff.mpr ⟨trivial, ?_⟩
    simpa [Phrase.children] using hbody
  have hproper : (Phrase.program reader.body).IsProper := by
    obtain ⟨first, rest, hsplit⟩ := List.exists_cons_of_ne_nil hsome
    rw [hsplit]
    trivial
  exact Phrase.wellNested_of_sublist hordered (hnode.isProper hproper)
    (hshaped node hnode) ((hnode.tokens_sublist hshaped).trans hsublist)

def twoWords : Lexicon :=
  ⟨"English",
    Classifier.ofPairs [("Repeat", "repeat"), ("Forward", "forward|fd")]⟩

/-- A loop over a group of two calls: `repeat 2 [ ( fd 5 6 ) ]`. -/
def loopOverGroup : List Token :=
  [⟨.command, "repeat", 1, 0⟩, ⟨.constant, "2", 2, 7⟩, ⟨.listStart, "[", 3, 9⟩,
    ⟨.groupStart, "(", 4, 11⟩, ⟨.command, "fd", 5, 13⟩, ⟨.constant, "5", 6, 16⟩,
    ⟨.constant, "6", 7, 18⟩, ⟨.groupEnd, ")", 8, 20⟩, ⟨.listEnd, "]", 9, 22⟩]

theorem loop_over_group_is_well_nested :
    Ordered loopOverGroup ∧
      ∃ reader, Reader.read twoWords 9 [] loopOverGroup = .ok reader ∧
        (Phrase.program reader.body).span = (1, 9) ∧
        ∀ node : Phrase, node.OccursIn (.program reader.body) →
          node.WellNested loopOverGroup := by
  have hordered : Ordered loopOverGroup := by
    unfold Ordered
    decide
  have hspan :
      (Reader.read twoWords 9 [] loopOverGroup).toOption.map
        (fun reader => (reader.body.length,
          (Phrase.program reader.body).span)) = some (1, 1, 9) := by
    decide +kernel
  cases hread : Reader.read twoWords 9 [] loopOverGroup with
  | error fault => simp [hread, Except.toOption] at hspan
  | ok reader =>
      simp only [hread, Except.toOption, Option.map_some, Option.some.injEq,
        Prod.mk.injEq] at hspan
      have hsome : reader.body ≠ [] := List.ne_nil_of_length_pos (by omega)
      exact ⟨hordered, reader, rfl, hspan.2,
        spans_are_well_nested twoWords 9 [] hordered hread hsome⟩

end Logo
