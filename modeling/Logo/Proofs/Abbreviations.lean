import Logo.Proofs.Execution.Depth
import Logo.Proofs.Program.Groups
import Logo.Proofs.Program.Resolved
import Logo.Proofs.Session.Piecewise

/-!
# What groups abbreviate

A group of a reducible operator and more than two operands has the value that
the operator has when it is nested to the left: the operands have all been
evaluated before the first two are combined, but combining numbers changes
nothing.  A group of any other instruction is read as a block of calls, and it
does what the calls do when they are written one after the other.
-/

namespace Logo

open Logo.Action Execution Vocabulary Reader

/-! ## Operators -/

namespace Operator

variable {operator : Operator} (hreducible : operator.isReducible = true)
include hreducible

theorem ne_random_of_isReducible : operator ≠ .random := by
  rintro rfl
  cases hreducible

theorem value_pair (draw : Float) (a b : Number) :
    operator.value draw [a, b] = operator.apply draw [a, b] := by
  unfold value
  rw [arity_of_isReducible hreducible]
  rfl

theorem value_cons_of_two_le (draw : Float) (first : Number)
    {rest : List Number} (hrest : 2 ≤ rest.length) :
    operator.value draw (first :: rest) =
      rest.foldlM (fun a b => operator.apply draw [a, b]) first := by
  have hmore : operator.arity < (first :: rest).length := by
    rw [arity_of_isReducible hreducible, List.length_cons]
    omega
  unfold value
  rw [if_pos hmore]
  rfl

end Operator

section Operations

variable {turns : Nat} {mode : Mode} {world after : World}

/-- An expression has a value when it has room enough. -/
def Evaluates
    (turns : Nat) (mode : Mode) (expr : Expr) (world : World) (value : Number)
    (after : World) :
    Prop :=
  ∃ depth, execute turns depth mode expr world = .ok value after

def EvaluatesEach
    (turns : Nat) (mode : Mode) (exprs : List Expr) (world : World)
    (values : List Number) (after : World) : Prop :=
  ∃ depth, each (execute turns depth mode) exprs world = .ok values after

theorem comesTo_ok_iff_evaluates {expr : Expr} {value : Number} :
    ComesTo turns mode [expr] world (.ok value after) ↔
      Evaluates turns mode expr world value after := by
  constructor
  · rintro ⟨-, depth, hrun⟩
    rw [inOrder_singleton] at hrun
    exact ⟨depth, hrun⟩
  · rintro ⟨depth, hrun⟩
    refine ⟨rfl, depth, ?_⟩
    rw [inOrder_singleton]
    exact hrun

theorem evaluatesEach_nil {values : List Number} :
    EvaluatesEach turns mode [] world values after ↔ values = [] ∧
      after = world := by
  constructor
  · rintro ⟨depth, hrun⟩
    cases hrun
    exact ⟨rfl, rfl⟩
  · rintro ⟨rfl, rfl⟩
    exact ⟨0, rfl⟩

theorem evaluatesEach_cons {expr : Expr} {rest : List Expr}
    {values : List Number} :
    EvaluatesEach turns mode (expr :: rest) world values after ↔
      ∃ value others between, values = value :: others ∧
        Evaluates turns mode expr world value between ∧
        EvaluatesEach turns mode rest between others after := by
  constructor
  · rintro ⟨depth, hrun⟩
    obtain ⟨value, between, hexpr, hrun⟩ := exists_of_bind_eq_ok hrun
    obtain ⟨others, last, hrest, hrun⟩ := exists_of_bind_eq_ok hrun
    cases hrun
    exact ⟨value, others, between, rfl, ⟨depth, hexpr⟩, ⟨depth, hrest⟩⟩
  · rintro ⟨value, others, between, rfl, ⟨depth, hexpr⟩, ⟨depth', hrest⟩⟩
    refine ⟨max depth depth', ?_⟩
    have hexpr' : execute turns (max depth depth') mode expr world =
        .ok value between := by
      rw [deepens_execute (le_max_left depth depth') turns mode expr world
        (by rw [hexpr]; rfl), hexpr]
    have hrest' : each (execute turns (max depth depth') mode) rest between =
        .ok others after := by
      have hdeepens :=
        Deepens.each
          (deepens_execute (le_max_right depth depth') turns mode) rest
      rw [hdeepens between (by rw [hrest]; rfl), hrest]
    unfold each
    rw [bind_eq_of_ok hexpr', bind_eq_of_ok hrest']
    rfl

theorem EvaluatesEach.length_eq
    {exprs : List Expr} {values : List Number}
    (hvalues : EvaluatesEach turns mode exprs world values after) :
    values.length = exprs.length := by
  induction exprs generalizing world values with
  | nil =>
      obtain ⟨rfl, -⟩ := evaluatesEach_nil.mp hvalues
      rfl
  | cons expr rest ih =>
      obtain ⟨value, others, between, rfl, -, hrest⟩ :=
        evaluatesEach_cons.mp hvalues
      rw [List.length_cons, List.length_cons, ih hrest]

/-- The value of an operator, where no random number is drawn. -/
theorem evaluates_operation
    {operator : Operator} (hrandom : operator ≠ .random) {head : Token}
    {args : List Expr} {value : Number} :
    Evaluates turns mode (.operation head operator args) world value after ↔
      ∃ values, EvaluatesEach turns mode args world values after ∧
        operator.value 0.0 values = .ok value := by
  have hoperation (values : List Number) (now : World) :
      operation (.operation head operator args) operator values now =
        pinning operator.symbol (.operation head operator args)
          (operator.value 0.0 values) now := by
    unfold operation
    rw [if_neg fun hdraws => hrandom (Operator.eq_random_of_draws hdraws)]
    rfl
  constructor
  · rintro ⟨depth, hrun⟩
    cases depth with
    | zero => cases hrun
    | succ depth =>
        rw [execute_operation] at hrun
        obtain ⟨values, between, heach, hrun⟩ := exists_of_bind_eq_ok hrun
        rw [hoperation] at hrun
        cases hvalue : operator.value 0.0 values with
        | error trouble =>
            rw [hvalue] at hrun
            cases hrun
        | ok found =>
            rw [hvalue] at hrun
            cases hrun
            exact ⟨values, ⟨depth, heach⟩, hvalue⟩
  · rintro ⟨values, ⟨depth, heach⟩, hvalue⟩
    refine ⟨depth + 1, ?_⟩
    rw [execute_operation, bind_eq_of_ok heach, hoperation, hvalue]
    rfl

/-- An operator of two operands, nested to the left: each further operand comes
with a word of its own. -/
def Expr.nested (operator : Operator) (first : Expr)
    (others : List (Token × Expr)) : Expr :=
  others.foldl
    (fun expr other => .operation other.1 operator [expr, other.2]) first

theorem evaluates_nested
    {operator : Operator} (hreducible : operator.isReducible = true)
    {first : Expr} {others : List (Token × Expr)} {value : Number} :
    Evaluates turns mode (Expr.nested operator first others) world value after ↔
      ∃ start between values,
        Evaluates turns mode first world start between ∧
          EvaluatesEach turns mode (others.map Prod.snd) between values after ∧
          values.foldlM (fun a b => operator.apply 0.0 [a, b]) start =
            .ok value := by
  have hrandom := Operator.ne_random_of_isReducible hreducible
  -- The innermost operation comes first in the list, so the operations around
  -- it are the induction hypothesis, with this operation as their first
  -- operand.
  induction others generalizing first world with
  | nil =>
      constructor
      · intro hfirst
        exact ⟨value, after, [], hfirst, evaluatesEach_nil.mpr ⟨rfl, rfl⟩, rfl⟩
      · rintro ⟨start, between, values, hfirst, hvalues, hfold⟩
        obtain ⟨rfl, rfl⟩ := evaluatesEach_nil.mp hvalues
        cases hfold
        exact hfirst
  | cons other others ih =>
      change Evaluates turns mode
        (Expr.nested operator
          (.operation other.1 operator [first, other.2]) others) _ _ _ ↔ _
      refine Iff.trans ih ?_
      constructor
      · rintro ⟨start, between, values, hfirst, hvalues, hfold⟩
        obtain ⟨operands, hoperands, hvalue⟩ :=
          (evaluates_operation hrandom).mp hfirst
        obtain ⟨a, _, middle, rfl, ha, hrest⟩ := evaluatesEach_cons.mp hoperands
        obtain ⟨b, _, last, rfl, hb, hnil⟩ := evaluatesEach_cons.mp hrest
        obtain ⟨rfl, rfl⟩ := evaluatesEach_nil.mp hnil
        rw [Operator.value_pair hreducible] at hvalue
        refine ⟨a, middle, b :: values, ha, ?_, ?_⟩
        · exact evaluatesEach_cons.mpr ⟨b, values, _, rfl, hb, hvalues⟩
        · rw [List.foldlM_cons, hvalue]
          exact hfold
      · rintro ⟨a, middle, values, ha, hvalues, hfold⟩
        obtain ⟨b, rest, between, rfl, hb, hrest⟩ :=
          evaluatesEach_cons.mp hvalues
        rw [List.foldlM_cons] at hfold
        obtain ⟨start, hstart, hfold⟩ := Except.exists_of_bind_eq_ok hfold
        refine ⟨start, between, rest, ?_, hrest, hfold⟩
        rw [← Operator.value_pair hreducible] at hstart
        refine (evaluates_operation hrandom).mpr ⟨[a, b], ?_, hstart⟩
        refine evaluatesEach_cons.mpr ⟨a, [b], middle, rfl, ha, ?_⟩
        exact evaluatesEach_cons.mpr
          ⟨b, [], between, rfl, hb, evaluatesEach_nil.mpr ⟨rfl, rfl⟩⟩

/-- An operator that is folded over more than two operands has the value that it
has when it is nested. -/
theorem evaluates_operation_iff_nested
    {operator : Operator} (hreducible : operator.isReducible = true)
    {first : Expr} {others : List (Token × Expr)} (hothers : 2 ≤ others.length)
    {head : Token} {value : Number} :
    Evaluates turns mode
      (.operation head operator (first :: others.map Prod.snd)) world value
        after ↔
      Evaluates turns mode
        (Expr.nested operator first others) world value after := by
  have hlength {between : World} {rest : List Number}
      (hrest : EvaluatesEach turns mode
        (others.map Prod.snd) between rest after) :
      2 ≤ rest.length := by
    rw [hrest.length_eq, List.length_map]
    exact hothers
  rw [evaluates_operation (Operator.ne_random_of_isReducible hreducible),
    evaluates_nested hreducible]
  constructor
  · rintro ⟨values, hvalues, hvalue⟩
    obtain ⟨start, rest, between, rfl, hfirst, hrest⟩ :=
      evaluatesEach_cons.mp hvalues
    rw [Operator.value_cons_of_two_le hreducible _ _ (hlength hrest)] at hvalue
    exact ⟨start, between, rest, hfirst, hrest, hvalue⟩
  · rintro ⟨start, between, rest, hfirst, hrest, hvalue⟩
    refine ⟨start :: rest,
      evaluatesEach_cons.mpr ⟨start, rest, between, rfl, hfirst, hrest⟩, ?_⟩
    rw [Operator.value_cons_of_two_le hreducible _ _ (hlength hrest)]
    exact hvalue

end Operations

/-! ## Other instructions -/

theorem comesTo_block
    {turns : Nat} {mode : Mode} {brackets : Brackets} {body : List Expr}
    {world : World} {ending : EStateM.Result Fault World Number} :
    ComesTo turns mode [.block brackets body] world ending ↔
      ComesTo turns mode body world ending := by
  constructor
  · rintro ⟨hroom, depth, hrun⟩
    rw [inOrder_singleton] at hrun
    cases depth with
    | zero =>
        subst hrun
        cases hroom
    | succ depth =>
        rw [execute_block] at hrun
        exact ⟨hroom, depth, hrun⟩
  · rintro ⟨hroom, depth, hrun⟩
    refine ⟨hroom, depth + 1, ?_⟩
    rw [inOrder_singleton, execute_block]
    exact hrun

theorem pieces_flatten
    {α : Type} {size : Nat} (hsize : 0 < size) {runs : List (List α)}
    (hruns : ∀ run ∈ runs, run.length = size) {count : Nat}
    (hcount : runs.flatten.length ≤ count) :
    pieces size count runs.flatten = runs := by
  induction runs generalizing count with
  | nil => cases count <;> rfl
  | cons run rest ih =>
      rw [List.forall_mem_cons] at hruns
      obtain ⟨hrun, hrest⟩ := hruns
      rw [List.flatten_cons, List.length_append] at hcount
      cases count with
      | zero => omega
      | succ count =>
          have hlater := ih hrest (show rest.flatten.length ≤ count by omega)
          cases run with
          | nil =>
              rw [List.length_nil] at hrun
              omega
          | cons item items =>
              change ((item :: items) ++ rest.flatten).take size ::
                pieces size count
                  (((item :: items) ++ rest.flatten).drop size) = _
              rw [List.take_left' hrun, List.drop_left' hrun, hlater]

/-- A group whose operands come out even means the calls that it abbreviates. -/
theorem Callee.exists_group
    {callee : Callee} (harity : 0 < callee.arity)
    (hreducible : ∀ operator, callee = .operator operator →
      operator.isReducible = false)
    {runs : List (List Expr)} (hsome : runs ≠ [])
    (hruns : ∀ run ∈ runs, run.length = callee.arity)
    (brackets : Brackets) (head : Token) :
    ∃ expr, callee.group brackets head runs.flatten = .ok expr ∧
      ∀ turns mode world ending,
        ComesTo turns mode [expr] world ending ↔
          ComesTo turns mode (runs.map (callee.call head)) world ending := by
  have hfolds (count : Nat) : callee.folds count = false := by
    cases callee with
    | operator operator =>
        change (operator.isReducible && operator.arity ≤ count) = false
        rw [hreducible operator rfl]
        rfl
    | _ => rfl
  have hlength : runs.flatten.length = runs.length * callee.arity := by
    rw [List.length_flatten, List.map_congr_left hruns, List.map_const',
      List.sum_replicate, smul_eq_mul]
  have hpositive : 0 < runs.flatten.length := by
    rw [hlength]
    exact Nat.mul_pos (List.length_pos_of_ne_nil hsome) harity
  have hwhole :
      ¬ (callee.folds runs.flatten.length ||
        (callee.arity == 0 && runs.flatten.isEmpty)) = true := by
    have hzero : (callee.arity == 0) = false := by
      rw [beq_eq_false_iff_ne]
      omega
    rw [hfolds, hzero]
    exact Bool.false_ne_true
  have heven :
      ¬ (callee.arity = 0 ∨ runs.flatten.length = 0 ∨
        runs.flatten.length % callee.arity ≠ 0) := by
    rw [hlength, Nat.mul_mod_left, ← hlength]
    omega
  unfold group
  rw [if_neg hwhole, if_neg heven, pieces_flatten harity hruns le_rfl]
  -- A single call is not wrapped in a block.
  split
  next single hsingle =>
    refine ⟨single, rfl, fun turns mode world ending => ?_⟩
    rw [hsingle]
  next => exact ⟨_, rfl, fun turns mode world ending => comesTo_block⟩

/-! ## Reading -/

section Reading

variable {lexicon : Lexicon} {room : Nat} {arities after : NameMap Nat}

theorem Reads.of_singleton
    {tokens : List Token} {expr : Expr}
    (hreads : Reads lexicon room arities tokens (.list [expr]) after) :
    Reads lexicon room arities tokens (.value expr) after := by
  generalize hexprs : [expr] = exprs at hreads
  cases hreads with
  | empty => cases hexprs
  | @snoc _ _ _ init _ _ last _ hlist hvalue =>
      obtain ⟨rfl, hlast⟩ :=
        List.append_inj' (show [] ++ [expr] = init ++ [last] from hexprs) rfl
      cases hlast
      obtain ⟨rfl, rfl⟩ := hlist.of_list_nil
      exact hvalue

/-- Words that are read as one expression each are read as these expressions one
after the other. -/
theorem reads_flatMap
    {α : Type} {words : α → List Token} {meaning : α → Expr} {items : List α}
    (hitems :
      ∀ item ∈ items, Reads lexicon room arities (words item)
        (.value (meaning item)) arities) :
    Reads lexicon room arities (items.flatMap words)
      (.list (items.map meaning)) arities := by
  induction items using List.reverseRecOn with
  | nil => exact .empty
  | append_singleton items item ih =>
      rw [List.forall_mem_append, List.forall_mem_singleton] at hitems
      rw [List.flatMap_append, List.flatMap_singleton, List.map_append,
        List.map_singleton]
      exact .snoc (ih hitems.1) hitems.2

end Reading

/-- Some tokens that are read as one expression, in which nothing is defined. -/
def IsOperand
    (lexicon : Lexicon) (nesting : Nat) (arities : NameMap Nat)
    (operand : List Token × Expr) :
    Prop :=
  operand.2.Settled ∧
    ∃ after, read lexicon nesting arities operand.1 =
      .ok ⟨[operand.2], [], none, after⟩

theorem IsOperand.reads
    {lexicon : Lexicon} {nesting : Nat} {arities : NameMap Nat}
    {operand : List Token × Expr}
    (hoperand : IsOperand lexicon nesting arities operand) :
    Reads lexicon (nesting + 1) arities operand.1
      (.value operand.2) arities := by
  obtain ⟨hsettled, after, hread⟩ := hoperand
  obtain ⟨-, -, hreads⟩ := read_eq_ok_iff_reads.mp hread
  have hvalue := Reads.of_singleton hreads
  obtain ⟨rfl, -⟩ := hvalue.settles hsettled
  exact hvalue

/-- The same value or the same error, in worlds that differ only in where the
words of procedures stand. -/
inductive Ending.SameWords :
    EStateM.Result Fault World Number →
      EStateM.Result Fault World Number → Prop where
  | value (number : Number) {world world' : World}
      (hworld : world.Similar Token.SameWord world') :
      SameWords (.ok number world) (.ok number world')
  | failure {fault fault' : Fault} (hfault : fault.SameError fault')
      {world world' : World} (hworld : world.Similar Token.SameWord world') :
      SameWords (.error fault world) (.error fault' world')

/-- Programs that are made of the same words do the same at every depth. -/
theorem sameWords_body
    (turns depth : Nat) (mode : Mode) {body body' : List Expr}
    (hbody : List.Forall₂ (Expr.Similar Token.SameWord) body body')
    (world : World) :
    Ending.SameWords (inOrder (execute turns depth mode) 0 body world)
      (inOrder (execute turns depth mode) 0 body' world) := by
  have hrun :
      Outcome.InStep Token.SameWord (fun _ => false) Eq
        (inOrder (execute turns depth mode) 0 body world)
        (inOrder (execute turns depth mode) 0 body' world) :=
    inStep_body Token.sameWord_refl ⟨0, depth, turns⟩ mode hbody world world
      (World.similar_refl world).ahead
  generalize inOrder (execute turns depth mode) 0 body world = ending at hrun
  generalize inOrder (execute turns depth mode) 0 body' world = ending' at hrun
  cases hrun with
  | value hvalue hfinal =>
      cases hvalue
      exact .value _ hfinal.similar
  | failure hfault hfinal => exact .failure hfault.sameError hfinal.similar

section Groups

variable {lexicon : Lexicon} {nesting : Nat} {arities : NameMap Nat}
  {head : Token} {callee : Callee} (hcalls : Calls lexicon arities head callee)
  {runs : List (List (List Token × Expr))}
  (hruns :
    ∀ run ∈ runs,
      run.length = callee.arity ∧
      ∀ operand ∈ run, IsOperand lexicon nesting arities operand)
include hcalls hruns

theorem read_repeated :
    read lexicon (nesting + 1) arities
      (runs.flatMap fun run => head :: run.flatMap Prod.fst) =
      .ok ⟨runs.map fun run => callee.call head (run.map Prod.snd), [], none,
        arities⟩ := by
  refine read_eq_ok_iff_reads.mpr ⟨rfl, rfl, reads_flatMap fun run hrun => ?_⟩
  obtain ⟨hlength, hoperands⟩ := hruns run hrun
  have hargs :
      Reads lexicon (nesting + 1) arities (run.flatMap Prod.fst)
        (.list (run.map Prod.snd)) arities :=
    reads_flatMap fun operand hoperand => (hoperands operand hoperand).reads
  exact .call hcalls hargs ((List.length_map _).trans hlength)

theorem read_grouped
    {opener closer : Token} (hopener : opener.kind = .groupStart)
    (hcloser : closer.kind = .groupEnd) {expr : Expr}
    (hgroup :
      callee.group ⟨opener, closer⟩ head
        (runs.map (·.map Prod.snd)).flatten = .ok expr) :
    read lexicon (nesting + 1) arities
        (opener :: head :: (runs.flatten.flatMap Prod.fst ++ [closer])) =
      .ok ⟨[expr], [], none, arities⟩ := by
  have hargs :
      Reads lexicon (nesting + 1) arities (runs.flatten.flatMap Prod.fst)
        (.list (runs.flatten.map Prod.snd)) arities := by
    refine reads_flatMap fun operand hoperand => ?_
    obtain ⟨run, hrun, hmem⟩ := List.mem_flatten.mp hoperand
    exact ((hruns run hrun).2 operand hmem).reads
  rw [← List.map_flatten] at hgroup
  refine read_eq_ok_iff_reads.mpr ⟨rfl, rfl, ?_⟩
  exact .snoc .empty (.group hopener (.leader hcalls hargs hcloser hgroup))

end Groups

/-- A reducible operator over more than two operands has a value exactly when
its nesting to the left has this value.  Any other instruction over several runs
of operands comes to what its calls with one run each come to, in order; the
words with the instruction written out before each run are read as these calls,
wherever the words stand. -/
theorem groups_mean_what_they_abbreviate :
    (∀ (operator : Operator) (brackets : Brackets) (head : Token) (first : Expr)
        (others : List (Token × Expr)),
      operator.isReducible = true → 2 ≤ others.length →
      let whole : Expr :=
        .operation head operator (first :: others.map Prod.snd)
      Callee.group (.operator operator) brackets head
        (first :: others.map Prod.snd) = .ok whole ∧
        ∀ turns mode world value after,
          ComesTo turns mode [whole] world (.ok value after) ↔
            ComesTo turns mode [Expr.nested operator first others] world
              (.ok value after)) ∧
    ∀ (lexicon : Lexicon) (nesting : Nat) (arities : NameMap Nat)
        (opener head closer : Token) (callee : Callee)
        (runs : List (List (List Token × Expr))),
      opener.kind = .groupStart → closer.kind = .groupEnd →
      Calls lexicon arities head callee → 0 < callee.arity →
      (∀ operator, callee = .operator operator → operator.isReducible = false) →
      runs ≠ [] →
      (∀ run ∈ runs,
        run.length = callee.arity ∧
        ∀ operand ∈ run, IsOperand lexicon nesting arities operand) →
      let grouped :=
        opener :: head :: (runs.flatten.flatMap Prod.fst ++ [closer])
      let repeated := runs.flatMap fun run => head :: run.flatMap Prod.fst
      let calls := runs.map fun run => callee.call head (run.map Prod.snd)
      (∃ expr, read lexicon (nesting + 1) arities grouped =
        .ok ⟨[expr], [], none, arities⟩ ∧
          ∀ turns mode world ending,
            ComesTo turns mode [expr] world ending ↔
              ComesTo turns mode calls world ending) ∧
        read lexicon (nesting + 1) arities repeated =
          .ok ⟨calls, [], none, arities⟩ ∧
        ∀ words, List.Forall₂ Token.SameWord words repeated →
          ∃ reader, read lexicon (nesting + 1) arities words = .ok reader ∧
            ∀ turns depth mode world,
              Ending.SameWords
                (inOrder (execute turns depth mode) 0 reader.body world)
                (inOrder (execute turns depth mode) 0 calls world) := by
  constructor
  · intro operator brackets head first others hreducible hothers whole
    have harity := Operator.arity_of_isReducible hreducible
    refine ⟨if_pos ?_, fun turns mode world value after => ?_⟩
    · simp [Callee.folds, hreducible, harity]
      omega
    · rw [comesTo_ok_iff_evaluates, comesTo_ok_iff_evaluates]
      exact evaluates_operation_iff_nested hreducible hothers
  · intro lexicon nesting arities opener head closer callee runs hopener
      hcloser hcalls harity hreducible hsome hruns grouped repeated calls
    have hlengths (args : List Expr)
        (hargs : args ∈ runs.map (·.map Prod.snd)) :
        args.length = callee.arity := by
      obtain ⟨run, hrun, rfl⟩ := List.mem_map.mp hargs
      exact (List.length_map _).trans (hruns run hrun).1
    have hread := read_repeated hcalls hruns
    refine ⟨?_, hread, fun words hwords => ?_⟩
    · obtain ⟨expr, hgroup, hmeans⟩ :=
        Callee.exists_group harity hreducible
          (mt List.map_eq_nil_iff.mp hsome) hlengths ⟨opener, closer⟩ head
      rw [List.map_map] at hmeans
      exact ⟨expr, read_grouped hcalls hruns hopener hcloser hgroup, hmeans⟩
    · obtain ⟨reader, hreader, hsimilar⟩ := read_sameWords hread hwords
      exact ⟨reader, hreader,
        fun turns depth mode => sameWords_body turns depth mode hsimilar.body⟩

/-- The group `( half :y :z )` and the difference of three numbers. -/
theorem half_of_two_variables_in_a_group :
    let y : Token := ⟨.variable, ":y", 0, 0⟩
    let z : Token := ⟨.variable, ":z", 0, 0⟩
    let opener : Token := ⟨.groupStart, "(", 0, 0⟩
    let closer : Token := ⟨.groupEnd, ")", 0, 0⟩
    let number (n : Nat) : Expr :=
      .literal ⟨.constant, toString n, 0, 0⟩ (.integer n)
    let word : Token := ⟨.command, "difference", 0, 0⟩
    Calls definingLexicon [("half", 1)] callOfHalf (.procedure 1) ∧
      (∃ expr,
        read definingLexicon 9 [("half", 1)]
          [opener, callOfHalf, y, z, closer] =
            .ok ⟨[expr], [], none, [("half", 1)]⟩ ∧
          ∀ turns mode world ending,
            ComesTo turns mode [expr] world ending ↔
              ComesTo turns mode
                [.call callOfHalf [.variable y],
                  .call callOfHalf [.variable z]] world ending) ∧
      ∀ turns mode world,
        ComesTo turns mode
          [.operation word .difference [number 9, number 3, number 2]] world
          (.ok 4 world) := by
  intro y z opener closer number word
  have hcalls : Calls definingLexicon [("half", 1)] callOfHalf (.procedure 1) :=
    ⟨rfl, rfl, rfl⟩
  have hoperand (token : Token) (hkind : token.kind = .variable) :
      IsOperand definingLexicon 8 [("half", 1)] ([token], .variable token) := by
    refine ⟨Expr.forall_within_iff.mpr ⟨rfl, List.forall_mem_nil _⟩,
      [("half", 1)], ?_⟩
    exact read_eq_ok_iff_reads.mpr ⟨rfl, rfl, .snoc .empty (.variable hkind)⟩
  have hruns :
      ∀ run ∈ [[([y], Expr.variable y)], [([z], Expr.variable z)]],
        run.length = 1 ∧
        ∀ operand ∈ run, IsOperand definingLexicon 8 [("half", 1)] operand := by
    rw [List.forall_mem_cons, List.forall_mem_singleton,
      List.forall_mem_singleton, List.forall_mem_singleton]
    exact ⟨⟨rfl, hoperand y rfl⟩, rfl, hoperand z rfl⟩
  obtain ⟨hfold, hrepeat⟩ := groups_mean_what_they_abbreviate
  obtain ⟨hgroup, -⟩ :=
    hrepeat definingLexicon 8 [("half", 1)] opener callOfHalf closer
      (.procedure 1)
      [[([y], .variable y)], [([z], .variable z)]] rfl rfl hcalls Nat.one_pos
      (fun operator hoperator => by cases hoperator)
      (List.cons_ne_nil _ _) hruns
  refine ⟨hcalls, hgroup, fun turns mode world => ?_⟩
  refine ((hfold .difference ⟨opener, closer⟩ word (number 9)
    [(word, number 3), (word, number 2)] rfl le_rfl).2 turns mode world
      4 world).mpr ?_
  exact ⟨rfl, 3, by cases mode <;> rfl⟩

end Logo
