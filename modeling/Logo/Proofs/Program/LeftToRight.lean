import Logo.Program.Reader
import Mathlib.Tactic

/-!
# Reading from left to right

What the reader does with a token depends on the tokens before it and on nothing
else.  Once a program is complete, the reader is in the state in which it
started, except for the expressions behind it and for the arities that it has
learned.  The expressions behind it play no part in what it does next, so what
follows is read as a program of its own.
-/

namespace Logo.Reader

open Vocabulary

def following (body : List Expr) (reader : Reader) : Reader :=
  { reader with body := body ++ reader.body }

theorem deliver_following
    (body : List Expr) (reader : Reader) (expr : Expr) (frames : List Frame) :
    deliver (reader.following body) expr frames =
      (deliver reader expr frames).following body := by
  induction frames generalizing expr with
  | nil => simp [deliver, following]
  | cons frame frames ih =>
      cases frame with
      | call head callee args =>
          simp only [deliver]
          split
          · rfl
          · exact ih _
      | group opener head callee args => rfl
      | list opener items next => rfl
      | input next =>
          simp only [deliver]
          cases next expr <;> first | exact ih _ | rfl

theorem advance_following (body : List Expr) (reader : Reader) (need : Need) :
    (reader.following body).advance need =
      (reader.advance need).following body := by
  cases need with
  | done expr => exact deliver_following body reader expr reader.frames
  | _ => rfl

theorem instruction_following
    (lexicon : Lexicon) (body : List Expr) (reader : Reader) (token : Token) :
    (reader.following body).instruction lexicon token =
      (reader.instruction lexicon token).map (following body) := by
  have hcallee :
      (reader.following body).callee lexicon token =
        reader.callee lexicon token := rfl
  unfold instruction
  cases formOf? lexicon token with
  | some form =>
      simp only [advance_following]
      rfl
  | none =>
      simp only [hcallee]
      cases reader.callee lexicon token with
      | error fault => rfl
      | ok callee =>
          simp only [bind, Except.bind, pure, Except.pure]
          split
          · exact congrArg Except.ok (deliver_following body reader _ _)
          · rfl

theorem close_following (body : List Expr) (reader : Reader) (token : Token) :
    (reader.following body).close token =
      (reader.close token).map (following body) := by
  have hframes : (reader.following body).frames = reader.frames := rfl
  unfold close
  rw [hframes]
  cases reader.frames with
  | nil => rfl
  | cons frame frames =>
      cases frame with
      | call head callee args => rfl
      | input next => rfl
      | group opener head callee args =>
          simp only
          split
          · cases callee.group ⟨opener, token⟩ head args with
            | error flaw => rfl
            | ok expr =>
                exact congrArg Except.ok (deliver_following body reader _ _)
          · rfl
      | list opener items next =>
          simp only
          split
          · exact congrArg Except.ok
              (advance_following body { reader with frames := frames } _)
          · rfl

theorem expression_following
    (lexicon : Lexicon) (body : List Expr) (reader : Reader) (token : Token) :
    (reader.following body).expression lexicon token =
      (reader.expression lexicon token).map (following body) := by
  unfold expression
  split
  · cases Number.constant token.text with
    | error fault => rfl
    | ok value => exact congrArg Except.ok (deliver_following body reader _ _)
  · exact congrArg Except.ok (deliver_following body reader _ _)
  · exact instruction_following lexicon body reader token
  · rfl
  · rfl
  · exact close_following body reader token
  · exact close_following body reader token
  · rfl
  · rfl

theorem leader_following
    (lexicon : Lexicon) (body : List Expr) (reader : Reader)
    (opener token : Token) :
    (reader.following body).leader lexicon opener token =
      (reader.leader lexicon opener token).map (following body) := by
  have hcallee :
      (reader.following body).callee lexicon token =
        reader.callee lexicon token := rfl
  unfold leader
  rw [hcallee]
  split
  · rfl
  · split
    · rfl
    · cases reader.callee lexicon token <;> rfl

/-- One token is read the same, whatever expressions are complete already. -/
theorem step_following
    (lexicon : Lexicon) (nesting : Nat) (body : List Expr) (reader : Reader)
    (token : Token) :
    step lexicon nesting (reader.following body) token =
      (step lexicon nesting reader token).map (following body) := by
  have hframes : (reader.following body).frames = reader.frames := rfl
  have hneed : (reader.following body).need = reader.need := rfl
  unfold step
  rw [hframes, hneed]
  split
  · rfl
  · cases reader.need with
    | none => exact expression_following lexicon body reader token
    | some need =>
        cases need with
        | done expr =>
            simp only [deliver_following]
            exact expression_following lexicon body _ token
        | value next =>
            exact expression_following lexicon body
              { reader with
                frames := .input next :: reader.frames, need := none } token
        | target next =>
            simp only [advance_following]
            split <;> rfl
        | block next =>
            simp only
            split <;> rfl
        | opening what next =>
            simp only [advance_following]
            split <;> rfl
        | closing what next =>
            simp only [advance_following]
            split <;> rfl
        | name next =>
            simp only [advance_following]
            split
            · rfl
            · split <;> rfl
        | params name read next =>
            have hlearned :=
              advance_following body
                { reader with
                  need := some (.params name read next)
                  arities :=
                    NameMap.insert name.procedureName read.length
                      reader.arities }
                (next read)
            simp only
            split
            · exact congrArg Except.ok hlearned
            · split <;> rfl
        | leader opener =>
            exact leader_following lexicon body reader opener token

theorem steps_cons
    (lexicon : Lexicon) (nesting : Nat) (reader : Reader) (token : Token)
    (rest : List Token) :
    steps lexicon nesting reader (token :: rest) =
      step lexicon nesting reader token >>= fun next =>
        steps lexicon nesting next rest :=
  List.foldlM_cons

theorem steps_append
    (lexicon : Lexicon) (nesting : Nat) (reader : Reader)
    (tokens more : List Token) :
    steps lexicon nesting reader (tokens ++ more) =
      steps lexicon nesting reader tokens >>= fun next =>
        steps lexicon nesting next more :=
  List.foldlM_append

theorem steps_following
    (lexicon : Lexicon) (nesting : Nat) (body : List Expr) (reader : Reader)
    (tokens : List Token) :
    steps lexicon nesting (reader.following body) tokens =
      (steps lexicon nesting reader tokens).map (following body) := by
  induction tokens generalizing reader with
  | nil => rfl
  | cons token rest ih =>
      rw [steps_cons, steps_cons, step_following]
      cases step lexicon nesting reader token with
      | error fault => rfl
      | ok next => exact ih next

theorem finish_eq_ok_iff
    {reader done : Reader} {last : Option Token} :
    reader.finish last = .ok done ↔
      reader = done ∧ reader.frames = [] ∧ reader.need = none := by
  have hcomplete :
      reader.isComplete = true ↔ reader.frames = [] ∧ reader.need = none := by
    simp [isComplete]
  unfold finish
  rw [← hcomplete]
  split
  next hyes => simp [hyes]
  next hno => simp [hno]

theorem finish_following
    (body : List Expr) (reader : Reader) (last : Option Token) :
    (reader.following body).finish last =
      (reader.finish last).map (following body) := by
  have hcomplete : (reader.following body).isComplete = reader.isComplete := rfl
  unfold finish
  rw [hcomplete]
  split <;> rfl

/-- A reader at the end of a complete program is one at the start of another. -/
theorem eq_start_following
    {reader : Reader} (hframes : reader.frames = [])
    (hneed : reader.need = none) :
    reader = (start reader.arities).following reader.body := by
  obtain ⟨body, frames, need, arities⟩ := reader
  simp only at hframes hneed
  subst hframes hneed
  simp [start, following]

theorem read_eq_ok_iff
    {lexicon : Lexicon} {nesting : Nat} {arities : NameMap Nat}
    {tokens : List Token} {reader : Reader} :
    read lexicon nesting arities tokens = .ok reader ↔
      steps lexicon nesting (start arities) tokens = .ok reader ∧
        reader.frames = [] ∧ reader.need = none := by
  unfold read
  cases steps lexicon nesting (start arities) tokens with
  | error fault =>
      constructor
      · intro hread
        cases hread
      · rintro ⟨hsteps, -⟩
        cases hsteps
  | ok last =>
      change last.finish tokens.getLast? = .ok reader ↔ _
      rw [finish_eq_ok_iff, Except.ok.injEq]
      constructor
      · rintro ⟨rfl, hcomplete⟩
        exact ⟨rfl, hcomplete⟩
      · rintro ⟨rfl, hcomplete⟩
        exact ⟨rfl, hcomplete⟩

/-- A complete program can be followed by any other. -/
theorem read_append_of_ok
    {lexicon : Lexicon} {nesting : Nat} {arities : NameMap Nat}
    {tokens : List Token} {reader : Reader}
    (hread : read lexicon nesting arities tokens = .ok reader)
    (more : List Token) :
    read lexicon nesting arities (tokens ++ more) =
      (read lexicon nesting reader.arities more).map
        (following reader.body) := by
  obtain ⟨hsteps, hframes, hneed⟩ := read_eq_ok_iff.mp hread
  cases more with
  | nil =>
      rw [List.append_nil, hread]
      nth_rewrite 1 [eq_start_following hframes hneed]
      rfl
  | cons token rest =>
      have hlast :
          (tokens ++ token :: rest).getLast? = (token :: rest).getLast? := by
        simp [List.getLast?_cons]
      unfold read
      rw [steps_append, hsteps, hlast]
      change (steps lexicon nesting reader (token :: rest) >>= fun next =>
        next.finish (token :: rest).getLast?) = _
      nth_rewrite 1 [eq_start_following hframes hneed]
      rw [steps_following]
      cases steps lexicon nesting (start reader.arities) (token :: rest) with
      | error fault => rfl
      | ok next => exact finish_following reader.body next _

/-- A program that is wrong so far stays wrong, unless it was merely
unfinished. -/
theorem read_append_of_error
    {lexicon : Lexicon} {nesting : Nat} {arities : NameMap Nat}
    {tokens : List Token} {fault : Fault}
    (hread : read lexicon nesting arities tokens = .error fault)
    (hfault : ∀ place, fault ≠ .complaint (.malformed .outOfWords place))
    (more : List Token) :
    read lexicon nesting arities (tokens ++ more) = .error fault := by
  have hsteps :
      steps lexicon nesting (start arities) tokens = .error fault := by
    unfold read at hread
    cases hrun : steps lexicon nesting (start arities) tokens with
    | error other =>
        rw [hrun] at hread
        exact hread
    | ok last =>
        rw [hrun] at hread
        change last.finish tokens.getLast? = .error fault at hread
        unfold finish at hread
        split at hread
        · cases hread
        · cases hread
          exact absurd rfl (hfault _)
  unfold read
  rw [steps_append, hsteps]
  rfl

/-- Programs are read strictly from left to right.  When some tokens make a
complete program, further tokens behind them are read as a program of their own
that knows the procedures defined so far: the whole is read exactly when they
are, to the expressions of both, and else fails as they do.  When some tokens
are refused for any reason but that they run out, nothing behind them
matters. -/
theorem read_is_left_to_right
    (lexicon : Lexicon) (nesting : Nat) (arities : NameMap Nat)
    (tokens more : List Token) :
    (∀ reader, read lexicon nesting arities tokens = .ok reader →
      (∀ last, read lexicon nesting reader.arities more = .ok last →
        read lexicon nesting arities (tokens ++ more) =
          .ok { last with body := reader.body ++ last.body }) ∧
      (∀ fault, read lexicon nesting reader.arities more = .error fault →
        read lexicon nesting arities (tokens ++ more) = .error fault)) ∧
    (∀ fault, read lexicon nesting arities tokens = .error fault →
      (∀ place, fault ≠ .complaint (.malformed .outOfWords place)) →
        read lexicon nesting arities (tokens ++ more) = .error fault) := by
  refine ⟨?_, ?_⟩
  · intro reader hread
    have happend := read_append_of_ok hread more
    constructor
    · intro last hmore
      rw [happend, hmore]
      rfl
    · intro fault hmore
      rw [happend, hmore]
      rfl
  · intro fault hread hfault
    exact read_append_of_error hread hfault more

/-- A language in which `to` defines a procedure, and which has no other
words. -/
def definingLexicon : Lexicon :=
  ⟨"", [⟨"MakeUserInstruction",
    .sequence (.one (.literal 't')) (.one (.literal 'o'))⟩]⟩

def definition : List Token :=
  [⟨.command, "to", 1, 0⟩, ⟨.command, "Half", 2, 3⟩, ⟨.listStart, "[", 3, 8⟩,
    ⟨.variable, ":x", 4, 10⟩, ⟨.listEnd, "]", 5, 13⟩, ⟨.listStart, "[", 6, 15⟩,
    ⟨.listEnd, "]", 7, 17⟩]

def callOfHalf : Token := ⟨.command, "half", 8, 19⟩

/-- What is behind a definition may call the procedure, and only with all its
inputs; what is in front of it may not. -/
theorem read_behind_definition :
    (∃ reader,
      read definingLexicon 9 []
        (definition ++ [callOfHalf, ⟨.variable, ":y", 9, 24⟩]) =
          .ok reader ∧
        reader.body.length = 2 ∧ reader.arities = [("half", 1)]) ∧
    read definingLexicon 9 []
      (definition ++ [callOfHalf, ⟨.listEnd, "]", 9, 24⟩]) =
      .error (.complaint
        (.malformed (.tooFewInputs "half" 1 0) (some callOfHalf))) ∧
    read definingLexicon 9 [] ([callOfHalf] ++ definition) =
      .error (.complaint (.unrecognized "half" (some callOfHalf))) := by
  obtain ⟨reader, hread, hlength, harities⟩ :
      ∃ reader, read definingLexicon 9 [] definition = .ok reader ∧
        reader.body.length = 1 ∧ reader.arities = [("half", 1)] :=
    ⟨_, rfl, rfl, rfl⟩
  have hcomplete :
      read definingLexicon 9 reader.arities
        [callOfHalf, ⟨.variable, ":y", 9, 24⟩] =
        .ok ⟨[.call callOfHalf [.variable ⟨.variable, ":y", 9, 24⟩]], [], none,
          [("half", 1)]⟩ := by
    rw [harities]
    rfl
  have hclosed :
      read definingLexicon 9 reader.arities
        [callOfHalf, ⟨.listEnd, "]", 9, 24⟩] =
        .error (.complaint
          (.malformed (.tooFewInputs "half" 1 0) (some callOfHalf))) := by
    rw [harities]
    rfl
  have hunknown :
      read definingLexicon 9 [] [callOfHalf] =
        .error (.complaint (.unrecognized "half" (some callOfHalf))) := rfl
  have hbehind := read_is_left_to_right definingLexicon 9 [] definition
  have hfront :=
    read_is_left_to_right definingLexicon 9 [] [callOfHalf] definition
  refine ⟨⟨_, ((hbehind _).1 reader hread).1 _ hcomplete, ?_, rfl⟩, ?_, ?_⟩
  · simp [hlength]
  · exact ((hbehind _).1 reader hread).2 _ hclosed
  · exact hfront.2 _ hunknown (by simp)

end Logo.Reader
