import Logo.Bindings
import Logo.Program.Need
import Logo.Vocabulary.Lexicon

/-!
# Reading programs

A program is read one token after the other, strictly from left to right.
Between two tokens the reader holds the expressions that are complete, a stack
of frames for those that are not, and what a special form needs next.  Every
instruction knows how many inputs it takes, so each token has exactly one
meaning where it stands.  The reader learns the arity of a procedure as soon as
it has read its parameters, so later calls, and those in its own body, know how
many inputs to take.
-/

namespace Logo

open Vocabulary

/-- An expression in the middle of being read, which waits for another one. -/
inductive Frame where
  /-- An instruction that wants further operands. -/
  | call (head : Token) (callee : Callee) (args : List Expr)
  /-- An open group. -/
  | group (opener head : Token) (callee : Callee) (args : List Expr)
  /-- An open list, and what is made of it. -/
  | list (opener : Token) (body : List Expr)
      (next : Brackets → List Expr → Need)
  /-- A special form that wants a value. -/
  | input (next : Expr → Need)

/-- The state of the reader between two tokens: the complete expressions, the
frames with the innermost first, what comes next if that is not just another
expression, and the arities of the procedures known so far. -/
structure Reader where
  body : List Expr
  frames : List Frame
  need : Option Need
  arities : NameMap Nat

namespace Reader

def start (arities : NameMap Nat) : Reader := ⟨[], [], none, arities⟩

def flawAt (token : Token) (flaw : Flaw) : Except Fault α :=
  .error (.complaint (.malformed flaw (some token)))

/-- Hands a complete expression to the innermost frame.  When that completes an
expression in turn, it is handed on. -/
def deliver (reader : Reader) (expr : Expr) : List Frame → Reader
  | [] =>
    { reader with body := reader.body ++ [expr], frames := [], need := none }
  | .call head callee args :: frames =>
    if args.length + 1 < callee.arity then
      { reader with
        frames := .call head callee (args ++ [expr]) :: frames, need := none }
    else deliver reader (callee.call head (args ++ [expr])) frames
  | .group opener head callee args :: frames =>
    { reader with
      frames := .group opener head callee (args ++ [expr]) :: frames,
      need := none }
  | .list opener body next :: frames =>
    { reader with
      frames := .list opener (body ++ [expr]) next :: frames, need := none }
  | .input next :: frames =>
    match next expr with
    | .done complete => deliver reader complete frames
    | .value next =>
      { reader with frames := .input next :: frames, need := none }
    | need => { reader with frames := frames, need := some need }

/-- Goes on with what a special form needs. -/
def advance (reader : Reader) (need : Need) : Reader :=
  match need with
  | .done expr => reader.deliver expr reader.frames
  | .value next =>
      { reader with frames := .input next :: reader.frames, need := none }
  | need => { reader with need := some need }

/-- What an ordinary instruction word calls: an instruction of the vocabulary or
a procedure. -/
def callee (lexicon : Lexicon) (reader : Reader) (token : Token) :
    Except Fault Callee :=
  match lexicon.translate? token.text with
  | some symbol =>
    match Instruction.ofSymbol? symbol with
    | some (.command c) => .ok (.command c)
    | some (.flock c) => .ok (.flock c)
    | some (.operator o) => .ok (.operator o)
    | _ => flawAt token (.unknownInstruction symbol)
  | none =>
    match reader.arities.get? token.procedureName with
    | some arity => .ok (.procedure arity)
    | none => .error (.complaint (.unrecognized token.text (some token)))

def formOf? (lexicon : Lexicon) (token : Token) : Option Form :=
  match (lexicon.translate? token.text).bind Instruction.ofSymbol? with
  | some (.form form) => some form
  | _ => none

def instruction (lexicon : Lexicon) (reader : Reader) (token : Token) :
    Except Fault Reader :=
  match formOf? lexicon token with
  | some form => .ok (reader.advance (form.need token))
  | none => do
    let callee ← reader.callee lexicon token
    if callee.arity = 0 then
      return reader.deliver (callee.call token []) reader.frames
    else return { reader with frames := .call token callee [] :: reader.frames }

def close (reader : Reader) (token : Token) : Except Fault Reader :=
  match reader.frames with
  | .call head callee args :: _ =>
    flawAt head (.tooFewInputs head.text callee.arity args.length)
  | .group opener head callee args :: frames =>
    if token.kind = .groupEnd then
      match callee.group ⟨opener, token⟩ head args with
      | .ok expr => .ok (reader.deliver expr frames)
      | .error flaw => flawAt head flaw
    else flawAt opener .unclosedGroup
  | .list opener body next :: frames =>
    if token.kind = .listEnd then
      .ok ({ reader with frames := frames }.advance (next ⟨opener, token⟩ body))
    else flawAt token .closesNothing
  | _ => flawAt token .closesNothing

def expression (lexicon : Lexicon) (reader : Reader) (token : Token) :
    Except Fault Reader :=
  match token.kind with
  | .constant =>
    match Number.constant token.text with
    | .ok value => .ok (reader.deliver (.literal token value) reader.frames)
    | .error fault => .error (.arithmetic fault)
  | .variable => .ok (reader.deliver (.variable token) reader.frames)
  | .command => reader.instruction lexicon token
  | .groupStart => .ok { reader with need := some (.leader token) }
  | .listStart => flawAt token .listAsValue
  | .listEnd => reader.close token
  | .groupEnd => reader.close token
  | .comment => flawAt token .closesNothing
  | .unknown => flawAt token .closesNothing

def leader (lexicon : Lexicon) (reader : Reader) (opener token : Token) :
    Except Fault Reader :=
  if token.kind ≠ .command then
    flawAt token (.expected "an instruction at the start of this (group)")
  else if (formOf? lexicon token).isSome then flawAt token .notGroupable
  else do
    let callee ← reader.callee lexicon token
    return { reader with
      frames := .group opener token callee [] :: reader.frames, need := none }

/-- Reads a token.  `nesting` bounds the number of open frames. -/
def step (lexicon : Lexicon) (nesting : Nat) (reader : Reader) (token : Token) :
    Except Fault Reader :=
  if nesting < reader.frames.length then .error .tooDeep
  else
    match reader.need with
    | none => reader.expression lexicon token
    | some (.done expr) =>
      (reader.deliver expr reader.frames).expression lexicon token
    | some (.value next) =>
      { reader with
        frames := .input next :: reader.frames,
        need := none }.expression lexicon token
    | some (.target next) =>
      if token.kind = .variable then .ok (reader.advance (next token))
      else flawAt token (.expected "a :variable")
    | some (.block next) =>
      if token.kind = .listStart then
        .ok { reader with
          frames := .list token [] next :: reader.frames, need := none }
      else flawAt token (.expected "a [list]")
    | some (.opening what next) =>
      if token.kind = .listStart then .ok (reader.advance next)
      else flawAt token (.expected what)
    | some (.closing what next) =>
      if token.kind = .listEnd then .ok (reader.advance next)
      else flawAt token (.expected what)
    | some (.name next) =>
      if token.kind ≠ .command then
        flawAt token (.expected "the name of the new instruction")
      else if lexicon.knows token.text then flawAt token (.builtIn token.text)
      else .ok (reader.advance (next token))
    | some (.params name read next) =>
      if token.kind = .listEnd then
        let arities :=
          NameMap.insert name.procedureName read.length reader.arities
        .ok ({ reader with arities := arities }.advance (next read))
      else if token.kind = .variable then
        .ok { reader with need := some (.params name (read ++ [token]) next) }
      else flawAt token (.expected "a :variable")
    | some (.leader opener) => reader.leader lexicon opener token

def isComplete (reader : Reader) : Bool :=
  reader.frames.isEmpty && reader.need.isNone

def steps (lexicon : Lexicon) (nesting : Nat) (reader : Reader)
    (tokens : List Token) :
    Except Fault Reader :=
  tokens.foldlM (step lexicon nesting) reader

/-- The reader behind the last token, unless something is still missing
there. -/
def finish (reader : Reader) (last : Option Token) : Except Fault Reader :=
  if reader.isComplete then .ok reader
  else .error (.complaint (.malformed .outOfWords last))

/-- Reads a whole program: its expressions are the body of the reader behind the
last token. -/
def read (lexicon : Lexicon) (nesting : Nat) (arities : NameMap Nat)
    (tokens : List Token) :
    Except Fault Reader := do
  let reader ← (start arities).steps lexicon nesting tokens
  reader.finish tokens.getLast?

end Reader

end Logo
