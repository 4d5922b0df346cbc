import Logo.Execution.Step
import Logo.Program.Reader
import Logo.Report
import Logo.Token

/-!
# Sessions

A session runs one program text after another in the same world, so variables,
procedures and the places of the turtles carry over.  A run that fails leaves
the world as far along as it got, and the session stays ready for the next text.
-/

namespace Logo

open Vocabulary

structure Session where
  lexicon : Lexicon
  index : Source.Index
  world : World
  report : Report
  limits : Limits

namespace Session

/-- What a host can do with a session: it may fail, and leaves a session in
either case. -/
abbrev Act := EStateM Fault Session

def start (language : String) (report : Report) (observers : Nat)
    (draws : Draws) : Session where
  lexicon := .speaking language
  index := .fresh
  world := .fresh observers draws
  report := report
  limits := .standard

def setLanguage (session : Session) (language : String) : Session :=
  { session with
    lexicon := .speaking language
    report := session.report.remark ["Switching language to", language] }

/-- The procedures of a table with their numbers of parameters, in the order of
the table. -/
def aritiesOf (functions : List (String × Value)) :
    Except Fault (NameMap Nat) :=
  functions.mapM fun
    | (name, .procedure procedure) => .ok (name, procedure.params.length)
    | (_, value) => .error (.broken (.notAProcedure value))

/-- The procedures that a program may call from its first word on. -/
def procedures (session : Session) : Except Fault (NameMap Nat) :=
  aritiesOf session.world.bindings.functions

/-- Cuts a text into tokens and records it in the index of places. -/
def scan (text : String) (path : Option String) :
    Act (List Token) := fun session =>
  match Token.scan session.index path text with
  | (.ok tokens, index) => .ok tokens { session with index := index }
  | (.error token, index) =>
    .error (.complaint (.unrecognized token.text (some token)))
      { session with index := index }

def ofExcept (result : Except Fault α) : Act α :=
  match result with
  | .ok a => pure a
  | .error fault => throw fault

/-- Reads a program text, with the arities of the procedures known
beforehand. -/
def parseKnowing (arities : NameMap Nat) (text : String)
    (path : Option String) :
    Act (List Expr) := do
  let tokens ← scan text path
  let session ← get
  let reader ← ofExcept
    (Reader.read session.lexicon session.limits.nesting arities tokens)
  return reader.body

def parse (text : String) (path : Option String) : Act (List Expr) := do
  let arities ← ofExcept (← get).procedures
  let body ← parseKnowing arities text path
  let count := toString body.length
  modify fun session =>
    { session with
      report :=
        session.report.remark
          ["Parsed " ++ count ++ " top-level instructions."] }
  return body

def execute (mode : Mode) (body : List Expr) : Act Number := fun session =>
  match Execution.program session.limits mode body session.world with
  | .ok number world => .ok number { session with world := world }
  | .error fault world => .error fault { session with world := world }

/-- Says a number on the console, if the report is verbose. -/
def announce (label : String) (number : Number) : Act Unit := fun session =>
  match session.report.announce label number with
  | (.ok (), report) => .ok () { session with report := report }
  | (.error fault, report) =>
      .error (.arithmetic fault) { session with report := report }

/-- Runs a program text for its effects, and yields its value. -/
def run (text : String) (path : Option String) : Act Number := do
  let body ← parse text path
  modify fun session =>
    { session with
      world := { session.world with flock := session.world.flock.clearMotion } }
  let number ← execute .effectful body
  announce "Result:" number
  return number

/-- Computes the value of a program text that must not change anything. -/
def evaluate (text : String) : Act Number := do
  let body ← parse text none
  execute .pureAttempt body

/-- Lets the host work on the table of variables. -/
def onBindings (session : Session) (change : Bindings → α × Bindings) :
    α × Session :=
  let (result, bindings) := change session.world.bindings
  (result, { session with world := session.world.withBindings bindings })

def reset (session : Session) : Session :=
  { session with
    world :=
      { session.world with
        bindings := session.world.bindings.reset
        flock := .fresh } }

end Session

end Logo
