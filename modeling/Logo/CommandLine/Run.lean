import Logo.CommandLine.Options
import Logo.Session
import Logo.Source.Index

/-!
# Running programs from the command line

The command line checks or runs one program and then shows where each turtle
ended up and which variables exist.  Everything is decided here, up to the
contents of the program's file, which the caller has to supply; what is printed
comes out as two texts.
-/

namespace Logo.CommandLine

inductive Ending where
  | exit (status : Nat)
  /-- There was nothing to do, and no status is set. -/
  | idle
  /-- A fault that is not the program's. -/
  | fault (fault : Fault)
  /-- The program's file is not text. -/
  | undecodable
  /-- No file can have the program's name. -/
  | unnameable
deriving Repr

structure Conclusion where
  ending : Ending
  out : String
  err : String
deriving Repr

inductive Start where
  | finished (conclusion : Conclusion)
  | reading (options : Options) (language : String)
deriving Repr

def usage : String := "usage: slogo [-h] [-l LANGUAGE] [-c] [-v] program\n"

def help : String :=
  usage ++
  "\nInterpreter for the SLogo turtle-graphics language.\n" ++
  "\npositional arguments:\n" ++
  "  program               try examples/square.logo for example.\n" ++
  "\noptions:\n" ++
  "  -h, --help            show this help message and exit\n" ++
  "  -l LANGUAGE, --language LANGUAGE\n" ++
  "                        Natural language of the instruction names. (Default:\n" ++
  "                        English)\n" ++
  "  -c, --check           Check the program but do not actually run it.\n" ++
  "  -v, --verbose         Say more about what is going on.\n"

def introduction : String :=
  "This is an interpreter for the SLogo turtle-graphics language.\n\n" ++
  usage ++
  "\n\nFor example:\n\n" ++
  "    slogo square.logo\n\n" ++
  "will run square.logo if possible, or else try to explain why not.\n" ++
  "Afterwards it shows where each turtle ended up, and what variables exist.\n\n" ++
  "    slogo -l French carre.logo\n\n" ++
  "reads the program with French instruction names.\n\n" ++
  "    slogo -h\n\n" ++
  "will explain all the arguments.\n"

/-- Looks at the arguments.  A language without words is turned down before any
file is looked for, and so is a name with a null character in it. -/
def start (arguments : List String) (exclamation : String) : Start :=
  if arguments.isEmpty then .finished ⟨.idle, introduction, ""⟩
  else
    match options? arguments with
    | .error misuse =>
      .finished
        ⟨.exit 2, "", usage ++ "slogo: error: " ++ misuse.message ++ "\n"⟩
    | .ok none => .finished ⟨.exit 0, help, ""⟩
    | .ok (some options) =>
      match options.language.filter Vocabulary.available.contains with
      | some language =>
        if options.program.contains (Char.ofNat 0) then
          .finished ⟨.unnameable, "", ""⟩
        else .reading options language
      | none =>
        let report :=
          Report.fresh (0 < options.verbosity) (some Report.usualLimit)
        let (_, report) :=
          report.add (.unknownLanguage options.language Vocabulary.languages)
        .finished ⟨.exit 1, "", (report.complain exclamation).console⟩

/-- The path of the program, which is looked for in the present directory. -/
def programPath (directory program : String) : String :=
  match Source.pathRoot program with
  | "" => "/".intercalate (directory :: Source.pathParts program)
  | _ => Source.tidyPath program

def turtleLine (turtle : Turtle) : Except ArithmeticFault String := do
  let x ← turtle.x.brief
  let y ← turtle.y.brief
  let heading ← (Number.real (Number.degrees turtle.heading)).brief
  return "turtle " ++ toString turtle.ident ++ ": x=" ++ x ++ " y=" ++ y ++
    " heading=" ++ heading ++ " pen=" ++
      (if turtle.penDown then "down" else "up") ++
    (if turtle.visible then "" else " (hidden)") ++ "\n"

def turtleLines : List Turtle → String × Except ArithmeticFault Unit
  | [] => ("", .ok ())
  | turtle :: rest =>
    match turtleLine turtle with
    | .error fault => ("", .error fault)
    | .ok line =>
      let (lines, result) := turtleLines rest
      (line ++ lines, result)

def showWorld (world : World) : String × Except ArithmeticFault Unit :=
  match turtleLines world.flock.turtles with
  | (lines, .error fault) => (lines, .error fault)
  | (lines, .ok ()) =>
    match world.bindings.text with
    | .ok text => (lines ++ text, .ok ())
    | .error fault => (lines, .error fault)

/-- The end of a run that failed.  Complaints are explained; other faults are
passed on. -/
def failure (session : Session) (fault : Fault)
    (exclamation : String) : Conclusion :=
  match fault with
  | .complaint complaint =>
    match session.report.failed session.index complaint with
    | .ok (_, report) => ⟨.exit 1, "", (report.complain exclamation).console⟩
    | .error _ => ⟨.fault fault, "", session.report.console⟩
  | _ => ⟨.fault fault, "", session.report.console⟩

def check (session : Session) (text path exclamation : String) : Conclusion :=
  match Session.parse text (some path) session with
  | .ok _ session =>
    ⟨.exit 0, "", session.report.console ++ "Looks plausible to me.\n"⟩
  | .error fault session => failure session fault exclamation

def run (session : Session) (text path exclamation : String) : Conclusion :=
  match Session.run text (some path) session with
  | .error fault session => failure session fault exclamation
  | .ok number session =>
    match showWorld session.world with
    | (out, .error fault) =>
      ⟨.fault (.arithmetic fault), out, session.report.console⟩
    | (out, .ok ()) =>
      match session.report.announce "Final value:" number with
      | (.ok (), report) => ⟨.exit 0, out, report.console⟩
      | (.error fault, report) =>
        ⟨.fault (.arithmetic fault), out, report.console⟩

/-- Goes on with the contents of the program's file, or with the reason why
there are none. -/
def proceed (options : Options) (language path : String)
    (contents : Except String ByteArray) (draws : Draws)
    (exclamation : String) : Conclusion :=
  match contents with
  | .error reason =>
    ⟨.exit 1, "", "Could not read " ++ path ++ ": " ++ reason ++ "\n"⟩
  | .ok bytes =>
    match String.fromUTF8? bytes with
    | none => ⟨.undecodable, "", ""⟩
    | some text =>
      let text := String.ofList (Source.unified text.toList)
      let report :=
        Report.fresh (0 < options.verbosity) (some Report.usualLimit)
      let session := Session.start language report 0 draws
      if options.check then check session text path exclamation
      else run session text path exclamation

end Logo.CommandLine
