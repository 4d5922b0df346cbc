import Logo.Fault

/-!
# Reporting what went wrong

A report collects issues, each with an introduction, pictures of the words it is
about, and perhaps some closing lines.  It keeps what it has said on the console
as text, so that whoever owns the console can print it.
-/

namespace Logo

/-- Some words underlined in their row, and the file they come from. -/
structure Picture where
  path : Option String
  drawing : String
deriving Repr, DecidableEq

structure Issue where
  intro : String
  pictures : List Picture
  footer : List String
deriving Repr, DecidableEq

namespace Issue

def text (issue : Issue) : String :=
  "\n".intercalate ([issue.intro, ""] ++
    issue.pictures.flatMap
      (fun picture => picture.path.toList ++ [picture.drawing]) ++
    issue.footer)

def headings : Complaint → String × String
  | .unrecognized word place =>
    ((Complaint.unrecognized word place).cause,
      "This word is not in the current language.")
  | .malformed flaw _ => ("SLogo got confused by this program.", flaw.message)
  | .undefined name removing place =>
    ((Complaint.undefined name removing place).cause,
      "I don't see what this refers to.")
  | complaint =>
    ("Something went wrong while running the program.", complaint.cause)

def ofComplaint (index : Source.Index) (complaint : Complaint) :
    Except Source.LookupFault Issue := do
  let (intro, caption) := headings complaint
  match complaint.place? with
  | none => return ⟨intro, [], []⟩
  | some phrase =>
    let (first, last) := phrase.span
    let place ← index.lookupSpan first last
    return ⟨intro, [⟨place.segment.path, place.illustrate caption⟩], []⟩

/-- The issue of a language that there are no words for, or of none at all. -/
def unknownLanguage (language : Option String)
    (available : List String) : Issue :=
  ⟨"I don't know a language called " ++
    (language.map Text.quoted).getD "[]" ++ ".", [],
    ["Try one of: " ++ ", ".intercalate available]⟩

end Issue

/-- The issues so far, and what has been said on the console.  Remarks are only
made when the report is verbose.  The issue that makes their number reach the
limit is one too many. -/
structure Report where
  verbose : Bool
  limit : Option Nat
  issues : List Issue
  console : String
deriving Repr

namespace Report

def fresh (verbose : Bool) (limit : Option Nat) : Report :=
  ⟨verbose, limit, [], ""⟩

def usualLimit : Nat := 3

/-- Adds an issue, and says whether there are too many now. -/
def add (report : Report) (issue : Issue) : Bool × Report :=
  let issues := report.issues ++ [issue]
  (report.limit == some issues.length, { report with issues := issues })

def failed (report : Report) (index : Source.Index) (complaint : Complaint) :
    Except Source.LookupFault (Bool × Report) := do
  return report.add (← Issue.ofComplaint index complaint)

def say (report : Report) (text : String) : Report :=
  { report with console := report.console ++ text }

def remark (report : Report) (words : List String) : Report :=
  if report.verbose then report.say (" ".intercalate words ++ "\n") else report

/-- A remark about a number, if the report is verbose.  A number that cannot be
written leaves the remark broken off. -/
def announce (report : Report) (label : String) (number : Number) :
    Except ArithmeticFault Unit × Report :=
  if report.verbose then
    match number.text with
    | .ok text => (.ok (), report.say (label ++ " " ++ text ++ "\n"))
    | .error fault => (.error fault, report.say (label ++ " "))
  else (.ok (), report)

/-- Says all issues on the console, below an exclamation. -/
def complain (report : Report) (exclamation : String) : Report :=
  let heading :=
    if report.issues.isEmpty then ""
    else String.ofList (List.replicate 60 '*') ++ "\n" ++ exclamation ++ "\n"
  let rule := String.join (List.replicate 20 "  -") ++ "\n"
  report.say
    (heading ++ String.join
      (report.issues.map fun issue => rule ++ issue.text ++ "\n"))

/-- Complains if there are issues, and then also gives the text to stop with. -/
def stopOnIssues (report : Report) (exclamation message : String) :
    Option String × Report :=
  if report.issues.isEmpty then (none, report)
  else (some (exclamation ++ " " ++ message), report.complain exclamation)

end Report

/-- Exclamations are put together from three parts. -/
def particles : List String := ["Oh, ", "Well, ", "Hmm, ", "", ""]

def oaths : List String :=
  ["Barnacles", "Bother", "Crumbs", "Drat", "Egad", "Fiddlesticks",
    "Gadzooks", "Good Grief", "Great Scott", "Jeepers", "Leaping Lizards",
    "Nuts", "Rats", "Shell Shock", "Snapping Turtles", "Tortoise Tails"]

def resignations : List String :=
  ["The turtle refuses to budge.", "I have pulled my head into my shell.",
    "This is as far as I go.", "Somebody please put me right way up.",
    "I need a hand here."]

def exclamation (i j k : Nat) : String :=
  let pick (choices : List String) (n : Nat) :=
    choices.getD (n % choices.length) ""
  pick particles i ++ pick oaths j ++ "! " ++ pick resignations k

end Logo
