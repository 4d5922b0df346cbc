import Logo.Number.Text

/-!
# Options on the command line

The command line takes one program and a few options.  A long option may be
shortened as long as it stays unambiguous, and its value may follow behind an
equals sign; short options that take no value may be run together, and the value
of a short option may follow it directly.  Everything behind `--` is taken as it
stands.  An option is never given `--` for its value: it is left without one.
-/

namespace Logo.CommandLine

structure Options where
  program : String
  /-- The language, unless its option was left without a value. -/
  language : Option String
  check : Bool
  verbosity : Nat
deriving Repr, DecidableEq

inductive Switch where
  | help
  | language
  | check
  | verbose
deriving Repr, DecidableEq

namespace Switch

def short : Switch → String
  | .help => "-h"
  | .language => "-l"
  | .check => "-c"
  | .verbose => "-v"

def long : Switch → String
  | .help => "--help"
  | .language => "--language"
  | .check => "--check"
  | .verbose => "--verbose"

def takesValue : Switch → Bool
  | .language => true
  | _ => false

def names : List (String × Switch) :=
  [Switch.help, .language, .check, .verbose].flatMap fun switch =>
    [(switch.short, switch), (switch.long, switch)]

def title (switch : Switch) : String := switch.short ++ "/" ++ switch.long

end Switch

/-- What an argument is taken for, before it is known what stands around it. -/
inductive Reading where
  | plain (text : String)
  /-- The mark behind which everything is plain. -/
  | mark
  /-- An option, perhaps with more in the same argument. -/
  | option (name : String) (switch : Switch) (attached : Option (List Char))
  | unknown (text : String)
deriving Repr, DecidableEq

inductive Misuse where
  | ambiguous (argument : String) (matching : List String)
  | missingValue (switch : Switch)
  | needlessValue (switch : Switch) (value : String)
  | noProgram
  | unrecognized (arguments : List String)
deriving Repr, DecidableEq

def Misuse.message : Misuse → String
  | .ambiguous argument matching =>
    "ambiguous option: " ++ argument ++ " could match " ++
      ", ".intercalate matching
  | .missingValue switch =>
    "argument " ++ switch.title ++ ": expected one argument"
  | .needlessValue switch value =>
    "argument " ++ switch.title ++ ": ignored explicit argument " ++
      Text.quoted value
  | .noProgram => "the following arguments are required: program"
  | .unrecognized arguments =>
    "unrecognized arguments: " ++ " ".intercalate arguments

/-- Whether an argument looks like a negative number, which is no option: digits
of any script, perhaps with a point before the last of them, and perhaps a line
feed at the end. -/
def looksNegative (text : List Char) : Bool :=
  let isDigit (c : Char) : Bool := (Text.digit? c).isSome
  match text with
  | '-' :: rest =>
    let rest := if rest.getLast? = some '\n' then rest.dropLast else rest
    match rest.dropWhile isDigit with
    | [] => !rest.isEmpty
    | '.' :: fraction => !fraction.isEmpty && fraction.all isDigit
    | _ => false
  | _ => false

def splitAtEquals (text : List Char) : String × Option (List Char) :=
  let name := String.ofList (text.takeWhile (· ≠ '='))
  match text.dropWhile (· ≠ '=') with
  | [] => (name, none)
  | _ :: value => (name, some value)

/-- The options that an argument with a hyphen may mean: a long option by its
beginning, or a short one with something directly behind it. -/
def candidates (text : List Char) :
    List (String × Switch × Option (List Char)) :=
  match text with
  | '-' :: '-' :: _ =>
    let (start, attached) := splitAtEquals text
    (Switch.names.filter
      fun (name, _) => start.toList.isPrefixOf name.toList).map
      fun (name, switch) => (name, switch, attached)
  | '-' :: letter :: rest =>
    (Switch.names.filter fun (name, _) => name.toList = ['-', letter]).map
      fun (name, switch) => (name, switch, some rest)
  | _ => []

def readingOf (text : String) : Except Misuse Reading :=
  let letters := text.toList
  if letters.head? ≠ some '-' then .ok (.plain text)
  else
    match Switch.names.lookup text with
    | some switch => .ok (.option text switch none)
    | none =>
      if letters.length = 1 then .ok (.plain text)
      else
        let (name, attached) := splitAtEquals letters
        match attached, Switch.names.lookup name with
        | some _, some switch => .ok (.option name switch attached)
        | _, _ =>
          match candidates letters with
          | [(name, switch, attached)] => .ok (.option name switch attached)
          | [] =>
            if looksNegative letters || letters.contains ' ' then
              .ok (.plain text)
            else .ok (.unknown text)
          | several => .error (.ambiguous text (several.map (·.1)))

/-- What the arguments are taken for.  Behind the mark, all of them are
plain. -/
def readings : List String → Except Misuse (List Reading)
  | [] => .ok []
  | "--" :: rest => .ok (.mark :: rest.map .plain)
  | text :: rest => do return (← readingOf text) :: (← readings rest)

def Reading.plainText : Reading → String
  | .plain text => text
  | .mark => "--"
  | .option name _ _ => name
  | .unknown text => text

def Reading.isOption : Reading → Bool
  | .option .. => true
  | .unknown _ => true
  | _ => false

/-- What an option that takes a value is given. -/
inductive Supply where
  /-- The next argument. -/
  | next
  | given (value : Option String)
deriving Repr, DecidableEq

def Supply.ofText (text : List Char) : Supply :=
  .given (if text = ['-', '-'] then none else some (String.ofList text))

structure Cluster where
  flips : List Switch
  language : Option Supply
deriving Repr, DecidableEq

def letters (flips : List Switch) (switch : Switch) :
    List Char → Except Misuse Cluster
  | [] => .ok ⟨flips ++ [switch], none⟩
  | letter :: rest =>
    match Switch.names.lookup (String.ofList ['-', letter]) with
    | none => .error (.needlessValue switch (String.ofList (letter :: rest)))
    | some other =>
      if other.takesValue then
        .ok ⟨flips ++ [switch],
          some (if rest.isEmpty then .next else .ofText rest)⟩
      else letters (flips ++ [switch]) other rest

def cluster (name : String) (switch : Switch) (attached : Option (List Char)) :
    Except Misuse Cluster :=
  match switch.takesValue, attached with
  | true, none => .ok ⟨[], some .next⟩
  | true, some text => .ok ⟨[], some (.ofText text)⟩
  | false, none => .ok ⟨[switch], none⟩
  | false, some text =>
    if name = switch.short && !text.isEmpty then letters [] switch text
    else .error (.needlessValue switch (String.ofList text))

/-- The options so far, the program if it has been found, and what could not be
made sense of. -/
structure Progress where
  program : Option String
  language : Option String
  check : Bool
  verbosity : Nat
  extras : List String

namespace Progress

def start : Progress := ⟨none, some "English", false, 0, []⟩

/-- Does what switches without a value ask for; there is nothing to go on with
when they ask for help. -/
def flip (progress : Progress) : List Switch → Option Progress
  | [] => some progress
  | .help :: _ => none
  | .check :: rest => { progress with check := true }.flip rest
  | .verbose :: rest =>
      { progress with verbosity := progress.verbosity + 1 }.flip rest
  | .language :: rest => progress.flip rest

def withExtras (progress : Progress) (texts : List String) : Progress :=
  { progress with extras := progress.extras ++ texts }

def apply (progress : Progress) (flips : List Switch)
    (language : Option String) :
    Option Progress :=
  (progress.flip flips).map
    fun progress => { progress with language := language }

/-- Takes in the arguments behind the last option.  The mark may stand on either
side of the program. -/
def plainRest (progress : Progress) (rest : List Reading) : Progress :=
  match progress.program, rest with
  | none, .plain text :: .mark :: others =>
    { progress with program := some text }.withExtras
      (others.map Reading.plainText)
  | none, .mark :: .plain text :: others =>
    { progress with program := some text }.withExtras
      (others.map Reading.plainText)
  | none, .plain text :: others =>
    { progress with program := some text }.withExtras
      (others.map Reading.plainText)
  | _, _ => progress.withExtras (rest.map Reading.plainText)

/-- Takes in all arguments; nothing comes out when they ask for help. -/
def takeIn (progress : Progress) :
    List Reading → Except Misuse (Option Progress)
  | [] => .ok (some progress)
  | .plain text :: rest =>
    if rest.any Reading.isOption then
      match progress.program with
      | none => { progress with program := some text }.takeIn rest
      | some _ => (progress.withExtras [text]).takeIn rest
    else .ok (some (progress.plainRest (.plain text :: rest)))
  | .mark :: rest => .ok (some (progress.plainRest (.mark :: rest)))
  | .unknown text :: rest => (progress.withExtras [text]).takeIn rest
  | .option name switch attached :: rest =>
    match cluster name switch attached with
    | .error misuse => .error misuse
    | .ok ⟨flips, none⟩ =>
      match progress.apply flips progress.language with
      | none => .ok none
      | some progress => progress.takeIn rest
    | .ok ⟨flips, some (.given language)⟩ =>
      match progress.apply flips language with
      | none => .ok none
      | some progress => progress.takeIn rest
    | .ok ⟨flips, some .next⟩ =>
      match rest with
      | .plain language :: others =>
        match progress.apply flips (some language) with
        | none => .ok none
        | some progress => progress.takeIn others
      | _ => .error (.missingValue .language)

end Progress

/-- The options that the arguments ask for; nothing comes out when they ask for
help. -/
def options? (arguments : List String) : Except Misuse (Option Options) := do
  match ← Progress.start.takeIn (← readings arguments) with
  | none => return none
  | some progress =>
    match progress.program, progress.extras with
    | none, _ => throw .noProgram
    | some program, [] =>
      return some ⟨program, progress.language, progress.check,
        progress.verbosity⟩
    | some _, extras => throw (.unrecognized extras)

end Logo.CommandLine
