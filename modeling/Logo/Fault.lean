import Logo.Source.Index
import Logo.Value

/-!
# What can go wrong

A program can do many things wrong, and each of them is a `Complaint` that knows
its cause and, as far as possible, the words it is about.  Other faults are not
the program's: arithmetic that fails where nobody expects it, a broken promise
between two parts of the interpreter, and a program that is nested too deeply or
goes on for too long.
-/

namespace Logo

inductive Flaw where
  | outOfWords
  | expected (what : String)
  | listAsValue
  | closesNothing
  | tooFewInputs (word : String) (arity count : Nat)
  | unknownInstruction (symbol : String)
  | notGroupable
  | unclosedGroup
  | unevenGroup (count : Nat) (word : String) (arity : Nat)
  | builtIn (word : String)
deriving Repr, DecidableEq

def Flaw.message : Flaw → String
  | .outOfWords => "The program ran out of words before it was finished."
  | .expected what => "Expected " ++ what ++ " here."
  | .listAsValue => "A [list] cannot stand where a value belongs."
  | .closesNothing => "This does not close anything."
  | .tooFewInputs word arity count =>
    word ++ " takes " ++ toString arity ++ " input" ++
      (if arity = 1 then "" else "s") ++
      ", but got only " ++ toString count ++ "."
  | .unknownInstruction symbol =>
    symbol ++ " is not something this interpreter can do here."
  | .notGroupable => "This instruction cannot be grouped."
  | .unclosedGroup => "This (group) is missing its closing parenthesis."
  | .unevenGroup count word arity =>
    "This group has " ++ toString count ++
      " inputs, which do not divide evenly among " ++ word ++
      "'s " ++ toString arity ++ "."
  | .builtIn word => word ++ " is already built in, so it cannot be redefined."

inductive Mishap where
  | refused (refusal : Refusal)
  /-- Arithmetic failed under a word. -/
  | failed (word : String) (fault : ArithmeticFault)
  | endlessCount (limit : String)
  | notANumber (type : ValueType) (name : String)
  | zeroStep
  | notAnInstruction (name : String)
  | inputCount (name : String) (count : Nat)
  | tooDeep
deriving Repr, DecidableEq

def Mishap.message : Mishap → String
  | .refused refusal => refusal.message
  | .failed word fault => word ++ ": " ++ fault.message
  | .endlessCount limit => "Cannot count to " ++ limit ++ "."
  | .notANumber type name =>
      "The " ++ type.name ++ " :" ++ name ++ " is not a number."
  | .zeroStep => "A for-loop cannot count by zero."
  | .notAnInstruction name => name ++ " is a variable, not an instruction."
  | .inputCount name count =>
      name ++ " now takes " ++ toString count ++ " inputs."
  | .tooDeep => "The program recursed too deeply."

/-- What a program, or the host at the table of variables, did wrong. -/
inductive Complaint where
  /-- A word is of no kind, or means no instruction. -/
  | unrecognized (word : String) (place : Option Token)
  | malformed (flaw : Flaw) (place : Option Token)
  /-- A name is not defined, where it is read or where it is to be removed. -/
  | undefined (name : String) (removing : Bool) (place : Option Phrase)
  | noLocalScope (name : String)
  | illTyped (name : String) (value : String) (type : ValueType)
  | mishap (mishap : Mishap) (place : Option Phrase)
  /-- Something that changes the world came up where nothing may change. -/
  | impure (place : Phrase)
deriving Repr

namespace Complaint

def place? : Complaint → Option Phrase
  | .unrecognized _ token => token.map .word
  | .malformed _ token => token.map .word
  | .undefined _ _ place => place
  | .noLocalScope _ => none
  | .illTyped .. => none
  | .mishap _ place => place
  | .impure place => some place

def cause : Complaint → String
  | .unrecognized word _ =>
    "\"" ++ word ++ "\" is not defined in the syntax file."
  | .malformed flaw _ => flaw.message
  | .undefined name removing _ =>
    "The variable " ++ name ++ " is not defined" ++
      (if removing then ", therefore cannot be removed." else ".")
  | .noLocalScope name => "There is no local variable " ++ name ++ " to remove."
  | .illTyped name value type =>
    value ++ " will not do as the " ++ type.name ++ " " ++ name ++ "."
  | .mishap m _ => m.message
  | .impure _ =>
    "This would have side-effects, so it cannot be evaluated purely."

def position (index : Source.Index) (token : Token) : String :=
  match index.lookup token.spot with
  | .ok place =>
    let (row, column) := place.rowAndColumn
    " (at " ++ Text.quoted token.text ++ ", line " ++
      toString row ++ " column " ++ toString column ++ ")"
  | .error _ => ""

/-- The complaint in words; a malformed program is told where. -/
def message (index : Source.Index) (complaint : Complaint) : String :=
  match complaint with
  | .malformed flaw (some token) => flaw.message ++ position index token
  | _ => complaint.cause

end Complaint

/-- Promises between the parts of the interpreter. -/
inductive Breach where
  /-- An instruction holds another number of operands than it takes. -/
  | operandCount
  /-- A value that is called as a procedure is none. -/
  | notAProcedure (value : Value)
  /-- A turtle that listens does not exist. -/
  | missingTurtle (ident : Nat)
deriving Repr

inductive Fault where
  | complaint (complaint : Complaint)
  /-- Arithmetic failed outside of any instruction that answers for it. -/
  | arithmetic (fault : ArithmeticFault)
  | broken (breach : Breach)
  /-- The nesting of a program, or of its run, has reached its limit. -/
  | tooDeep
  /-- A loop has reached the limit of its turns. -/
  | unfinished
deriving Repr

end Logo
