import Logo.Program.Expr

/-!
# Values in the table of variables

Programs only compute numbers, but a host may also keep texts, truth values or
nothing at all under a name, and procedures are kept there too.  An entry of the
table is a value of one of four types.
-/

namespace Logo

structure Procedure where
  name : String
  params : List String
  body : List Expr
deriving Repr

def Procedure.description (procedure : Procedure) : String :=
  "<to " ++ procedure.name ++ " [" ++ ", ".intercalate
    (procedure.params.map (":" ++ ·)) ++ "]>"

inductive Value where
  | number (number : Number)
  | text (text : String)
  | truth (truth : Bool)
  | nothing
  | procedure (procedure : Procedure)
deriving Repr

inductive ValueType where
  | integer
  | double
  | string
  | function
deriving Repr, DecidableEq

def ValueType.name : ValueType → String
  | .integer => "Integer"
  | .double => "Double"
  | .string => "String"
  | .function => "Function"

/-- What the table holds under a name.  A function need not be a procedure: a
host may keep any value as one. -/
inductive Entry where
  | integer (n : Int)
  | double (x : Float)
  /-- Something in double precision that is not a number. -/
  | marked (mark : Mark)
  | string (text : String)
  | function (value : Value)
deriving Repr

namespace Entry

def type : Entry → ValueType
  | .integer _ => .integer
  | .double _ => .double
  | .marked _ => .double
  | .string _ => .string
  | .function _ => .function

def value : Entry → Value
  | .integer n => .number (.integer n)
  | .double x => .number (.real x)
  | .marked mark => .number (.marked mark)
  | .string text => .text text
  | .function v => v

end Entry

namespace Value

def type : Value → ValueType
  | .number (.integer _) => .integer
  | .number (.real _) => .double
  | .number (.marked _) => .double
  | .text _ => .string
  | .truth _ => .integer
  | .nothing => .function
  | .procedure _ => .function

def text? : Value → Except ArithmeticFault String
  | .number n => n.text
  | .text t => .ok t
  | .truth true => .ok "True"
  | .truth false => .ok "False"
  | .nothing => .ok "None"
  | .procedure p => .ok p.description

/-- A value as it is shown in messages, where texts are quoted. -/
def shown : Value → Except ArithmeticFault String
  | .text t => .ok (Text.quoted t)
  | value => value.text?

/-- A value as an integer: the integer part of a number, or what a text
denotes. -/
def integer? : Value → Option Int
  | .number n => n.truncate?
  | .text t => Decimal.integer? t
  | .truth b => some (if b then 1 else 0)
  | .nothing => none
  | .procedure _ => none

def double? : Value → Option Float
  | .number n => n.toReal.toOption
  | .text t => Decimal.real? t
  | .truth b => some (if b then 1.0 else 0.0)
  | .nothing => none
  | .procedure _ => none

def doubleEntry? : Value → Option Entry
  | .number (.marked mark) => some (.marked mark)
  | value => value.double?.map .double

def coerce? (value : Value) : ValueType → Option Entry
  | .integer => value.integer?.map .integer
  | .double => value.doubleEntry?
  | .string => value.text?.toOption.map .string
  | .function => some (.function value)

end Value

end Logo
