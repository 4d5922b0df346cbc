import Logo.Instruction
import Logo.Token

/-!
# Syntax trees

A program is a list of expressions, and every expression has a value.  An
expression remembers the words it was read from, so that it can be pointed at:
its span runs from the spot of its first word to that of its last.
-/

namespace Logo

/-- The two words around a list or a group. -/
structure Brackets where
  opener : Token
  closer : Token
deriving Repr, DecidableEq

inductive Expr where
  /-- A constant. -/
  | literal (head : Token) (value : Number)
  /-- The value of a variable. -/
  | variable (head : Token)
  /-- A command to each listening turtle. -/
  | command (head : Token) (command : TurtleCommand) (args : List Expr)
  /-- A command to the flock. -/
  | flock (head : Token) (command : FlockCommand) (args : List Expr)
  /-- An operator with its operands, more than it takes when they are to be
  folded. -/
  | operation (head : Token) (operator : Operator) (args : List Expr)
  /-- Several expressions one after the other. -/
  | block (brackets : Brackets) (body : List Expr)
  | make (head target : Token) (value : Expr)
  | repeatTimes (head : Token) (count : Expr) (brackets : Brackets)
      (body : List Expr)
  | countTo (head target : Token) (limit : Expr) (brackets : Brackets)
      (body : List Expr)
  | countBy (head target : Token) (first last step : Expr) (brackets : Brackets)
      (body : List Expr)
  | ifThen (head : Token) (condition : Expr) (brackets : Brackets)
      (body : List Expr)
  | ifElse (head : Token) (condition : Expr) (thenBrackets : Brackets)
      (thenPart : List Expr) (elseBrackets : Brackets) (elsePart : List Expr)
  | define (head name : Token) (params : List Token) (brackets : Brackets)
      (body : List Expr)
  | call (head : Token) (args : List Expr)
  | tell (head : Token) (listBrackets : Brackets) (list : List Expr)
  | ask (head : Token) (listBrackets : Brackets) (list : List Expr)
      (brackets : Brackets) (body : List Expr)
  | askWith (head : Token) (conditionBrackets : Brackets)
      (condition : List Expr) (brackets : Brackets) (body : List Expr)
deriving Repr

namespace Expr

def head : Expr → Token
  | .literal head _ => head
  | .variable head => head
  | .command head _ _ => head
  | .flock head _ _ => head
  | .operation head _ _ => head
  | .block brackets _ => brackets.opener
  | .make head _ _ => head
  | .repeatTimes head _ _ _ => head
  | .countTo head _ _ _ _ => head
  | .countBy head _ _ _ _ _ _ => head
  | .ifThen head _ _ _ => head
  | .ifElse head _ _ _ _ _ => head
  | .define head _ _ _ _ => head
  | .call head _ => head
  | .tell head _ _ => head
  | .ask head _ _ _ _ => head
  | .askWith head _ _ _ _ => head

def left (expr : Expr) : Nat := expr.head.spot

mutual

def right : Expr → Nat
  | .literal head _ => head.spot
  | .variable head => head.spot
  | .command head _ args => rightOfLast head.spot args
  | .flock head _ args => rightOfLast head.spot args
  | .operation head _ args => rightOfLast head.spot args
  | .block brackets _ => brackets.closer.spot
  | .make _ _ value => value.right
  | .repeatTimes _ _ brackets _ => brackets.closer.spot
  | .countTo _ _ _ brackets _ => brackets.closer.spot
  | .countBy _ _ _ _ _ brackets _ => brackets.closer.spot
  | .ifThen _ _ brackets _ => brackets.closer.spot
  | .ifElse _ _ _ _ brackets _ => brackets.closer.spot
  | .define _ _ _ brackets _ => brackets.closer.spot
  | .call head args => rightOfLast head.spot args
  | .tell _ brackets _ => brackets.closer.spot
  | .ask _ _ _ brackets _ => brackets.closer.spot
  | .askWith _ _ _ brackets _ => brackets.closer.spot

def rightOfLast (spot : Nat) : List Expr → Nat
  | [] => spot
  | expr :: rest => rightOfLast expr.right rest

end

/-- Whether an expression can be evaluated where nothing may change, as far as
it itself is concerned: an expression that only passes its parts on leaves the
refusal to these. -/
def isPure : Expr → Bool
  | .command _ c _ => c.isQuery
  | .flock _ c _ => c.isQuery
  | .make .. => false
  | .define .. => false
  | .tell .. => false
  | _ => true

end Expr

/-- What a message can point at. -/
inductive Phrase where
  | word (token : Token)
  | expr (expr : Expr)
  | program (body : List Expr)
deriving Repr

/-- The spots of the first and the last word.  An empty program lies at the
built-in spot. -/
def Phrase.span : Phrase → Nat × Nat
  | .word token => (token.spot, token.spot)
  | .expr e => (e.left, e.right)
  | .program [] => (0, 0)
  | .program (first :: rest) => (first.left, Expr.rightOfLast first.right rest)

end Logo
