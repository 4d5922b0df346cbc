import Logo.Fault

/-!
# What an instruction still needs

A special form takes variables, values and bracketed lists in fixed places.  A
`Need` says what has to come next and what is made of it, up to the finished
expression, so a form is described by the need it starts with.  Other
instructions simply take a number of operands.
-/

namespace Logo

inductive Need where
  /-- Nothing: the expression is complete. -/
  | done (expr : Expr)
  /-- A value. -/
  | value (next : Expr → Need)
  /-- A variable that is not evaluated. -/
  | target (next : Token → Need)
  /-- A bracketed list of expressions. -/
  | block (next : Brackets → List Expr → Need)
  /-- An opening bracket that starts some fixed words. -/
  | opening (what : String) (next : Need)
  /-- The bracket that closes them. -/
  | closing (what : String) (next : Need)
  /-- The name of a new procedure. -/
  | name (next : Token → Need)
  /-- Further parameters of a new procedure, or the bracket behind them. -/
  | params (name : Token) (read : List Token) (next : List Token → Need)
  /-- The instruction at the start of a group. -/
  | leader (opener : Token)

def Form.need (head : Token) : Form → Need
  | .make =>
    .target fun target => .value fun value => .done (.make head target value)
  | .repeatTimes =>
    .value fun count => .block fun brackets body =>
      .done (.repeatTimes head count brackets body)
  | .countTo =>
    .opening "[ :variable limit ]" <|
      .target fun target => .value fun limit =>
        .closing "the ] closing [ :variable limit ]" <|
          .block fun brackets body =>
            .done (.countTo head target limit brackets body)
  | .countBy =>
    .opening "[ :variable start end increment ]" <|
      .target fun target =>
        .value fun first => .value fun last => .value fun step =>
          .closing "the ] closing [ :variable start end increment ]" <|
            .block fun brackets body =>
              .done (.countBy head target first last step brackets body)
  | .ifThen =>
    .value fun condition => .block fun brackets body =>
      .done (.ifThen head condition brackets body)
  | .ifElse =>
    .value fun condition =>
      .block fun thenBrackets thenPart => .block fun elseBrackets elsePart =>
        .done (.ifElse head condition thenBrackets thenPart
          elseBrackets elsePart)
  | .define =>
    .name fun name => .opening "a [list] of :parameters" <|
      .params name [] fun params => .block fun brackets body =>
        .done (.define head name params brackets body)
  | .tell => .block fun brackets list => .done (.tell head brackets list)
  | .ask =>
    .block fun listBrackets list => .block fun brackets body =>
      .done (.ask head listBrackets list brackets body)
  | .askWith =>
    .block fun conditionBrackets condition => .block fun brackets body =>
      .done (.askWith head conditionBrackets condition brackets body)

/-- What a word calls that is no special form. -/
inductive Callee where
  | command (command : TurtleCommand)
  | flock (command : FlockCommand)
  | operator (operator : Operator)
  /-- A procedure with its number of parameters. -/
  | procedure (arity : Nat)
deriving Repr, DecidableEq

namespace Callee

def arity : Callee → Nat
  | .command c => c.arity
  | .flock c => c.arity
  | .operator o => o.arity
  | .procedure n => n

/-- Whether a group folds the callee over all operands at once. -/
def folds (callee : Callee) (count : Nat) : Bool :=
  match callee with
  | .operator o => o.isReducible && o.arity ≤ count
  | _ => false

def call (callee : Callee) (head : Token) (args : List Expr) : Expr :=
  match callee with
  | .command c => .command head c args
  | .flock c => .flock head c args
  | .operator o => .operation head o args
  | .procedure _ => .call head args

end Callee

/-- Cuts a list into pieces of a size; `count` bounds their number. -/
def pieces (size : Nat) : (count : Nat) → List α → List (List α)
  | 0, _ => []
  | _, [] => []
  | count + 1, items => items.take size :: pieces size count (items.drop size)

/-- What a closed group stands for.  A reducible operator is folded over all
operands; any other instruction is repeated over consecutive runs of them, which
have to come out even. -/
def Callee.group (callee : Callee) (brackets : Brackets) (head : Token)
    (args : List Expr) :
    Except Flaw Expr :=
  if callee.folds args.length || (callee.arity == 0 && args.isEmpty) then
    .ok (callee.call head args)
  else if
      callee.arity = 0 ∨ args.length = 0 ∨ args.length % callee.arity ≠ 0 then
    .error (.unevenGroup args.length head.text callee.arity)
  else
    match (pieces callee.arity args.length args).map (callee.call head) with
    | [single] => .ok single
    | calls => .ok (.block brackets calls)

end Logo
