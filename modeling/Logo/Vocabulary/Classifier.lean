import Logo.Pattern.Reader
import Logo.Pattern.Search

/-!
# Classifying words

A classifier is an ordered table of rules, each a pattern with the symbol it
stands for.  Some patterns are more general than others, so the special ones
come first and the first one that a whole word belongs to decides.
-/

namespace Logo.Vocabulary

/-- The words that mean `symbol`. -/
structure Rule (α : Type) where
  symbol : α
  pattern : Pattern
deriving Repr

/-- Symbols with the regular expressions of their words, in the order in which
they are tried. -/
abbrev RuleSet := List (String × String)

abbrev Classifier (α : Type) := List (Rule α)

namespace Classifier

/-- Appends the rules of a table, up to the first one that is no regular
expression.  That one comes back with its flaw. -/
def addPairs (rules : Classifier α) : List (α × String) →
    Classifier α × Option (String × Pattern.Flaw)
  | [] => (rules, none)
  | (symbol, expression) :: pairs =>
    match Pattern.read expression with
    | .ok pattern => addPairs (rules ++ [⟨symbol, pattern⟩]) pairs
    | .error flaw => (rules, some (expression, flaw))

def ofPairs (pairs : List (α × String)) : Classifier α := (addPairs [] pairs).1

def rule? (rules : Classifier α) (word : String) : Option (Rule α) :=
  rules.find? (·.pattern.accepts word.toList)

/-- The symbol of the first rule whose pattern the whole word matches. -/
def symbol? (rules : Classifier α) (word : String) : Option α :=
  (rules.rule? word).map (·.symbol)

/-- The complaint about a word that no rule describes. -/
structure Unrecognized where
  text : String
deriving Repr, DecidableEq

def symbol (rules : Classifier α) (word : String) : Except Unrecognized α :=
  match rules.symbol? word with
  | some symbol => .ok symbol
  | none => .error ⟨word⟩

/-- Whether the match that decides about a word is tangled, so that nothing can
be said of it. -/
def isTangledBy (rules : Classifier α) (word : String) : Bool :=
  (rules.rule? word).any (·.pattern.isTangledBy word.toList)

def tangleMessage : String :=
  "The span of capturing group is wrong, please report a bug for the re module."

end Classifier

/-- What can be done to a table: adding rules, adding those that a name stands
for, and starting anew with those that a name stands for. -/
inductive Edit (ρ : Type) where
  | addRules (rules : List ρ)
  | addPatterns (name : String)
  | setPatterns (name : String)
deriving Repr

namespace Edit

def rules (loader : String → List ρ) : Edit ρ → List ρ
  | .addRules rules => rules
  | .addPatterns name => loader name
  | .setPatterns name => loader name

def clears : Edit ρ → Bool
  | .setPatterns _ => true
  | _ => false

/-- The table afterwards.  As far as the rules can be read they are in it, also
when one of them cannot. -/
def apply (loader : String → List (α × String)) (table : Classifier α)
    (edit : Edit (α × String)) :
    Classifier α × Option (String × Pattern.Flaw) :=
  Classifier.addPairs (if edit.clears then [] else table) (edit.rules loader)

end Edit

end Logo.Vocabulary
