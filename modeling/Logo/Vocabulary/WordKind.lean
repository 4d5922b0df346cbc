import Logo.Vocabulary.Classifier

/-!
# Kinds of words

Every word of a program is of one of eight kinds, which its spelling alone
decides.
-/

namespace Logo.Vocabulary

inductive WordKind where
  | comment
  | constant
  | variable
  | command
  | listStart
  | listEnd
  | groupStart
  | groupEnd
  /-- A word that no rule describes. -/
  | unknown
deriving Repr, DecidableEq, Inhabited

namespace WordKind

def name : WordKind → String
  | .comment => "Comment"
  | .constant => "Constant"
  | .variable => "Variable"
  | .command => "Command"
  | .listStart => "ListStart"
  | .listEnd => "ListEnd"
  | .groupStart => "GroupStart"
  | .groupEnd => "GroupEnd"
  | .unknown => "?"

def spellings : List (WordKind × String) := [
  (.comment, "#.*"),
  (.constant, "-?[0-9]+\\.?[0-9]*"),
  (.variable, ":[a-zA-Z_][a-zA-Z_0-9]*"),
  (.command, "[a-zA-Z_][a-zA-Z_0-9]*\\??|[*+/%~-]"),
  (.listStart, "\\["),
  (.listEnd, "\\]"),
  (.groupStart, "\\("),
  (.groupEnd, "\\)")]

def classifier : Classifier WordKind := Classifier.ofPairs spellings

def of? (word : String) : Option WordKind := classifier.symbol? word

end WordKind

/-- The spellings as a table of symbols. -/
def wordKinds : RuleSet :=
  WordKind.spellings.map fun (kind, spelling) => (kind.name, spelling)

end Logo.Vocabulary
