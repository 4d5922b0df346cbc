import Logo.Source.Index
import Logo.Vocabulary.Languages
import Logo.Vocabulary.WordKind

/-!
# The lexicon

A lexicon knows what kind of word a word is, which is the same in every natural
language, and which instruction it means in the language that is presently
spoken.
-/

namespace Logo.Vocabulary

/-- The tables that can be asked for by name.  The kinds of words are among
them: whoever takes them for a language gets words that mean no instruction. -/
def ruleSets : List (String × RuleSet) :=
  [("English", english), ("French", french), ("Syntax", wordKinds)]

def available : List String := ruleSets.map (·.1)

def languages : List String := available.filter (· != "Syntax")

def tableFolder : List String := ["slogo", "languages"]

def folders : List (List String) :=
  [[], ["slogo"], tableFolder, ["examples"], ["tests"]]

/-- The table that a path from the folder of the tables leads to; there may be
none. -/
def ruleSetAt (path : String) : RuleSet :=
  match Source.pathRoot path, Source.follow folders tableFolder
    (Source.pathParts path) with
  | "", some file =>
    let found :=
      ruleSets.find?
        fun (name, _) => file == tableFolder ++ [name ++ ".properties"]
    (found.map (·.2)).getD []
  | _, _ => []

/-- A table by its name, or by the path of its file without the ending; an
unknown name gives an empty table. -/
def ruleSet (name : String) : RuleSet :=
  match ruleSets.lookup name with
  | some table => table
  | none => ruleSetAt (name ++ ".properties")

/-- The language a program is read in, with its instruction words. -/
structure Lexicon where
  language : String
  words : Classifier String
deriving Repr

namespace Lexicon

def speaking (language : String) : Lexicon :=
  ⟨language, Classifier.ofPairs (ruleSet language)⟩

def translate? (lexicon : Lexicon) (word : String) : Option String :=
  lexicon.words.symbol? word

def knows (lexicon : Lexicon) (word : String) : Bool :=
  (lexicon.translate? word).isSome

end Lexicon

end Logo.Vocabulary
