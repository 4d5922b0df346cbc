/-!
# Flaws of regular expressions

A text that is no regular expression has a flaw at some position of it.
Positions are counted in characters from zero, and in an expression of several
lines also by line and column from one.
-/

namespace Logo.Pattern

inductive Defect where
  | nothingToRepeat
  | repeatedTwice
  | openGroup
  | unopenedGroup
  | openSet
  | badRange (first last : String)
  | badEscape (escape : String)
  | cutEscape
  | incompleteEscape (escape : String)
  | largeOctal (escape : String)
  | openReference
  | missingReference (group : Nat)
deriving Repr, DecidableEq

def Defect.message : Defect → String
  | .nothingToRepeat => "nothing to repeat"
  | .repeatedTwice => "multiple repeat"
  | .openGroup => "missing ), unterminated subpattern"
  | .unopenedGroup => "unbalanced parenthesis"
  | .openSet => "unterminated character set"
  | .badRange first last => "bad character range " ++ first ++ "-" ++ last
  | .badEscape escape => "bad escape " ++ escape
  | .cutEscape => "bad escape (end of pattern)"
  | .incompleteEscape escape => "incomplete escape " ++ escape
  | .largeOctal escape =>
      "octal escape value " ++ escape ++ " outside of range 0-0o377"
  | .openReference => "cannot refer to an open group"
  | .missingReference group => "invalid group reference " ++ toString group

structure Flaw where
  defect : Defect
  position : Nat
deriving Repr, DecidableEq

def Flaw.message (flaw : Flaw) (expression : String) : String :=
  let text := flaw.defect.message ++ " at position " ++ toString flaw.position
  if expression.contains '\n' then
    let before := expression.toList.take flaw.position
    let line := before.count '\n' + 1
    let column := (before.reverse.takeWhile (· ≠ '\n')).length + 1
    text ++ " (line " ++ toString line ++ ", column " ++ toString column ++ ")"
  else text

end Logo.Pattern
