import Logo.Source.Index
import Logo.Text.Letter
import Logo.Text.Printable
import Logo.Vocabulary.WordKind

/-!
# Tokens

A token is one word of a program, classified, with its spot in the index of
places and the offset of its first character in its text.

A text is cut into lines and a line into words, which are the longest stretches
without white space.  A word that starts a remark ends its line.  Every word up
to there gets a spot in the index of places, also the one that starts the remark
and the one that turns out to be of no kind.
-/

namespace Logo

open Vocabulary

structure Token where
  kind : WordKind
  text : String
  spot : Nat
  offset : Nat
deriving Repr, DecidableEq

namespace Token

/-- The name of a variable, which is written behind a colon. -/
def variableName (token : Token) : String :=
  String.ofList (token.text.toList.drop 1)

def procedureName (token : Token) : String := Text.lowered token.text

def description (token : Token) : String :=
  "<" ++ token.kind.name ++ " " ++ Text.quoted token.text ++ ">"

/-! ## Cutting a text into tokens -/

structure Word where
  offset : Nat
  letters : List Char
deriving Repr, DecidableEq

/-- The words of some characters, of which the first has the given offset. -/
def wordsFrom (offset : Nat) : List Char → List Word
  | [] => []
  | c :: rest =>
    if Text.isBlank c then wordsFrom (offset + 1) rest
    else
      let letters := c :: rest.takeWhile (!Text.isBlank ·)
      ⟨offset, letters⟩ :: wordsFrom (offset + letters.length)
        (rest.dropWhile (!Text.isBlank ·))
termination_by text => text.length
decreasing_by
  · simp
  · have := (List.dropWhile_suffix (l := rest) (!Text.isBlank ·)).length_le
    simp
    omega

/-- The lines of some characters, each with the offset of its first character
and without the character that ends it. -/
def linesFrom (offset : Nat) (text : List Char) : List (Nat × List Char) :=
  let line := text.takeWhile (!Text.isLineEnd ·)
  match h : text.dropWhile (!Text.isLineEnd ·) with
  | [] => [(offset, line)]
  | _ :: rest => (offset, line) :: linesFrom (offset + line.length + 1) rest
termination_by text.length
decreasing_by
  have := (List.dropWhile_suffix (l := text) (!Text.isLineEnd ·)).length_le
  simp [h] at this
  omega

def wordsByLine (text : String) : List (List Word) :=
  (linesFrom 0 text.toList).map fun (offset, line) => wordsFrom offset line

def scanLine (index : Source.Index) :
    List Word → Except Token (List Token) × Source.Index
  | [] => (.ok [], index)
  | word :: rest =>
    let text := String.ofList word.letters
    let (spot, index) :=
      index.insert ⟨word.offset, word.offset + word.letters.length⟩
    match WordKind.of? text with
    | none => (.error ⟨.unknown, text, spot, word.offset⟩, index)
    | some .comment => (.ok [], index)
    | some kind =>
      match scanLine index rest with
      | (.ok tokens, index) =>
        (.ok (⟨kind, text, spot, word.offset⟩ :: tokens), index)
      | (.error token, index) => (.error token, index)

/-- The tokens of several lines, up to the first word that is of no kind. -/
def scanLines (index : Source.Index) :
    List (List Word) → Except Token (List Token) × Source.Index
  | [] => (.ok [], index)
  | line :: rest =>
    match scanLine index line with
    | (.error token, index) => (.error token, index)
    | (.ok tokens, index) =>
      match scanLines index rest with
      | (.ok others, index) => (.ok (tokens ++ others), index)
      | (.error token, index) => (.error token, index)

/-- The tokens of a text, or the first word that is of no kind, and the index
with the text and its words. -/
def scan (index : Source.Index) (path : Option String) (text : String) :
    Except Token (List Token) × Source.Index :=
  scanLines (index.startSegment path text) (wordsByLine text)

end Token

end Logo
