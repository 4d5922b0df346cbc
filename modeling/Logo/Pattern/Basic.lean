import Logo.Text.Classes
import Logo.Text.Letter
import Logo.Text.WordCharacter

/-!
# Patterns of words

A pattern describes a set of words: single characters out of a set, one pattern
after another, one pattern or another, and repetitions.  A word belongs to a
pattern as a whole, and case does not matter.

Words are read one character at a time.  What may follow after a character is
again described by patterns, of which a fixed pattern only ever produces
finitely many, so a word is matched by carrying a short list of patterns along
it.

Some patterns look at more than the next character: a repetition may be held to
the first match that it finds, a place may be told by what stands on both sides
of it, and the text of a group may have to come again.  For these a match has to
be searched for instead.
-/

namespace Logo

inductive CharKind where
  | digit
  | blank
  | word
deriving Repr, DecidableEq

def CharKind.has (c : Char) : CharKind → Bool
  | .digit => (Text.digit? c).isSome
  | .blank => Text.isBlank c
  | .word => Text.isWordCharacter c

structure CharClass where
  negated : Bool
  kind : CharKind
deriving Repr, DecidableEq

def CharClass.has (c : Char) (cls : CharClass) : Bool :=
  cls.negated != cls.kind.has c

/-- What a set of characters is put together from.  Code points may be written
that are no characters, as they are halves of pairs. -/
inductive Member where
  | single (code : Nat)
  | range (first last : Nat)
  | named (cls : CharClass)
deriving Repr, DecidableEq

def hasForm (c : Char) (test : Nat → Bool) : Bool :=
  (Text.variants c).any (test ·.toNat)

/-- Whether one of several members stands for a character, regardless of case.
A single character beyond the first plane of code points is only met by those of
which it is the small letter, so there a capital among other members stands for
nothing. -/
def Member.has (c : Char) : Member → Bool
  | .single code =>
    if code < 0x10000 then hasForm c (· == code)
    else (Text.lower c).toNat == code
  | .range first last => hasForm c fun code => first ≤ code && code ≤ last
  | .named cls => cls.has c

structure CharSet where
  negated : Bool
  members : List Member
deriving Repr, DecidableEq

def CharSet.has (set : CharSet) (c : Char) : Bool :=
  set.negated != match set.members with
    | [.single code] => hasForm c (· == code)
    | members => members.any (·.has c)

def CharSet.literal (c : Char) : CharSet := ⟨false, [.single c.toNat]⟩

/-- Any character but a line feed. -/
def CharSet.anyCharacter : CharSet := ⟨true, [.range '\n'.toNat '\n'.toNat]⟩

inductive Pattern.Count where
  | anyNumber
  | oneOrMore
  | atMostOne
deriving Repr, DecidableEq

def Pattern.Count.least : Count → Nat
  | .oneOrMore => 1
  | _ => 0

def Pattern.Count.allows (number : Nat) : Count → Bool
  | .atMostOne => number ≤ 1
  | _ => true

/-- In which order numbers of repetitions are tried. -/
inductive Pattern.Manner where
  /-- More of them before fewer. -/
  | eager
  /-- Fewer of them before more. -/
  | lazy
  /-- As many as there are, and never fewer. -/
  | held
deriving Repr, DecidableEq

inductive Pattern.Edge where
  | start
  | finish
  /-- The end, or the place before a last line feed. -/
  | lastLine
  /-- Between a word character and something else. -/
  | word
  /-- Between two word characters, or between two others. -/
  | inside
deriving Repr, DecidableEq

inductive Pattern where
  /-- The empty word. -/
  | empty
  /-- One character of a set. -/
  | one (set : CharSet)
  /-- A word of the first pattern followed by one of the second. -/
  | sequence (first second : Pattern)
  /-- A word of either pattern. -/
  | choice (first second : Pattern)
  /-- A word of a pattern in parentheses.  The groups of a pattern are numbered
  from zero. -/
  | group (number : Nat) (pattern : Pattern)
  /-- Several words of a pattern, one after the other. -/
  | repeated (count : Pattern.Count) (manner : Pattern.Manner)
      (pattern : Pattern)
  /-- The empty word, at a certain place. -/
  | edge (place : Pattern.Edge)
  /-- What a group has matched before. -/
  | copy (number : Nat)
deriving Repr, DecidableEq

namespace Pattern

/-- Whether words can be matched one character at a time. -/
def isRegular : Pattern → Bool
  | .empty => true
  | .one _ => true
  | .sequence first second => first.isRegular && second.isRegular
  | .choice first second => first.isRegular && second.isRegular
  | .group _ pattern => pattern.isRegular
  | .repeated _ manner pattern => manner != .held && pattern.isRegular
  | .edge _ => false
  | .copy _ => false

/-- Whether the empty word belongs to a regular pattern. -/
def hasEmpty : Pattern → Bool
  | .empty => true
  | .one _ => false
  | .sequence first second => first.hasEmpty && second.hasEmpty
  | .choice first second => first.hasEmpty || second.hasEmpty
  | .group _ pattern => pattern.hasEmpty
  | .repeated count _ pattern => count.least == 0 || pattern.hasEmpty
  | .edge _ => false
  | .copy _ => false

/-- One pattern after another, where nothing needs to be written for the empty
word. -/
def andThen (first second : Pattern) : Pattern :=
  match first with
  | .empty => second
  | _ => .sequence first second

def furtherRepetitions (count : Count) (manner : Manner)
    (pattern : Pattern) : Pattern :=
  match count with
  | .atMostOne => .empty
  | _ => .repeated .anyNumber manner pattern

/-- What may follow a first character: the rests of the words of a regular
pattern that start with it. -/
def after (c : Char) : Pattern → List Pattern
  | .empty => []
  | .one set => if set.has c then [.empty] else []
  | .sequence first second =>
    let rests := (after c first).map (andThen · second)
    if first.hasEmpty then rests ++ after c second else rests
  | .choice first second => after c first ++ after c second
  | .group _ pattern => after c pattern
  | .repeated count manner pattern =>
    (after c pattern).map (andThen · (furtherRepetitions count manner pattern))
  | .edge _ => []
  | .copy _ => []

/-- What may follow some characters read so far, each pattern once. -/
def afterEach (patterns : List Pattern) (c : Char) : List Pattern :=
  (patterns.flatMap (after c)).eraseDups

def has (pattern : Pattern) (word : List Char) : Bool :=
  (word.foldl afterEach [pattern]).any hasEmpty

end Pattern

end Logo
