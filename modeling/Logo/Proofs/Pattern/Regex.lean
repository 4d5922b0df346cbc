import Logo.Pattern.Reader
import Mathlib.Computability.Language
import Mathlib.Tactic

/-!
# Regular expressions and their languages

A regular expression is put together from characters, points, sets, groups,
repetitions, sequences and alternatives, each written in one of the ways that
the notation has for it.  Its words make up a regular language: sequences are
products, alternatives are sums, and repetitions are closures.  Single
characters are compared regardless of case, and a set in brackets stands for a
character if one of its forms is among the members, or none if the set is
negated.

The notation has a few ambiguous places.  Brackets, hyphens and carets inside of
a set mean themselves only where they can mean nothing else, and so do digits
behind an escape of digits and braces outside of sets.
-/

namespace Logo.Regex

open Pattern (Sign Count)
open scoped Computability

/-! ## Characters -/

/-- How many hexadecimal digits a code point is written in. -/
inductive Width where
  | two
  | four
  | eight
deriving Repr, DecidableEq

def Width.mark : Width → Char
  | .two => 'x'
  | .four => 'u'
  | .eight => 'U'

def Width.count : Width → Nat
  | .two => 2
  | .four => 4
  | .eight => 8

/-- A character and the way in which it is written. -/
inductive Letter where
  /-- The character itself. -/
  | plain (c : Char)
  /-- The character behind a backslash. -/
  | quoted (c : Char)
  /-- A letter behind a backslash that stands for a control character. -/
  | control (name : Char)
  /-- The code point in hexadecimal digits. -/
  | hexadecimal (width : Width) (digits : List Char)
  /-- The code point in octal digits. -/
  | octal (first : Char) (more : List Char)
deriving Repr, DecidableEq

/-- The letters for control characters.  The one for a backspace is only known
inside of a set. -/
def controls (within : Bool) : List (Char × Char) :=
  [('n', '\n'), ('r', '\r'), ('t', '\t'), ('f', Char.ofNat 0x0C),
    ('v', Char.ofNat 0x0B), ('a', Char.ofNat 0x07)] ++
    if within then [('b', Char.ofNat 0x08)] else []

/-- The characters with a meaning of their own outside of sets. -/
def reserved : List Char := "\\.[^$()|*+?".toList

namespace Letter

def signs : Letter → List Sign
  | .plain c => [.plain c]
  | .quoted c => [.escaped c]
  | .control name => [.escaped name]
  | .hexadecimal width digits => .escaped width.mark :: digits.map .plain
  | .octal first more => .escaped first :: more.map .plain

/-- The code point, which is not that of a character if it is half of a pair. -/
def code : Letter → Nat
  | .plain c => c.toNat
  | .quoted c => c.toNat
  | .control name => (((controls true).lookup name).getD name).toNat
  | .hexadecimal _ digits => Pattern.numeralValue 16 digits
  | .octal first more => Pattern.numeralValue 8 (first :: more)

/-- Whether a character can be written in this way, inside of a set or
outside. -/
def isProper (within : Bool) : Letter → Bool
  | .plain c => if within then c != '\\' else !reserved.contains c
  | .quoted c => !c.isAlphanum
  | .control name => ((controls within).lookup name).isSome
  | .hexadecimal width digits =>
    digits.length == width.count && digits.all
      (fun d => (Pattern.hexadecimal? d).isSome) &&
      Pattern.numeralValue 16 digits ≤ 0x10FFFF
  | .octal first more =>
    (first :: more).all Pattern.isOctal && more.length ≤ 2 &&
      (within || first == '0' || more.length == 2) &&
      Pattern.numeralValue 8 (first :: more) ≤ 0xFF

/-- Whether the character ends where another sign follows.  Octal digits go on
as long as there are fewer than three. -/
def endsBefore (next : Option Sign) : Letter → Bool
  | .octal _ more =>
    more.length == 2 || match next with
      | some (.plain d) => !Pattern.isOctal d
      | _ => true
  | _ => true

end Letter

/-! ## Sets -/

def nameOf : CharClass → Char
  | ⟨false, .digit⟩ => 'd'
  | ⟨true, .digit⟩ => 'D'
  | ⟨false, .blank⟩ => 's'
  | ⟨true, .blank⟩ => 'S'
  | ⟨false, .word⟩ => 'w'
  | ⟨true, .word⟩ => 'W'

inductive Item where
  | single (letter : Letter)
  | range (first last : Letter)
  | kind (cls : CharClass)
deriving Repr, DecidableEq

namespace Item

def signs : Item → List Sign
  | .single letter => letter.signs
  | .range first last => first.signs ++ .plain '-' :: last.signs
  | .kind cls => [.escaped (nameOf cls)]

/-- Whether an item stands for a character, regardless of case. -/
def meets (c : Char) : Item → Bool
  | .single letter => hasForm c (· == letter.code)
  | .range first last =>
      hasForm c fun code => first.code ≤ code && code ≤ last.code
  | .kind cls => cls.has c

/-- Whether an item can be written in this way.  A closing bracket cannot end a
range. -/
def isProper : Item → Bool
  | .single letter => letter.isProper true
  | .range first last =>
    first.isProper true && last.isProper true && last != .plain ']' &&
      first.code ≤ last.code
  | .kind _ => true

/-- The character itself that an item starts with. -/
def start? : Item → Option Char
  | .single (.plain c) => some c
  | .range (.plain c) _ => some c
  | _ => none

/-- Whether a hyphen behind the item would make it a range. -/
def isOpen : Item → Bool
  | .range _ _ => false
  | _ => true

def endsBefore (next : Option Sign) : Item → Bool
  | .single letter => letter.endsBefore next
  | .range _ last => last.endsBefore next
  | .kind _ => true

def member : Item → Member
  | .single letter => .single letter.code
  | .range first last => .range first.code last.code
  | .kind cls => .named cls

end Item

/-- The members of a set, each of which is kept once. -/
def membersOf (items : List Item) : List Member :=
  (items.map Item.member).eraseDups

/-- The signs of a set behind its opening bracket and perhaps a caret. -/
def closing (items : List Item) : List Sign :=
  items.flatMap Item.signs ++ [.plain ']']

/-- Whether items can be written one after the other.  A caret must not be taken
for a negation, a closing bracket comes first, and a hyphen stands where it
cannot make a range: at the beginning, behind a range or at the end. -/
def areProper (negated : Bool) : (first afterOpen : Bool) → List Item → Bool
  | _, _, [] => true
  | first, afterOpen, item :: rest =>
    item.isProper && item.endsBefore (closing rest).head? &&
      (match item.start? with
        | some '^' => negated || !first
        | some ']' => first
        | some '-' =>
          !afterOpen || (item == .single (.plain '-') && rest.isEmpty)
        | _ => true) &&
      areProper negated false item.isOpen rest

/-! ## Expressions -/

mutual

inductive Atom where
  | letter (letter : Letter)
  | anyCharacter
  | kind (cls : CharClass)
  | set (negated : Bool) (items : List Item)
  | group (body : Body)

inductive Piece where
  | once (atom : Atom)
  /-- Repetitions, of which more or fewer are tried first. -/
  | repeated (count : Count) (lazy : Bool) (atom : Atom)

inductive Sequence where
  | nothing
  | next (piece : Piece) (rest : Sequence)

inductive Body where
  | last (alternative : Sequence)
  | or (alternative : Sequence) (rest : Body)

end

def countMark : Count → Char
  | .anyNumber => '*'
  | .oneOrMore => '+'
  | .atMostOne => '?'

mutual

def Atom.signs : Atom → List Sign
  | .letter letter => letter.signs
  | .anyCharacter => [.plain '.']
  | .kind cls => [.escaped (nameOf cls)]
  | .set negated items =>
    .plain '[' :: ((if negated then [.plain '^'] else []) ++ closing items)
  | .group body => .plain '(' :: (body.signs ++ [.plain ')'])

def Piece.signs : Piece → List Sign
  | .once atom => atom.signs
  | .repeated count lazy atom =>
    atom.signs ++ .plain (countMark count) ::
      (if lazy then [.plain '?'] else [])

def Sequence.signs : Sequence → List Sign
  | .nothing => []
  | .next piece rest => piece.signs ++ rest.signs

def Body.signs : Body → List Sign
  | .last alternative => alternative.signs
  | .or alternative rest => alternative.signs ++ .plain '|' :: rest.signs

end

def Atom.endsBefore (next : Option Sign) : Atom → Bool
  | .letter character => character.endsBefore next
  | _ => true

def Piece.endsBefore (next : Option Sign) : Piece → Bool
  | .once atom => atom.endsBefore next
  | _ => true

def behindDigits (signs : List Sign) : List Sign :=
  signs.dropWhile fun sign =>
    match sign with
    | .plain c => c.isDigit
    | _ => false

/-- Whether signs start with a number of repetitions in braces, or with bounds
for it.  There is no place for this here. -/
def startsWithCount : List Sign → Bool
  | .plain '{' :: inner =>
    let behind := behindDigits inner
    let behind :=
      if behind.head? = some (.plain ',') then behindDigits behind.tail
      else behind
    behind.head? = some (.plain '}') && inner.head? ≠ some (.plain '}')
  | _ => false

mutual

/-- Whether an expression can be written in this way. -/
def Atom.isProper : Atom → Bool
  | .letter letter => letter.isProper false
  | .anyCharacter => true
  | .kind _ => true
  | .set negated items => !items.isEmpty && areProper negated true false items
  | .group body => body.isProper

def Piece.isProper : Piece → Bool
  | .once atom => atom.isProper
  | .repeated _ _ atom => atom.isProper

def Sequence.isProper : Sequence → Bool
  | .nothing => true
  | .next piece rest =>
    piece.isProper && piece.endsBefore rest.signs.head? &&
      !startsWithCount (piece.signs ++ rest.signs) && rest.isProper

def Body.isProper : Body → Bool
  | .last alternative => alternative.isProper
  | .or alternative rest => alternative.isProper && rest.isProper

end

/-! ## Languages -/

def oneOf (test : Char → Bool) : Language Char :=
  {word | ∃ c, word = [c] ∧ test c = true}

/-- The words that consist of as many words of a language as there may be. -/
def times (language : Language Char) : Count → Language Char
  | .anyNumber => language∗
  | .oneOrMore => language * language∗
  | .atMostOne => 1 + language

mutual

def Atom.language : Atom → Language Char
  | .letter letter => oneOf fun c => hasForm c (· == letter.code)
  | .anyCharacter => oneOf fun c => c != '\n'
  | .kind cls => oneOf fun c => cls.has c
  | .set negated items => oneOf fun c => negated != items.any (·.meets c)
  | .group body => body.language

def Piece.language : Piece → Language Char
  | .once atom => atom.language
  | .repeated count _ atom => times atom.language count

def Sequence.language : Sequence → Language Char
  | .nothing => 1
  | .next piece rest => piece.language * rest.language

def Body.language : Body → Language Char
  | .last alternative => alternative.language
  | .or alternative rest => alternative.language + rest.language

end

/-! ## Alternatives that become one set -/

/-- The set that a piece becomes, if it is a single character. -/
def Piece.set? : Piece → Option CharSet
  | .once (.letter letter) => some ⟨false, [.single letter.code]⟩
  | .once .anyCharacter => some .anyCharacter
  | .once (.kind cls) => some ⟨false, [.named cls]⟩
  | .once (.set negated items) => some ⟨negated, membersOf items⟩
  | _ => none

def Sequence.sets : Sequence → List (Option CharSet)
  | .nothing => []
  | .next piece rest => piece.set? :: rest.sets

def Body.sets : Body → List (List (Option CharSet))
  | .last alternative => [alternative.sets]
  | .or alternative rest => alternative.sets :: rest.sets

/-- The set that an alternative ends with, if it is given by its members. -/
def lastMembers? (alternative : List (Option CharSet)) : Option (List Member) :=
  match alternative.getLast? with
  | some (some ⟨false, members⟩) => some members
  | _ => none

/-- Whether alternatives become one set: they are single characters, behind the
same single characters in all of them, and not all of them are the same. -/
def areJoined : List (List (Option CharSet)) → Bool
  | [] => false
  | first :: others =>
    first.dropLast.all Option.isSome &&
      (first :: others).all (fun alternative =>
        alternative.dropLast == first.dropLast &&
          (lastMembers? alternative).isSome) &&
      others.any (· != first)

/-! ## Capitals beyond the first plane -/

/-- Whether a code point of an expression is met in a word among others as it is
alone: it belongs to the first plane, it is no capital, or no form of it
occurs. -/
def isSteady (word : List Char) (code : Nat) : Bool :=
  code < 0x10000 || (Text.lower (Char.ofNat code)).toNat == code ||
    !word.any fun c => hasForm c (· == code)

end Regex

/-- Whether a member is met in a word among others as it is alone. -/
def Member.isSteady (word : List Char) : Member → Bool
  | .single code => Regex.isSteady word code
  | _ => true

namespace Regex

/-- Whether alternatives have the same words in one set as they have apart. -/
def areSteady (word : List Char)
    (alternatives : List (List (Option CharSet))) : Bool :=
  !areJoined alternatives ||
    (alternatives.filterMap lastMembers?).all (·.all (Member.isSteady word))

mutual

/-- Whether no capital beyond the first plane of which a form occurs in a word
stands in a set with other members, be it in brackets or made of
alternatives. -/
def Atom.isSteady (word : List Char) : Atom → Bool
  | .set _ items =>
    (membersOf items).length ≤ 1 || (membersOf items).all (Member.isSteady word)
  | .group body => body.isEachSteady word && areSteady word body.sets
  | _ => true

def Piece.isSteady (word : List Char) : Piece → Bool
  | .once atom => atom.isSteady word
  | .repeated _ _ atom => atom.isSteady word

def Sequence.isSteady (word : List Char) : Sequence → Bool
  | .nothing => true
  | .next piece rest => piece.isSteady word && rest.isSteady word

def Body.isEachSteady (word : List Char) : Body → Bool
  | .last alternative => alternative.isSteady word
  | .or alternative rest => alternative.isSteady word && rest.isEachSteady word

end

def Body.isSteady (word : List Char) (body : Body) : Bool :=
  body.isEachSteady word && areSteady word body.sets

end Regex

structure Regex where
  body : Regex.Body
  proper : body.isProper = true

namespace Regex

def text (regex : Regex) : String :=
  String.ofList (regex.body.signs.flatMap Pattern.Sign.text)

def language (regex : Regex) : Language Char := regex.body.language

end Regex

end Logo
