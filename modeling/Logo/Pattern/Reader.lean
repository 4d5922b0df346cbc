import Logo.Pattern.Basic
import Logo.Pattern.Flaw

/-!
# Reading patterns

Patterns are written as regular expressions: characters stand for themselves, a
backslash takes a character literally or names one, a class of them, a place or
a group, a point stands for any character, brackets hold a set, parentheses
group, a bar separates alternatives, and `*`, `+` and `?` repeat what stands
before them.  Behind a repetition, `?` has fewer repetitions tried before more
and `+` holds it to the first match.

This is not all that regular expressions can say elsewhere.  Numbers of
repetitions in braces, such as `{2,3}`, groups that begin with `(?`, such as
`(?:a|b)`, and characters called by their names with `\N` are not part of the
notation read here: braces stand for themselves, a question mark behind an
opening parenthesis has nothing to repeat, and `\N` is a bad escape.

An expression is read sign by sign, with a stack of the groups that are still
open.  A backslash and the character behind it are one sign, and one that ends
the expression is noticed as soon as the sign before it is read.
-/

namespace Logo.Pattern

/-- A character, perhaps behind a backslash, or a backslash with nothing behind
it. -/
inductive Sign where
  | plain (c : Char)
  | escaped (c : Char)
  | cut
deriving Repr, DecidableEq

def Sign.text : Sign → List Char
  | .plain c => [c]
  | .escaped c => ['\\', c]
  | .cut => ['\\']

def signs : List Char → List Sign
  | [] => []
  | ['\\'] => [.cut]
  | '\\' :: c :: rest => .escaped c :: signs rest
  | c :: rest => .plain c :: signs rest

/-- A bracketed set in the middle of being read.  What was read last may still
turn out to be the low end of a range, and a hyphen after it may announce the
high end. -/
structure OpenSet where
  start : Nat
  negated : Bool
  fresh : Bool
  members : List Member
  /-- The last member and how it was written. -/
  last : Option (Member × List Char)
  hyphen : Bool

namespace OpenSet

def opened (position : Nat) : OpenSet :=
  ⟨position, false, true, [], none, false⟩

def flushed (set : OpenSet) : List Member :=
  set.members ++ (set.last.map (·.1)).toList

/-- Takes in one more member, or the high end of a range, which ends at the
given position. -/
def add (set : OpenSet) (member : Member) (text : List Char) (position : Nat) :
    Except Flaw OpenSet :=
  match set.last, set.hyphen with
  | some (low, lowText), true =>
    let flaw : Flaw := ⟨.badRange (String.ofList lowText) (String.ofList text),
      position - (lowText.length + 1 + text.length)⟩
    match low, member with
    | .single low, .single high =>
      if high < low then throw flaw
      else
        return { set with
          members := set.members ++ [.range low high], last := none,
          hyphen := false }
    | _, _ => throw flaw
  | _, _ =>
    return { set with
      members := set.flushed, last := some (member, text), fresh := false }

/-- The finished set.  A hyphen without a high end is a member itself. -/
def finish (set : OpenSet) : CharSet :=
  let members :=
    set.flushed ++ (if set.hyphen then [Member.single '-'.toNat] else [])
  ⟨set.negated, members.eraseDups⟩

end OpenSet

/-- A part of an alternative: a character, a place or a copy, or anything
longer. -/
inductive Part where
  | simple (p : Pattern)
  | compound (p : Pattern)
deriving DecidableEq

def Part.pattern : Part → Pattern
  | .simple p => p
  | .compound p => p

/-- An open group: its number unless it is the whole text, where it starts, its
finished alternatives, and the parts of the one being read, newest first. -/
structure OpenGroup where
  number : Option Nat
  start : Nat
  alternatives : List (List Part)
  parts : List Part

def inSequence : List Pattern → Pattern
  | [] => .empty
  | [p] => p
  | p :: rest => .sequence p (inSequence rest)

def inChoice : List Pattern → Pattern
  | [] => .empty
  | [p] => p
  | p :: rest => .choice p (inChoice rest)

/-- The simple parts that all alternatives start with, and what is left of
each. -/
def sharedStart : (first : List Part) → (others : List (List Part)) →
    List Pattern × List (List Part)
  | .simple p :: rest, others =>
    if others.all fun parts => parts.head? = some (.simple p) then
      let (shared, alternatives) := sharedStart rest (others.map List.tail)
      (p :: shared, alternatives)
    else ([], (.simple p :: rest) :: others)
  | first, others => ([], first :: others)

/-- The members that a part stands for, if it is a character out of a set given
by its members. -/
def Part.members? : List Part → Option (List Member)
  | [.simple (.one ⟨false, members⟩)] => some members
  | _ => none

/-- A choice between alternatives.  If each of them is a single character, they
make up one set. -/
def choiceOf (alternatives : List (List Part)) : Pattern :=
  match alternatives.mapM Part.members? with
  | some members => .one ⟨false, members.flatten.eraseDups⟩
  | none =>
      inChoice
        (alternatives.map fun parts => inSequence (parts.map Part.pattern))

namespace OpenGroup

def add (group : OpenGroup) (part : Part) : OpenGroup :=
  { group with parts := part :: group.parts }

def next (group : OpenGroup) : OpenGroup :=
  { group with
    alternatives := group.alternatives ++ [group.parts.reverse], parts := [] }

/-- What the group holds.  What all alternatives start with is read before there
is a choice. -/
def finish (group : OpenGroup) : Pattern :=
  match group.next.alternatives with
  | [] => .empty
  | [parts] => inSequence (parts.map Part.pattern)
  | first :: others =>
    let (shared, alternatives) := sharedStart first others
    inSequence (shared ++ [choiceOf alternatives])

end OpenGroup

/-- What the digits of an escape mean. -/
inductive Numeral where
  /-- A code point in so many hexadecimal digits. -/
  | hexadecimal (digits : Nat)
  /-- A code point in at most three octal digits. -/
  | octal
  /-- A group in at most two decimal digits, or a code point in three octal
  ones. -/
  | reference

def hexadecimal? (c : Char) : Option Nat :=
  if c.isDigit then some (c.toNat - '0'.toNat)
  else if 'a' ≤ c.toLower && c.toLower ≤ 'f' then
    some (c.toLower.toNat - 'a'.toNat + 10)
  else none

def isOctal (c : Char) : Bool := '0' ≤ c && c ≤ '7'

def numeralValue (base : Nat) (digits : List Char) : Nat :=
  digits.foldl (fun value c => base * value + (hexadecimal? c).getD 0) 0

/-- An escape with digits in the middle of being read, perhaps inside of
brackets. -/
structure OpenEscape where
  within : Option OpenSet
  numeral : Numeral
  start : Nat
  text : List Char

def OpenEscape.extend? (escape : OpenEscape) (sign : Sign) :
    Option OpenEscape :=
  match sign with
  | .plain c =>
    let fits :=
      match escape.numeral with
      | .hexadecimal digits =>
        (hexadecimal? c).isSome && escape.text.length < digits + 2
      | .octal => isOctal c && escape.text.length < 4
      | .reference =>
        escape.text.length == 2 && c.isDigit ||
          escape.text.length == 3 &&
            (escape.text.drop 1).all isOctal && isOctal c
    if fits then some { escape with text := escape.text ++ [c] } else none
  | _ => none

/-- What the next sign belongs to. -/
inductive Reading where
  | plain
  | set (set : OpenSet)
  | escape (escape : OpenEscape)

inductive Treatment where
  | none
  /-- It has been made by repeating another part, in a manner that may still be
  changed. -/
  | repeated (count : Count) (p : Pattern)
  /-- Nothing more can be done to it. -/
  | finished

structure Reader where
  /-- Where the next sign stands. -/
  position : Nat
  /-- How many groups have been opened so far. -/
  opened : Nat
  outer : List OpenGroup
  group : OpenGroup
  reading : Reading
  treatment : Treatment

inductive Escape where
  | character (c : Char)
  | named (cls : CharClass)
  | edge (place : Edge)
  | numeral (numeral : Numeral)
  | wrong

/-- What a character stands for behind a backslash, inside of brackets or
outside.  The letters and digits that have no meaning are kept for later. -/
def escapeMeaning (c : Char) (within : Bool) : Escape :=
  match c with
  | 'n' => .character '\n'
  | 'r' => .character '\r'
  | 't' => .character '\t'
  | 'f' => .character (Char.ofNat 0x0C)
  | 'v' => .character (Char.ofNat 0x0B)
  | 'a' => .character (Char.ofNat 0x07)
  | 'd' => .named ⟨false, .digit⟩
  | 'D' => .named ⟨true, .digit⟩
  | 's' => .named ⟨false, .blank⟩
  | 'S' => .named ⟨true, .blank⟩
  | 'w' => .named ⟨false, .word⟩
  | 'W' => .named ⟨true, .word⟩
  | 'x' => .numeral (.hexadecimal 2)
  | 'u' => .numeral (.hexadecimal 4)
  | 'U' => .numeral (.hexadecimal 8)
  | '0' => .numeral .octal
  | 'b' => if within then .character (Char.ofNat 0x08) else .edge .word
  | 'B' => if within then .wrong else .edge .inside
  | 'A' => if within then .wrong else .edge .start
  | 'Z' => if within then .wrong else .edge .finish
  | _ =>
    if c.isDigit then
      if !within then .numeral .reference
      else if isOctal c then .numeral .octal
      else .wrong
    else if c.isAlpha then .wrong
    else .character c

namespace Reader

def start : Reader := ⟨0, 0, [], ⟨none, 0, [], []⟩, .plain, .none⟩

def add (reader : Reader) (part : Part) : Reader :=
  { reader with
    group := reader.group.add part, reading := .plain, treatment := .none }

def addSet (reader : Reader) (set : CharSet) : Reader :=
  reader.add (.simple (.one set))

def addMember (reader : Reader) (within : Option OpenSet) (member : Member)
    (text : List Char) :
    Except Flaw Reader :=
  match within with
  | none => return reader.addSet ⟨false, [member]⟩
  | some set =>
    return { reader with
      reading := .set (← set.add member text reader.position) }

/-- Takes in the group that an escape refers to, which has to be closed. -/
def addCopy (reader : Reader) (number start : Nat) : Except Flaw Reader :=
  if number = 0 ∨ reader.opened < number then
    throw ⟨.missingReference number, start + 1⟩
  else if
      (reader.group :: reader.outer).any (·.number == some (number - 1)) then
    throw ⟨.openReference, start⟩
  else return reader.add (.simple (.copy (number - 1)))

def settled (reader : Reader) : Except Flaw Reader :=
  match reader.reading with
  | .escape escape =>
    let text := String.ofList escape.text
    let character (code : Nat) : Except Flaw Reader :=
      reader.addMember escape.within (.single code) (escape.text.take 2)
    let octal : Except Flaw Reader :=
      let code := numeralValue 8 (escape.text.drop 1)
      if 0xFF < code then throw ⟨.largeOctal text, escape.start⟩
      else character code
    match escape.numeral with
    | .hexadecimal digits =>
      let code := numeralValue 16 (escape.text.drop 2)
      if escape.text.length < digits + 2 then
        throw ⟨.incompleteEscape text, escape.start⟩
      else if 0x10FFFF < code then throw ⟨.badEscape text, escape.start⟩
      else character code
    | .octal => octal
    | .reference =>
      if escape.text.length = 4 then octal
      else reader.addCopy (numeralValue 10 (escape.text.drop 1)) escape.start
  | _ => return reader

def escapeStep (reader : Reader) (within : Option OpenSet) (c : Char) :
    Except Flaw Reader :=
  let text := ['\\', c]
  let start := reader.position - 2
  match escapeMeaning c within.isSome with
  | .character d => reader.addMember within (.single d.toNat) text
  | .named cls => reader.addMember within (.named cls) text
  | .edge place => return reader.add (.simple (.edge place))
  | .numeral numeral =>
      return { reader with reading := .escape ⟨within, numeral, start, text⟩ }
  | .wrong => throw ⟨.badEscape (String.ofList text), start⟩

def replaceLast (reader : Reader) (treatment : Treatment)
    (p : Pattern) : Reader :=
  let group :=
    { reader.group with parts := .compound p :: reader.group.parts.tail }
  { reader with group := group, treatment := treatment }

/-- Repeats the part read last, which must not be a place or a repetition
itself. -/
def repeatLast (reader : Reader) (count : Count) : Except Flaw Reader :=
  let position := reader.position - 1
  match reader.group.parts, reader.treatment with
  | [], _ => throw ⟨.nothingToRepeat, position⟩
  | .simple (.edge _) :: _, _ => throw ⟨.nothingToRepeat, position⟩
  | part :: _, .none =>
    return reader.replaceLast (.repeated count part.pattern)
      (.repeated count .eager part.pattern)
  | _, _ => throw ⟨.repeatedTwice, position⟩

def plainStep (reader : Reader) (c : Char) : Except Flaw Reader :=
  let position := reader.position - 1
  match c with
  | '[' => return { reader with reading := .set (.opened position) }
  | '.' => return reader.addSet .anyCharacter
  | '^' => return reader.add (.simple (.edge .start))
  | '$' => return reader.add (.simple (.edge .lastLine))
  | '(' =>
    return { reader with
      opened := reader.opened + 1, outer := reader.group :: reader.outer,
      group := ⟨some reader.opened, position, [], []⟩, treatment := .none }
  | ')' =>
    match reader.outer, reader.group.number with
    | group :: outer, some number =>
      let part := Part.compound (.group number reader.group.finish)
      return { reader with
        outer := outer, group := group.add part, treatment := .none }
    | _, _ => throw ⟨.unopenedGroup, position⟩
  | '|' => return { reader with group := reader.group.next, treatment := .none }
  | '*' => reader.repeatLast .anyNumber
  | '+' =>
    match reader.treatment with
    | .repeated count p =>
      return reader.replaceLast .finished (.repeated count .held p)
    | _ => reader.repeatLast .oneOrMore
  | '?' =>
    match reader.treatment with
    | .repeated count p =>
      return reader.replaceLast .finished (.repeated count .lazy p)
    | _ => reader.repeatLast .atMostOne
  | _ => return reader.addSet (.literal c)

def setStep (reader : Reader) (set : OpenSet) (c : Char) : Except Flaw Reader :=
  if c = '^' ∧ set.fresh ∧ ¬ set.negated then
    return { reader with reading := .set { set with negated := true } }
  else if c = ']' ∧ ¬ set.fresh then return reader.addSet set.finish
  else if c = '-' ∧ set.last.isSome ∧ ¬ set.hyphen then
    return { reader with reading := .set { set with hyphen := true } }
  else reader.addMember (some set) (.single c.toNat) [c]

def step (reader : Reader) (sign : Sign) : Except Flaw Reader :=
  let reader := { reader with position := reader.position + sign.text.length }
  match reader.reading, sign with
  | _, .cut => throw ⟨.cutEscape, reader.position - 1⟩
  | .plain, .plain c => reader.plainStep c
  | .plain, .escaped c => reader.escapeStep none c
  | .set set, .plain c => reader.setStep set c
  | .set set, .escaped c => reader.escapeStep (some set) c
  | .escape escape, sign =>
    return { reader with
      reading := .escape ((escape.extend? sign).getD escape) }

def settledBefore (reader : Reader) (sign : Sign) : Except Flaw Reader :=
  match reader.reading with
  | .escape escape =>
    if (escape.extend? sign).isSome then return reader else reader.settled
  | _ => return reader

def isStray (reader : Reader) (sign : Sign) : Bool :=
  match reader.reading with
  | .plain => sign = .plain ')' && reader.outer.isEmpty
  | _ => false

def takeIn (reader : Reader) : List Sign → Except Flaw Reader
  | [] => reader.settled
  | sign :: rest => do
    let reader ← reader.settledBefore sign
    if rest.head? = some .cut ∧ ¬ reader.isStray sign then
      throw ⟨.cutEscape, reader.position + sign.text.length⟩
    (← reader.step sign).takeIn rest

/-- The pattern read, if nothing is left open. -/
def finish (reader : Reader) : Except Flaw Pattern :=
  match reader.reading, reader.outer with
  | .set set, _ => throw ⟨.openSet, set.start⟩
  | _, [] => return reader.group.finish
  | _, _ => throw ⟨.openGroup, reader.group.start⟩

end Reader

def read (expression : String) : Except Flaw Pattern := do
  (← Reader.start.takeIn (signs expression.toList)).finish

end Logo.Pattern
