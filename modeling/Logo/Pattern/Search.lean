import Logo.Pattern.Basic

/-!
# Searching for a match

A search walks along a word and tries the alternatives of a pattern one after
the other.  Whatever follows a part of the pattern is given to it as a goal, so
that the part can be tried again in another way when the goal is not reached.

A search leaves a trail: the place where it last stood, and the places where
groups began and ended.  The place is only taken down where there is a choice to
make, and a group that is given up for another alternative may leave its marks
behind.  This matters when a repetition of a group is held: it goes on from the
place where its last, failed attempt stood, and a group may come out of it that
seems to end before it begins.
-/

namespace Logo

/-- Whether a member of a set has capital and small forms.  Everything beyond
the first plane of code points is taken to have them. -/
def Member.hasCase : Member → Bool
  | .single code => code ≥ 0x10000 || Text.hasCase (Char.ofNat code)
  | .range first last =>
    last ≥ 0x10000 || (List.range' first (last + 1 - first)).any
      (Text.hasCase <| Char.ofNat ·)
  | .named _ => false

namespace CharSet

/-- The code point that a set consists of, if it has no case. -/
def plain? (set : CharSet) : Option Nat :=
  match set with
  | ⟨false, [.single code]⟩ =>
      if Text.hasCase (Char.ofNat code) then none else some code
  | _ => none

/-- Whether an alternative can be told by this set from what stands next in a
word: it consists of one character or of several members, without case. -/
def isTelling (set : CharSet) : Bool :=
  if set = anyCharacter then false
  else
    match set.members with
    | [.single _] => set.plain?.isSome
    | members => !members.any Member.hasCase

/-- Whether characters have to be changed to small letters to look for them
among several. -/
def isFolded (set : CharSet) : Bool :=
  match set.members with
  | [.single code] =>
      (Text.kindred.lookup (Text.lower (Char.ofNat code)).toNat).isSome
  | members => members.any Member.hasCase

end CharSet

namespace Pattern

/-- What a search leaves behind: what is left of the word from the place where
it last stood, and how much was left of it where each group began and ended. -/
structure Trail where
  rest : List Char
  marks : List (Option Nat)
deriving Repr, DecidableEq

namespace Trail

def move (trail : Trail) (word : List Char) : Trail :=
  { trail with rest := word }

/-- Takes down a place.  The marks before it that have not been made are left
open. -/
def mark (trail : Trail) (index : Nat) (word : List Char) : Trail :=
  let place := some word.length
  if index < trail.marks.length then
    { trail with marks := trail.marks.set index place }
  else
    let gap := List.replicate (index - trail.marks.length) none
    { trail with marks := trail.marks ++ gap ++ [place] }

/-- Takes back the marks made since an earlier time: all of them, or only those
that did not exist yet. -/
def takeBack (trail earlier : Trail) (all : Bool) : Trail :=
  { trail with
    marks :=
      if all then earlier.marks else trail.marks.take earlier.marks.length }

/-- Whether some group ends before it begins.  Groups have their marks in
pairs. -/
def isTangled : List (Option Nat) → Bool
  | some first :: some last :: marks => first < last || isTangled marks
  | _ :: _ :: marks => isTangled marks
  | _ => false

end Trail

abbrev Outcome := Bool × Trail

/-- What is still to be matched: it is given the rest of the word. -/
abbrev Goal := List Char → Trail → Outcome

/-- The set of the character that a pattern starts with. -/
def opening? : Pattern → Option CharSet
  | .one set => some set
  | .sequence (.one set) _ => some set
  | _ => none

/-- Whether the next character of a word rules an alternative out before it is
tried. -/
def isRuledOut (pattern : Pattern) (word : List Char) : Bool :=
  match pattern.opening? with
  | some set => set.isTelling && !word.head?.any set.has
  | none => false

def isChoice : Pattern → Bool
  | .choice _ _ => true
  | _ => false

/-- Goes on from one place after the other, until the goal is reached. -/
def tryEach (within : Bool) (goal : Goal) (earlier : Trail) :
    (places : List (List Char)) → Trail → Outcome
  | [], trail => (false, trail)
  | word :: places, trail =>
    match goal word (trail.move word) with
    | (true, trail) => (true, trail)
    | (false, trail) =>
      tryEach within goal earlier places (trail.takeBack earlier within)

/-- How many characters at the beginning of a word a repetition can take. -/
def reach (count : Count) (set : CharSet) (word : List Char) : Nat :=
  match count with
  | .atMostOne => ((word.take 1).takeWhile set.has).length
  | _ => (word.takeWhile set.has).length

def counted (set : CharSet) (word : List Char) (taken : Nat)
    (trail : Trail) : Trail :=
  trail.move (if set.isFolded then word.drop taken else word)

/-- Takes as many characters as there are, and then fewer.  If a plain character
comes next, only the places before it are considered. -/
def eagerRun (count : Count) (set : CharSet) (within : Bool) (next : Option Nat)
    (goal : Goal) (word : List Char) (trail : Trail) : Outcome :=
  if word.length < count.least then (false, trail)
  else
    let taken := reach count set word
    let trail := counted set word taken trail
    let places :=
      (List.range (taken + 1 - count.least)).map
        fun fewer => word.drop (taken - fewer)
    let places :=
      places.filter fun place => next.all fun code =>
        place.head?.any (·.toNat == code)
    tryEach within goal trail places trail

/-- Takes one character after the other for as long as the goal is not
reached. -/
def lazyRun (count : Count) (set : CharSet) (within : Bool) (goal : Goal)
    (earlier : Trail) :
    (taken : Nat) → List Char → Trail → Outcome
  | taken, word, trail =>
    if count.allows taken then
      match goal word (trail.move word), word with
      | (true, trail), _ => (true, trail)
      | (false, trail), [] => (false, (trail.takeBack earlier within).move [])
      | (false, trail), c :: word =>
        let trail := trail.takeBack earlier within
        if set.has c then
          lazyRun count set within goal earlier (taken + 1) word
            (counted set (c :: word) 1 trail)
        else (false, trail.move (c :: word))
    else (false, trail)

def repeatCharacter (count : Count) (manner : Manner) (set : CharSet)
    (within : Bool) (next : Option Nat) (goal : Goal) (word : List Char)
    (trail : Trail) : Outcome :=
  match manner with
  | .eager => eagerRun count set within next goal word trail
  | .lazy =>
    let trail := if word.length < count.least then trail else trail.move word
    match count, word with
    | .oneOrMore, [] => (false, trail)
    | .oneOrMore, c :: word =>
      if set.has c then lazyRun count set within goal trail 1 word trail
      else (false, trail)
    | _, _ => lazyRun count set within goal trail 0 word trail
  | .held =>
    if word.length < count.least then (false, trail)
    else
      let taken := reach count set word
      let trail := counted set word taken trail
      if taken < count.least then (false, trail)
      else goal (word.drop taken) trail

/-- Repeats what `once` matches as often as possible, and then less often.  The
number of turns is bounded, since every repetition has to take something away
from the word but for two. -/
def eagerTurns (count : Count) (once : Goal → Goal) (goal : Goal) :
    (turns done : Nat) → (last : Option Nat) → Goal
  | 0, _, _ => goal
  | turns + 1, done, last => fun word trail =>
    let trail := trail.move word
    if done < count.least then
      match once
        (eagerTurns count once goal turns (done + 1) last) word trail with
      | (true, trail) => (true, trail)
      | (false, trail) => (false, trail.move word)
    else
      let further :=
        if count.allows (done + 1) && last != some word.length then
          once (eagerTurns count once goal turns (done + 1)
            (some word.length)) word trail
        else (false, trail)
      match further with
      | (true, trail) => (true, trail)
      | (false, _) =>
        match goal word trail with
        | (true, trail) => (true, trail)
        | (false, trail) => (false, trail.move word)

/-- Repeats what `once` matches only for as long as the goal is not reached. -/
def lazyTurns (count : Count) (once : Goal → Goal) (within : Bool)
    (goal : Goal) :
    (turns done : Nat) → (last : Option Nat) → Goal
  | 0, _, _ => goal
  | turns + 1, done, last => fun word trail =>
    let trail := trail.move word
    if done < count.least then
      match once
        (lazyTurns count once within goal turns (done + 1) last) word trail with
      | (true, trail) => (true, trail)
      | (false, trail) => (false, trail.move word)
    else
      match goal word trail with
      | (true, trail) => (true, trail)
      | (false, failed) =>
        let trail := (failed.takeBack trail within).move word
        if count.allows (done + 1) && last != some word.length then
          let rest :=
            lazyTurns count once within goal turns (done + 1) (some word.length)
          match once rest word trail with
          | (true, trail) => (true, trail)
          | (false, trail) => (false, trail.move word)
        else (false, trail)

/-- The trail after as many repetitions as there are.  The last attempt fails,
and its place is kept but not its marks. -/
def heldTurns (count : Count) (once : Goal) :
    (turns done : Nat) → (last : Option Nat) → Trail → Trail
  | 0, _, _, trail => trail
  | turns + 1, done, last, trail =>
    if count.allows (done + 1) && last != some trail.rest.length then
      match once trail.rest trail with
      | (true, further) =>
        heldTurns count once turns (done + 1) (some trail.rest.length) further
      | (false, failed) => failed.takeBack trail true
    else trail

/-- Repeats what `once` matches by itself, and sticks to it. -/
def holdTurns (count : Count) (once : Goal) (goal : Goal) :
    Goal := fun word trail =>
  let turns := word.length + 2
  let continued (done : Nat) (trail : Trail) : Outcome :=
    let trail := heldTurns count once turns done none trail
    goal trail.rest trail
  let trail := trail.move word
  if count.least = 0 then continued 0 trail
  else
    match once word trail with
    | (true, trail) => continued 1 trail
    | (false, trail) => (false, trail.move word)

def isAt (whole rest : List Char) (place : Edge) : Bool :=
  let before := (whole.take (whole.length - rest.length)).getLast?
  let isBorder :=
    before.any Text.isWordCharacter != rest.head?.any Text.isWordCharacter
  match place with
  | .start => before.isNone
  | .finish => rest.isEmpty
  | .lastLine => rest.isEmpty || rest == ['\n']
  | .word => !whole.isEmpty && isBorder
  | .inside => !whole.isEmpty && !isBorder

/-- The text that a group has matched, if it has ended behind its beginning. -/
def textOf (whole : List Char) (marks : List (Option Nat)) (number : Nat) :
    Option (List Char) :=
  match marks[2 * number]?.join, marks[2 * number + 1]?.join with
  | some first, some last =>
    if first < last then none
    else some ((whole.drop (whole.length - first)).take (first - last))
  | _, _ => none

/-- What is left of a word behind a text, regardless of case. -/
def behind (text word : List Char) : Option (List Char) :=
  if (word.take text.length).map Text.lower = text.map Text.lower then
    some (word.drop text.length)
  else none

/-- Matches a pattern with the beginning of what is left of a whole word and
goes on to the goal.  It is known whether the pattern stands in a repetition of
a group that is not held, where all marks are taken back, and which plain
character follows directly, if one does. -/
def attempt (whole : List Char) :
    Pattern → (within : Bool) → (next : Option Nat) → Goal → Goal
  | .empty, _, _, goal, word, trail => goal word trail
  | .one _, _, _, _, [], trail => (false, trail)
  | .one set, _, _, goal, c :: word, trail =>
    if set.has c then goal word trail else (false, trail)
  | .sequence first second, within, next, goal, word, trail =>
    first.attempt whole within (second.opening?.bind CharSet.plain?)
      (second.attempt whole within next goal) word trail
  | .choice first second, within, _, goal, word, trail =>
    let tried :=
      if first.isRuledOut word then (false, trail)
      else first.attempt whole within none goal word (trail.move word)
    match tried with
    | (true, trail) => (true, trail)
    | (false, failed) =>
      let trail := failed.takeBack trail within
      if second.isRuledOut word then (false, trail)
      else
        let start := if second.isChoice then trail else trail.move word
        match second.attempt whole within none goal word start with
        | (true, trail) => (true, trail)
        | (false, failed) => (false, failed.takeBack trail within)
  | .group number pattern, within, _, goal, word, trail =>
    let ended : Goal :=
      fun word trail => goal word (trail.mark (2 * number + 1) word)
    pattern.attempt whole within none ended word (trail.mark (2 * number) word)
  | .repeated count manner (.one set), within, next, goal, word, trail =>
    repeatCharacter count manner set within next goal word trail
  | .repeated count .eager pattern, _, _, goal, word, trail =>
    eagerTurns count (pattern.attempt whole true none) goal
      (word.length + 3) 0 none word trail
  | .repeated count .lazy pattern, within, _, goal, word, trail =>
    lazyTurns count (pattern.attempt whole true none) within goal
      (word.length + 3) 0 none word trail
  | .repeated count .held pattern, within, _, goal, word, trail =>
    let once :=
      pattern.attempt whole within none
        fun word trail => (true, trail.move word)
    holdTurns count once goal word trail
  | .edge place, _, _, goal, word, trail =>
    if isAt whole word place then goal word trail else (false, trail)
  | .copy number, _, _, goal, word, trail =>
    match (textOf whole trail.marks number).bind (behind · word) with
    | some rest => goal rest trail
    | none => (false, trail)

def search (pattern : Pattern) (word : List Char) : Outcome :=
  let goal : Goal := fun rest trail => (rest.isEmpty, trail)
  pattern.attempt word false none goal word ⟨word, []⟩

def accepts (pattern : Pattern) (word : List Char) : Bool :=
  if pattern.isRegular then pattern.has word else (pattern.search word).1

/-- Whether a word only matches a pattern with a group that ends before it
begins. -/
def isTangledBy (pattern : Pattern) (word : List Char) : Bool :=
  if pattern.isRegular then false
  else
    let (found, trail) := pattern.search word
    found && Trail.isTangled trail.marks

end Pattern

end Logo
