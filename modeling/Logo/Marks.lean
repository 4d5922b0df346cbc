import Logo.Value

/-!
# Giving out marks

Something that is not a number gets its mark when it is first kept.  Each turtle
that listens alone has marks of its own, so what a turtle keeps in its turn does
not depend on the turns before it.
-/

namespace Logo

/-- How many marks have been given out under each number, in the order of these
numbers. -/
abbrev Marks := List (Nat × Nat)

namespace Marks

def next (listener : Nat) : Marks → Mark × Marks
  | [] => (⟨listener, 0⟩, [(listener, 1)])
  | (other, given) :: rest =>
    if listener < other then
      (⟨listener, 0⟩, (listener, 1) :: (other, given) :: rest)
    else if listener = other then (⟨listener, given⟩,
      (other, given + 1) :: rest)
    else
      let (mark, rest) := next listener rest
      (mark, (other, given) :: rest)

/-- A number as it is kept: with a mark if it is not a number and has none
yet. -/
def keep (marks : Marks) (listener : Nat) : Number → Number × Marks
  | .real x =>
    if x.isNaN then
      let (mark, marks) := marks.next listener
      (.marked mark, marks)
    else (.real x, marks)
  | number => (number, marks)

def keepEntry (marks : Marks) (listener : Nat) : Entry → Entry × Marks
  | .double x =>
    if x.isNaN then
      let (mark, marks) := marks.next listener
      (.marked mark, marks)
    else (.double x, marks)
  | entry => (entry, marks)

def keepEntries (marks : Marks) (listener : Nat) :
    List (String × Entry) → List (String × Entry) × Marks
  | [] => ([], marks)
  | (name, entry) :: rest =>
    let (entry, marks) := marks.keepEntry listener entry
    let (rest, marks) := marks.keepEntries listener rest
    ((name, entry) :: rest, marks)

end Marks

end Logo
