import Logo.Bindings
import Logo.Marks

/-!
# The world of a program

A program acts on a table of variables and a flock of turtles, and it draws
random numbers from a stream that is given with the world.  The world also gives
out the marks by which something that is not a number is recognised.
-/

namespace Logo

/-- A stream of random numbers between zero and one, and how many of them have
been drawn. -/
structure Draws where
  source : Nat → Float
  used : Nat

namespace Draws

/-- Scrambles the bits of a word, so that neighbouring words come out
unrelated. -/
def scramble (word : UInt64) : UInt64 :=
  let a := (word ^^^ (word >>> 30)) * 0xBF58476D1CE4E5B9
  let b := (a ^^^ (a >>> 27)) * 0x94D049BB133111EB
  b ^^^ (b >>> 31)

/-- A stream of evenly spread numbers that a seed determines: 53 bits of a
scrambled counter. -/
def seeded (seed : UInt64) : Draws where
  source n :=
    let word := scramble (seed + (UInt64.ofNat n + 1) * 0x9E3779B97F4A7C15)
    (word >>> 11).toFloat / 9007199254740992.0
  used := 0

def next (draws : Draws) : Float × Draws :=
  (draws.source draws.used, { draws with used := draws.used + 1 })

end Draws

structure World where
  bindings : Bindings
  flock : Flock
  draws : Draws
  marks : Marks

namespace World

def fresh (observers : Nat) (draws : Draws) : World :=
  ⟨Bindings.fresh observers, Flock.fresh, draws, []⟩

/-- The turtle that listens alone, or zero. -/
def listener (world : World) : Nat :=
  match world.flock.active with
  | [ident] => ident
  | _ => 0

def keep (world : World) (number : Number) : Number × World :=
  let (number, marks) := world.marks.keep world.listener number
  (number, { world with marks := marks })

def withBindings (world : World) (bindings : Bindings) : World :=
  let (entries, marks) :=
    world.marks.keepEntries world.listener bindings.entries
  { world with
    bindings := { bindings with entries := entries }, marks := marks }

end World

end Logo
