import Logo.Fault

/-!
# The table of variables and procedures

Each name is bound to at most one entry, so a name can never have a value of one
type and the tag of another.  A local binding puts the entry that a name had, or
the absence of one, on a stack of frames for this name, and ending the local
scope puts exactly that back.  Everyone who watches the table is notified once
by every operation that changes it.
-/

namespace Logo

/-! ## Maps from names, in order of insertion

The table remembers the order in which names came into being: writing to a name
that is present keeps its place, and removing a name and adding it again moves
it to the end. -/

abbrev NameMap (α : Type) := List (String × α)

namespace NameMap

variable {α : Type}

def get? (map : NameMap α) (name : String) : Option α := map.lookup name

def contains (map : NameMap α) (name : String) : Bool := (map.get? name).isSome

/-- Writes to a name, at its place if it is present and at the end if it is
not. -/
def insert (name : String) (a : α) : NameMap α → NameMap α
  | [] => [(name, a)]
  | (key, b) :: rest =>
      if name == key then (name, a) :: rest else (key, b) :: insert name a rest

def erase (name : String) : NameMap α → NameMap α
  | [] => []
  | (key, b) :: rest =>
      if name == key then rest else (key, b) :: erase name rest

def assign (name : String) : Option α → NameMap α → NameMap α
  | none, map => erase name map
  | some a, map => insert name a map

end NameMap

/-! ## The table -/

/-- What a name had before each of its local bindings, newest first.  A name
without local bindings has no frames at all, so there is at least one. -/
structure Frames where
  newest : Option Entry
  older : List (Option Entry)
deriving Repr

namespace Frames

def toList (frames : Frames) : List (Option Entry) :=
  frames.newest :: frames.older

def pop? (frames : Frames) : Option Frames :=
  match frames.older with
  | [] => none
  | newest :: older => some ⟨newest, older⟩

end Frames

/-- The entries in the order of their names' first appearance, the frames that
wait to be restored for each name that has any, and how often each observer has
been notified. -/
structure Bindings where
  entries : NameMap Entry
  frames : NameMap Frames
  alarms : List Nat
deriving Repr

namespace Bindings

def fresh (observers : Nat) : Bindings := ⟨[], [], List.replicate observers 0⟩

def notify (bindings : Bindings) : Bindings :=
  { bindings with alarms := bindings.alarms.map (· + 1) }

def install (bindings : Bindings) (name : String) (entry : Entry) : Bindings :=
  { bindings with entries := NameMap.insert name entry bindings.entries }.notify

/-- A value as an entry of a type.  To say that it cannot be one, the value has
to be written, and that may fail as well. -/
def entryOf (name : String) (value : Value) (type : ValueType) :
    Except Fault Entry :=
  match value.coerce? type with
  | some entry => .ok entry
  | none =>
    match value.shown with
    | .ok shown => .error (.complaint (.illTyped name shown type))
    | .error fault => .error (.arithmetic fault)

def set (bindings : Bindings) (name : String) (value : Value)
    (type : ValueType) :
    Except Fault Bindings := do
  return bindings.install name (← entryOf name value type)

def framesOf (bindings : Bindings) (name : String) : List (Option Entry) :=
  match bindings.frames.get? name with
  | some frames => frames.toList
  | none => []

/-- Binds a name until the matching `removeLocal`. -/
def setLocal (bindings : Bindings) (name : String) (value : Value)
    (type : ValueType) :
    Except Fault Bindings := do
  let entry ← entryOf name value type
  let frames : Frames := ⟨bindings.entries.get? name, bindings.framesOf name⟩
  return { bindings with
    frames := NameMap.insert name frames bindings.frames }.install name entry

/-- Puts back what a name was bound to before its newest local binding. -/
def removeLocal (bindings : Bindings) (name : String) : Except Fault Bindings :=
  match bindings.frames.get? name with
  | none => .error (.complaint (.noLocalScope name))
  | some frames =>
    .ok
      { bindings with
        entries := NameMap.assign name frames.newest bindings.entries
        frames := NameMap.assign name frames.pop? bindings.frames }.notify

/-- Removes the binding of a name, but not its frames. -/
def remove (bindings : Bindings) (name : String) : Except Fault Bindings :=
  if bindings.entries.contains name then
    .ok { bindings with entries := NameMap.erase name bindings.entries }.notify
  else .error (.complaint (.undefined name true none))

def reset (bindings : Bindings) : Bindings :=
  { bindings with entries := [], frames := [] }.notify

def entry (bindings : Bindings) (name : String) : Except Fault Entry :=
  match bindings.entries.get? name with
  | some entry => .ok entry
  | none => .error (.complaint (.undefined name false none))

def contains (bindings : Bindings) (name : String) : Bool :=
  bindings.entries.contains name

def localDepth (bindings : Bindings) (name : String) : Nat :=
  (bindings.framesOf name).length

/-- The names with frames that wait to be restored, in alphabetical order, and
how many. -/
def pending (bindings : Bindings) : List (String × Nat) :=
  (bindings.frames.map fun (name, frames) =>
    (name, frames.toList.length)).mergeSort fun a b => !(b.1 < a.1)

def functions (bindings : Bindings) : List (String × Value) :=
  bindings.entries.filterMap fun
    | (name, .function value) => some (name, value)
    | _ => none

def text (bindings : Bindings) : Except ArithmeticFault String := do
  let lines ← bindings.entries.mapM fun (name, entry) => do
    return name ++ " = " ++ (← entry.value.text?) ++ "\n"
  return String.join lines

end Bindings

end Logo
