import Logo.Bindings
import Logo.Proofs.NameMap

/-!
# Opening and closing a local scope

A local binding puts what a name had on top of the frames of this name, and the
end of the scope takes it from there.  As long as the frames in between are
those that the opening left, closing restores all frames as they were, and the
entry of the name with them.
-/

namespace Logo

open NameMap

def Entry.ofNumber : Number → Entry
  | .integer n => .integer n
  | .real x => .double x
  | .marked mark => .marked mark

@[simp] theorem Frames.pop?_mk_nil (newest : Option Entry) :
    (Frames.mk newest []).pop? = none := rfl

@[simp] theorem Frames.pop?_mk_toList (newest : Option Entry)
    (frames : Frames) :
    (Frames.mk newest frames.toList).pop? = some frames := rfl

namespace Bindings

/-- The table inside of a new local scope. -/
def opened (bindings : Bindings) (name : String) (entry : Entry) : Bindings :=
  { bindings with
    frames :=
      NameMap.insert name ⟨bindings.entries.get? name, bindings.framesOf name⟩
        bindings.frames }.install name entry

/-- The table behind the end of a scope that was opened in another table. -/
def closed (outer inner : Bindings) (name : String) : Bindings :=
  { inner with
    entries := NameMap.assign name (outer.entries.get? name) inner.entries
    frames := outer.frames }.notify

theorem entryOf_number (name : String) (number : Number) :
    entryOf name (.number number) (Value.number number).type =
      .ok (.ofNumber number) := by
  cases number <;> rfl

theorem set_eq_map_install
    (bindings : Bindings) (name : String) (value : Value) (type : ValueType) :
    bindings.set name value type =
      (entryOf name value type).map (bindings.install name) := by
  unfold set
  cases entryOf name value type <;> rfl

theorem set_number
    (bindings : Bindings) (name : String) (number : Number) :
    bindings.set name (.number number) (Value.number number).type =
      .ok (bindings.install name (.ofNumber number)) := by
  rw [set_eq_map_install, entryOf_number]
  rfl

theorem setLocal_eq_map_opened
    (bindings : Bindings) (name : String) (value : Value) (type : ValueType) :
    bindings.setLocal name value type =
      (entryOf name value type).map (bindings.opened name) := by
  unfold setLocal
  cases entryOf name value type <;> rfl

theorem setLocal_number
    (bindings : Bindings) (name : String) (number : Number) :
    bindings.setLocal name (.number number) (Value.number number).type =
      .ok (bindings.opened name (.ofNumber number)) := by
  rw [setLocal_eq_map_opened, entryOf_number]
  rfl

theorem pop?_framesOf
    (bindings : Bindings) (name : String) (newest : Option Entry) :
    (Frames.mk newest (bindings.framesOf name)).pop? =
      bindings.frames.get? name := by
  unfold framesOf
  cases hframes : bindings.frames.get? name with
  | none => simp
  | some frames => simp

/-- Closing a scope succeeds and restores the frames, whatever has become of the
entries. -/
theorem removeLocal_eq_closed
    {outer inner : Bindings} {name : String} {entry : Entry}
    (hframes : inner.frames = (outer.opened name entry).frames) :
    inner.removeLocal name = .ok (outer.closed inner name) := by
  have hopened :
      inner.frames =
        NameMap.insert name ⟨outer.entries.get? name, outer.framesOf name⟩
          outer.frames := hframes
  have htop :
      inner.frames.get? name =
        some ⟨outer.entries.get? name, outer.framesOf name⟩ := by
    rw [hopened, get?_insert_self]
  have hrest :
      NameMap.assign name (outer.frames.get? name) inner.frames =
        outer.frames := by
    rw [hopened, assign_get?_insert]
  unfold removeLocal
  rw [htop]
  simp only [pop?_framesOf, hrest]
  rfl

/-- Closing a scope gives back all entries in their order, if the entries in
between differ from those at the opening in nothing but the name of the
scope. -/
theorem closed_entries_eq
    {outer inner : Bindings} {name : String} {entry : Entry}
    (hentries :
      ∀ value, NameMap.assign name value inner.entries =
        NameMap.assign name value (outer.opened name entry).entries) :
    (outer.closed inner name).entries = outer.entries := by
  change NameMap.assign name (outer.entries.get? name) inner.entries =
    outer.entries
  rw [hentries]
  exact assign_get?_insert name entry outer.entries

end Bindings

end Logo
