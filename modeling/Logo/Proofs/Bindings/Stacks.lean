import Logo.Proofs.Bindings.Kept
import Logo.Proofs.Bindings.Scope

/-!
# The table as one stack for each name

To its users the table of variables is a stack of optional entries for each
name: on top what the name is bound to, and below what it was bound to outside
of each of its local scopes.  The table keeps its entries and its frames in two
maps instead, for all names together.  Here the two maps are shown to stay in
step with the stacks through every history of operations, in any order and with
scopes that do not nest.
-/

namespace Logo

open NameMap

/-- The operations that change the table.  Values may be set under each of the
four types. -/
inductive Operation where
  | set (name : String) (value : Value) (type : ValueType)
  | setLocal (name : String) (value : Value) (type : ValueType)
  | removeLocal (name : String)
  | remove (name : String)
  | reset

namespace Operation

/-- Performs operations in order, and tells of each of them with what fault it
failed, if it did.  An operation that fails leaves the state as it was. -/
def performAll {σ : Type} (perform : σ → Operation → Except Fault σ) :
    σ → List Operation → σ × List (Option Fault)
  | state, [] => (state, [])
  | state, operation :: rest =>
      match perform state operation with
      | .ok next =>
          let (final, outcomes) := performAll perform next rest
          (final, none :: outcomes)
      | .error fault =>
          let (final, outcomes) := performAll perform state rest
          (final, some fault :: outcomes)

end Operation

/-- What a name is bound to, and what it was bound to outside of each of its
local scopes, newest first. -/
structure Stack where
  top : Option Entry
  below : List (Option Entry)

namespace Stack

def depth (stack : Stack) : Nat := stack.below.length + 1

def entry (stack : Stack) (name : String) : Except Fault Entry :=
  match stack.top with
  | some entry => .ok entry
  | none => .error (.complaint (.undefined name false none))

/-- Whether a value is of a type.  Any value may be kept as a function. -/
def Fits (value : Value) : ValueType → Prop
  | .integer => ∃ n, value = .number (.integer n)
  | .double => ∃ number, value = .number number ∧ ∀ n, number ≠ .integer n
  | .string => ∃ text, value = .text text
  | .function => True

/-- Every entry, on top or below, has a value of the type that it is tagged
with. -/
def Typed (stack : Stack) : Prop :=
  ∀ slot ∈ stack.top :: stack.below, ∀ entry ∈ slot, Fits entry.value entry.type

theorem typed (stack : Stack) : stack.Typed := by
  intro slot _ entry _
  cases entry with
  | integer n => exact ⟨n, rfl⟩
  | double x => exact ⟨.real x, rfl, by simp⟩
  | marked mark => exact ⟨.marked mark, rfl, by simp⟩
  | string text => exact ⟨text, rfl⟩
  | function value => trivial

end Stack

abbrev Stacks := String → Stack

namespace Stacks

def empty : Stacks := fun _ => ⟨none, []⟩

/-- What each operation does to the stack of its name. -/
def perform (state : Stacks) : Operation → Except Fault Stacks
  | .set name value type => do
      let entry ← Bindings.entryOf name value type
      return Function.update state name ⟨some entry, (state name).below⟩
  | .setLocal name value type => do
      let entry ← Bindings.entryOf name value type
      return Function.update state name
        ⟨some entry, (state name).top :: (state name).below⟩
  | .removeLocal name =>
      match (state name).below with
      | [] => .error (.complaint (.noLocalScope name))
      | top :: below => .ok (Function.update state name ⟨top, below⟩)
  | .remove name =>
      match (state name).top with
      | none => .error (.complaint (.undefined name true none))
      | some _ => .ok (Function.update state name ⟨none, (state name).below⟩)
  | .reset => .ok empty

end Stacks

namespace Bindings

def perform (bindings : Bindings) : Operation → Except Fault Bindings
  | .set name value type => bindings.set name value type
  | .setLocal name value type => bindings.setLocal name value type
  | .removeLocal name => bindings.removeLocal name
  | .remove name => bindings.remove name
  | .reset => .ok bindings.reset

/-- The stacks that a table stands for. -/
def toStacks (bindings : Bindings) : Stacks :=
  fun name => ⟨bindings.entries.get? name, bindings.framesOf name⟩

/-- A table that mentions every name at most once in each of its maps. -/
structure Tidy (bindings : Bindings) : Prop where
  entries : ∀ name, Single name bindings.entries
  frames : ∀ name, Single name bindings.frames

theorem tidy_fresh (observers : Nat) : (fresh observers).Tidy :=
  ⟨single_nil, single_nil⟩

theorem toStacks_congr
    {bindings next : Bindings} {name : String}
    (hentry : next.entries.get? name = bindings.entries.get? name)
    (hframes : next.frames.get? name = bindings.frames.get? name) :
    next.toStacks name = bindings.toStacks name := by
  simp only [toStacks, framesOf, hentry, hframes]

theorem framesOf_of_get?_eq_pop?
    {bindings : Bindings} {name : String} {frames : Frames}
    (hframes : bindings.frames.get? name = frames.pop?) :
    bindings.framesOf name = frames.older := by
  unfold framesOf
  rw [hframes]
  obtain ⟨newest, older⟩ := frames
  cases older with
  | nil => rfl
  | cons next rest => rfl

theorem toStacks_install
    (bindings : Bindings) (name : String) (entry : Entry) :
    (bindings.install name entry).toStacks =
      Function.update bindings.toStacks name
        ⟨some entry, (bindings.toStacks name).below⟩ := by
  rw [Function.eq_update_iff]
  constructor
  · simp only [toStacks, install, notify, get?_insert_self, framesOf]
  · intro other hother
    exact toStacks_congr (get?_insert_of_ne hother entry _) rfl

theorem toStacks_opened
    (bindings : Bindings) (name : String) (entry : Entry) :
    (bindings.opened name entry).toStacks =
      Function.update bindings.toStacks name
        ⟨some entry,
          (bindings.toStacks name).top :: (bindings.toStacks name).below⟩ := by
  rw [Function.eq_update_iff]
  constructor
  · simp only [toStacks, opened, install, notify, framesOf, get?_insert_self,
      Frames.toList]
  · intro other hother
    exact toStacks_congr (get?_insert_of_ne hother entry _)
      (get?_insert_of_ne hother _ _)

theorem toStacks_removeLocal
    {bindings : Bindings} (htidy : bindings.Tidy) (name : String) :
    (bindings.removeLocal name).map toStacks =
      bindings.toStacks.perform (.removeLocal name) := by
  unfold removeLocal
  cases hframes : bindings.frames.get? name with
  | none =>
      simp only [Stacks.perform, toStacks, framesOf, hframes]
      rfl
  | some frames =>
      have hentry :
          get? (NameMap.assign name frames.newest bindings.entries) name =
            frames.newest :=
        get?_assign_self fun _ => htidy.entries name
      have hpopped :
          get? (NameMap.assign name frames.pop? bindings.frames) name =
            frames.pop? :=
        get?_assign_self fun _ => htidy.frames name
      simp only [Stacks.perform, toStacks, framesOf, hframes, Frames.toList]
      apply congrArg Except.ok
      rw [Function.eq_update_iff]
      constructor
      · exact congrArg₂ Stack.mk hentry (framesOf_of_get?_eq_pop? hpopped)
      · intro other hother
        exact toStacks_congr (get?_assign_of_ne hother _ _)
          (get?_assign_of_ne hother _ _)

theorem toStacks_remove
    {bindings : Bindings} (htidy : bindings.Tidy) (name : String) :
    (bindings.remove name).map toStacks =
      bindings.toStacks.perform (.remove name) := by
  unfold remove NameMap.contains
  cases hentry : bindings.entries.get? name with
  | none =>
      simp only [Stacks.perform, toStacks, hentry]
      rfl
  | some entry =>
      have herased : get? (NameMap.erase name bindings.entries) name = none :=
        htidy.entries name
      simp only [Stacks.perform, toStacks, hentry, Option.isSome_some, if_true]
      apply congrArg Except.ok
      rw [Function.eq_update_iff]
      constructor
      · exact congrArg₂ Stack.mk herased rfl
      · intro other hother
        exact toStacks_congr (get?_erase_of_ne hother _) rfl

/-- One operation does to the table what it does to the stacks, and fails where
it fails there. -/
theorem toStacks_perform
    {bindings : Bindings} (htidy : bindings.Tidy) (operation : Operation) :
    (bindings.perform operation).map toStacks =
      bindings.toStacks.perform operation := by
  cases operation with
  | set name value type =>
      simp only [perform, set_eq_map_install, Stacks.perform]
      cases entryOf name value type with
      | error fault => rfl
      | ok entry =>
          exact congrArg Except.ok (toStacks_install bindings name entry)
  | setLocal name value type =>
      simp only [perform, setLocal_eq_map_opened, Stacks.perform]
      cases entryOf name value type with
      | error fault => rfl
      | ok entry =>
          exact congrArg Except.ok (toStacks_opened bindings name entry)
  | removeLocal name => exact toStacks_removeLocal htidy name
  | remove name => exact toStacks_remove htidy name
  | reset => rfl

theorem Tidy.install
    {bindings : Bindings} (htidy : bindings.Tidy) (name : String)
    (entry : Entry) :
    (bindings.install name entry).Tidy :=
  ⟨fun other => (htidy.entries other).insert name entry, htidy.frames⟩

theorem Tidy.opened
    {bindings : Bindings} (htidy : bindings.Tidy) (name : String)
    (entry : Entry) :
    (bindings.opened name entry).Tidy :=
  ⟨fun other => (htidy.entries other).insert name entry,
    fun other => (htidy.frames other).insert name _⟩

/-- An operation that succeeds notifies every observer once and leaves the table
tidy. -/
theorem perform_eq_ok
    {bindings next : Bindings} (htidy : bindings.Tidy) {operation : Operation}
    (hperform : bindings.perform operation = .ok next) :
    next.Tidy ∧ next.alarms = bindings.alarms.map (· + 1) := by
  cases operation with
  | set name value type =>
      simp only [perform, set_eq_map_install] at hperform
      cases hentry : entryOf name value type with
      | error fault => simp [hentry, Except.map] at hperform
      | ok entry =>
          rw [hentry] at hperform
          cases hperform
          exact ⟨htidy.install name entry, rfl⟩
  | setLocal name value type =>
      simp only [perform, setLocal_eq_map_opened] at hperform
      cases hentry : entryOf name value type with
      | error fault => simp [hentry, Except.map] at hperform
      | ok entry =>
          rw [hentry] at hperform
          cases hperform
          exact ⟨htidy.opened name entry, rfl⟩
  | removeLocal name =>
      simp only [perform, removeLocal] at hperform
      split at hperform
      next => cases hperform
      next frames _ =>
        cases hperform
        have hentries (other : String) :=
          (htidy.entries other).assign name frames.newest
        have hframes (other : String) :=
          (htidy.frames other).assign name frames.pop?
        exact ⟨⟨hentries, hframes⟩, rfl⟩
  | remove name =>
      simp only [perform, remove] at hperform
      split at hperform
      next =>
        cases hperform
        have hentries (other : String) := (htidy.entries other).erase name
        exact ⟨⟨hentries, htidy.frames⟩, rfl⟩
      next => cases hperform
  | reset =>
      cases hperform
      exact ⟨⟨single_nil, single_nil⟩, rfl⟩

/-- A whole history does to the table what it does to the stacks, and each
observer is notified as often as an operation succeeds. -/
theorem performAll_toStacks
    {bindings : Bindings} (htidy : bindings.Tidy) (history : List Operation) :
    let course := Operation.performAll perform bindings history
    course.1.Tidy ∧
      Operation.performAll Stacks.perform bindings.toStacks history =
        (course.1.toStacks, course.2) ∧
      course.1.alarms =
        bindings.alarms.map (· + course.2.countP Option.isNone) := by
  induction history generalizing bindings with
  | nil => exact ⟨htidy, rfl, by simp [Operation.performAll]⟩
  | cons operation rest ih =>
      have hstep := toStacks_perform htidy operation
      simp only [Operation.performAll]
      rw [← hstep]
      cases hperform : bindings.perform operation with
      | error fault =>
          obtain ⟨hlast, hsame, halarms⟩ := ih htidy
          simp only [Except.map, hsame, true_and]
          exact ⟨hlast, by simpa using halarms⟩
      | ok next =>
          obtain ⟨hnext, hnotified⟩ := perform_eq_ok htidy hperform
          obtain ⟨hlast, hsame, halarms⟩ := ih hnext
          simp only [Except.map, hsame, true_and]
          refine ⟨hlast, ?_⟩
          rw [halarms, hnotified, List.map_map]
          apply List.map_congr_left
          intro alarms _
          simp only [Function.comp_apply, List.countP_cons,
            Option.isNone_none, if_true]
          omega

/-- The entry for a value has the type that was asked for. -/
theorem type_of_entryOf
    (name : String) (value : Value) (type : ValueType) :
    (entryOf name value type).map Entry.type =
      (entryOf name value type).map fun _ => type := by
  have htype (entry : Entry) (hentry : value.coerce? type = some entry) :
      entry.type = type := by
    cases type with
    | integer =>
        obtain ⟨n, -, rfl⟩ := Option.map_eq_some_iff.mp hentry
        rfl
    | double =>
        simp only [Value.coerce?] at hentry
        unfold Value.doubleEntry? at hentry
        split at hentry
        · cases hentry
          rfl
        · obtain ⟨x, -, rfl⟩ := Option.map_eq_some_iff.mp hentry
          rfl
    | string =>
        obtain ⟨text, -, rfl⟩ := Option.map_eq_some_iff.mp hentry
        rfl
    | function =>
        cases hentry
        rfl
  unfold entryOf
  cases hentry : value.coerce? type with
  | some entry => exact congrArg Except.ok (htype entry hentry)
  | none =>
      simp only
      split
      · rfl
      · rfl

theorem removeLocal_isOk_iff (bindings : Bindings) (name : String) :
    (bindings.removeLocal name).isOk = true ↔
      1 < (bindings.toStacks name).depth := by
  unfold removeLocal Stack.depth toStacks framesOf
  cases bindings.frames.get? name with
  | none => simp [Except.isOk, Except.toBool]
  | some frames => simp [Except.isOk, Except.toBool, Frames.toList]

theorem removeLocal_eq_noLocalScope_iff (bindings : Bindings) (name : String) :
    bindings.removeLocal name = .error (.complaint (.noLocalScope name)) ↔
      (bindings.toStacks name).depth = 1 := by
  unfold removeLocal Stack.depth toStacks framesOf
  cases bindings.frames.get? name with
  | none => simp
  | some frames => simp [Frames.toList]

theorem remove_isOk_iff (bindings : Bindings) (name : String) :
    (bindings.remove name).isOk = true ↔
      (bindings.toStacks name).top ≠ none := by
  unfold remove NameMap.contains toStacks
  cases bindings.entries.get? name with
  | none => simp [Except.isOk, Except.toBool]
  | some entry => simp [Except.isOk, Except.toBool]

theorem remove_eq_undefined_iff (bindings : Bindings) (name : String) :
    bindings.remove name = .error (.complaint (.undefined name true none)) ↔
      (bindings.toStacks name).top = none := by
  unfold remove NameMap.contains toStacks
  cases bindings.entries.get? name with
  | none => simp
  | some entry => simp

end Bindings

/-- The table refines one stack for each name.  After every history of
operations it stands for the stacks that the same history leads to, with the
same failures on the way, and so it does after any further operation.  Ending a
scope fails exactly at depth one, and removing a name exactly when its stack has
nothing on top.  All questions are answered as the stacks say, every entry has a
value of its type, and each observer has been notified once by every operation
that succeeded.  What is put on a stack is what the value is kept as under its
type, and a value that is not kept is refused. -/
theorem table_refines_stacks (observers : Nat) (history : List Operation) :
    let table :=
      (Operation.performAll Bindings.perform (.fresh observers) history).1
    let outcomes :=
      (Operation.performAll Bindings.perform (.fresh observers) history).2
    let state := (Operation.performAll Stacks.perform .empty history).1
    table.toStacks = state ∧
      outcomes = (Operation.performAll Stacks.perform .empty history).2 ∧
      (∀ operation,
        (table.perform operation).map Bindings.toStacks =
          state.perform operation) ∧
      (∀ name,
        ((table.removeLocal name).isOk = true ↔ 1 < (state name).depth) ∧
          (table.removeLocal name = .error (.complaint (.noLocalScope name)) ↔
            (state name).depth = 1)) ∧
      (∀ name,
        ((table.remove name).isOk = true ↔ (state name).top ≠ none) ∧
          (table.remove name = .error (.complaint (.undefined name true none)) ↔
            (state name).top = none)) ∧
      (∀ name,
        table.entry name = (state name).entry name ∧
          table.contains name = (state name).top.isSome ∧
          table.localDepth name + 1 = (state name).depth ∧
          (state name).Typed) ∧
      (∀ name value type,
        (Bindings.entryOf name value type).map Entry.type =
          (Bindings.entryOf name value type).map fun _ => type) ∧
      (∀ name value type,
        (∀ entry, value.KeptAs type entry →
          state.perform (.set name value type) =
              .ok (Function.update state name
                ⟨some entry, (state name).below⟩) ∧
            state.perform (.setLocal name value type) =
              .ok (Function.update state name
                ⟨some entry, (state name).top :: (state name).below⟩)) ∧
          (∀ fault, value.RefusedAs name type fault →
            state.perform (.set name value type) = .error fault ∧
              state.perform (.setLocal name value type) = .error fault) ∧
          ((∃ entry, value.KeptAs type entry) ∨
            ∃ fault, value.RefusedAs name type fault)) ∧
      table.alarms = List.replicate observers
        (outcomes.countP Option.isNone) := by
  intro table outcomes state
  obtain ⟨htidy, hsame, halarms⟩ :=
    Bindings.performAll_toStacks (Bindings.tidy_fresh observers) history
  have hstate : state = table.toStacks := congrArg Prod.fst hsame
  rw [hstate]
  refine ⟨rfl, ?_, ?_, ?_, ?_, ?_, ?_, ?_, ?_⟩
  · exact (congrArg Prod.snd hsame).symm
  · intro operation
    exact Bindings.toStacks_perform htidy operation
  · intro name
    exact ⟨table.removeLocal_isOk_iff name,
      table.removeLocal_eq_noLocalScope_iff name⟩
  · intro name
    exact ⟨table.remove_isOk_iff name, table.remove_eq_undefined_iff name⟩
  · intro name
    exact ⟨rfl, rfl, rfl, Stack.typed _⟩
  · intro name value type
    exact Bindings.type_of_entryOf name value type
  · intro name value type
    refine ⟨fun entry hkept => ?_, fun fault hrefused => ?_, ?_⟩
    · rw [← Bindings.entryOf_eq_ok_iff name] at hkept
      simp only [Stacks.perform, hkept]
      exact ⟨rfl, rfl⟩
    · rw [← Bindings.entryOf_eq_error_iff] at hrefused
      simp only [Stacks.perform, hrefused]
      exact ⟨rfl, rfl⟩
    · exact Bindings.kept_or_refused name value type
  · rw [halarms]
    simp [Bindings.fresh, outcomes]

end Logo
