import Logo.Bindings
import Mathlib.Tactic

/-!
# Laws of maps from names

Reading a name sees the last write to it and nothing of the writes to other
names.  What a name had before a write can be put back, and then the whole map
is as it was, with the order of its names.
-/

namespace Logo.NameMap

variable {α : Type}

@[simp] theorem get?_nil (name : String) :
    get? ([] : NameMap α) name = none := rfl

theorem get?_cons
    (key : String) (b : α) (rest : NameMap α) (name : String) :
    get? ((key, b) :: rest) name =
      if name = key then some b else get? rest name := by
  unfold get?
  rw [List.lookup_cons]
  by_cases hkey : name = key
  · simp [hkey]
  · have hbeq : (name == key) = false := by simpa using hkey
    rw [hbeq, if_neg hkey]

theorem insert_cons
    (name : String) (a : α) (key : String) (b : α) (rest : NameMap α) :
    insert name a ((key, b) :: rest) =
      if name = key then (name, a) :: rest
      else (key, b) :: insert name a rest := by
  simp [insert]

theorem erase_cons
    (name key : String) (b : α) (rest : NameMap α) :
    erase name ((key, b) :: rest) =
      if name = key then rest else (key, b) :: erase name rest := by
  simp [erase]

@[simp] theorem get?_insert_self
    (name : String) (a : α) (map : NameMap α) :
    get? (insert name a map) name = some a := by
  induction map with
  | nil => simp [insert, get?_cons]
  | cons pair rest ih =>
      obtain ⟨key, b⟩ := pair
      rw [insert_cons]
      by_cases hkey : name = key
      · simp [hkey, get?_cons]
      · simp [hkey, get?_cons, ih]

theorem get?_insert_of_ne
    {name other : String} (hne : other ≠ name) (a : α) (map : NameMap α) :
    get? (insert name a map) other = get? map other := by
  induction map with
  | nil => simp [insert, get?_cons, hne]
  | cons pair rest ih =>
      obtain ⟨key, b⟩ := pair
      rw [insert_cons]
      by_cases hkey : name = key
      · subst key
        simp [get?_cons, hne]
      · simp [hkey, get?_cons, ih]

theorem get?_erase_of_ne
    {name other : String} (hne : other ≠ name) (map : NameMap α) :
    get? (erase name map) other = get? map other := by
  induction map with
  | nil => rfl
  | cons pair rest ih =>
      obtain ⟨key, b⟩ := pair
      rw [erase_cons]
      by_cases hkey : name = key
      · subst key
        simp [get?_cons, hne]
      · simp [hkey, get?_cons, ih]

theorem get?_assign_of_ne
    {name other : String} (hne : other ≠ name)
    (value : Option α) (map : NameMap α) :
    get? (assign name value map) other = get? map other := by
  cases value with
  | none => exact get?_erase_of_ne hne map
  | some a => exact get?_insert_of_ne hne a map

theorem erase_eq_self
    {name : String} {map : NameMap α} (hnone : get? map name = none) :
    erase name map = map := by
  induction map with
  | nil => rfl
  | cons pair rest ih =>
      obtain ⟨key, b⟩ := pair
      rw [get?_cons] at hnone
      rw [erase_cons]
      by_cases hkey : name = key
      · simp [hkey] at hnone
      · rw [if_neg hkey] at hnone
        rw [if_neg hkey, ih hnone]

theorem insert_eq_self
    {name : String} {a : α} {map : NameMap α} (hsome : get? map name = some a) :
    insert name a map = map := by
  induction map with
  | nil => simp at hsome
  | cons pair rest ih =>
      obtain ⟨key, b⟩ := pair
      rw [get?_cons] at hsome
      rw [insert_cons]
      by_cases hkey : name = key
      · rw [if_pos hkey, Option.some.injEq] at hsome
        rw [if_pos hkey, hkey, hsome]
      · rw [if_neg hkey] at hsome
        rw [if_neg hkey, ih hsome]

theorem assign_get?
    (name : String) (map : NameMap α) :
    assign name (get? map name) map = map := by
  cases hvalue : get? map name with
  | none => exact erase_eq_self hvalue
  | some a => exact insert_eq_self hvalue

/-- A write to a name is lost under the next one. -/
theorem assign_insert
    (name : String) (value : Option α) (a : α) (map : NameMap α) :
    assign name value (insert name a map) = assign name value map := by
  induction map with
  | nil => cases value <;> simp [assign, insert, erase]
  | cons pair rest ih =>
      obtain ⟨key, b⟩ := pair
      rw [insert_cons]
      by_cases hkey : name = key
      · cases value <;> simp [assign, insert_cons, erase_cons, hkey]
      · cases value <;> simp [assign, insert_cons, erase_cons, hkey] at ih ⊢ <;>
          exact ih

/-- Putting back what a name had undoes a write to it. -/
theorem assign_get?_insert
    (name : String) (a : α) (map : NameMap α) :
    assign name (get? map name) (insert name a map) = map := by
  rw [assign_insert, assign_get?]

/-- A name that is not there any more once it is removed. -/
def Single (name : String) (map : NameMap α) : Prop :=
  get? (erase name map) name = none

theorem single_nil (name : String) : Single name ([] : NameMap α) := rfl

theorem single_of_get?_eq_none
    {name : String} {map : NameMap α} (hnone : get? map name = none) :
    Single name map := by
  unfold Single
  rw [erase_eq_self hnone, hnone]

theorem single_cons_self
    (name : String) (b : α) (rest : NameMap α) :
    Single name ((name, b) :: rest) ↔ get? rest name = none := by
  simp [Single, erase_cons]

theorem single_cons_of_ne
    {name key : String} (hne : name ≠ key) (b : α) (rest : NameMap α) :
    Single name ((key, b) :: rest) ↔ Single name rest := by
  simp [Single, erase_cons, get?_cons, hne]

theorem Single.insert
    {name : String} {map : NameMap α} (hsingle : Single name map)
    (other : String) (a : α) :
    Single name (insert other a map) := by
  by_cases hother : name = other
  · subst other
    have herase := assign_insert name none a map
    simp only [assign] at herase
    unfold Single
    rw [herase]
    exact hsingle
  · induction map with
    | nil => exact (single_cons_of_ne hother a []).mpr (single_nil name)
    | cons pair rest ih =>
        obtain ⟨key, b⟩ := pair
        rw [insert_cons]
        by_cases hname : name = key
        · subst key
          rw [single_cons_self] at hsingle
          rw [if_neg (Ne.symm hother), single_cons_self,
            get?_insert_of_ne hother, hsingle]
        · rw [single_cons_of_ne hname] at hsingle
          by_cases hkey : other = key
          · rw [if_pos hkey, single_cons_of_ne hother]
            exact hsingle
          · rw [if_neg hkey, single_cons_of_ne hname]
            exact ih hsingle

theorem Single.erase
    {name : String} {map : NameMap α} (hsingle : Single name map)
    (other : String) :
    Single name (erase other map) := by
  by_cases hother : name = other
  · subst other
    exact single_of_get?_eq_none hsingle
  · induction map with
    | nil => exact hsingle
    | cons pair rest ih =>
        obtain ⟨key, b⟩ := pair
        rw [erase_cons]
        by_cases hname : name = key
        · subst key
          rw [single_cons_self] at hsingle
          rw [if_neg (Ne.symm hother), single_cons_self,
            get?_erase_of_ne hother, hsingle]
        · rw [single_cons_of_ne hname] at hsingle
          by_cases hkey : other = key
          · rw [if_pos hkey]
            exact hsingle
          · rw [if_neg hkey, single_cons_of_ne hname]
            exact ih hsingle

theorem Single.assign
    {name : String} {map : NameMap α} (hsingle : Single name map)
    (other : String) (value : Option α) :
    Single name (assign other value map) := by
  cases value with
  | none => exact hsingle.erase other
  | some a => exact hsingle.insert other a

theorem get?_assign_self
    {name : String} {map : NameMap α} {value : Option α}
    (hsingle : value = none → Single name map) :
    get? (assign name value map) name = value := by
  cases value with
  | none => exact hsingle rfl
  | some a => exact get?_insert_self name a map

/-! ## Properties of all values -/

def AllNamed (P : String → α → Prop) (map : NameMap α) : Prop :=
  ∀ pair ∈ map, P pair.1 pair.2

section AllNamed

variable {P : String → α → Prop} {map : NameMap α}

theorem mem_of_get? {name : String} {a : α} (hget : map.get? name = some a) :
    (name, a) ∈ map := by
  obtain ⟨front, back, heq, -⟩ := List.lookup_eq_some_iff.mp hget
  simp [heq]

theorem exists_of_mem {name : String} {a : α} (hmem : (name, a) ∈ map) :
    ∃ b, map.get? name = some b := by
  rw [← Option.isSome_iff_exists]
  induction map with
  | nil => cases hmem
  | cons pair rest ih =>
      obtain ⟨key, b⟩ := pair
      rw [get?_cons]
      split
      next => rfl
      next hne =>
        rcases List.mem_cons.mp hmem with heq | hrest
        · cases heq
          exact absurd rfl hne
        · exact ih hrest

theorem AllNamed.get?
    (hall : map.AllNamed P) {name : String} {a : α}
    (hget : map.get? name = some a) : P name a :=
  hall (name, a) (mem_of_get? hget)

theorem AllNamed.insert (hall : map.AllNamed P) {name : String} {a : α}
    (ha : P name a) :
    (insert name a map).AllNamed P := by
  induction map with
  | nil => simpa [NameMap.insert, AllNamed] using ha
  | cons pair rest ih =>
      obtain ⟨key, b⟩ := pair
      obtain ⟨hfirst, hrest⟩ := List.forall_mem_cons.mp hall
      rw [insert_cons]
      split
      · exact List.forall_mem_cons.mpr ⟨ha, hrest⟩
      · exact List.forall_mem_cons.mpr ⟨hfirst, ih hrest⟩

theorem AllNamed.erase (hall : map.AllNamed P) (name : String) :
    (erase name map).AllNamed P := by
  induction map with
  | nil => exact hall
  | cons pair rest ih =>
      obtain ⟨key, b⟩ := pair
      obtain ⟨hfirst, hrest⟩ := List.forall_mem_cons.mp hall
      rw [erase_cons]
      split
      · exact hrest
      · exact List.forall_mem_cons.mpr ⟨hfirst, ih hrest⟩

theorem AllNamed.assign
    (hall : map.AllNamed P) {name : String} {value : Option α}
    (hvalue : ∀ a ∈ value, P name a) :
    (assign name value map).AllNamed P := by
  cases value with
  | none => exact hall.erase name
  | some a => exact hall.insert (hvalue a rfl)

end AllNamed

def All (P : α → Prop) (map : NameMap α) : Prop := map.AllNamed fun _ => P

section All

variable {P : α → Prop} {map : NameMap α}

theorem All.get?
    (hall : map.All P) {name : String} {a : α}
    (hget : map.get? name = some a) : P a :=
  AllNamed.get? hall hget

theorem All.insert (hall : map.All P) (name : String) {a : α} (ha : P a) :
    (insert name a map).All P :=
  AllNamed.insert hall ha

theorem All.assign
    (hall : map.All P) (name : String) {value : Option α}
    (hvalue : ∀ a ∈ value, P a) :
    (assign name value map).All P :=
  AllNamed.assign hall hvalue

end All

/-! ## Other values under the same names -/

def mapped {β : Type} (f : α → β) (map : NameMap α) : NameMap β :=
  map.map fun binding => (binding.1, f binding.2)

section Mapped

variable {β : Type} (f : α → β)

theorem get?_mapped (map : NameMap α) (name : String) :
    (map.mapped f).get? name = (map.get? name).map f := by
  induction map with
  | nil => rfl
  | cons binding rest ih =>
      obtain ⟨key, a⟩ := binding
      change get? ((key, f a) :: mapped f rest) name = _
      rw [get?_cons, get?_cons, ih]
      split <;> rfl

theorem insert_mapped (name : String) (a : α) (map : NameMap α) :
    insert name (f a) (map.mapped f) = (insert name a map).mapped f := by
  induction map with
  | nil => rfl
  | cons binding rest ih =>
      obtain ⟨key, b⟩ := binding
      change insert name (f a) ((key, f b) :: mapped f rest) = _
      rw [insert_cons, insert_cons, ih]
      split <;> rfl

theorem erase_mapped (name : String) (map : NameMap α) :
    erase name (map.mapped f) = (erase name map).mapped f := by
  induction map with
  | nil => rfl
  | cons binding rest ih =>
      obtain ⟨key, b⟩ := binding
      change erase name ((key, f b) :: mapped f rest) = _
      rw [erase_cons, erase_cons, ih]
      split <;> rfl

theorem assign_mapped (name : String) (a : Option α) (map : NameMap α) :
    assign name (a.map f) (map.mapped f) = (assign name a map).mapped f := by
  cases a with
  | none => exact erase_mapped f name map
  | some a => exact insert_mapped f name a map

end Mapped

/-! ## The same contents -/

/-- Two maps hold the same, in whatever order. -/
def Agree (map map' : NameMap α) : Prop :=
  ∀ name, map.get? name = map'.get? name

theorem Agree.symm {map map' : NameMap α} (hagree : map.Agree map') :
    map'.Agree map :=
  fun name => (hagree name).symm

theorem Agree.insert {map map' : NameMap α} (hagree : map.Agree map')
    (name : String) (a : α) :
    (NameMap.insert name a map).Agree (NameMap.insert name a map') := by
  intro other
  by_cases hother : other = name
  · rw [hother, get?_insert_self, get?_insert_self]
  · rw [get?_insert_of_ne hother, get?_insert_of_ne hother, hagree other]

end Logo.NameMap
