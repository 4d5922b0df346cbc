import Logo.Flock.Command
import Mathlib.Tactic

/-!
# The members of a flock

Addressing a turtle adds at most this turtle to the flock and takes nobody away.
A number that names a turtle which is already there leaves the turtles as they
are.
-/

namespace Logo.Flock

theorem contains_iff (flock : Flock) (ident : Nat) :
    flock.contains ident = true ↔
      ∃ turtle ∈ flock.turtles, turtle.ident = ident := by
  simp [contains, get?, List.find?_isSome]

theorem ident_of_get?
    {flock : Flock} {ident : Nat} {turtle : Turtle}
    (hget : flock.get? ident = some turtle) :
    turtle.ident = ident := by
  simpa using List.find?_some hget

theorem contains_of_get?
    {flock : Flock} {ident : Nat} {turtle : Turtle}
    (hget : flock.get? ident = some turtle) :
    flock.contains ident = true := by
  simp [contains, hget]

private theorem exists_of_mem_mapM
    {ε α β : Type} {f : α → Except ε β} {items : List α} {results : List β}
    {result : β} (hmap : items.mapM f = .ok results) (hmem : result ∈ results) :
    ∃ item ∈ items, f item = .ok result := by
  induction items generalizing results with
  | nil =>
      simp only [List.mapM_nil, pure, Except.pure, Except.ok.injEq] at hmap
      simp [← hmap] at hmem
  | cons item rest ih =>
      rw [List.mapM_cons] at hmap
      cases hitem : f item with
      | error fault => simp [hitem, bind, Except.bind] at hmap
      | ok first =>
          cases hrest : rest.mapM f with
          | error fault => simp [hitem, hrest, bind, Except.bind] at hmap
          | ok others =>
              simp only [hitem, hrest, bind, Except.bind, pure, Except.pure,
                Except.ok.injEq] at hmap
              rw [← hmap, List.mem_cons] at hmem
              rcases hmem with rfl | hmem
              · exact ⟨item, List.mem_cons_self, hitem⟩
              · obtain ⟨other, hother, hresult⟩ := ih hrest hmem
                exact ⟨other, List.mem_cons_of_mem item hother, hresult⟩

/-- The turtles that listen exist. -/
theorem contains_of_mem_listeners
    {flock : Flock} {turtles : List Turtle} {turtle : Turtle}
    (hlisteners : flock.listeners = .ok turtles) (hmem : turtle ∈ turtles) :
    flock.contains turtle.ident = true := by
  obtain ⟨ident, -, hfound⟩ := exists_of_mem_mapM hlisteners hmem
  cases hget : flock.get? ident with
  | none => simp [hget] at hfound
  | some other =>
      simp only [hget, Except.ok.injEq] at hfound
      subst hfound
      rw [ident_of_get? hget]
      exact contains_of_get? hget

/-- A number that stands for a turtle of the flock or for none at all. -/
def Knows (flock : Flock) (number : Number) : Prop :=
  ∀ ident, identOf number = .ok ident → flock.contains ident = true

theorem identOf_integer
    {n ident : Nat} (hident : identOf (.integer n) = .ok ident) :
    ident = n := by
  unfold identOf at hident
  cases hfinite : arithmetically (Number.integer n).isFinite with
  | error trouble =>
      rw [hfinite] at hident
      simp [bind, Except.bind] at hident
  | ok finite =>
      rw [hfinite] at hident
      simp only [bind, Except.bind, Number.truncate?] at hident
      split at hident
      · simpa [pure, Except.pure] using hident.symm
      · unfold refuse at hident
        cases htext : arithmetically (Number.integer n).text with
        | error trouble => simp [htext, bind, Except.bind] at hident
        | ok text =>
            simp [htext, bind, Except.bind, throw, throwThe,
              MonadExceptOf.throw] at hident

theorem knows_integer
    {flock : Flock} {n : Nat} (hcontains : flock.contains n = true) :
    flock.Knows (.integer n) := by
  intro ident hident
  rw [identOf_integer hident]
  exact hcontains

theorem Knows.of_stays
    {flock later : Flock} {number : Number} (hknows : flock.Knows number)
    (hstays : ∀ ident, flock.contains ident = true →
      later.contains ident = true) :
    later.Knows number :=
  fun ident hident => hstays ident (hknows ident hident)

theorem mem_withTurtle (turtle other : Turtle) (turtles : List Turtle) :
    other ∈ withTurtle turtle turtles ↔ other = turtle ∨ other ∈ turtles := by
  induction turtles with
  | nil => simp [withTurtle]
  | cons first rest ih =>
      unfold withTurtle
      split
      · simp
      · simp only [List.mem_cons, ih]
        tauto

theorem hatch_eq_self
    {flock : Flock} {ident : Nat} (hcontains : flock.contains ident = true) :
    flock.hatch ident = flock := by
  simp [hatch, hcontains]

theorem contains_hatch
    {flock : Flock} {ident : Nat} (hcontains : flock.contains ident = true)
    (hatched : Nat) :
    (flock.hatch hatched).contains ident = true := by
  unfold hatch
  split
  · exact hcontains
  · rw [contains_iff] at hcontains ⊢
    obtain ⟨turtle, hmem, hident⟩ := hcontains
    exact ⟨turtle, (mem_withTurtle _ _ _).mpr (.inr hmem), hident⟩

theorem summon_of_identOf
    {number : Number} {ident : Nat} (hident : identOf number = .ok ident)
    (flock : Flock) :
    flock.summon number = .ok (ident, flock.hatch ident) := by
  simp [summon, hident, bind, Except.bind, pure, Except.pure]

theorem summon_of_error
    {number : Number} {trouble : Trouble}
    (hident : identOf number = .error trouble) (flock : Flock) :
    flock.summon number = .error trouble := by
  simp [summon, hident, bind, Except.bind]

theorem tell_single_of_identOf
    {number : Number} {ident : Nat} (hident : identOf number = .ok ident)
    (flock : Flock) :
    flock.tell [number] =
      (.ok [ident], { flock.hatch ident with active := [ident] }) := by
  simp [tell, summonAll, summon_of_identOf hident]

theorem tell_single_of_error
    {number : Number} {trouble : Trouble}
    (hident : identOf number = .error trouble) (flock : Flock) :
    flock.tell [number] = (.error trouble, flock) := by
  simp [tell, summonAll, summon_of_error hident]

theorem contains_summonAll
    {flock : Flock} {ident : Nat} (hcontains : flock.contains ident = true)
    (numbers : List Number) :
    (flock.summonAll numbers).2.contains ident = true := by
  induction numbers generalizing flock with
  | nil => exact hcontains
  | cons number rest ih =>
      cases hident : identOf number with
      | error trouble =>
          simp only [summonAll, summon_of_error hident]
          exact hcontains
      | ok first =>
          simp only [summonAll, summon_of_identOf hident]
          have hrest := ih (contains_hatch hcontains first)
          split
          next hsummon =>
            rw [hsummon] at hrest
            exact hrest
          next hsummon =>
            rw [hsummon] at hrest
            exact hrest

theorem contains_tell
    {flock : Flock} {ident : Nat} (hcontains : flock.contains ident = true)
    (numbers : List Number) :
    (flock.tell numbers).2.contains ident = true := by
  have hsummoned := contains_summonAll hcontains numbers
  unfold tell
  split
  next hsummon =>
    rw [hsummon] at hsummoned
    exact hsummoned
  next hsummon =>
    rw [hsummon] at hsummoned
    exact hsummoned

theorem contains_put (flock : Flock) (turtle : Turtle) (ident : Nat) :
    (flock.put turtle).contains ident = flock.contains ident := by
  rw [Bool.eq_iff_iff, contains_iff, contains_iff]
  constructor
  · rintro ⟨other, hmem, hident⟩
    obtain ⟨prior, hprior, rfl⟩ := List.mem_map.mp hmem
    refine ⟨prior, hprior, ?_⟩
    split at hident
    next heq => exact heq.trans hident
    next => exact hident
  · rintro ⟨other, hmem, hident⟩
    refine ⟨_, List.mem_map.mpr ⟨other, hmem, rfl⟩, ?_⟩
    split
    next heq => exact heq.symm.trans hident
    next => exact hident

theorem contains_map_ident
    {flock later : Flock}
    (hidents : later.turtles.map (·.ident) = flock.turtles.map (·.ident))
    (ident : Nat) :
    later.contains ident = flock.contains ident := by
  have hmem (members : Flock) :
      members.contains ident = true ↔
        ident ∈ members.turtles.map (·.ident) := by
    rw [contains_iff, List.mem_map]
  rw [Bool.eq_iff_iff, hmem, hmem, hidents]

theorem turtles_of_setBackground
    {flock : Flock} {number : Number} {result : Nat × Flock}
    (hset : flock.setBackground number = .ok result) :
    result.2.turtles = flock.turtles := by
  unfold setBackground at hset
  cases hcolor : flock.color number with
  | error trouble => simp [hcolor, bind, Except.bind] at hset
  | ok color =>
      cases hindex : colorIndex number with
      | error trouble => simp [hcolor, hindex, bind, Except.bind] at hset
      | ok index =>
          simp only [hcolor, hindex, bind, Except.bind, pure, Except.pure,
            Except.ok.injEq] at hset
          rw [← hset]

theorem turtles_of_setPalette
    {flock : Flock} {number red green blue : Number} {result : Nat × Flock}
    (hset : flock.setPalette number red green blue = .ok result) :
    result.2.turtles = flock.turtles := by
  unfold setPalette at hset
  cases hindex : colorIndex number with
  | error trouble => simp [hindex, bind, Except.bind] at hset
  | ok index =>
      simp only [hindex, bind, Except.bind] at hset
      split at hset
      · cases hset
      · split at hset
        · cases hset
          rfl
        · split at hset
          · cases hset
            rfl
          · cases hset

/-- A command to the flock changes nobody's number. -/
theorem idents_of_update
    {command : FlockCommand} {operands : List Number} {flock later : Flock}
    {answer : Option Number}
    (hupdate : command.update operands flock = .ok (later, answer)) :
    later.turtles.map (·.ident) = flock.turtles.map (·.ident) := by
  unfold FlockCommand.update at hupdate
  split at hupdate
  next index =>
    cases hset : flock.setBackground index with
    | error trouble => simp [hset, bind, Except.bind] at hupdate
    | ok result =>
        simp only [hset, bind, Except.bind, pure, Except.pure, Except.ok.injEq,
          Prod.mk.injEq] at hupdate
        rw [← hupdate.1, turtles_of_setBackground hset]
  next index red green blue =>
    cases hset : flock.setPalette index red green blue with
    | error trouble => simp [hset, bind, Except.bind] at hupdate
    | ok result =>
        simp only [hset, bind, Except.bind, pure, Except.pure, Except.ok.injEq,
          Prod.mk.injEq] at hupdate
        rw [← hupdate.1, turtles_of_setPalette hset]
  next =>
    cases hupdate
    simp [Function.comp_def]
  next =>
    cases hupdate
    rfl
  next => cases hupdate

end Logo.Flock
