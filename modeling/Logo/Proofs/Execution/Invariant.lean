import Logo.Proofs.Execution.Abreast

/-!
# Properties that an execution keeps

A property of the world that survives every single action survives an execution.
This is the case of two executions side by side that start from one and the same
world: they stay in the same world, and the property holds there.  The two ways
to execute the expressions inside of an instruction may still be different ones,
if they only differ in worlds without the property.
-/

namespace Logo

open Logo.Action Execution

/-- What a property of the world has to survive. -/
structure Invariant
    (J : World → Prop) (F : Fault → Prop) (Node Good : Expr → Prop)
    (Local : String → Prop) :
    Prop where
  fault : ∀ fault, fault.isMisdirected = false → F fault
  names : ∀ expr, Node expr → ∀ name ∈ expr.boundNames, Local name
  marks : ∀ world marks, J world → J { world with marks := marks }
  draws : ∀ world draws, J world → J { world with draws := draws }
  select :
    ∀ world idents, J world →
      J { world with flock := { world.flock with active := idents } }
  hatch : ∀ world ident, J world →
    J { world with flock := world.flock.hatch ident }
  bind :
    ∀ world name number, J world → Local name →
      J { world with
        bindings := world.bindings.install name (.ofNumber number) }
  opened :
    ∀ world name number, J world → Local name →
      J { world with bindings := world.bindings.opened name (.ofNumber number) }
  left : ∀ world inner name, J world → J inner → Local name →
    J (world.left inner name)
  define :
    ∀ world head name params brackets body,
      Node (.define head name params brackets body) →
      (∀ part ∈ body, Good part) → J world →
        let procedure : Procedure :=
          ⟨name.procedureName, params.map (·.variableName), body⟩
        J { world with
          bindings :=
            world.bindings.install name.procedureName
              (.function (.procedure procedure)) }
  found :
    ∀ world head args, Node (.call head args) → J world →
      (∃ found,
        procedure (.call head args) head.procedureName args.length world =
          .ok found world ∧ (∀ name ∈ found.params, Local name) ∧
            ∀ part ∈ found.body, Good part) ∨
        ∃ fault, F fault ∧
          procedure (.call head args) head.procedureName args.length world =
            .error fault world
  command :
    ∀ world head command args ident operands,
      Node (.command head command args) → J world → J (finalState
        (commandOne
          (.command head command args) head.text command ident operands world))
  flock :
    ∀ world head command args operands,
      Node (.flock head command args) → J world →
      J (finalState
        (flockCommand
          (.flock head command args) head.text command operands world))

theorem Ending.Abreast.eq_of_diagonal
    {α : Type} {J : World → Prop} {F : Fault → Prop}
    {result result' : EStateM.Result Fault World α}
    (hresult : Ending.Abreast
      (fun world world' => world = world' ∧ J world) F result result') :
    result' = result := by
  cases hresult with
  | value a hworld => rw [hworld.1]
  | failure hfault hworld => rw [hworld.1]

/-- An ending keeps company with itself, if its world has the property and it
fails as it may. -/
theorem Ending.Abreast.diagonal
    {α : Type} {J : World → Prop} {F : Fault → Prop}
    {result : EStateM.Result Fault World α}
    (hfinal : J (Logo.finalState result))
    (hfails : ∀ fault after, result = .error fault after → F fault) :
    Ending.Abreast
      (fun world world' => world = world' ∧ J world) F result result := by
  cases result with
  | ok a after => exact .value a ⟨rfl, hfinal⟩
  | error fault after => exact .failure (hfails fault after rfl) ⟨rfl, hfinal⟩

namespace Invariant

variable {J : World → Prop} {F : Fault → Prop} {Node Good : Expr → Prop}
  {Local : String → Prop}

theorem isMisdirected_of_bare
    {α : Type} {result : Except ArithmeticFault α} {world after : World}
    {fault : Fault} (herror : bare result world = .error fault after) :
    fault.isMisdirected = false := by
  cases result with
  | ok a => cases herror
  | error trouble =>
      cases herror
      rfl

theorem isMisdirected_of_pinning
    {α : Type} {word : String} {place : Expr} {result : Except Trouble α}
    {world after : World} {fault : Fault}
    (herror : pinning word place result world = .error fault after) :
    fault.isMisdirected = false := by
  cases result with
  | ok a => cases herror
  | error trouble =>
      cases herror
      cases trouble <;> rfl

theorem isMisdirected_of_commandOne
    {expr : Expr} {word : String} {command : TurtleCommand} {ident : Nat}
    {operands : List Number} {world after : World} {fault : Fault}
    (herror : commandOne expr word command ident operands world =
      .error fault after) :
    fault.isMisdirected = false := by
  rcases exists_of_bind_eq_error herror with
    hturtle | ⟨before, between, -, hrest⟩
  · rw [Action.turtle_eq] at hturtle
    split at hturtle
    · cases hturtle
    · cases hturtle
      rfl
  rcases exists_of_bind_eq_error hrest with
    hpinning | ⟨⟨changed, answer⟩, later, -, hrest⟩
  · exact isMisdirected_of_pinning hpinning
  cases answer with
  | some number => cases hrest
  | none =>
      rcases exists_of_bind_eq_error hrest with hkeep | ⟨x, later, -, hrest⟩
      · cases hkeep
      rcases exists_of_bind_eq_error hrest with hkeep | ⟨y, later, -, hrest⟩
      · cases hkeep
      rcases exists_of_bind_eq_error hrest with hmodify | ⟨_, last, -, houtcome⟩
      · cases hmodify
      · exact isMisdirected_of_bare houtcome

theorem isMisdirected_of_flockCommand
    {expr : Expr} {word : String} {command : FlockCommand}
    {operands : List Number} {world after : World} {fault : Fault}
    (herror : flockCommand expr word command operands world =
      .error fault after) :
    fault.isMisdirected = false := by
  rcases exists_of_bind_eq_error herror with hget | ⟨now, between, -, hrest⟩
  · cases hget
  rcases exists_of_bind_eq_error hrest with
    hpinning | ⟨⟨flock, answer⟩, later, -, hrest⟩
  · exact isMisdirected_of_pinning hpinning
  · cases hrest

theorem abreast_self
    {α : Type} {action : Action α}
    (hkeeps : ∀ world, J world → J (finalState (action world)))
    (hfails : ∀ world fault after,
      action world = .error fault after → F fault) :
    Abreast (fun world world' => world = world' ∧ J world) F action action := by
  rintro world _ ⟨rfl, hworld⟩
  exact .diagonal (hkeeps world hworld) (hfails world)

theorem bound (hlaw : Invariant J F Node Good Local) {name : String}
    (hname : Local name) (number : Number) :
    Abreast (fun world world' => world = world' ∧ J world) F
      (Action.bind name number) (Action.bind name number) := by
  refine abreast_self (fun world hworld => ?_)
    fun world fault after herror => ?_
  · rw [Action.bind_eq]
    exact hlaw.bind
      (world.keep number).2 name _ (hlaw.marks world _ hworld) hname
  · rw [Action.bind_eq] at herror
    cases herror

theorem regime (hlaw : Invariant J F Node Good Local) :
    Regime (fun (_ : Unit) world world' => world = world' ∧ J world) F Node Good
      Local True where
  fault := hlaw.fault
  entries := by
    rintro _ world _ ⟨rfl, _⟩
    rfl
  frames := by
    rintro _ world _ ⟨rfl, _⟩
    rfl
  active := by
    rintro _ world _ ⟨rfl, _⟩
    rfl
  present := by
    rintro _ world _ ⟨rfl, _⟩ ident -
    rfl
  names := hlaw.names
  scope := by
    rintro _ world _ name number ⟨rfl, hworld⟩ hname
    refine ⟨(), ⟨rfl, ?_⟩, hlaw.bound hname, ?_⟩
    · exact hlaw.opened
        (world.keep number).2 name _ (hlaw.marks world _ hworld) hname
    · rintro inner _ ⟨rfl, hinner⟩
      exact ⟨rfl, hlaw.left world inner name hworld hinner hname⟩
  draw := by
    rintro _ head args -
    refine abreast_self (fun world hworld => hlaw.draws world _ hworld) ?_
    intro world fault after herror
    cases herror
  make := by
    rintro _ head target value number hnode
    exact hlaw.bound (hlaw.names _ hnode _ (by simp [Expr.boundNames])) number
  define := by
    rintro _ world _ head name params brackets body hnode hbody ⟨rfl, hworld⟩
    exact ⟨rfl,
      hlaw.define world head name params brackets body hnode hbody hworld⟩
  found := by
    rintro _ world _ head args hnode ⟨rfl, hworld⟩
    exact hlaw.found world head args hnode hworld
  focus := by
    rintro _ world _ ident ⟨rfl, hworld⟩ -
    exact ⟨rfl, hlaw.select _ [ident] (hlaw.hatch world ident hworld)⟩
  refocus := by
    rintro _ world _ inner _ ⟨rfl, _⟩ ⟨rfl, hinner⟩
    exact ⟨rfl, hlaw.select inner world.flock.active hinner⟩
  command := by
    rintro _ head command args hnode _ - ident operands _ -
    exact abreast_self
      (fun world hworld =>
        hlaw.command world head command args ident operands hnode hworld)
      fun world fault after herror =>
        hlaw.fault fault (isMisdirected_of_commandOne herror)
  flock := by
    rintro _ head command args operands hnode
    exact abreast_self
      (fun world hworld =>
        hlaw.flock world head command args operands hnode hworld)
      fun world fault after herror =>
        hlaw.fault fault (isMisdirected_of_flockCommand herror)
  roams := fun _ _ _ => trivial
  idents := by
    rintro _ - world _ ⟨rfl, _⟩
    rfl
  hatch := by
    rintro _ - world _ ident ⟨rfl, hworld⟩
    exact ⟨rfl, hlaw.hatch world ident hworld⟩
  select := by
    rintro _ - world _ idents ⟨rfl, hworld⟩
    exact ⟨rfl, hlaw.select world idents hworld⟩
  unmark := by
    rintro _ - world _ inner _ ⟨rfl, _⟩ ⟨rfl, hinner⟩
    exact ⟨rfl, hlaw.marks inner world.marks hinner⟩

end Invariant

end Logo
