import Logo.Proofs.Execution.Abreast
import Logo.Proofs.Execution.Safe
import Logo.Proofs.Flock.Ahead
import Logo.Proofs.Flock.Apart
import Logo.Proofs.Marks

/-!
# The turn of one turtle

While a single turtle listens, and nothing is executed that addresses other
turtles or gives orders to the flock, a program can only change this turtle and
the table.  What it does depends on this turtle, on the table, on the number of
turtles, on the random numbers, and on the marks that the turtle is given, and
on nothing else.  So two worlds that agree on these stay in agreement.

A program that does not bind names for good and draws no random numbers gives
back the table as it was, with the order of its names.
-/

namespace Logo

open Logo.Action Execution

/-- Whether an expression leaves the flock to the turtles that listen, as far as
it itself is concerned. -/
def Expr.keepsToItself : Expr → Bool
  | .tell .. => false
  | .ask .. => false
  | .askWith .. => false
  | .flock _ c _ => c.isQuery
  | _ => true

/-- Whether an expression binds nothing for good and draws no random number, as
far as it itself is concerned. -/
def Expr.isTraceless : Expr → Bool
  | .make .. => false
  | .define .. => false
  | .operation _ operator _ => operator ≠ .random
  | _ => true

/-- What may be executed in a turn; if the turn is not loose, without a
trace. -/
def Expr.FitsTurn (loose : Prop) (expr : Expr) : Prop :=
  ∀ part : Expr, part.Within expr →
    part.keepsToItself = true ∧ (loose ∨ part.isTraceless = true)

/-- Who listens, which turtles there are, everything about the other turtles,
the palette and the background are the same. -/
structure World.Spares (ident : Nat) (before after : World) : Prop where
  active : after.flock.active = before.flock.active
  idents : after.flock.turtles.map (·.ident) =
    before.flock.turtles.map (·.ident)
  others : after.flock.others ident = before.flock.others ident
  palette : after.flock.palette = before.flock.palette
  background : after.flock.background = before.flock.background

/-- Two worlds in which the same turtle has its turn. -/
structure Solo.Opening (ident : Nat) (first first' : World) : Prop where
  active : first.flock.active = [ident]
  active' : first'.flock.active = [ident]
  size : first.flock.size = first'.flock.size
  given : first.marks.given ident = first'.marks.given ident

/-- Two worlds in the middle of a turn that was opened in two others.  The
entries of the table have a property that depends on the scopes which are
open. -/
structure Solo
    (ident : Nat) (loose : Prop) (first first' : World)
    (T : NameMap Entry → Prop) (world world' : World) : Prop where
  spares : first.Spares ident world
  spares' : first'.Spares ident world'
  turtle : world.flock.numbered ident = world'.flock.numbered ident
  entries : world.bindings.entries = world'.bindings.entries
  frames : world.bindings.frames = world'.bindings.frames
  draws : world.draws = world'.draws
  drawn : loose ∨ world.draws = first.draws
  table : T world.bindings.entries
  stored : world.bindings.entries.All (Entry.Sound True (Expr.FitsTurn loose))
  alarms :
    ∃ count,
      world.bindings.alarms = first.bindings.alarms.map (· + count) ∧
        world'.bindings.alarms = first'.bindings.alarms.map (· + count)
  marks :
    ∃ count,
      world.marks = first.marks.advanced ident count ∧
        world'.marks = first'.marks.advanced ident count

namespace Solo

variable {ident : Nat} {loose : Prop} {first first' world world' : World}
  {T U : NameMap Entry → Prop}

theorem given_eq
    (hopening : Opening ident first first')
    (hsolo : Solo ident loose first first' T world world') :
    world.marks.given ident = world'.marks.given ident := by
  obtain ⟨count, hmarks, hmarks'⟩ := hsolo.marks
  rw [hmarks, hmarks', Marks.given_advanced_self, Marks.given_advanced_self,
    hopening.given]

theorem listener_eq
    (hactive : first.flock.active = [ident])
    (hspares : first.Spares ident world) :
    world.listener = ident := by
  unfold World.listener
  rw [hspares.active, hactive]

/-- What a turn can do to the table: the entries and the frames become the same
in both worlds, and the observers are notified equally often. -/
theorem rewritten
    (hsolo : Solo ident loose first first' T world world')
    {entries : NameMap Entry} (htable : U entries)
    (hstored : entries.All (Entry.Sound True (Expr.FitsTurn loose)))
    (frames : NameMap Frames) (alarms marks : Nat) :
    Solo ident loose first first' U
      { world with
        bindings := ⟨entries, frames, world.bindings.alarms.map (· + alarms)⟩
        marks := world.marks.advanced ident marks }
      { world' with
        bindings := ⟨entries, frames, world'.bindings.alarms.map (· + alarms)⟩
        marks := world'.marks.advanced ident marks } := by
  obtain ⟨early, halarms, halarms'⟩ := hsolo.alarms
  obtain ⟨given, hmarks, hmarks'⟩ := hsolo.marks
  have hshift (counts : List Nat) :
      (counts.map (· + early)).map (· + alarms) = counts.map
        (· + (early + alarms)) := by
    rw [List.map_map]
    apply List.map_congr_left
    intro count _
    simp only [Function.comp_apply]
    omega
  constructor
  · exact { hsolo.spares with }
  · exact { hsolo.spares' with }
  · exact hsolo.turtle
  · rfl
  · rfl
  · exact hsolo.draws
  · exact hsolo.drawn
  · exact htable
  · exact hstored
  · refine ⟨early + alarms, ?_, ?_⟩
    · simp only [halarms, hshift]
    · simp only [halarms', hshift]
  · refine ⟨given + marks, ?_, ?_⟩
    · simp only [hmarks, Marks.advanced_advanced]
    · simp only [hmarks', Marks.advanced_advanced]

/-- Both worlds keep a number in the same way. -/
theorem keep_eq
    (hopening : Opening ident first first')
    (hsolo : Solo ident loose first first' T world world') (number : Number) :
    (world.keep number).1 = (world'.keep number).1 ∧
      ∃ count,
        (world.keep number).2 =
          { world with marks := world.marks.advanced ident count } ∧
          (world'.keep number).2 =
            { world' with marks := world'.marks.advanced ident count } := by
  have hlistener := listener_eq hopening.active hsolo.spares
  have hlistener' := listener_eq hopening.active' hsolo.spares'
  obtain ⟨hnumber, count, hmarks, hmarks'⟩ :=
    Marks.keep_agree (hsolo.given_eq hopening) number
  unfold World.keep
  rw [hlistener, hlistener']
  simp only [hnumber, hmarks, hmarks']
  exact ⟨trivial, count, rfl, rfl⟩

theorem marked
    (hsolo : Solo ident loose first first' T world world') (count : Nat) :
    Solo ident loose first first' T
      { world with marks := world.marks.advanced ident count }
      { world' with marks := world'.marks.advanced ident count } := by
  obtain ⟨given, hmarks, hmarks'⟩ := hsolo.marks
  have hadded :
      ∃ total,
        world.marks.advanced ident count = first.marks.advanced ident total ∧
          world'.marks.advanced ident count =
            first'.marks.advanced ident total := by
    refine ⟨given + count, ?_, ?_⟩
    · rw [hmarks, Marks.advanced_advanced]
    · rw [hmarks', Marks.advanced_advanced]
  exact
    { hsolo with
      spares := { hsolo.spares with }
      spares' := { hsolo.spares' with }
      marks := hadded }

theorem of_keep
    (hopening : Opening ident first first') (number : Number) :
    Abreast (Solo ident loose first first' T) (fun _ => True) (keep number)
      (keep number) := by
  intro world world' hsolo
  obtain ⟨hnumber, count, hkept, hkept'⟩ := hsolo.keep_eq hopening number
  rw [Action.keep_eq, Action.keep_eq, hnumber, hkept, hkept']
  exact .value _ (hsolo.marked count)

/-- A turtle is written back. -/
theorem put
    (hsolo : Solo ident loose first first' T world world') {turtle : Turtle}
    (hident : turtle.ident = ident) :
    Solo ident loose first first' T
      { world with flock := world.flock.put turtle }
      { world' with flock := world'.flock.put turtle } := by
  subst hident
  have hspares {start now : World} (hspares : start.Spares turtle.ident now) :
      start.Spares turtle.ident { now with flock := now.flock.put turtle } :=
    { hspares with
      idents := (Flock.Sound.idents_put now.flock turtle).trans hspares.idents
      others := (Flock.others_put now.flock turtle).trans hspares.others }
  have hturtle :
      (world.flock.put turtle).numbered turtle.ident =
        (world'.flock.put turtle).numbered turtle.ident := by
    rw [Flock.numbered_put, Flock.numbered_put, hsolo.turtle]
  exact
    { hsolo with
      spares := hspares hsolo.spares
      spares' := hspares hsolo.spares'
      turtle := hturtle }

theorem of_commandOne
    (hopening : Opening ident first first') (expr : Expr) (word : String)
    (command : TurtleCommand) (operands : List Number) :
    Abreast (Solo ident loose first first' T) (fun _ => True)
      (commandOne expr word command ident operands)
      (commandOne expr word command ident operands) := by
  intro world world' hsolo
  have hget : world'.flock.get? ident = world.flock.get? ident := by
    rw [Flock.get?_eq_head?, Flock.get?_eq_head?, hsolo.turtle]
  have hturtle := Action.turtle_eq ident world
  have hturtle' := Action.turtle_eq ident world'
  rw [hget] at hturtle'
  cases hbefore : world.flock.get? ident with
  | none =>
      rw [hbefore] at hturtle hturtle'
      unfold commandOne
      rw [bind_eq_of_error hturtle, bind_eq_of_error hturtle']
      exact .failure trivial hsolo
  | some before =>
      rw [hbefore] at hturtle hturtle'
      unfold commandOne
      rw [bind_eq_of_ok hturtle, bind_eq_of_ok hturtle']
      refine Abreast.bindAt
        (Abreast.of_pinning (fun _ _ => trivial) word expr _ world world' hsolo)
        ?_ fun _ _ hafter => hafter
      rintro ⟨changed, answer⟩ after after' hrun hafter
      have hupdate := Safe.eq_ok_of_pinning hrun
      have hident : changed.ident = ident := by
        have hidents := command.ident_update operands before
        rw [hupdate] at hidents
        exact (Except.ok.inj hidents).trans (Flock.ident_of_get? hbefore)
      cases answer with
      | some number => exact .value number hafter
      | none =>
          refine Abreast.bind (of_keep hopening changed.x)
            (fun x => ?_) after after' hafter
          refine (of_keep hopening changed.y).bind fun y => ?_
          refine Abreast.bind (.of_modify fun now now' hnow => ?_) fun _ =>
            .of_bare (fun _ _ => trivial) _
          exact hnow.put hident

theorem of_flockCommand
    (hopening : Opening ident first first') (expr : Expr) (word : String)
    {command : FlockCommand} (hquery : command.isQuery = true)
    (operands : List Number) :
    Abreast (Solo ident loose first first' T) (fun _ => True)
      (flockCommand expr word command operands)
      (flockCommand expr word command operands) := by
  intro world world' hsolo
  have hsize {start now : World} (hspares : start.Spares ident now) :
      now.flock.size = start.flock.size := by
    simpa [Flock.size] using congrArg List.length hspares.idents
  have hsame : world.flock.size = world'.flock.size := by
    rw [hsize hsolo.spares, hsize hsolo.spares', hopening.size]
  cases command with
  | turtles =>
      unfold flockCommand
      rw [get_bind, get_bind]
      cases operands with
      | nil =>
          simp only [FlockCommand.update, hsame]
          exact .value _ hsolo
      | cons number rest => exact .failure trivial hsolo
  | _ => cases hquery

section Table

variable {name : String}

theorem entered
    (hopening : Opening ident first first')
    (hsolo : Solo ident loose first first' T world world')
    (number : Number)
    (htable : ∀ entry, U (NameMap.insert name entry world.bindings.entries)) :
    Solo ident loose first first' U (world.entered name number)
      (world'.entered name number) := by
  obtain ⟨hnumber, count, hkept, hkept'⟩ := hsolo.keep_eq hopening number
  have hopened (entry : Entry) :
      world'.bindings.opened name entry =
        ⟨NameMap.insert name entry world.bindings.entries,
          NameMap.insert name
            ⟨world.bindings.entries.get? name, world.bindings.framesOf name⟩
            world.bindings.frames,
          world'.bindings.alarms.map (· + 1)⟩ := by
    unfold Bindings.opened Bindings.install Bindings.notify Bindings.framesOf
    rw [hsolo.entries, hsolo.frames]
  have hstored :=
    hsolo.stored.insert name (Entry.sound_ofNumber (world.keep number).1)
  unfold World.entered
  rw [hopened, ← hnumber, hkept, hkept']
  exact hsolo.rewritten (htable _) hstored _ 1 count

theorem left
    (hsolo : Solo ident loose first first' T world world')
    {inner inner' : World}
    (hinner : Solo ident loose first first' U inner inner')
    (htable :
      T (NameMap.assign name
        (world.bindings.entries.get? name) inner.bindings.entries)) :
    Solo ident loose first first' T (world.left inner name)
      (world'.left inner' name) := by
  have hclosed :
      world'.bindings.closed inner'.bindings name =
        ⟨NameMap.assign name
          (world.bindings.entries.get? name) inner.bindings.entries,
          world.bindings.frames, inner'.bindings.alarms.map (· + 1)⟩ := by
    unfold Bindings.closed Bindings.notify
    rw [hsolo.entries, hsolo.frames, hinner.entries]
  have hstored :
      (NameMap.assign name
        (world.bindings.entries.get? name) inner.bindings.entries).All
        (Entry.Sound True (Expr.FitsTurn loose)) :=
    hinner.stored.assign name fun _ hentry => hsolo.stored.get? hentry
  unfold World.left
  rw [hclosed]
  exact hinner.rewritten htable hstored _ 1 0

theorem installed
    (hsolo : Solo ident loose first first' T world world') {entry : Entry}
    (hentry : entry.Sound True (Expr.FitsTurn loose))
    (htable : U (NameMap.insert name entry world.bindings.entries))
    (count : Nat) :
    Solo ident loose first first' U
      { world with
        bindings := world.bindings.install name entry
        marks := world.marks.advanced ident count }
      { world' with
        bindings := world'.bindings.install name entry
        marks := world'.marks.advanced ident count } := by
  have hinstalled :
      world'.bindings.install name entry =
        ⟨NameMap.insert name entry world.bindings.entries,
          world.bindings.frames, world'.bindings.alarms.map (· + 1)⟩ := by
    unfold Bindings.install Bindings.notify
    rw [hsolo.entries, hsolo.frames]
  rw [hinstalled]
  exact hsolo.rewritten htable (hsolo.stored.insert name hentry) _ 1 count

theorem of_rebind
    (hopening : Opening ident first first') (number : Number)
    (htable :
      ∀ entries, T entries → ∀ entry, T (NameMap.insert name entry entries)) :
    Abreast (Solo ident loose first first' T) (fun _ => True)
      (Action.bind name number) (Action.bind name number) := by
  intro world world' hsolo
  obtain ⟨hnumber, count, hkept, hkept'⟩ := hsolo.keep_eq hopening number
  rw [Action.bind_eq, Action.bind_eq, ← hnumber, hkept, hkept']
  exact .value _
    (hsolo.installed (Entry.sound_ofNumber _) (htable _ hsolo.table _) count)

end Table

/-- Whoever listens already is found. -/
theorem focusedOn_eq
    {now : World} (hactive : now.flock.active = [ident])
    (hthere : now.flock.contains ident = true) :
    now.focusedOn ident = now := by
  unfold World.focusedOn
  rw [Flock.hatch_eq_self hthere, ← hactive]

/-- The scopes that are open decide what is known of the entries: in a loose
turn nothing, and otherwise that they are those from before the scope, with the
name of the scope bound anew. -/
def Table (loose : Prop) : Type :=
  { T : NameMap Entry → Prop // loose → ∀ entries, T entries }

/-- Everything that may be executed in a turn of one turtle. -/
theorem regime (hopening : Opening ident first first') :
    Regime (fun (table : Table loose) => Solo ident loose first first' table.1)
      (fun _ => True)
      (fun expr => expr.keepsToItself = true ∧
        (loose ∨ expr.isTraceless = true))
      (Expr.FitsTurn loose) (fun _ => True) False where
  fault := fun _ _ => trivial
  entries := fun _ _ _ hsolo => hsolo.entries
  frames := fun _ _ _ hsolo => hsolo.frames
  active := by
    intro table world world' hsolo
    rw [hsolo.spares.active, hsolo.spares'.active, hopening.active,
      hopening.active']
  present := by
    intro table world world' hsolo other hother
    rw [hsolo.spares.active, hopening.active, List.mem_singleton] at hother
    subst hother
    exact Flock.contains_of_numbered hsolo.turtle
  names := fun _ _ _ _ => trivial
  scope := by
    intro table world world' name number hsolo _
    let inside : Table loose :=
      ⟨fun entries => loose ∨
        ∃ entry, entries = NameMap.insert name entry world.bindings.entries,
        fun hloose _ => .inl hloose⟩
    refine ⟨inside, ?_, ?_, ?_⟩
    · exact hsolo.entered hopening number fun entry => .inr ⟨entry, rfl⟩
    · intro later
      apply of_rebind hopening later
      intro entries hentries entry
      rcases hentries with hloose | ⟨prior, rfl⟩
      · exact .inl hloose
      · exact .inr ⟨entry, NameMap.assign_insert name (some entry) prior _⟩
    · intro inner inner' hinner
      apply hsolo.left hinner
      rcases hinner.table with hloose | ⟨entry, hentries⟩
      · exact table.2 hloose _
      · rw [hentries, NameMap.assign_get?_insert]
        exact hsolo.table
  draw := by
    intro table head args hnode world world' hsolo
    have hloose : loose := hnode.2.resolve_right (by simp [Expr.isTraceless])
    have hnext : world.draws.next = world'.draws.next := by rw [hsolo.draws]
    have hafter :
        Solo ident loose first first' table.1
          { world with draws := world.draws.next.2 }
          { world' with draws := world'.draws.next.2 } :=
      { hsolo with
        spares := { hsolo.spares with }
        spares' := { hsolo.spares' with }
        draws := congrArg Prod.snd hnext
        drawn := .inl hloose }
    have hdraw (now : World) :
        Action.draw now = .ok now.draws.next.1
          { now with draws := now.draws.next.2 } := rfl
    rw [hdraw, hdraw, ← congrArg Prod.fst hnext]
    exact .value _ hafter
  make := by
    intro table head target value number hnode
    have hloose : loose := hnode.2.resolve_right (by simp [Expr.isTraceless])
    exact of_rebind hopening number fun _ _ _ => table.2 hloose _
  define := by
    intro table world world' head name params brackets body hnode hbody hsolo
    have hloose : loose := hnode.2.resolve_right (by simp [Expr.isTraceless])
    have hentry :
        (Entry.function (.procedure
          ⟨name.procedureName, params.map (·.variableName), body⟩)).Sound True
            (Expr.FitsTurn loose) := hbody
    exact hsolo.installed hentry (table.2 hloose _) 0
  found := by
    intro table world world' head args _ hsolo
    rcases procedure_observes
        (.call head args) head.procedureName args.length world with
      ⟨found, hfound⟩ | ⟨fault, -, hfound⟩
    · have hbody := hsolo.stored.get? (get?_of_procedure_eq_ok hfound)
      exact .inl ⟨found, hfound, fun _ _ => trivial, hbody⟩
    · exact .inr ⟨fault, trivial, hfound⟩
  focus := by
    intro table world world' other hsolo hfocus
    obtain ⟨start, start', hstart, hother, hthere⟩ := hfocus.resolve_left id
    rw [hstart.spares.active, hopening.active, List.mem_singleton] at hother
    subst hother
    have hcontains : world.flock.contains other = true := by
      rw [Flock.contains_map_ident
        (hsolo.spares.idents.trans hstart.spares.idents.symm)]
      exact hthere
    have hcontains' : world'.flock.contains other = true := by
      rw [← Flock.contains_of_numbered hsolo.turtle]
      exact hcontains
    rw [focusedOn_eq (hsolo.spares.active.trans hopening.active) hcontains,
      focusedOn_eq (hsolo.spares'.active.trans hopening.active') hcontains']
    exact hsolo
  refocus := by
    intro table world world' inner inner' hsolo hinner
    have hsame {start now later : World} (hnow : start.Spares ident now)
        (hlater : start.Spares ident later) : later.refocused now = later := by
      unfold World.refocused
      rw [hnow.active, ← hlater.active]
    rw [hsame hsolo.spares hinner.spares, hsame hsolo.spares' hinner.spares']
    exact hinner
  command := by
    intro table head command args _ start start' other operands hstart hother
    rw [hstart.spares.active, hopening.active, List.mem_singleton] at hother
    subst hother
    exact of_commandOne hopening _ _ command operands
  flock :=
    fun _ _ _ _ operands hnode => of_flockCommand hopening _ _ hnode.1 operands
  roams := by
    intro expr hnode haddressing
    cases expr <;> simp_all [Expr.keepsToItself, Expr.isAddressing]
  idents := fun hroaming => hroaming.elim
  hatch := fun hroaming => hroaming.elim
  select := fun hroaming => hroaming.elim
  unmark := fun hroaming => hroaming.elim

/-- The expressions of a turn, executed side by side. -/
theorem body
    (hopening : Opening ident first first') (turns depth : Nat) (mode : Mode)
    {body : List Expr} (hbody : ∀ expr ∈ body, expr.FitsTurn loose)
    (table : Table loose) :
    Abreast (Solo ident loose first first' table.1) (fun _ => True)
      (inOrder (execute turns depth mode) 0 body)
      (inOrder (execute turns depth mode) 0 body) := by
  have hnode (expr : Expr) (hexpr : expr.FitsTurn loose) :
      expr.keepsToItself = true ∧ (loose ∨ expr.isTraceless = true) :=
    hexpr expr .self
  have hpart (expr : Expr) (hexpr : expr.FitsTurn loose) (part : Expr)
      (hmem : part ∈ expr.parts) : part.FitsTurn loose :=
    fun inner hinner => hexpr inner (.inside hmem hinner)
  refine .inOrder (fun expr hmem => ?_) 0
  exact (regime hopening).execute hnode hpart turns depth mode
    (hbody expr hmem) table

/-- A turn starts from two worlds that agree. -/
theorem start
    (hturtle : first.flock.numbered ident = first'.flock.numbered ident)
    (hentries : first.bindings.entries = first'.bindings.entries)
    (hframes : first.bindings.frames = first'.bindings.frames)
    (hdraws : first.draws = first'.draws) (htable : T first.bindings.entries)
    (hstored : first.bindings.entries.All
      (Entry.Sound True (Expr.FitsTurn loose))) :
    Solo ident loose first first' T first first' where
  spares := ⟨rfl, rfl, rfl, rfl, rfl⟩
  spares' := ⟨rfl, rfl, rfl, rfl, rfl⟩
  turtle := hturtle
  entries := hentries
  frames := hframes
  draws := hdraws
  drawn := .inr rfl
  table := htable
  stored := hstored
  alarms := ⟨0, by simp, by simp⟩
  marks := ⟨0, rfl, rfl⟩

/-- What occurs in a program and in the procedures of a world may be executed in
a turn. -/
theorem fits_of_occursIn
    {program : List Expr}
    (hparts :
      ∀ part : Expr, part.OccursIn program world →
        part.keepsToItself = true ∧ (loose ∨ part.isTraceless = true)) :
    (∀ expr ∈ program, expr.FitsTurn loose) ∧
      world.bindings.entries.All (Entry.Sound True (Expr.FitsTurn loose)) :=
  forall_within_of_occursIn hparts

end Solo

end Logo
