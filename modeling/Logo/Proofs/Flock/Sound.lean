import Logo.Proofs.Flock.Callable

/-!
# What holds of a flock at all times

The turtles are numbered from one on, each number belongs to at most one of
them, and the first turtle is always there.  Whoever listens exists, the palette
never gets smaller than it was, and the colour of the background is one of it.
Every operation of the flock keeps this.

A host may open a focus inside of another one, and whatever happens inside, the
end of a focus restores the selection that it found.  A `Roster` is a flock
together with the selections that wait to be restored, so every point between
two operations is a roster.
-/

namespace Logo

/-- Exact comparison: what is equal to an integer and not below one is an
integer from one on. -/
theorem Binary64.one_le_of_compareInt
    {n : Int} {x : Float} (heq : compareInt n x = some .eq)
    (hle : compareInt 1 x ≠ some .gt) :
    1 ≤ n := by
  unfold compareInt at heq hle
  cases hmagnitude : magnitude? x with
  | none =>
      rw [hmagnitude] at heq
      simp only at heq
      split at heq
      · cases heq
      · split at heq <;> cases heq
  | some parts =>
      obtain ⟨m, q⟩ := parts
      rw [hmagnitude] at heq hle
      simp only [Option.some.injEq, ne_eq] at heq hle
      generalize (if isNegative x = true then -(m : Int) else m) =
        signed at heq hle
      split at heq
      next hsmall =>
        rw [if_pos hsmall] at hle
        have hpow : (0 : Int) < (Nat.pow 2 (-q).toNat : Nat) := by
          exact_mod_cast Nat.pow_pos two_pos
        have hvalue := compare_eq_iff_eq.mp heq
        have hbelow : 1 * ((Nat.pow 2 (-q).toNat : Nat) : Int) ≤ signed :=
          not_lt.mp fun hlt => hle (compare_gt_iff_gt.mpr hlt)
        rw [← hvalue] at hbelow
        exact Int.le_of_mul_le_mul_right hbelow hpow
      next hlarge =>
        rw [if_neg hlarge] at hle
        have hvalue := compare_eq_iff_eq.mp heq
        rw [hvalue]
        exact not_lt.mp fun hlt => hle (compare_gt_iff_gt.mpr hlt)

namespace Flock

theorem exists_of_identOf
    {number : Number} {ident : Nat} (hident : identOf number = .ok ident) :
    ∃ n, number.truncate? = some n ∧ number.eq (.integer n) = true ∧
      number.lt 1 = false ∧ ident = n.toNat := by
  obtain ⟨finite, -, hident⟩ := Except.exists_of_bind_eq_ok hident
  split at hident
  next n hn =>
    split at hident
    next hcondition =>
      simp only [Bool.and_eq_true, Bool.not_eq_true'] at hcondition
      cases hident
      exact ⟨n, hn, hcondition.1.2, hcondition.2, rfl⟩
    next => exact absurd hident (refuse_ne_ok _ _ _)
  next => exact absurd hident (refuse_ne_ok _ _ _)

/-- Turtles are numbered from one on. -/
theorem one_le_of_identOf
    {number : Number} {ident : Nat} (hident : identOf number = .ok ident) :
    1 ≤ ident := by
  obtain ⟨n, hn, heq, hlt, rfl⟩ := exists_of_identOf hident
  suffices hone : 1 ≤ n by omega
  cases number with
  | integer m =>
      obtain rfl : m = n := Option.some.inj hn
      by_contra hless
      have hcompare : compare m 1 = .lt := compare_lt_iff_lt.mpr (by omega)
      have hone :
          (Number.integer m).lt 1 = (some (compare m 1) == some .lt) := rfl
      rw [hone, hcompare] at hlt
      cases hlt
  | real x =>
      have hsame : (Binary64.compareInt n x).map Ordering.swap = some .eq := by
        simpa [Number.eq, Number.compare?] using heq
      have hleast : (Binary64.compareInt 1 x).map Ordering.swap ≠ some .lt := by
        simpa [Number.lt, Number.compare?] using hlt
      apply Binary64.one_le_of_compareInt (x := x)
      · cases hcompare : Binary64.compareInt n x with
        | none => simp [hcompare] at hsame
        | some order => cases order <;> simp_all
      · intro hgt
        simp [hgt] at hleast
  | marked mark => cases hn

theorem identOf_of_ofInt?
    {n : Nat} (hpos : 1 ≤ n) (hsome : (Binary64.ofInt? n).isSome) :
    identOf (.integer n) = .ok n := by
  have hfinite := Number.isFinite_of_ofInt?_isSome hsome
  have heq : (Number.integer n).eq (.integer n) = true := by
    simp [Number.eq, Number.compare?]
  have hlt : (Number.integer n).lt 1 = false := by
    have hcompare : compare (n : Int) 1 ≠ .lt := by
      intro hless
      have := compare_lt_iff_lt.mp hless
      omega
    have hone :
        (Number.integer n).lt 1 =
          (some (compare (n : Int) 1) == some .lt) := rfl
    simpa [hone] using hcompare
  unfold identOf
  rw [hfinite]
  simp only [arithmetically, Except.mapError, bind, Except.bind,
    Number.truncate?, heq, hlt]
  rfl

/-! ## The invariant -/

/-- The turtles are in the order of their numbers, and each of them can be
called. -/
structure Numbered (flock : Flock) : Prop where
  callable : flock.Callable
  positive : ∀ turtle ∈ flock.turtles, 1 ≤ turtle.ident
  sorted : flock.turtles.Pairwise fun turtle other => turtle.ident < other.ident

/-- A turtle of the flock is called by its own number. -/
theorem Numbered.identOf_eq
    {flock : Flock} (hnumbered : flock.Numbered) {ident : Nat}
    (hident : flock.contains ident = true) :
    identOf (.integer ident) = .ok ident := by
  obtain ⟨turtle, hturtle, rfl⟩ := (contains_iff flock ident).mp hident
  exact identOf_of_ofInt? (hnumbered.positive turtle hturtle)
    (hnumbered.callable turtle hturtle)

structure Sound (flock : Flock) : Prop where
  callable : flock.Callable
  positive : ∀ turtle ∈ flock.turtles, 1 ≤ turtle.ident
  sorted : flock.turtles.Pairwise fun turtle other => turtle.ident < other.ident
  first : flock.contains 1 = true
  listening : ∀ ident ∈ flock.active, flock.contains ident = true
  palette : Color.initialPalette.size ≤ flock.palette.size
  background : flock.background < flock.palette.size

theorem sound_iff (flock : Flock) :
    flock.Sound ↔
      (∀ turtle ∈ flock.turtles, (Binary64.ofInt? turtle.ident).isSome = true) ∧
      (∀ turtle ∈ flock.turtles, 1 ≤ turtle.ident) ∧
      (flock.turtles.Pairwise fun turtle other => turtle.ident < other.ident) ∧
      flock.contains 1 = true ∧
      (∀ ident ∈ flock.active, flock.contains ident = true) ∧
      Color.initialPalette.size ≤ flock.palette.size ∧
      flock.background < flock.palette.size :=
  ⟨fun h => ⟨h.callable, h.positive, h.sorted, h.first, h.listening, h.palette,
    h.background⟩,
    fun ⟨h₁, h₂, h₃, h₄, h₅, h₆, h₇⟩ => ⟨h₁, h₂, h₃, h₄, h₅, h₆, h₇⟩⟩

instance (flock : Flock) : Decidable flock.Sound :=
  decidable_of_iff' _ flock.sound_iff

theorem sound_fresh : fresh.Sound := by decide +kernel

/-- No turtle goes away, and the palette does not shrink. -/
structure Grows (before after : Flock) : Prop where
  stays : ∀ ident, before.contains ident = true → after.contains ident = true
  palette : before.palette.size ≤ after.palette.size

theorem Grows.refl (flock : Flock) : Grows flock flock :=
  ⟨fun _ hident => hident, le_rfl⟩

theorem Grows.trans
    {first second third : Flock} (hfirst : Grows first second)
    (hsecond : Grows second third) :
    Grows first third where
  stays ident hident := hsecond.stays ident (hfirst.stays ident hident)
  palette := hfirst.palette.trans hsecond.palette

namespace Sound

variable {flock later : Flock}

theorem numbered (hsound : flock.Sound) : flock.Numbered :=
  ⟨hsound.callable, hsound.positive, hsound.sorted⟩

theorem identOf_eq (hsound : flock.Sound) {ident : Nat}
    (hident : flock.contains ident = true) :
    identOf (.integer ident) = .ok ident :=
  hsound.numbered.identOf_eq hident

/-- All turtles that listen can be found. -/
theorem listeners_eq (hsound : flock.Sound) :
    ∃ turtles, flock.listeners = .ok turtles ∧
      turtles.map (·.ident) = flock.active := by
  have hlistening := hsound.listening
  unfold listeners
  generalize flock.active = idents at hlistening
  induction idents with
  | nil => exact ⟨[], rfl, rfl⟩
  | cons ident rest ih =>
      rw [List.forall_mem_cons] at hlistening
      obtain ⟨turtles, hrest, hidents⟩ := ih hlistening.2
      obtain ⟨turtle, hget⟩ := Option.isSome_iff_exists.mp hlistening.1
      refine ⟨turtle :: turtles, ?_, ?_⟩
      · rw [List.mapM_cons, hget, hrest]
        rfl
      · rw [List.map_cons, ident_of_get? hget, hidents]

/-- The invariant looks at the numbers of the turtles only. -/
theorem of_idents
    (hsound : flock.Sound)
    (hidents : later.turtles.map (·.ident) = flock.turtles.map (·.ident))
    (hlistening : ∀ ident ∈ later.active, flock.contains ident = true)
    (hpalette : flock.palette.size ≤ later.palette.size)
    (hbackground : later.background < later.palette.size) :
    later.Sound where
  callable := hsound.callable.of_idents hidents
  positive := by
    have hpositive : ∀ ident ∈ flock.turtles.map (·.ident), 1 ≤ ident := by
      simpa using hsound.positive
    rw [← hidents] at hpositive
    simpa using hpositive
  sorted := by
    have hsorted : (flock.turtles.map (·.ident)).Pairwise (· < ·) :=
      List.pairwise_map.mpr hsound.sorted
    rw [← hidents] at hsorted
    exact List.pairwise_map.mp hsorted
  first := by
    rw [contains_map_ident hidents]
    exact hsound.first
  listening ident hident := by
    rw [contains_map_ident hidents]
    exact hlistening ident hident
  palette := hsound.palette.trans hpalette
  background := hbackground

theorem idents_put (flock : Flock) (turtle : Turtle) :
    (flock.put turtle).turtles.map (·.ident) = flock.turtles.map (·.ident) := by
  unfold Flock.put
  rw [List.map_map]
  apply List.map_congr_left
  intro other _
  simp only [Function.comp_apply]
  split
  next heq => exact heq.symm
  next => rfl

theorem put (hsound : flock.Sound) (turtle : Turtle) :
    (flock.put turtle).Sound :=
  hsound.of_idents
    (idents_put flock turtle) hsound.listening le_rfl hsound.background

theorem clearMotion (hsound : flock.Sound) : flock.clearMotion.Sound := by
  refine hsound.of_idents ?_ hsound.listening le_rfl hsound.background
  simp [Flock.clearMotion, Function.comp_def]

theorem select
    (hsound : flock.Sound) {idents : List Nat}
    (hidents : ∀ ident ∈ idents, flock.contains ident = true) :
    ({ flock with active := idents } : Flock).Sound :=
  hsound.of_idents rfl hidents le_rfl hsound.background

theorem pairwise_withTurtle
    {turtle : Turtle} {turtles : List Turtle}
    (hsorted : turtles.Pairwise fun turtle other => turtle.ident < other.ident)
    (hnew : ∀ other ∈ turtles, other.ident ≠ turtle.ident) :
    (withTurtle turtle turtles).Pairwise fun turtle other =>
      turtle.ident < other.ident := by
  induction turtles with
  | nil => simp [withTurtle]
  | cons first rest ih =>
      rw [List.forall_mem_cons] at hnew
      obtain ⟨hfirst, hrest⟩ := List.pairwise_cons.mp hsorted
      unfold withTurtle
      split
      next hbefore =>
        rw [List.pairwise_cons, List.forall_mem_cons]
        exact ⟨⟨hbefore,
          fun other hother => hbefore.trans (hfirst other hother)⟩, hsorted⟩
      next hbehind =>
        rw [List.pairwise_cons]
        refine ⟨fun other hother => ?_, ih hrest hnew.2⟩
        rcases (mem_withTurtle _ _ _).mp hother with rfl | hother
        · have := hnew.1
          omega
        · exact hfirst other hother

theorem contains_hatch_self (flock : Flock) (ident : Nat) :
    (flock.hatch ident).contains ident = true := by
  unfold Flock.hatch
  split
  next hcontains => exact hcontains
  next =>
    rw [contains_iff]
    exact ⟨.hatched ident, (mem_withTurtle _ _ _).mpr (.inl rfl), rfl⟩

theorem hatch
    (hsound : flock.Sound) {number : Number} {ident : Nat}
    (hident : identOf number = .ok ident) : (flock.hatch ident).Sound := by
  have hcallable := hsound.callable.hatch hident
  have hstays (other : Nat) (hother : flock.contains other = true) :=
    contains_hatch hother ident
  by_cases hcontains : flock.contains ident = true
  · rw [hatch_eq_self hcontains]
    exact hsound
  · have hhatched :
        flock.hatch ident =
          { flock with
            turtles := withTurtle (.hatched ident) flock.turtles } := by
      simp [Flock.hatch, hcontains]
    rw [hhatched] at hcallable hstays ⊢
    refine ⟨hcallable, ?_, ?_, hstays 1 hsound.first,
      fun other hother => hstays other (hsound.listening other hother),
      hsound.palette, hsound.background⟩
    · intro turtle hturtle
      rcases (mem_withTurtle _ _ _).mp hturtle with rfl | hturtle
      · exact one_le_of_identOf hident
      · exact hsound.positive turtle hturtle
    · apply pairwise_withTurtle hsound.sorted
      intro other hother heq
      exact hcontains ((contains_iff _ _).mpr ⟨other, hother, heq⟩)

end Sound

theorem grows_hatch (flock : Flock) (ident : Nat) :
    Grows flock (flock.hatch ident) where
  stays _ hother := contains_hatch hother ident
  palette := by
    unfold hatch
    split <;> exact le_rfl

/-- Those called by number are there afterwards. -/
theorem summonAll_spec
    {flock : Flock} (hsound : flock.Sound) (numbers : List Number) :
    (flock.summonAll numbers).2.Sound ∧
      Grows flock (flock.summonAll numbers).2 ∧
      (flock.summonAll numbers).2.active = flock.active ∧
      ∀ idents, (flock.summonAll numbers).1 = .ok idents →
        ∀ ident ∈ idents,
          (flock.summonAll numbers).2.contains ident = true := by
  induction numbers generalizing flock with
  | nil =>
      refine ⟨hsound, .refl flock, rfl, ?_⟩
      intro idents hidents
      cases hidents
      simp
  | cons number rest ih =>
      cases hident : identOf number with
      | error trouble =>
          simp only [summonAll, summon_of_error hident]
          exact ⟨hsound, .refl flock, trivial,
            fun idents hidents => by cases hidents⟩
      | ok ident =>
          have hactive : (flock.hatch ident).active = flock.active := by
            unfold hatch
            split <;> rfl
          obtain ⟨hlast, hgrows, hsame, hthere⟩ := ih (hsound.hatch hident)
          have hhere :=
            hgrows.stays ident (Sound.contains_hatch_self flock ident)
          simp only [summonAll, summon_of_identOf hident]
          split
          next idents last hsummon =>
            rw [hsummon] at hlast hgrows hsame hthere hhere
            refine ⟨hlast, (grows_hatch flock ident).trans hgrows,
              hsame.trans hactive, ?_⟩
            intro found hfound
            cases hfound
            rw [List.forall_mem_cons]
            exact ⟨hhere, hthere idents rfl⟩
          next trouble last hsummon =>
            rw [hsummon] at hlast hgrows hsame
            exact ⟨hlast, (grows_hatch flock ident).trans hgrows,
              hsame.trans hactive, fun idents hidents => by cases hidents⟩

theorem Sound.tell {flock : Flock} (hsound : flock.Sound)
    (numbers : List Number) :
    (flock.tell numbers).2.Sound := by
  obtain ⟨hlast, -, -, hthere⟩ := summonAll_spec hsound numbers
  unfold Flock.tell
  split
  next idents last hsummon =>
    rw [hsummon] at hlast hthere
    exact hlast.select (hthere idents rfl)
  next hsummon =>
    rw [hsummon] at hlast
    exact hlast

theorem grows_tell {flock : Flock} (hsound : flock.Sound)
    (numbers : List Number) :
    Grows flock (flock.tell numbers).2 := by
  obtain ⟨-, hgrows, -, -⟩ := summonAll_spec hsound numbers
  unfold tell
  split
  next hsummon =>
    rw [hsummon] at hgrows
    exact ⟨hgrows.stays, hgrows.palette⟩
  next hsummon =>
    rw [hsummon] at hgrows
    exact hgrows

/-! ## The palette -/

/-- A colour has the parts that it is put together from, and these lie between 0
and 255. -/
theorem parts_of_ofParts?
    {red green blue : Int} {color : Color}
    (hcolor : Color.ofParts? red green blue = some color) :
    (color.red.toNat : Int) = red ∧ (color.green.toNat : Int) = green ∧
      (color.blue.toNat : Int) = blue := by
  unfold Color.ofParts? at hcolor
  split at hcolor
  next hparts =>
    cases hcolor
    simp only [List.all_cons, List.all_nil, Bool.and_true, Bool.and_eq_true,
      decide_eq_true_eq] at hparts
    have hpart (n : Int) (hn : 0 ≤ n ∧ n ≤ 255) :
        ((UInt8.ofNat n.toNat).toNat : Int) = n := by
      rw [UInt8.toNat_ofNat_of_lt' (by change n.toNat < 256; omega)]
      omega
    exact ⟨hpart red hparts.1, hpart green hparts.2.1, hpart blue hparts.2.2⟩
  next => cases hcolor

/-- Whoever changes the palette gives an index up to its end and three parts of
a colour. -/
theorem setPalette_eq_ok
    {flock later : Flock} {number red green blue : Number} {index : Nat}
    (hset : flock.setPalette number red green blue = .ok (index, later)) :
    ∃ color, later.palette[index]? = some color ∧
      red.truncate? = some (color.red.toNat : Int) ∧
      green.truncate? = some (color.green.toNat : Int) ∧
      blue.truncate? = some (color.blue.toNat : Int) ∧
      flock.palette.size ≤ later.palette.size ∧
      later = { flock with palette := later.palette } := by
  obtain ⟨found, -, hset⟩ := Except.exists_of_bind_eq_ok hset
  simp only at hset
  split at hset
  next => cases hset
  next color hparts =>
    obtain ⟨r, hred, hparts⟩ := Option.bind_eq_some_iff.mp hparts
    obtain ⟨g, hgreen, hparts⟩ := Option.bind_eq_some_iff.mp hparts
    obtain ⟨b, hblue, hparts⟩ := Option.bind_eq_some_iff.mp hparts
    obtain ⟨rfl, rfl, rfl⟩ := parts_of_ofParts? hparts
    split at hset
    next hinside =>
      cases hset
      exact ⟨color, by simp [hinside], hred, hgreen, hblue, by simp, rfl⟩
    next =>
      split at hset
      next hend =>
        cases hset
        exact ⟨color, by simp [hend], hred, hgreen, hblue, by simp, rfl⟩
      next => cases hset

/-- The background is painted in colours of the palette only. -/
theorem setBackground_eq_ok
    {flock later : Flock} {number : Number} {index : Nat}
    (hset : flock.setBackground number = .ok (index, later)) :
    index < flock.palette.size ∧
      later = { flock with background := index } := by
  obtain ⟨color, hcolor, hset⟩ := Except.exists_of_bind_eq_ok hset
  obtain ⟨found, hfound, hset⟩ := Except.exists_of_bind_eq_ok hset
  cases hset
  obtain ⟨found, hindex, hcolor⟩ := Except.exists_of_bind_eq_ok hcolor
  rw [hfound, Except.ok.injEq] at hindex
  subst hindex
  split at hcolor
  next hget =>
    rw [Array.getElem?_eq_some_iff] at hget
    exact ⟨hget.1, rfl⟩
  next => exact absurd hcolor (refuse_ne_ok _ _ _)

theorem Sound.setPalette
    {flock later : Flock} (hsound : flock.Sound)
    {number red green blue : Number} {index : Nat}
    (hset : flock.setPalette number red green blue = .ok (index, later)) :
    later.Sound ∧ Grows flock later := by
  obtain ⟨color, -, -, -, -, hsize, hlater⟩ := setPalette_eq_ok hset
  rw [hlater]
  exact ⟨hsound.of_idents rfl hsound.listening hsize
    (hsound.background.trans_le hsize), fun _ hident => hident, hsize⟩

theorem Sound.setBackground
    {flock later : Flock} (hsound : flock.Sound) {number : Number} {index : Nat}
    (hset : flock.setBackground number = .ok (index, later)) :
    later.Sound ∧ Grows flock later := by
  obtain ⟨hindex, rfl⟩ := setBackground_eq_ok hset
  exact ⟨hsound.of_idents rfl hsound.listening le_rfl hindex,
    fun _ hident => hident, le_rfl⟩

theorem Sound.update
    {flock later : Flock} (hsound : flock.Sound) {command : FlockCommand}
    {operands : List Number} {answer : Option Number}
    (hupdate : command.update operands flock = .ok (later, answer)) :
    later.Sound ∧ Grows flock later := by
  unfold FlockCommand.update at hupdate
  split at hupdate
  next index =>
    obtain ⟨⟨found, changed⟩, hset, hupdate⟩ :=
      Except.exists_of_bind_eq_ok hupdate
    cases hupdate
    exact hsound.setBackground hset
  next index red green blue =>
    obtain ⟨⟨found, changed⟩, hset, hupdate⟩ :=
      Except.exists_of_bind_eq_ok hupdate
    cases hupdate
    exact hsound.setPalette hset
  next =>
    cases hupdate
    have hidents :
        (flock.turtles.map
          fun turtle => { turtle with stamps := [] }).map (·.ident) =
          flock.turtles.map (·.ident) := by
      simp [Function.comp_def]
    refine ⟨hsound.of_idents hidents hsound.listening le_rfl hsound.background,
      ?_, le_rfl⟩
    intro ident hident
    rw [contains_map_ident hidents]
    exact hident
  next =>
    cases hupdate
    exact ⟨hsound, .refl flock⟩
  next => cases hupdate

end Flock

/-! ## Sequences of operations -/

/-- A flock and the selections that wait to be restored, the one of the
innermost focus first. -/
structure Roster where
  flock : Flock
  waiting : List (List Nat)

namespace Roster

/-- What a host or a program can do with a flock.  A focus is opened and closed
apart, since anything may happen in between, and a failure closes it as well.  A
command to a turtle comes with the coordinates that are kept of it. -/
inductive Operation where
  | summon (number : Number)
  | tell (numbers : List Number)
  | focus (numbers : List Number)
  | unfocus
  | setPalette (number red green blue : Number)
  | setBackground (number : Number)
  | order (command : FlockCommand) (operands : List Number)
  | command (command : TurtleCommand) (ident : Nat) (operands : List Number)
      (x y : Number)
  | clearMotion
  | reset

/-- The flock that an operation leaves, also when it fails. -/
def settled {α : Type} (flock : Flock) : Except Trouble (α × Flock) → Flock
  | .ok (_, later) => later
  | .error _ => flock

def perform (roster : Roster) : Operation → Roster
  | .summon number =>
    { roster with flock := settled roster.flock (roster.flock.summon number) }
  | .tell numbers => { roster with flock := (roster.flock.tell numbers).2 }
  | .focus numbers =>
    match roster.flock.tell numbers with
    | (.ok _, flock) => ⟨flock, roster.flock.active :: roster.waiting⟩
    | (.error _, flock) => { roster with flock := flock }
  | .unfocus =>
    match roster.waiting with
    | [] => roster
    | prior :: waiting => ⟨{ roster.flock with active := prior }, waiting⟩
  | .setPalette number red green blue =>
    { roster with
      flock :=
        settled roster.flock (roster.flock.setPalette number red green blue) }
  | .setBackground number =>
    { roster with
      flock := settled roster.flock (roster.flock.setBackground number) }
  | .order command operands =>
    match command.update operands roster.flock with
    | .ok (flock, _) => { roster with flock := flock }
    | .error _ => roster
  | .command command ident operands x y =>
    match (roster.flock.get? ident).map (command.update operands) with
    | some (.ok (after, none)) =>
      { roster with flock := roster.flock.put { after with x := x, y := y } }
    | _ => roster
  | .clearMotion => { roster with flock := roster.flock.clearMotion }
  | .reset => { roster with flock := .fresh }

def performAll (roster : Roster) (operations : List Operation) : Roster :=
  operations.foldl perform roster

/-- There is no reset inside of a focus. -/
def Orderly (roster : Roster) : List Operation → Prop
  | [] => True
  | operation :: rest =>
      (operation = .reset → roster.waiting = []) ∧
        (roster.perform operation).Orderly rest

/-- The flock is sound, and the selections that wait name turtles that exist. -/
structure Sound (roster : Roster) : Prop where
  flock : roster.flock.Sound
  waiting : ∀ prior ∈ roster.waiting, ∀ ident ∈ prior,
    roster.flock.contains ident = true

theorem Sound.later
    {roster : Roster} (hsound : roster.Sound) {flock : Flock}
    (hlater : flock.Sound ∧ roster.flock.Grows flock) :
    Sound { roster with flock := flock } :=
  ⟨hlater.1, fun prior hprior ident hident =>
    hlater.2.stays ident (hsound.waiting prior hprior ident hident)⟩

theorem Sound.settled
    {roster : Roster} (hsound : roster.Sound) {α : Type}
    {result : Except Trouble (α × Flock)}
    (hresult : ∀ a later, result = .ok (a, later) →
      later.Sound ∧ roster.flock.Grows later) :
    Sound { roster with flock := settled roster.flock result } ∧
      roster.flock.Grows (settled roster.flock result) := by
  cases result with
  | error trouble => exact ⟨hsound, .refl _⟩
  | ok pair =>
      have hlater := hresult pair.1 pair.2 rfl
      exact ⟨hsound.later hlater, hlater.2⟩

/-- One operation keeps the invariant, and unless it is a reset nothing is
lost. -/
theorem Sound.perform
    {roster : Roster} (hsound : roster.Sound) (operation : Operation)
    (horderly : operation = .reset → roster.waiting = []) :
    (roster.perform operation).Sound ∧
      (operation ≠ .reset →
        roster.flock.Grows (roster.perform operation).flock) := by
  have hflock := hsound.flock
  cases operation with
  | summon number =>
      refine (hsound.settled fun ident later hsummon => ?_).imp_right
        fun hgrows _ => hgrows
      obtain ⟨found, hident, hhatch⟩ := Except.exists_of_bind_eq_ok hsummon
      cases hhatch
      exact ⟨hflock.hatch hident, Flock.grows_hatch _ _⟩
  | tell numbers =>
      have hlater :=
        And.intro (hflock.tell numbers) (Flock.grows_tell hflock numbers)
      exact ⟨hsound.later hlater, fun _ => hlater.2⟩
  | focus numbers =>
      have hlater :=
        And.intro (hflock.tell numbers) (Flock.grows_tell hflock numbers)
      simp only [Roster.perform]
      split
      next idents flock htell =>
        rw [htell] at hlater
        refine ⟨⟨hlater.1, ?_⟩, fun _ => hlater.2⟩
        rw [List.forall_mem_cons]
        exact ⟨fun ident hident =>
          hlater.2.stays ident (hflock.listening ident hident),
          (hsound.later hlater).waiting⟩
      next trouble flock htell =>
        rw [htell] at hlater
        exact ⟨hsound.later hlater, fun _ => hlater.2⟩
  | unfocus =>
      have hwaiting := hsound.waiting
      simp only [Roster.perform]
      split
      next => exact ⟨hsound, fun _ => .refl _⟩
      next prior waiting heq =>
        rw [heq, List.forall_mem_cons] at hwaiting
        exact ⟨⟨hflock.select hwaiting.1, hwaiting.2⟩,
          fun _ => ⟨fun _ hident => hident, le_rfl⟩⟩
  | setPalette number red green blue =>
      refine (hsound.settled fun index later hset => ?_).imp_right
        fun hgrows _ => hgrows
      exact hflock.setPalette hset
  | setBackground number =>
      refine (hsound.settled fun index later hset => ?_).imp_right
        fun hgrows _ => hgrows
      exact hflock.setBackground hset
  | order command operands =>
      simp only [Roster.perform]
      split
      next flock answer hupdate =>
        have hlater := hflock.update hupdate
        exact ⟨hsound.later hlater, fun _ => hlater.2⟩
      next => exact ⟨hsound, fun _ => .refl _⟩
  | command command ident operands x y =>
      simp only [Roster.perform]
      split
      next after hupdate =>
        have hlater :
            (roster.flock.put { after with x := x, y := y }).Sound ∧
              roster.flock.Grows
                (roster.flock.put { after with x := x, y := y }) :=
          ⟨hflock.put _,
            fun other hother => by rwa [Flock.contains_put], le_rfl⟩
        exact ⟨hsound.later hlater, fun _ => hlater.2⟩
      next => exact ⟨hsound, fun _ => .refl _⟩
  | clearMotion =>
      have hidents :
          roster.flock.clearMotion.turtles.map (·.ident) =
            roster.flock.turtles.map (·.ident) := by
        simp [Flock.clearMotion, Function.comp_def]
      have hgrows : roster.flock.Grows roster.flock.clearMotion := by
        refine ⟨fun ident hident => ?_, le_rfl⟩
        rwa [Flock.contains_map_ident hidents]
      exact ⟨hsound.later ⟨hflock.clearMotion, hgrows⟩, fun _ => hgrows⟩
  | reset =>
      refine ⟨⟨Flock.sound_fresh, ?_⟩, fun hreset => absurd rfl hreset⟩
      intro prior hprior
      simp [Roster.perform, horderly rfl] at hprior

/-- Every point of an orderly sequence of operations is sound. -/
theorem Sound.performAll
    {roster : Roster} (hsound : roster.Sound) {operations : List Operation}
    (horderly : roster.Orderly operations) :
    (roster.performAll operations).Sound := by
  induction operations generalizing roster with
  | nil => exact hsound
  | cons operation rest ih =>
      exact ih (hsound.perform operation horderly.1).1 horderly.2

/-- Between resets nothing is lost. -/
theorem Sound.grows
    {roster : Roster} (hsound : roster.Sound) {operations : List Operation}
    (hkeeps : .reset ∉ operations) :
    roster.flock.Grows (roster.performAll operations).flock := by
  induction operations generalizing roster with
  | nil => exact .refl _
  | cons operation rest ih =>
      rw [List.mem_cons, not_or] at hkeeps
      have hfirst :=
        hsound.perform operation fun hreset => absurd hreset.symm hkeeps.1
      exact (hfirst.2 (Ne.symm hkeeps.1)).trans (ih hfirst.1 hkeeps.2)

theorem performAll_append (roster : Roster)
    (operations later : List Operation) :
    roster.performAll (operations ++ later) =
      (roster.performAll operations).performAll later :=
  List.foldl_append

theorem orderly_append
    (roster : Roster) (operations later : List Operation) :
    roster.Orderly (operations ++ later) ↔
      roster.Orderly operations ∧
        (roster.performAll operations).Orderly later := by
  induction operations generalizing roster with
  | nil => simp [Orderly, performAll]
  | cons operation rest ih =>
      have hrest := ih (roster.perform operation)
      simp only [List.cons_append, Orderly, hrest, and_assoc]
      rfl

end Roster

end Logo
