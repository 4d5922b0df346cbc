import Logo.Proofs.Execution.Balance

/-!
# The laps of a loop

A loop whose first value, last value and step are integers takes its values from
an arithmetic progression, and it runs its list once for each of them.  Before
every lap its variable is bound again, so a lap starts with the right value
whatever the lap before it did to the variable.
-/

namespace Logo

open Logo.Action Execution NameMap

/-! ## The values of a counter -/

theorem Number.le_integer (m n : Int) :
    (Number.integer m).le (.integer n) = decide (m ≤ n) := by
  rcases lt_trichotomy m n with hless | rfl | hmore
  · simp [le, compare?, compare_lt_iff_lt.mpr hless, hless.le]
  · simp [le, compare?]
  · simp [le, compare?, compare_gt_iff_gt.mpr hmore, hmore]

theorem Number.zero_lt_integer (n : Int) :
    Number.lt 0 (.integer n) = decide (0 < n) := by
  change (some (compare 0 n) == some .lt) = decide (0 < n)
  by_cases hpos : 0 < n
  · simp [compare_lt_iff_lt.mpr hpos, hpos]
  · simp [compare_lt_iff_lt, hpos]

namespace Counter

def length (first last step : Int) : Nat :=
  (max 0 ((last - first).fdiv step + 1)).toNat

def progression (first step : Int) (length : Nat) : List Int :=
  (List.range length).map fun (k : Nat) => first + k * step

theorem progression_succ (first step : Int) (length : Nat) :
    progression first step (length + 1) =
      first :: progression (first + step) step length := by
  unfold progression
  rw [List.range_succ_eq_map, List.map_cons, List.map_map]
  congr 1
  · simp
  · apply List.map_congr_left
    intro k _
    simp only [Function.comp_apply, Nat.cast_succ]
    ring

theorem length_progression (first step : Int) (length : Nat) :
    (progression first step length).length = length := by
  simp [progression]

theorem length_next (first last : Int) {step : Int} (hstep : step ≠ 0) :
    length (first + step) last step = length first last step - 1 := by
  have hshift : last - (first + step) = last - first + -1 * step := by ring
  unfold length
  rw [hshift, Int.add_mul_fdiv_right _ _ hstep]
  omega

/-- A quotient that is rounded down is negative exactly if the exact one is. -/
theorem fdiv_nonneg_iff {a b : Int} (hb : 0 < b) : 0 ≤ a.fdiv b ↔ 0 ≤ a := by
  rw [Int.fdiv_eq_ediv_of_nonneg a hb.le, Int.le_ediv_iff_mul_le hb, zero_mul]

theorem length_pos_iff (first last : Int) {step : Int} (hstep : step ≠ 0) :
    0 < length first last step ↔ if 0 < step then first ≤ last
      else last ≤ first := by
  have hlength : 0 < length first last step ↔ 0 ≤ (last - first).fdiv step := by
    unfold length
    omega
  rw [hlength]
  split
  next hup => rw [fdiv_nonneg_iff hup, sub_nonneg]
  next hdown =>
    rw [← Int.neg_fdiv_neg, fdiv_nonneg_iff (by omega)]
    omega

theorem isLive_integer (first last : Int) {step : Int} (hstep : step ≠ 0) :
    isLive ⟨.integer first, .integer last, .integer step⟩ =
      decide (0 < length first last step) := by
  have hlength := length_pos_iff first last hstep
  unfold isLive
  simp only [Number.zero_lt_integer, Number.le_integer, decide_eq_true_eq]
  split
  next hup =>
    rw [if_pos hup] at hlength; exact decide_eq_decide.mpr hlength.symm
  next hdown =>
    rw [if_neg hdown] at hlength; exact decide_eq_decide.mpr hlength.symm

end Counter

/-! ## Loops over integers -/

def World.bound (world : World) (name : String) (n : Int) : World :=
  { world with bindings := world.bindings.install name (.integer n) }

/-- The world in which what a name is bound to waits in a frame. -/
def World.framed (world : World) (name : String) : World :=
  { world with
    bindings :=
      { world.bindings with
        frames :=
          NameMap.insert name ⟨world.bindings.entries.get? name,
            world.bindings.framesOf name⟩ world.bindings.frames } }

theorem World.entered_integer (world : World) (name : String) (n : Int) :
    world.entered name (.integer n) = (world.framed name).bound name n := rfl

theorem Action.bind_integer (name : String) (n : Int) (world : World) :
    Action.bind name (.integer n) world = .ok (.integer n)
      (world.bound name n) :=
  bind_eq name (.integer n) world

namespace Execution

/-- Runs a list once for each of some integers, which a variable holds in
turn. -/
def forEach (name : String) (body : Action Number) :
    List Int → Number → Action Number
  | [], result => pure result
  | n :: rest, _ => do
    let _ ← Action.bind name (.integer n)
    forEach name body rest (← body)

section Values

variable (name : String) (body : Action Number) {first last step : Int}
  (hstep : step ≠ 0)
include hstep

/-- The further turns of a loop over integers, if there is no want of turns. -/
theorem turnsAfter_integer
    {turns : Nat} (hturns : Counter.length (first + step) last step < turns)
    (result : Number) :
    turnsAfter name body turns ⟨.integer first, .integer last,
      .integer step⟩ result = forEach name body
        (Counter.progression (first + step) step
          (Counter.length (first + step) last step))
        result := by
  induction turns generalizing first result with
  | zero => omega
  | succ turns ih =>
      have hlive := Counter.isLive_integer (first + step) last hstep
      have hnext := Counter.length_next (first + step) last hstep
      have hunfold :
          turnsAfter name body (turns + 1) ⟨.integer first, .integer last,
            .integer step⟩ result =
            if Counter.isLive ⟨.integer (first + step), .integer last,
                .integer step⟩ then
              Action.bind name (.integer (first + step)) >>= fun _ =>
                body >>= fun value =>
                  turnsAfter name body turns
                    ⟨.integer (first + step), .integer last, .integer step⟩
                    value
            else pure result := rfl
      rw [hunfold, hlive]
      cases hlength : Counter.length (first + step) last step with
      | zero => rfl
      | succ length =>
          rw [hlength, Nat.add_sub_cancel] at hnext
          rw [if_pos (by simp), Counter.progression_succ]
          unfold forEach
          congr 1
          funext _
          congr 1
          funext value
          rw [ih (by omega) value, hnext]

theorem count_integer
    {turns : Nat} (hlength : 0 < Counter.length first last step)
    (hturns : Counter.length first last step ≤ turns) (world : World) :
    count turns name ⟨.integer first, .integer last, .integer step⟩ body world =
      (forEach name body
        (Counter.progression first step (Counter.length first last step))
          0).andFinally
          (onBindings (·.removeLocal name)) (world.framed name) := by
  have hlive := Counter.isLive_integer first last hstep
  have hnext := Counter.length_next first last hstep
  obtain ⟨length, hsucc⟩ := Nat.exists_eq_add_one_of_ne_zero hlength.ne'
  rw [hsucc, Nat.add_sub_cancel] at hnext
  have hafter (value : Number) :
      turnsAfter name body turns ⟨.integer first, .integer last,
        .integer step⟩ value =
        forEach name body
          (Counter.progression (first + step) step length) value := by
    rw [turnsAfter_integer name body hstep (by omega) value, hnext]
  have hsame :
      (body >>= fun value =>
          turnsAfter name body turns ⟨.integer first, .integer last,
            .integer step⟩ value)
          (world.entered name (.integer first)) =
        forEach name body
          (Counter.progression first step (Counter.length first last step)) 0
          (world.framed name) := by
    rw [hsucc, Counter.progression_succ, World.entered_integer]
    unfold forEach
    rw [bind_eq_of_ok (bind_integer name first (world.framed name))]
    simp only [hafter]
  unfold count
  rw [hlive, if_pos (by simpa using hlength), withLocal_eq]
  unfold andFinally
  rw [hsame]

end Values

end Execution

/-! ## Laps -/

/-- One lap of a loop: the value of its variable, the worlds in which its list
starts and stops, and the value of the list. -/
structure Lap where
  value : Int
  start : World
  stop : World
  result : Number

/-- Laps lead from one world to another.  Each of them starts where the one
before it stopped, with the variable bound to its own value. -/
inductive RunsLaps (name : String) (body : Action Number) :
    World → List Lap → World → Prop where
  | done (world : World) : RunsLaps name body world [] world
  | next {world last : World} {lap : Lap} {rest : List Lap}
      (hstart : lap.start = world.bound name lap.value)
      (hbody : body lap.start = .ok lap.result lap.stop)
      (hrest : RunsLaps name body lap.stop rest last) :
      RunsLaps name body world (lap :: rest) last

section Laps

variable {name : String} {body : Action Number}

theorem RunsLaps.get?_start
    {world last : World} {laps : List Lap}
    (hlaps : RunsLaps name body world laps last) :
    ∀ lap ∈ laps,
      lap.start.bindings.entries.get? name = some (.integer lap.value) := by
  induction hlaps with
  | done world => simp
  | next hstart _ _ ih =>
      rw [List.forall_mem_cons]
      refine ⟨?_, ih⟩
      rw [hstart]
      exact get?_insert_self name _ _

/-- A loop over integers runs a lap for each of them, or for those in front of
one at which its list fails. -/
theorem forEach_cases
    (name : String) (body : Action Number) (values : List Int) (result : Number)
    (world : World) :
    (∃ laps last,
      RunsLaps name body world laps last ∧ laps.map Lap.value = values ∧
        forEach name body values result world =
          .ok ((laps.map Lap.result).getLastD result) last) ∨
    ∃ laps between n rest fault last,
      RunsLaps name body world laps between ∧
        values = laps.map Lap.value ++ n :: rest ∧
        body (between.bound name n) = .error fault last ∧
        forEach name body values result world = .error fault last := by
  induction values generalizing result world with
  | nil => exact .inl ⟨[], world, .done world, rfl, rfl⟩
  | cons n rest ih =>
      have hunfold :
          forEach name body (n :: rest) result world =
            (body >>= forEach name body rest) (world.bound name n) :=
        bind_eq_of_ok (bind_integer name n world)
      rw [hunfold]
      cases hrun : body (world.bound name n) with
      | error fault last =>
          rw [bind_eq_of_error hrun]
          exact .inr ⟨[], world, n, rest, fault, last, .done world,
            rfl, hrun, rfl⟩
      | ok value after =>
          rw [bind_eq_of_ok hrun]
          rcases ih value after with
            ⟨laps, last, hlaps, hvalues, hloop⟩ |
            ⟨laps, between, m, others, fault, last, hlaps, hvalues,
              hfails, hloop⟩
          · refine .inl ⟨⟨n, world.bound name n, after, value⟩ :: laps, last,
              .next rfl hrun hlaps, by simp [hvalues], ?_⟩
            rw [hloop, List.map_cons, List.getLastD_cons]
          · exact .inr ⟨⟨n, world.bound name n, after, value⟩ :: laps, between,
              m, others, fault, last, .next rfl hrun hlaps, by
                simp [hvalues], hfails, hloop⟩

end Laps

/-! ## Notifications -/

/-- Every observer has been notified so many more times. -/
def Rings (count : Nat) (before after : World) : Prop :=
  after.bindings.alarms = before.bindings.alarms.map (· + count)

theorem Rings.of_bindings_eq
    {before after : World} (hbindings : after.bindings = before.bindings) :
    Rings 0 before after := by
  simp [Rings, hbindings]

theorem Rings.trans
    {early late : Nat} {first second third : World}
    (hfirst : Rings early first second) (hsecond : Rings late second third) :
    Rings (early + late) first third := by
  unfold Rings at hfirst hsecond ⊢
  rw [hsecond, hfirst, List.map_map]
  apply List.map_congr_left
  intro alarms _
  simp only [Function.comp_apply]
  omega

/-- A balanced change of the world, in which all observers have been notified
equally often. -/
structure Rung (before after : World) : Prop where
  balanced : Balanced before after
  rings : ∃ count, Rings count before after

namespace Rung

theorem of_bindings_eq
    {before after : World} (hbalanced : Balanced before after)
    (hbindings : after.bindings = before.bindings) : Rung before after :=
  ⟨hbalanced, 0, .of_bindings_eq hbindings⟩

theorem trans {first second third : World} (hfirst : Rung first second)
    (hsecond : Rung second third) : Rung first third := by
  obtain ⟨early, hearly⟩ := hfirst.rings
  obtain ⟨late, hlate⟩ := hsecond.rings
  exact ⟨hfirst.balanced.trans hsecond.balanced, early + late,
    hearly.trans hlate⟩

theorem bind_keeps (name : String) (number : Number) :
    Keeps Rung (Action.bind name number) := by
  intro world
  refine ⟨Balanced.bind_keeps name number world, 1, ?_⟩
  rw [bind_eq]
  rfl

theorem scope_keeps
    (name : String) (number : Number) {body : Action Number}
    (hbody : Keeps Rung body) :
    Keeps Rung (withLocal name number body) := by
  intro world
  have hinner := hbody (world.entered name number)
  obtain ⟨count, hcount⟩ := hinner.rings
  refine ⟨Balanced.scope_keeps name number
    (hbody.mono fun _ _ => balanced) world, 1 + count + 1, ?_⟩
  rw [finalState_withLocal hinner.balanced.frames]
  have hopens : Rings 1 world (world.entered name number) := rfl
  have hcloses (inner : World) : Rings 1 inner (world.left inner name) := rfl
  exact (hopens.trans hcount).trans (hcloses _)

theorem focus_keeps (number : Number) {body : Action Number}
    (hbody : Keeps Rung body) :
    Keeps Rung (focused [number] body) := by
  intro world
  refine ⟨Balanced.focus_keeps number
    (hbody.mono fun _ _ => balanced) world, ?_⟩
  cases hident : Flock.identOf number with
  | error trouble =>
      rw [focused_of_error hident]
      exact ⟨0, .of_bindings_eq rfl⟩
  | ok ident =>
      rw [finalState_focused hident]
      exact (hbody (world.focusedOn ident)).rings

theorem tell_keeps (numbers : List Number) :
    Keeps Rung (Action.tell numbers) := by
  intro world
  refine of_bindings_eq (Balanced.tell_keeps numbers world) ?_
  unfold Action.tell
  split <;> rfl

theorem discipline (mode : Mode) : Discipline mode Rung (fun _ => Rung) where
  refl world := of_bindings_eq (.refl world) rfl
  trans _ _ _ := trans
  stays _ _ hrung := hrung.balanced.stays
  marks world marks :=
    of_bindings_eq ((Balanced.discipline mode).marks world marks) rfl
  draws world draws :=
    of_bindings_eq ((Balanced.discipline mode).draws world draws) rfl
  inside _ _ _ hrung := hrung
  insideTrans _ _ _ _ := trans
  rebind := bind_keeps
  scope name number _ := scope_keeps name number
  focus number _ world _ hbody := focus_keeps number hbody world
  bind _ := bind_keeps
  install _ world name entry := ⟨.install world name entry, 1, rfl⟩
  command _ expr word command ident operands world :=
    of_bindings_eq
      (Balanced.command_keeps expr word command ident operands world)
      (bindings_commandOne expr word command ident operands world)
  flock _ expr word command operands world :=
    of_bindings_eq
      (Balanced.flockCommand_keeps expr word command operands world)
      (bindings_flockCommand expr word command operands world)
  hatch heffectful world number ident hident :=
    of_bindings_eq
      ((Balanced.discipline mode).hatch heffectful world number
        ident hident) rfl
  tell _ := tell_keeps

theorem body_keeps (turns depth : Nat) (mode : Mode) (body : List Expr) :
    Keeps Rung (inOrder (execute turns depth mode) 0 body) :=
  (discipline mode).keeps_inOrder
    ((discipline mode).keeps_execute turns depth) 0 body

end Rung

/-- Laps notify the observers once each, besides what their lists do. -/
theorem RunsLaps.rings
    {name : String} {body : Action Number} (hbody : Keeps Rung body)
    {world last : World} {laps : List Lap}
    (hlaps : RunsLaps name body world laps last) :
    ∃ counts,
      List.Forall₂
        (fun lap count => Rings count lap.start lap.stop) laps counts ∧
        Rings (laps.length + counts.sum) world last := by
  induction hlaps with
  | done world => exact ⟨[], .nil, .of_bindings_eq rfl⟩
  | @next world last lap rest hstart hrun hrest ih =>
      obtain ⟨counts, hcounts, hrings⟩ := ih
      obtain ⟨count, hcount⟩ := (hbody lap.start).rings
      rw [hrun, finalState_ok] at hcount
      have hbound : Rings 1 world lap.start := by
        rw [hstart]
        rfl
      refine ⟨count :: counts, .cons hcount hcounts, ?_⟩
      have hall := (hbound.trans hcount).trans hrings
      have hsum :
          1 + count + (rest.length + counts.sum) =
            (lap :: rest).length + (count :: counts).sum := by
        simp only [List.length_cons, List.sum_cons]
        omega
      rwa [hsum] at hall

end Logo
