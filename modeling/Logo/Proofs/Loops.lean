import Logo.Proofs.Execution.Laps
import Logo.Proofs.Number.Faults
import Logo.Proofs.Scopes

/-!
# Counting loops

A loop from one integer to another by steps that are not zero takes as many laps
as the quotient of the distance and the step says, whatever its list does to its
variable.  Counting to a limit is counting from one by ones, also if the limit
is not an integer, and repeating is counting to a limit with a variable of its
own.
-/

namespace Logo

open Logo.Action Execution

/-! ## Loops over integers -/

section Integers

variable (turns depth : Nat) (mode : Mode) (head target : Token)
  {first last step : Expr} (brackets : Brackets) (body : List Expr)
  {world outer : World} {s e d : Int}

/-- A loop whose operands are integers counts from where they have been
evaluated. -/
theorem execute_countBy_integers
    (hoperands :
      each (execute turns depth mode) [first, last, step] world =
        .ok [.integer s, .integer e, .integer d] outer) :
    execute turns (depth + 1) mode
      (.countBy head target first last step brackets body) world =
      if d = 0 then
        .error (.complaint (.mishap .zeroStep (some (.expr step)))) outer
      else
        count turns target.variableName ⟨.integer s, .integer e, .integer d⟩
          (inOrder (execute turns depth mode) 0 body) outer := by
  obtain ⟨start, others, second, hvalues, hfirst, hrest⟩ :=
    each_cons_eq_ok hoperands
  obtain ⟨stop, others, third, rfl, hlast, hrest⟩ := each_cons_eq_ok hrest
  obtain ⟨size, others, fourth, rfl, hstep, hnone⟩ := each_cons_eq_ok hrest
  cases hnone
  cases hvalues
  rw [execute_countBy, bind_eq_of_ok hfirst, bind_eq_of_ok hlast,
    bind_eq_of_ok hstep]
  by_cases hzero : d = 0
  · simp [hzero, Number.isTrue]
    rfl
  · simp [hzero, Number.isTrue]

end Integers

theorem Action.andFinally_eq_left
    {outer inner : World} {name : String} {action : Action Number}
    (hframes : (finalState (action inner)).bindings.frames =
      (outer.framed name).bindings.frames) :
    action.andFinally (onBindings (·.removeLocal name)) inner =
      Ending.inWorld (action inner)
        (outer.left (finalState (action inner)) name) := by
  have hentered :
      (outer.framed name).bindings.frames =
        (outer.entered name 0).bindings.frames :=
    rfl
  have hclose :
      onBindings (·.removeLocal name) (finalState (action inner)) =
        .ok () (outer.left (finalState (action inner)) name) :=
    removeLocal_eq_left (hframes.trans hentered)
  unfold andFinally
  cases hrun : action inner with
  | ok value stop =>
      rw [hrun, finalState_ok] at hclose
      simp only [hclose]
      rfl
  | error fault stop =>
      rw [hrun, finalState_error] at hclose
      simp only [hclose]
      rfl

theorem balanced_forEach
    (name : String) {body : Action Number} (hbody : Keeps Balanced body)
    (values : List Int) (result : Number) :
    Keeps Balanced (forEach name body values result) := by
  have hlaw := Balanced.discipline .effectful
  induction values generalizing result with
  | nil => exact hlaw.keeps_reads (pure_reads result)
  | cons n rest ih =>
      exact hlaw.keeps_bind (Balanced.bind_keeps name _)
        fun _ => hlaw.keeps_bind hbody ih

/-- A loop over integers that is not empty ends as its laps do, and its scope is
closed behind them. -/
theorem count_integer_cases
    {name : String} {body : Action Number} (hbody : Keeps Balanced body)
    {first last step : Int} (hstep : step ≠ 0) {turns : Nat}
    (hlength : 0 < Counter.length first last step)
    (hturns : Counter.length first last step ≤ turns) (outer : World) :
    (∃ laps final stop,
      RunsLaps name body (outer.framed name) (laps ++ [final]) stop ∧
        (laps ++ [final]).map Lap.value =
          Counter.progression first step (Counter.length first last step) ∧
        count turns name ⟨.integer first, .integer last,
          .integer step⟩ body outer = .ok final.result (outer.left stop name)) ∨
    ∃ laps between n rest fault stop,
      RunsLaps name body (outer.framed name) laps between ∧
        laps.map Lap.value ++ n :: rest =
          Counter.progression first step (Counter.length first last step) ∧
        body (between.bound name n) = .error fault stop ∧
        count turns name ⟨.integer first, .integer last,
          .integer step⟩ body outer = .error fault (outer.left stop name) := by
  have hframes := (balanced_forEach name hbody
    (Counter.progression first step (Counter.length first last step)) 0
      (outer.framed name)).frames
  rw [count_integer name body hstep hlength hturns, andFinally_eq_left hframes]
  rcases forEach_cases name body
      (Counter.progression first step (Counter.length first last step)) 0
        (outer.framed name) with
    ⟨laps, stop, hlaps, hvalues, hloop⟩ |
    ⟨laps, between, n, rest, fault, stop, hlaps, hvalues, hfails, hloop⟩
  · rcases List.eq_nil_or_concat' laps with rfl | ⟨front, final, rfl⟩
    · have hempty := congrArg List.length hvalues
      rw [Counter.length_progression] at hempty
      simp only [List.map_nil, List.length_nil] at hempty
      omega
    · left
      refine ⟨front, final, stop, hlaps, hvalues, ?_⟩
      rw [hloop]
      simp [Ending.inWorld]
  · right
    refine ⟨laps, between, n, rest, fault, stop, hlaps,
      hvalues.symm, hfails, ?_⟩
    rw [hloop]
    rfl

/-- A loop over integers counts exactly.  Where its operands have been
evaluated, a step of zero is a mishap at the step, and nothing has been bound.
Otherwise the loop takes as many laps as the distance from the first value to
the last one and the step make up, and if that is none, nothing more happens.
Each lap starts with the variable bound to its own value of the progression.
The first list that fails is the last one that is run; if none fails, the value
is that of the last lap, and the loop has notified the observers once for each
lap and once at its end.  Behind it the variable is as it was. -/
theorem for_loop_counts_exactly
    {turns depth : Nat} {mode : Mode} {first last step : Expr}
    {world outer : World} {s e d : Int}
    (hoperands :
      each (execute turns depth mode) [first, last, step] world =
        .ok [.integer s, .integer e, .integer d] outer)
    (head target : Token) (brackets : Brackets) (body : List Expr) :
    let loop :=
      execute turns (depth + 1) mode
        (.countBy head target first last step brackets body) world
    let list := inOrder (execute turns depth mode) 0 body
    let name := target.variableName
    let length := (max 0 ((e - s).fdiv d + 1)).toNat
    let values := (List.range length).map fun (k : Nat) => s + k * d
    (d = 0 →
      loop =
        .error (.complaint (.mishap .zeroStep (some (.expr step)))) outer) ∧
    (d ≠ 0 → length = 0 → loop = .ok 0 outer) ∧
    (d ≠ 0 → 0 < length → length ≤ turns →
      (finalState loop).bindings.entries.get? name =
        outer.bindings.entries.get? name ∧
      ((∃ laps final stop,
        RunsLaps name list (outer.framed name) (laps ++ [final]) stop ∧
        (laps ++ [final]).map Lap.value = values ∧
        (∀ lap ∈ laps ++ [final],
          lap.start.bindings.entries.get? name = some (.integer lap.value)) ∧
        loop = .ok final.result (outer.left stop name) ∧
        ∃ counts,
          List.Forall₂ (fun lap count => Rings count lap.start lap.stop)
            (laps ++ [final]) counts ∧
          Rings (length + 1 + counts.sum) outer (outer.left stop name)) ∨
      ∃ laps between n rest fault stop,
        RunsLaps name list (outer.framed name) laps between ∧
        laps.map Lap.value ++ n :: rest = values ∧
        (∀ lap ∈ laps,
          lap.start.bindings.entries.get? name = some (.integer lap.value)) ∧
        (between.bound name n).bindings.entries.get? name = some (.integer n) ∧
        list (between.bound name n) = .error fault stop ∧
        loop = .error fault (outer.left stop name))) := by
  intro loop list name length values
  have hloop : loop = _ :=
    execute_countBy_integers turns depth mode head target brackets
      body hoperands
  have hlist : Keeps Rung list := Rung.body_keeps turns depth mode body
  have hbalanced : Keeps Balanced list := hlist.mono fun _ _ => Rung.balanced
  refine ⟨?_, ?_, ?_⟩
  · intro hzero
    rw [hloop, if_pos hzero]
  · intro hstep hnone
    have hidle : ¬ 0 < Counter.length s e d := by
      change ¬ 0 < length
      omega
    rw [hloop, if_neg hstep, count, Counter.isLive_integer s e hstep]
    simp only [hidle, decide_false]
    rfl
  · intro hstep hsome hturns
    rw [hloop, if_neg hstep]
    refine ⟨get?_count turns name _ hbalanced outer, ?_⟩
    rcases count_integer_cases hbalanced hstep hsome hturns outer with
      ⟨laps, final, stop, hlaps, hvalues, hends⟩ |
      ⟨laps, between, n, rest, fault, stop, hlaps, hvalues, hfails, hends⟩
    · left
      obtain ⟨counts, hcounts, hrings⟩ := hlaps.rings hlist
      refine ⟨laps, final, stop, hlaps, hvalues, hlaps.get?_start, hends,
        counts, hcounts, ?_⟩
      have hnumber : (laps ++ [final]).length = length := by
        rw [← List.length_map, hvalues, Counter.length_progression]
        rfl
      have hcloses : Rings 1 stop (outer.left stop name) := rfl
      have hall := hrings.trans hcloses
      rw [hnumber, Nat.add_right_comm] at hall
      exact hall
    · right
      exact ⟨laps, between, n, rest, fault, stop, hlaps, hvalues,
        hlaps.get?_start, NameMap.get?_insert_self name _ _, hfails, hends⟩

def worldWithSeven : World :=
  let world := World.fresh 1 (Draws.seeded 0)
  { world with bindings := world.bindings.install "i" (.integer 7) }

/-- Counting down from five to one by twos, with a list that spoils the variable
in two ways. -/
theorem loop_counts_down_over_a_spoilt_variable :
    let word (text : String) : Token := ⟨.command, text, 0, 0⟩
    let brackets : Brackets := ⟨word "[", word "]"⟩
    let constant (n : Int) : Expr := .literal (word "") (.integer n)
    let body : List Expr :=
      [.make (word "make") (word ":i") (constant 100),
        .define (word "to") (word "i") [] brackets []]
    let list := inOrder (execute 9 9 .effectful) 0 body
    let loop :=
      execute 9 10 .effectful
        (.countBy (word "for") (word ":i") (constant 5) (constant 1)
          (constant (-2)) brackets body)
        worldWithSeven
    ∃ laps final stop,
      RunsLaps "i" list (worldWithSeven.framed "i") (laps ++ [final]) stop ∧
      (laps ++ [final]).map Lap.value = [5, 3, 1] ∧
      loop = .ok final.result (worldWithSeven.left stop "i") ∧
      (worldWithSeven.left stop "i").bindings.entries.get? "i" =
        some (.integer 7) := by
  intro word brackets constant body list loop
  have hname : (word ":i").variableName = "i" := by decide
  have hseven : worldWithSeven.bindings.entries.get? "i" = some (.integer 7) :=
    NameMap.get?_insert_self "i" _ _
  have hlist (world : World) : ∃ after, list world = .ok 1 after := ⟨_, rfl⟩
  have hoperands :
      each (execute 9 9 .effectful)
        [constant 5, constant 1, constant (-2)] worldWithSeven =
        .ok [.integer 5, .integer 1, .integer (-2)] worldWithSeven := rfl
  obtain ⟨-, -, hcounts⟩ :=
    for_loop_counts_exactly hoperands (word "for") (word ":i") brackets body
  obtain ⟨hrestored, hlaps | hfails⟩ :=
    hcounts (by decide) (by decide) (by decide)
  · obtain ⟨laps, final, stop, hruns, hvalues, -, hends, -⟩ := hlaps
    rw [hname] at hruns hends hrestored
    rw [hends, finalState_ok, hseven] at hrestored
    exact ⟨laps, final, stop, hruns, hvalues, hends, hrestored⟩
  · obtain ⟨laps, between, n, rest, fault, stop, -, -, -, -, hfails, -⟩ :=
      hfails
    obtain ⟨after, hok⟩ := hlist (between.bound (word ":i").variableName n)
    cases hok.symm.trans hfails

/-! ## Loops that count alike -/

/-- A finite number in double precision, or an integer that has one next to
it. -/
def Number.Countable : Number → Prop
  | .integer n => (Binary64.ofInt? n).isSome
  | .real x => x.isFinite = true
  | .marked _ => False

/-- Two limits that the integers from one on do not tell apart. -/
def Number.CountsLike (limit other : Number) : Prop :=
  ∀ k : Int, 1 ≤ k → (Number.integer k).le limit = (Number.integer k).le other

namespace Execution

variable {limit other : Number} (halike : limit.CountsLike other)
include halike

theorem isLive_countsLike {k : Int} (hk : 1 ≤ k) :
    Counter.isLive ⟨.integer k, limit, 1⟩ = Counter.isLive
      ⟨.integer k, other, 1⟩ := by
  have hup : Number.lt 0 1 = true := by decide
  unfold Counter.isLive
  simp only [hup, if_true]
  exact halike k hk

theorem turnsAfter_countsLike
    (name : String) (body : Action Number) (turns : Nat) {k : Int} (hk : 1 ≤ k)
    (result : Number) :
    turnsAfter name body turns ⟨.integer k, limit, 1⟩ result =
      turnsAfter name body turns ⟨.integer k, other, 1⟩ result := by
  induction turns generalizing k result with
  | zero => rfl
  | succ turns ih =>
      have hunfold (last : Number) :
          turnsAfter name body (turns + 1) ⟨.integer k, last, 1⟩ result =
            if Counter.isLive ⟨.integer (k + 1), last, 1⟩ then
              Action.bind name (.integer (k + 1)) >>= fun _ =>
                body >>= fun value =>
                  turnsAfter name body turns ⟨.integer (k + 1), last, 1⟩ value
            else pure result := rfl
      have hnext : 1 ≤ k + 1 := by omega
      rw [hunfold, hunfold, isLive_countsLike halike hnext]
      simp only [ih hnext]

theorem count_countsLike (name : String) (body : Action Number) (turns : Nat) :
    count turns name ⟨1, limit, 1⟩ body = count turns name
      ⟨1, other, 1⟩ body := by
  have hlive : Counter.isLive ⟨1, limit, 1⟩ = Counter.isLive ⟨1, other, 1⟩ :=
    isLive_countsLike halike le_rfl
  have hafter (result : Number) :
      turnsAfter name body turns ⟨1, limit, 1⟩ result =
        turnsAfter name body turns ⟨1, other, 1⟩ result :=
    turnsAfter_countsLike halike name body turns le_rfl result
  unfold count
  simp only [hlive, hafter]

end Execution

/-- A number that can be counted to is counted to as its integer part. -/
theorem tally_eq_of_countable
    {number : Number} (hnumber : number.Countable) (expr : Expr)
    (world : World) :
    ∃ n, tally expr number world = .ok n world ∧
      (Number.integer n).CountsLike number := by
  cases number with
  | integer n =>
      refine ⟨n, ?_, fun k _ => rfl⟩
      unfold tally
      rw [Number.isFinite_of_ofInt?_isSome hnumber]
      rfl
  | real x =>
      have hreal : x.isFinite = true := hnumber
      obtain ⟨n, hn⟩ := Binary64.exists_truncate? hreal
      refine ⟨n, ?_, fun k hk => ?_⟩
      · have hfinite : (Number.real x).isFinite = .ok true :=
          congrArg Except.ok hreal
        have htruncate : (Number.real x).truncate? = some n := hn
        unfold tally
        rw [hfinite, htruncate]
        rfl
      · rw [Number.le_integer, Bool.eq_iff_iff,
          decide_eq_true_iff, ← Binary64.compareInt_le_iff hn hk]
        simp [Number.le, Number.compare?]
  | marked mark => cases hnumber

/-- Counting to a limit is counting from one by ones, if the limit fails to have
a value or has one that is finite, and repeating is counting to a limit with the
variable `repcount`.  The value or the fault is the same, and so is the whole
world behind the loop. -/
theorem counting_loops_agree
    (turns depth : Nat) (mode : Mode) (head head' target one one' : Token)
    (limit : Expr) (brackets brackets' : Brackets) (body : List Expr)
    (world : World) :
    let inner := execute turns depth mode
    let outer := execute turns (depth + 1) mode
    ((∀ number after, inner limit world = .ok number after → number.Countable) →
      outer (.countTo head target limit brackets body) world =
        outer (.countBy head' target (.literal one 1) limit
          (.literal one' 1) brackets' body) world) ∧
    (target.variableName = "repcount" →
      outer (.repeatTimes head limit brackets body) world =
        outer (.countTo head' target limit brackets' body) world) := by
  intro inner outer
  constructor
  · intro hcountable
    have hup : Number.isTrue 1 = true := rfl
    simp only [outer, execute_countTo, execute_countBy]
    cases depth with
    | zero => rfl
    | succ depth =>
        have hone (token : Token) : inner (.literal token 1) = pure 1 :=
          if_neg (by simp [Expr.isPure])
        simp only [inner] at hone
        simp only [hone, pure_bind, hup, if_true]
        cases hlimit : execute turns (depth + 1) mode limit world with
        | error fault after =>
            rw [bind_eq_of_error hlimit, bind_eq_of_error hlimit]
        | ok number after =>
            obtain ⟨n, htally, halike⟩ :=
              tally_eq_of_countable (hcountable number after hlimit) limit after
            rw [bind_eq_of_ok hlimit, bind_eq_of_ok hlimit,
              bind_eq_of_ok htally, ← count_countsLike halike]
            rfl
  · intro hname
    simp only [outer, execute_repeatTimes, execute_countTo, hname]

theorem loops_count_to_two_and_a_half :
    let word (text : String) : Token := ⟨.command, text, 0, 0⟩
    let brackets : Brackets := ⟨word "[", word "]"⟩
    let limit : Expr := .literal (word "2.5") (.real 2.5)
    let one : Expr := .literal (word "1") 1
    let count := word ":repcount"
    let body : List Expr := [.make (word "make") count (.variable count)]
    let run (expr : Expr) := execute 9 9 .effectful expr worldWithSeven
    run (.countTo (word "dotimes") count limit brackets body) =
        run (.countBy (word "for") count one limit one brackets body) ∧
      run (.repeatTimes (word "repeat") limit brackets body) =
        run (.countTo (word "dotimes") count limit brackets body) := by
  intro word brackets limit one count body run
  have hcountable (number : Number) (after : World)
      (hlimit : execute 9 8 .effectful limit worldWithSeven =
        .ok number after) :
      number.Countable := by
    cases hlimit
    change (2.5 : Float).isFinite = true
    decide
  constructor
  · exact (counting_loops_agree 9 8 .effectful (word "dotimes")
      (word "for") count (word "1")
      (word "1") limit brackets brackets body worldWithSeven).1 hcountable
  · exact (counting_loops_agree 9 8 .effectful (word "repeat")
      (word "dotimes") count (word "1")
      (word "1") limit brackets brackets body worldWithSeven).2 (by decide)

end Logo
