import Logo.Proofs.Execution.Notified
import Logo.Proofs.Flock.Sound
import Logo.Proofs.Turns

/-!
# Conditions

The turtles for which a condition holds are found one after the other, and each
time the table and the selection are written and restored.  As the condition is
only attempted purely, none of this can be told from asking every turtle in the
world as it was at the start.  What follows is the same as if the turtles had
been listed by their numbers.
-/

namespace Logo

open Logo.Action Execution

/-- A pure attempt at a condition. -/
def Execution.attempt (turns depth : Nat) (condition : List Expr) :
    Action Number :=
  inOrder (execute turns depth .pureAttempt) 0 condition

section Attempts

variable {turns depth : Nat} {condition : List Expr} {world : World}

/-- A sober attempt does the same however often the observers have been notified
before, and when its marks have been taken back, nothing but notifications is
left of it. -/
theorem unmarking_attempt
    (hcondition : ∀ expr ∈ condition, expr.Drawless)
    (hstored : world.bindings.entries.All (Entry.Sound True Expr.Drawless)) :
    ∃ count, ∀ heard,
      unmarking (attempt turns depth condition) (world.notified heard) =
        Ending.inWorld (attempt turns depth condition world)
          (world.notified (heard + count)) := by
  have hunmarked :
      Unmarked world (finalState (attempt turns depth condition world)) :=
    Unmarked.discipline.keeps_inOrder
      (Unmarked.discipline.keeps_execute turns depth) 0 condition world
  obtain ⟨count, halarms⟩ := hunmarked.alarms
  refine ⟨count, fun heard => ?_⟩
  have hsober : ∀ expr ∈ condition, True → expr.Drawless :=
    fun expr hexpr _ => hcondition expr hexpr
  have hstart : Heard True heard world.draws (world.notified heard) world :=
    ⟨rfl, fun _ => rfl, fun _ => hstored⟩
  have hrun :
      Ending.Abreast (Heard True heard world.draws) (fun _ => True)
        (attempt turns depth condition (world.notified heard))
        (attempt turns depth condition world) :=
    Heard.body turns depth .pureAttempt hsober _ _ hstart
  have hlast {after : World}
      (hheard :
        Heard True heard world.draws after
          (finalState (attempt turns depth condition world))) :
      { after with marks := world.marks } = world.notified (heard + count) := by
    rw [hheard.notified]
    ext1
    · ext1
      · exact hunmarked.entries.symm
      · exact hunmarked.frames
      · simp only [World.notified, halarms, List.map_map, Function.comp_def,
          Nat.add_assoc, Nat.add_comm count heard]
    · exact hunmarked.flock
    · exact hheard.drawn trivial
    · rfl
  unfold unmarking
  rw [get_bind, andFinally_modify_eq]
  generalize attempt turns depth condition (world.notified heard) =
    ending at hrun ⊢
  generalize attempt turns depth condition world = ending' at hrun hlast ⊢
  cases hrun with
  | value number hheard =>
      exact congrArg (EStateM.Result.ok number) (hlast hheard)
  | failure _ hheard => exact congrArg (EStateM.Result.error _) (hlast hheard)

variable (hflock : world.flock.Numbered)
  (hcondition : ∀ expr ∈ condition, expr.Drawless)
  (hstored : world.bindings.entries.All (Entry.Sound True Expr.Drawless))
include hflock hcondition hstored

theorem focused_attempt {ident : Nat}
    (hident : world.flock.contains ident = true) :
    ∃ count, ∀ heard,
      focused [.integer ident] (unmarking (attempt turns depth condition))
        (world.notified heard) =
        Ending.inWorld (attempt turns depth condition (world.listening [ident]))
          (world.notified (heard + count)) := by
  have halone :
      (world.listening [ident]).bindings.entries.All
        (Entry.Sound True Expr.Drawless) :=
    hstored
  obtain ⟨count, hattempt⟩ := unmarking_attempt hcondition halone
  refine ⟨count, fun heard => ?_⟩
  have hfocused :
      (world.notified heard).focusedOn ident =
        (world.listening [ident]).notified heard :=
    World.focusedOn_eq_listening hident
  rw [focused_of_identOf (hflock.identOf_eq hident), hfocused,
    andFinally_modify_eq, hattempt]
  cases attempt turns depth condition (world.listening [ident]) <;> rfl

/-- Where no attempt fails, those are chosen for whom it comes to something
other than zero. -/
theorem satisfying_of_ok
    {numbers : Nat → Number} {idents : List Nat}
    (hidents : ∀ ident ∈ idents, world.flock.contains ident = true)
    (hverdicts :
      ∀ ident ∈ idents, ∃ after,
        attempt turns depth condition (world.listening [ident]) =
          .ok (numbers ident) after) :
    ∃ count, ∀ heard,
      Execution.satisfying (attempt turns depth condition) idents
        (world.notified heard) =
        .ok ((idents.filter fun ident => (numbers ident).isTrue).map
            fun ident : Nat => Number.integer ident)
          (world.notified (heard + count)) := by
  induction idents with
  | nil => exact ⟨0, fun _ => rfl⟩
  | cons ident rest ih =>
      rw [List.forall_mem_cons] at hidents hverdicts
      obtain ⟨later, hrest⟩ := ih hidents.2 hverdicts.2
      obtain ⟨after, hverdict⟩ := hverdicts.1
      obtain ⟨count, hfirst⟩ :=
        focused_attempt hflock hcondition hstored hidents.1
      -- The others are tried in a world with more notifications, so `hrest` has
      -- to be for any number.
      refine ⟨count + later, fun heard => ?_⟩
      rw [hverdict] at hfirst
      unfold Execution.satisfying
      rw [bind_eq_of_ok (hfirst heard), bind_eq_of_ok (hrest (heard + count)),
        Nat.add_assoc]
      by_cases htrue : (numbers ident).isTrue = true
      · rw [if_pos htrue, List.filter_cons, if_pos htrue]
        rfl
      · rw [if_neg htrue, List.filter_cons, if_neg htrue]
        rfl

/-- The first attempt that fails ends the search. -/
theorem satisfying_of_error
    {before rest : List Nat} {ident : Nat} {fault : Fault} {after : World}
    (hidents : ∀ other ∈ before ++ ident :: rest,
      world.flock.contains other = true)
    (hverdicts :
      ∀ other ∈ before, ∃ value after,
        attempt turns depth condition (world.listening [other]) =
          .ok value after)
    (hverdict : attempt turns depth condition (world.listening [ident]) =
      .error fault after) :
    ∃ count, ∀ heard,
      Execution.satisfying (attempt turns depth condition)
        (before ++ ident :: rest)
          (world.notified heard) =
        .error fault (world.notified (heard + count)) := by
  induction before with
  | nil =>
      obtain ⟨count, hfirst⟩ :=
        focused_attempt hflock hcondition hstored
          (hidents ident List.mem_cons_self)
      refine ⟨count, fun heard => ?_⟩
      rw [hverdict] at hfirst
      exact bind_eq_of_error (hfirst heard)
  | cons other others ih =>
      rw [List.cons_append, List.forall_mem_cons] at hidents
      rw [List.forall_mem_cons] at hverdicts
      obtain ⟨later, hrest⟩ := ih hidents.2 hverdicts.2
      obtain ⟨value, last, hother⟩ := hverdicts.1
      obtain ⟨count, hfirst⟩ :=
        focused_attempt hflock hcondition hstored hidents.1
      refine ⟨count + later, fun heard => ?_⟩
      rw [hother] at hfirst
      rw [List.cons_append, Execution.satisfying, bind_eq_of_ok (hfirst heard),
        bind_eq_of_error (hrest (heard + count)), Nat.add_assoc]

end Attempts

/-- Without any room there can only be the empty condition, and that does not
hold. -/
theorem isTrue_of_attempt_zero
    {turns : Nat} {condition : List Expr} {world after : World}
    {number : Number}
    (hattempt : attempt turns 0 condition world = .ok number after) :
    number.isTrue = false := by
  cases condition with
  | nil =>
      cases hattempt
      rfl
  | cons expr rest => cases hattempt

/-! ## Asking the turtles that satisfy a condition -/

/-- Turtles that are there can be addressed in either mode. -/
theorem address_of_contains
    {world : World} (hflock : world.flock.Numbered) (mode : Mode)
    (expr place : Expr) {idents : List Nat}
    (hidents : ∀ ident ∈ idents, world.flock.contains ident = true) :
    address mode expr place
      (idents.map fun ident : Nat => Number.integer ident) world =
      .ok () world := by
  induction idents with
  | nil => rfl
  | cons ident rest ih =>
      rw [List.forall_mem_cons] at hidents
      obtain ⟨hthere, hrest⟩ := hidents
      cases mode with
      | effectful =>
          rw [List.map_cons, address_effectful_cons, hflock.identOf_eq hthere]
          simp only [Flock.hatch_eq_self hthere]
          exact ih hrest
      | pureAttempt =>
          rw [List.map_cons, address_pureAttempt_cons, hflock.identOf_eq hthere]
          simp only [hthere]
          exact ih hrest

/-- A list of constants that are the numbers of turtles. -/
def Expr.roll (token : Nat → Token) (idents : List Nat) : List Expr :=
  idents.map fun ident => .literal (token ident) (.integer ident)

/-- Asking turtles by their numbers does nothing but give them their turns, if
they are there. -/
theorem execute_ask_roll
    {world : World} (hflock : world.flock.Numbered) {idents : List Nat}
    (hidents : ∀ ident ∈ idents, world.flock.contains ident = true)
    (turns depth : Nat) (mode : Mode) (head : Token)
    (listBrackets brackets : Brackets) (token : Nat → Token)
    (body : List Expr) :
    execute turns (depth + 2) mode
        (.ask head listBrackets (Expr.roll token idents) brackets body) world =
      dispatch (inOrder (execute turns (depth + 1) mode) 0 body) 0
        (idents.map fun ident : Nat => Number.integer ident) world := by
  have hroll (expr : Expr) (hexpr : expr ∈ Expr.roll token idents) :
      ∃ ident, expr.named? = some ident := by
    obtain ⟨ident, hident, rfl⟩ := List.mem_map.mp hexpr
    refine ⟨ident, ?_⟩
    rw [Expr.named?, hflock.identOf_eq (hidents ident hident)]
    rfl
  have hconstants :
      (Expr.roll token idents).map Expr.constant =
        idents.map fun ident : Nat => Number.integer ident :=
    List.map_map
  have heach := each_of_named? turns depth mode hroll world
  rw [hconstants] at heach
  rw [execute_ask, bind_eq_of_ok heach,
    bind_eq_of_ok (address_of_contains hflock mode _ _ hidents)]

/-- Some notifications before their turns make no difference to the turtles that
are asked. -/
theorem dispatch_abreast_ask
    {world : World} (hflock : world.flock.Numbered) {idents : List Nat}
    (hidents : ∀ ident ∈ idents, world.flock.contains ident = true)
    (count turns : Nat) {depth : Nat} (hroom : depth = 0 → idents = [])
    (mode : Mode) (head : Token) (listBrackets brackets : Brackets)
    (token : Nat → Token) (body : List Expr) :
    Ending.Abreast (fun after after' => after = after'.notified count)
      (fun _ => True) (dispatch (inOrder (execute turns depth mode) 0 body) 0
        (idents.map fun ident : Nat => Number.integer ident)
        (world.notified count))
      (execute turns (depth + 1) mode
        (.ask head listBrackets
          (Expr.roll token idents) brackets body) world) := by
  cases depth with
  | zero =>
      -- There would be no room for the constants of a longer list.
      rw [hroom rfl, execute_ask]
      exact .value 0 rfl
  | succ depth =>
      have hbody :
          Abreast (Heard False count world.draws) (fun _ => True)
            (inOrder (execute turns (depth + 1) mode) 0 body)
            (inOrder (execute turns (depth + 1) mode) 0 body) :=
        Heard.body turns (depth + 1) mode fun _ _ hsober => hsober.elim
      rw [execute_ask_roll hflock hidents]
      refine (Heard.regime.dispatch (c := ()) trivial hbody 0 _ _ _ ?_).mono ?_
      · exact ⟨rfl, fun hsober => hsober.elim, fun hsober => hsober.elim⟩
      · exact fun _ _ hheard => hheard.notified

/-- `askwith` decides who listens by a pure attempt at the condition for each
turtle alone, in the world as it was before any turtle had been asked.  Then it
does what `ask` does with the numbers of those for which the condition holds,
but for some notifications.  If an attempt fails, the fault of the first one
that does is that of the whole, and nothing but notifications is left. -/
theorem askWith_asks_the_turtles_that_satisfy_the_condition
    (turns depth : Nat) (mode : Mode) (head : Token)
    (conditionBrackets brackets : Brackets) (condition : List Expr)
    {world : World} (hflock : world.flock.Numbered)
    (hdraws : ∀ part : Expr, part.OccursIn condition world →
      part.isDraw = false) :
    let idents := world.flock.turtles.map (·.ident)
    let verdict (ident : Nat) :=
      attempt turns depth condition (world.listening [ident])
    let outcome (body : List Expr) :=
      execute turns (depth + 1) mode
        (.askWith head conditionBrackets condition brackets body) world
    (∀ numbers : Nat → Number,
        (∀ ident ∈ idents, ∃ after, verdict ident = .ok (numbers ident) after) →
        let chosen := idents.filter fun ident => (numbers ident).isTrue
        chosen.Pairwise (· < ·) ∧
          ∃ count, ∀ body asker listBrackets token,
            Ending.Abreast (fun after after' => after = after'.notified count)
              (fun _ => True) (outcome body)
              (execute turns (depth + 1) mode
                (.ask asker listBrackets
                  (Expr.roll token chosen) brackets body) world)) ∧
      ∀ ident ∈ idents, ∀ fault after, verdict ident = .error fault after →
        (∀ other ∈ idents, other < ident →
          ∃ number after, verdict other = .ok number after) →
        ∃ count, ∀ body,
          outcome body = .error fault (world.notified count) := by
  intro idents verdict outcome
  obtain ⟨hcondition, hstored⟩ := forall_within_of_occursIn hdraws
  have hsorted : idents.Pairwise (· < ·) := List.pairwise_map.mpr hflock.sorted
  have hthere (ident : Nat) (hident : ident ∈ idents) :
      world.flock.contains ident = true := by
    obtain ⟨turtle, hturtle, rfl⟩ := List.mem_map.mp hident
    exact (Flock.contains_iff _ _).mpr ⟨turtle, hturtle, rfl⟩
  have houtcome (body : List Expr) :
      outcome body =
        (Execution.satisfying
            (attempt turns depth condition) idents >>= fun chosen =>
          dispatch
            (inOrder (execute turns depth mode) 0 body) 0 chosen) world := by
    unfold outcome
    rw [execute_askWith, get_bind]
    rfl
  constructor
  · intro numbers hverdicts chosen
    refine ⟨hsorted.filter _, ?_⟩
    obtain ⟨count, hsatisfying⟩ :=
      satisfying_of_ok hflock hcondition hstored hthere hverdicts
    have hchosen := hsatisfying 0
    rw [World.notified_zero, Nat.zero_add] at hchosen
    change _ = EStateM.Result.ok
      (chosen.map fun ident : Nat => Number.integer ident) _ at hchosen
    have hroom : depth = 0 → chosen = [] := by
      rintro rfl
      refine List.filter_eq_nil_iff.mpr fun ident hident => ?_
      obtain ⟨after, hverdict⟩ := hverdicts ident hident
      rw [isTrue_of_attempt_zero hverdict]
      exact Bool.false_ne_true
    refine ⟨count, fun body asker listBrackets token => ?_⟩
    rw [houtcome, bind_eq_of_ok hchosen]
    exact dispatch_abreast_ask hflock
      (fun ident hident => hthere ident (List.mem_of_mem_filter hident))
      count turns hroom mode asker listBrackets brackets token body
  · intro ident hident fault after hverdict hothers
    obtain ⟨before, rest, hsplit⟩ := List.append_of_mem hident
    rw [hsplit] at hsorted hthere
    have hbefore (other : Nat) (hother : other ∈ before) :
        ∃ number after, verdict other = .ok number after := by
      refine hothers other ?_ ?_
      · rw [hsplit]
        exact List.mem_append_left _ hother
      · exact (List.pairwise_append.mp hsorted).2.2 other hother ident
          List.mem_cons_self
    obtain ⟨count, hsatisfying⟩ :=
      satisfying_of_error hflock hcondition hstored hthere hbefore hverdict
    have hfails := hsatisfying 0
    rw [World.notified_zero, Nat.zero_add] at hfails
    refine ⟨count, fun body => ?_⟩
    rw [houtcome, hsplit, bind_eq_of_error hfails]

def identCompared (operator : Operator) (n : Nat) : List Expr :=
  [.operation ⟨.command, "compare", 0, 0⟩ operator
    [.command ⟨.command, "id", 0, 0⟩ .ident [],
      .literal ⟨.constant, toString n, 0, 0⟩ (.integer n)]]

theorem two_of_three_turtles_satisfy_a_condition :
    let word (text : String) : Token := ⟨.command, text, 0, 0⟩
    let brackets : Brackets := ⟨word "[", word "]"⟩
    let world := ((World.fresh 1 (Draws.seeded 0)).focusedOn 2).focusedOn 3
    let condition := identCompared .greaterThan 1
    let body : List Expr := [.command (word "pu") .penUp []]
    world.flock.Numbered ∧
      (∀ part : Expr, part.OccursIn condition world → part.isDraw = false) ∧
      ∃ count,
        Ending.Abreast (fun after after' => after = after'.notified count)
          (fun _ => True)
          (execute 9 9 .effectful
            (.askWith (word "askwith") brackets condition brackets body) world)
          (execute 9 9 .effectful
            (.ask (word "ask") brackets
              (Expr.roll (fun ident => word (toString ident)) [2, 3])
              brackets body) world) := by
  intro word brackets world condition body
  have hflock : world.flock.Numbered := by
    have hsound : world.flock.Sound := by decide +kernel
    exact hsound.numbered
  have hdraws (part : Expr) (hpart : part.OccursIn condition world) :
      part.isDraw = false := by
    obtain ⟨expr, hwithin, hexpr | ⟨name, procedure, hmem, -⟩⟩ := hpart
    · rw [List.mem_singleton.mp hexpr] at hwithin
      have hmem :=
        Expr.mem_flattened_of_within hwithin
          (show Expr.isShallow 1 _ = true from rfl)
      fin_cases hmem <;> rfl
    · cases hmem
  have hverdicts (ident : Nat)
      (hident : ident ∈ world.flock.turtles.map (·.ident)) :
      ∃ after,
        attempt 9 8 condition (world.listening [ident]) =
          .ok (if ident = 1 then 0 else 1) after := by
    change ident ∈ [1, 2, 3] at hident
    fin_cases hident <;> exact ⟨_, rfl⟩
  obtain ⟨hasks, -⟩ :=
    askWith_asks_the_turtles_that_satisfy_the_condition 9 8 .effectful
      (word "askwith") brackets brackets condition hflock hdraws
  obtain ⟨-, count, hends⟩ :=
    hasks (fun ident => if ident = 1 then 0 else 1) hverdicts
  exact ⟨hflock, hdraws, count, hends body (word "ask") brackets _⟩

end Logo
