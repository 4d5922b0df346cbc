import Logo.Proofs.Execution.Invariant
import Logo.Proofs.Execution.Purity
import Logo.Proofs.Flock.Colors
import Logo.Proofs.Session.Failures

/-!
# What a host has to paint

Whoever shows a session paints the background, the turtles and what they have
drawn, each in a colour of the palette.  The background is always one.  A
turtle, though, takes a pen of any index, so its colours exist only if it never
took one beyond the palette.  An execution that heeds the palette says when this
is the case: it stops where a turtle would take a pen of a colour that does not
exist.
-/

namespace Logo

open Logo.Action Execution

namespace Execution

/-- Lets some numbers pass as they are, unless one is the index of a pen but not
of a colour.  What is no index passes too, and the turtle refuses it. -/
def existing (expr : Expr) (word : String) (operands : List Number) :
    Action (List Number) := do
  let flock := (← get).flock
  let _ ← pinning word expr
    ((operands.filter (·.toIndex.isOk)).mapM flock.color)
  return operands

/-- One expression as always, but a turtle only takes pens of colours that
exist. -/
def stepHeeding (turns : Nat) (execute : Mode → Expr → Action Number)
    (mode : Mode) (expr : Expr) :
    Action Number :=
  match mode, expr with
  | .effectful, .command head .setPenColor args => do
    let operands := do existing expr head.text (← each (execute mode) args)
    commandEach expr head.text .setPenColor operands 0 (← listeners)
  | _, _ => step turns execute mode expr

def executeHeeding (turns : Nat) : (depth : Nat) → Mode → Expr → Action Number
  | 0 => fun _ _ => throw .tooDeep
  | depth + 1 => stepHeeding turns (executeHeeding turns depth)

variable {turns : Nat} {execute : Mode → Expr → Action Number} {expr : Expr}
  {word : String} {operands : List Number} {world : World}

theorem existing_of_color
    {args : Action (List Number)} {number : Number} {color : Color}
    (hargs : args world = .ok [number] world)
    (hcolor : world.flock.color number = .ok color) :
    (args >>= existing expr word) world = .ok [number] world := by
  rw [bind_eq_of_ok hargs]
  unfold existing
  rw [get_bind, List.filter_cons]
  split
  · rw [List.filter_nil, List.mapM_cons, hcolor]
    rfl
  · rfl

theorem colors_of_existing
    {numbers : List Number} {after : World}
    (hrun : existing expr word operands world = .ok numbers after) :
    numbers = operands ∧ after = world ∧
      ∃ colors, (operands.filter (·.toIndex.isOk)).mapM world.flock.color =
        .ok colors := by
  unfold existing at hrun
  rw [get_bind] at hrun
  cases hcolors : (operands.filter (·.toIndex.isOk)).mapM world.flock.color with
  | ok colors =>
      rw [hcolors] at hrun
      cases hrun
      exact ⟨rfl, rfl, colors, rfl⟩
  | error trouble =>
      rw [hcolors] at hrun
      cases hrun

theorem existing_reads (expr : Expr) (word : String) (operands : List Number) :
    Keeps Eq (existing expr word operands) := by
  intro world
  unfold existing
  rw [get_bind]
  cases (operands.filter (·.toIndex.isOk)).mapM world.flock.color <;> rfl

theorem stepHeeding_of_ne
    {mode : Mode}
    (hexpr : ∀ head args, expr ≠ .command head .setPenColor args) :
    stepHeeding turns execute mode expr = step turns execute mode expr := by
  unfold stepHeeding
  split
  next head args => exact absurd rfl (hexpr head args)
  next => rfl

theorem balanced_executeHeeding (turns depth : Nat) (mode : Mode)
    (expr : Expr) :
    Keeps Balanced (executeHeeding turns depth mode expr) := by
  induction depth generalizing mode expr with
  | zero => exact (Balanced.discipline mode).keeps_reads (throw_reads _)
  | succ depth ih =>
      have hlaw := Balanced.discipline mode
      unfold executeHeeding stepHeeding
      split
      next head args =>
        have hoperands :
            Keeps Balanced
              (do
                let operands ← each (executeHeeding turns depth .effectful) args
                existing
                  (.command head .setPenColor args) head.text operands) :=
          hlaw.keeps_bind (hlaw.keeps_each (ih .effectful) args) fun operands =>
            hlaw.keeps_reads (existing_reads _ _ operands)
        intro world
        refine finalState_bind hlaw.trans
          (hlaw.keeps_reads listeners_observes.reads world) ?_
        intro idents after hrun
        obtain ⟨rfl, hidents⟩ := contains_of_listeners hrun
        exact hlaw.keeps_commandEach _ _ (.inl rfl) hoperands 0 idents _ hidents
      next => exact hlaw.keeps_step turns (ih _) (ih .pureAttempt) _

end Execution

/-! ## What an execution keeps -/

/-- The flock is painted, and the procedures of the table are put together from
good expressions. -/
structure World.Painted (heeding : Prop) (Good : Expr → Prop)
    (world : World) : Prop where
  flock : world.flock.Painted heeding
  stored : world.bindings.entries.All (Entry.Sound True Good)

namespace World.Painted

variable {heeding : Prop} {Good : Expr → Prop} {world : World}

theorem withFlock
    (hpainted : world.Painted heeding Good) {flock : Flock}
    (hflock : flock.Painted heeding) :
    ({ world with flock := flock } : World).Painted heeding Good :=
  ⟨hflock, hpainted.stored⟩

theorem install
    (hpainted : world.Painted heeding Good) (name : String) {entry : Entry}
    (hentry : entry.Sound True Good) :
    ({ world with bindings := world.bindings.install name entry } :
      World).Painted heeding Good :=
  ⟨hpainted.flock, hpainted.stored.insert name hentry⟩

/-- A turtle takes a pen of a colour that exists, or none. -/
theorem setPenColor
    (hpainted : world.Painted heeding Good) {operands : List Number}
    {colors : List Color}
    (hcolors : (operands.filter (·.toIndex.isOk)).mapM
      world.flock.color = .ok colors)
    (expr : Expr) (word : String) (ident : Nat) :
    (finalState
      (commandOne expr word .setPenColor ident operands world)).Painted
        heeding Good := by
  rcases finalState_commandOne expr word .setPenColor ident operands world with
    hsame | ⟨before, after, x, y, marks, hget, hupdate, hfinal⟩
  · rw [hsame]
    exact hpainted
  · rw [hfinal]
    refine ⟨hpainted.flock.put fun hheeding => ?_, hpainted.stored⟩
    have hbefore :=
      hpainted.flock.turtles hheeding before (List.mem_of_find?_eq_some hget)
    cases operands with
    | nil => cases hupdate
    | cons number rest =>
        cases rest with
        | nil =>
            obtain ⟨index, hindex, -⟩ := Except.exists_of_bind_eq_ok hupdate
            have htaken : number.toIndex.isOk = true := by rw [hindex]; rfl
            rw [List.filter_cons, if_pos htaken, List.mapM_cons] at hcolors
            obtain ⟨color, hcolor, -⟩ := Except.exists_of_bind_eq_ok hcolors
            exact (Flock.inked_of_color hcolor hbefore hupdate).of_eq rfl rfl
        | cons _ _ => cases hupdate

/-- Nothing is said about names and faults. -/
theorem invariant (heeding : Prop) (Good : Expr → Prop) :
    Invariant (World.Painted heeding Good) (fun _ => True)
      (fun expr => heeding →
        ∀ head args, expr ≠ .command head .setPenColor args) Good
      (fun _ => True) where
  fault _ _ := trivial
  names _ _ _ _ := trivial
  marks _ _ hpainted := ⟨hpainted.flock, hpainted.stored⟩
  draws _ _ hpainted := ⟨hpainted.flock, hpainted.stored⟩
  select _ idents hpainted := hpainted.withFlock (hpainted.flock.select idents)
  hatch _ ident hpainted := hpainted.withFlock (hpainted.flock.hatch ident)
  bind _ name number hpainted _ :=
    hpainted.install name (Entry.sound_ofNumber number)
  opened _ name number hpainted _ :=
    ⟨hpainted.flock, hpainted.stored.insert name (Entry.sound_ofNumber number)⟩
  left _ _ name hpainted hinner _ :=
    ⟨hinner.flock,
      hinner.stored.assign name fun _ hentry => hpainted.stored.get? hentry⟩
  define _ _ _ _ _ _ _ hbody hpainted := hpainted.install _ hbody
  found world head args _ hpainted := by
    rcases procedure_observes
        (.call head args) head.procedureName args.length world with
      ⟨found, hfound⟩ | ⟨fault, -, hfound⟩
    · have hbody := hpainted.stored.get? (get?_of_procedure_eq_ok hfound)
      exact .inl ⟨found, hfound, fun _ _ => trivial, hbody⟩
    · exact .inr ⟨fault, trivial, hfound⟩
  command world head command args ident operands hnode hpainted := by
    rcases finalState_commandOne
      (.command head command args) head.text command ident operands world
      with hsame | ⟨before, after, x, y, marks, hget, hupdate, hfinal⟩
    · rw [hsame]
      exact hpainted
    · rw [hfinal]
      refine ⟨hpainted.flock.put fun hheeding => ?_, hpainted.stored⟩
      have hbefore :=
        hpainted.flock.turtles hheeding before (List.mem_of_find?_eq_some hget)
      have hcommand : command ≠ .setPenColor := by
        rintro rfl
        exact hnode hheeding head args rfl
      exact (hbefore.update hcommand hupdate).of_eq rfl rfl
  flock world head command args operands _ hpainted := by
    rcases finalState_flockCommand
      (.flock head command args) head.text command operands world
      with hsame | ⟨later, answer, hupdate, hfinal⟩
    · rw [hsame]
      exact hpainted
    · rw [hfinal]
      exact hpainted.withFlock (hpainted.flock.update hupdate)

end World.Painted

section Executions

variable {heeding : Prop} {Good : Expr → Prop}

/-- Side by side in one and the same painted world, however the executions
end. -/
abbrev Alongside
    {α : Type} (heeding : Prop) (Good : Expr → Prop)
    (action twin : Action α) : Prop :=
  Abreast (fun world world' => world = world' ∧ world.Painted heeding Good)
    (fun _ => True) action twin

/-- The turtles take the pens that they are told of, if these exist. -/
theorem alongside_setPenColor
    {expr : Expr} {word : String} {args args' : Action (List Number)}
    (hargs : Alongside heeding Good (args >>= existing expr word) args') :
    Alongside heeding Good
      (listeners >>=
        commandEach expr word .setPenColor (args >>= existing expr word) 0)
      (listeners >>= commandEach expr word .setPenColor args' 0) := by
  refine (World.Painted.invariant heeding Good).regime.listening (c := ()) ?_
  rintro _ _ ident - - world _ ⟨rfl, hworld⟩
  refine Abreast.bindAt (hargs world world ⟨rfl, hworld⟩) ?_
    fun _ _ hafter => hafter
  rintro numbers after _ hrun ⟨rfl, hafter⟩
  obtain ⟨operands, between, -, hexisting⟩ := exists_of_bind_eq_ok hrun
  obtain ⟨rfl, rfl, colors, hcolors⟩ := colors_of_existing hexisting
  exact .diagonal (hafter.setPenColor hcolors expr word ident)
    fun _ _ _ => trivial

/-- An execution that heeds the palette keeps a painted world so. -/
theorem alongside_executeHeeding (turns depth : Nat) (mode : Mode)
    (expr : Expr) :
    Alongside True (fun _ => True) (executeHeeding turns depth mode expr)
      (executeHeeding turns depth mode expr) := by
  induction depth generalizing mode expr with
  | zero => exact .of_throw trivial
  | succ depth ih =>
      by_cases hpen : ∃ head args, expr = .command head .setPenColor args
      · obtain ⟨head, args, rfl⟩ := hpen
        cases mode with
        | pureAttempt => exact .of_throw trivial
        | effectful =>
            apply alongside_setPenColor
            refine Abreast.bind (.each fun part _ => ih .effectful part)
              fun operands => ?_
            refine Invariant.abreast_self (fun world hworld => ?_)
              fun _ _ _ _ => trivial
            rw [← existing_reads _ _ operands world]
            exact hworld
      · have hnode (head : Token) (args : List Expr) :
            expr ≠ .command head .setPenColor args :=
          fun hexpr => hpen ⟨head, args, hexpr⟩
        change Alongside _ _ (stepHeeding _ _ _ _) (stepHeeding _ _ _ _)
        rw [stepHeeding_of_ne hnode]
        exact (World.Painted.invariant True fun _ => True).regime.step turns
          (fun _ mode part _ => ih mode part)
          (balanced_executeHeeding turns depth) mode
          (fun _ => hnode) (fun _ _ => trivial) ()

end Executions

/-! ## Pens of the first colours -/

/-- Whether an expression, if it sets the pen, sets it to one of the first
colours by a constant. -/
def Expr.picksFirstColor : Expr → Bool
  | .command _ .setPenColor [.literal _ (.integer n)] =>
      0 ≤ n && n < Color.initialPalette.size
  | .command _ .setPenColor _ => false
  | _ => true

/-- The colours of pens throughout an expression are constants among the first
colours. -/
def Expr.Modest (expr : Expr) : Prop :=
  ∀ part : Expr, part.Within expr → part.picksFirstColor = true

theorem Expr.Modest.part
    {expr part : Expr} (hmodest : expr.Modest) (hpart : part ∈ expr.parts) :
    part.Modest :=
  (Expr.forall_within_iff.mp hmodest).2 part hpart

/-- A shallow expression is looked through. -/
def Expr.isModestDownTo (depth : Nat) (expr : Expr) : Bool :=
  expr.isShallow depth && (expr.flattened depth).all picksFirstColor

theorem Expr.modest_of_isModestDownTo
    {depth : Nat} {expr : Expr} (hmodest : expr.isModestDownTo depth = true) :
    expr.Modest := by
  rw [isModestDownTo, Bool.and_eq_true] at hmodest
  intro part hpart
  exact List.all_eq_true.mp hmodest.2 part
    (mem_flattened_of_within hpart hmodest.1)

theorem exists_of_picksFirstColor
    {head : Token} {args : List Expr}
    (hpicks : (Expr.command head .setPenColor args).picksFirstColor = true) :
    ∃ token, ∃ n : Nat, n < Color.initialPalette.size ∧
      args = [.literal token (.integer n)] := by
  unfold Expr.picksFirstColor at hpicks
  split at hpicks
  next token n heq =>
    cases heq
    rw [Bool.and_eq_true, decide_eq_true_eq, decide_eq_true_eq] at hpicks
    exact ⟨token, n.toNat, by omega, by rw [Int.toNat_of_nonneg hpicks.1]⟩
  next => cases hpicks
  next hother => exact absurd rfl (hother head args)

/-- An expression whose pens have the first colours heeds the palette by
itself. -/
theorem alongside_execute_of_modest
    (turns depth : Nat) (mode : Mode) {expr : Expr} (hmodest : expr.Modest) :
    Alongside True Expr.Modest (executeHeeding turns depth mode expr)
      (execute turns depth mode expr) := by
  induction depth generalizing mode expr with
  | zero => exact .of_throw trivial
  | succ depth ih =>
      by_cases hpen : ∃ head args, expr = .command head .setPenColor args
      · obtain ⟨head, args, rfl⟩ := hpen
        cases mode with
        | pureAttempt => exact .of_throw trivial
        | effectful =>
            obtain ⟨token, n, hn, rfl⟩ :=
              exists_of_picksFirstColor (hmodest _ .self)
            apply alongside_setPenColor
            rintro world _ ⟨rfl, hworld⟩
            cases depth with
            | zero => exact .failure trivial ⟨rfl, hworld⟩
            | succ depth =>
                obtain ⟨color, hcolor⟩ :=
                  hworld.flock.hasColor (hn.trans_le hworld.flock.initial)
                have heach :
                    each (executeHeeding turns (depth + 1) .effectful)
                      [.literal token (.integer n)]
                      world = .ok [.integer n] world := rfl
                rw [existing_of_color heach hcolor]
                exact .value _ ⟨rfl, hworld⟩
      · have hnode (head : Token) (args : List Expr) :
            expr ≠ .command head .setPenColor args :=
          fun hexpr => hpen ⟨head, args, hexpr⟩
        change Alongside _ _ (stepHeeding _ _ _ _) (step _ _ _ _)
        rw [stepHeeding_of_ne hnode]
        exact (World.Painted.invariant True Expr.Modest).regime.step turns
          (fun _ mode part hpart => ih mode hpart)
          (balanced_executeHeeding turns depth) mode
          (fun _ => hnode) (fun part hpart => hmodest.part hpart) ()

/-! ## Programs and histories -/

/-- A program heeds the palette in a world if it makes no difference to stop
where a turtle would take a pen of a colour that does not exist. -/
def Execution.Heeds (limits : Limits) (body : List Expr)
    (world : World) : Prop :=
  inOrder (executeHeeding limits.turns limits.depth .effectful) 0 body world =
    inOrder (execute limits.turns limits.depth .effectful) 0 body world

theorem heeds_of_modest
    (limits : Limits) {body : List Expr} (hbody : ∀ expr ∈ body, expr.Modest)
    {world : World} (hworld : world.Painted True Expr.Modest) :
    Execution.Heeds limits body world := by
  have hexecute (expr : Expr) (hexpr : expr ∈ body) :=
    alongside_execute_of_modest limits.turns limits.depth .effectful
      (hbody expr hexpr)
  have hrun := Abreast.inOrder hexecute 0 world world ⟨rfl, hworld⟩
  exact hrun.eq_of_diagonal.symm

theorem Flock.Painted.program
    {heeding : Prop} {world : World} (hpainted : world.flock.Painted heeding)
    {limits : Limits} {body : List Expr}
    (hheeds : heeding → Execution.Heeds limits body world) :
    (finalState
      (program limits .effectful body world)).flock.Painted heeding := by
  have hstored : world.bindings.entries.All (Entry.Sound True fun _ => True) :=
    fun binding _ => binding.2.sound_true
  rw [finalState_program]
  by_cases hheeding : heeding
  · have hworld : world.Painted True fun _ => True :=
      ⟨hpainted.imp fun _ => hheeding, hstored⟩
    have hexecute (expr : Expr) (_ : expr ∈ body) :=
      alongside_executeHeeding limits.turns limits.depth .effectful expr
    have hrun := Abreast.inOrder hexecute 0 world world ⟨rfl, hworld⟩
    rw [hheeds hheeding] at hrun
    exact hrun.finalState.2.flock.imp fun _ => trivial
  · have hworld : world.Painted False fun _ => True :=
      ⟨hpainted.imp False.elim, hstored⟩
    have hregime := (World.Painted.invariant False fun _ => True).regime
    have hexecute (expr : Expr) (_ : expr ∈ body) :
        Alongside False (fun _ => True)
          (execute limits.turns limits.depth .effectful expr)
          (execute limits.turns limits.depth .effectful expr) :=
      hregime.execute (fun _ _ => False.elim)
        (fun _ _ _ _ => trivial) _ _ _ trivial ()
    have hrun := Abreast.inOrder hexecute 0 world world ⟨rfl, hworld⟩
    exact hrun.finalState.2.flock.imp hheeding

namespace Session

/-- A call heeds the palette if the program does that it runs. -/
def Heeds (session : Session) : Call → Prop
  | .run text path =>
    ∀ body between, Session.parse text path session = .ok body between →
      Execution.Heeds session.limits body (rested session.world)
  | _ => True

/-- Whether a text can be read as a program of modest and shallow
expressions. -/
def readsModestly (session : Session) (text : String) : Bool :=
  match Session.parse text none session with
  | .ok body _ => body.all (Expr.isModestDownTo 1)
  | .error _ _ => false

theorem modest_of_parse
    {session between : Session} {text : String} {body : List Expr}
    (hparse : Session.parse text none session = .ok body between)
    (hmodest : session.readsModestly text = true) :
    ∀ expr ∈ body, expr.Modest := by
  intro expr hexpr
  unfold readsModestly at hmodest
  rw [hparse] at hmodest
  exact Expr.modest_of_isModestDownTo (List.all_eq_true.mp hmodest expr hexpr)

theorem painted_perform
    {heeding : Prop} {session : Session}
    (hpainted : session.world.flock.Painted heeding)
    {call : Call} (hheeds : heeding → session.Heeds call) :
    (session.perform call).world.flock.Painted heeding := by
  refine perform_world
    (J := fun world => world.flock.Painted heeding) hpainted ?_ ?_ .fresh
  · rintro text path body between rfl hparse
    exact hpainted.clearMotion.program
      fun hheeding => hheeds hheeding body between hparse
  · rintro text body between rfl hparse
    rw [(Unmarked.discipline.keeps_program session.limits body
      session.world).flock]
    exact hpainted

/-- Since the last reset all calls have heeded the palette. -/
def AllHeed (first : Session) (calls : List Call) : Prop :=
  ∀ earlier call later, calls = earlier ++ call :: later → .reset ∉ later →
    (first.performAll earlier).Heeds call

theorem painted_performAll
    {first : Session} (hfirst : ∀ heeding, first.world.flock.Painted heeding)
    (calls : List Call) :
    (first.performAll calls).world.flock.Painted (first.AllHeed calls) := by
  induction calls using List.reverseRecOn with
  | nil => exact hfirst _
  | append_singleton calls call ih =>
      unfold performAll at ih ⊢
      rw [List.foldl_append]
      by_cases hreset : call = .reset
      · subst hreset
        exact .fresh
      · apply painted_perform
        · refine ih.imp fun hall earlier other later hcalls hlater => ?_
          apply hall earlier other (later ++ [call])
          · rw [hcalls, List.append_assoc, List.cons_append]
          · simp [hlater, Ne.symm hreset]
        · intro hall
          exact hall calls call [] rfl (by simp)

end Session

/-- The background has a colour of the palette after any history.  The pens and
the strokes of all turtles have one too, if since the last reset no turtle took
a pen of a colour that did not exist. -/
theorem colors_to_paint_exist
    (limits : Limits) (language : String) (report : Report) (observers : Nat)
    (draws : Draws) (calls : List Session.Call) :
    let first := Session.startWithin limits language report observers draws
    let flock := (first.performAll calls).world.flock
    flock.HasColor flock.background ∧
      (first.AllHeed calls →
        ∀ turtle ∈ flock.turtles,
          flock.HasColor turtle.penColor ∧
          ∀ stroke ∈ turtle.trail, flock.HasColor stroke.color) := by
  intro first flock
  have hpainted : flock.Painted (first.AllHeed calls) :=
    Session.painted_performAll (fun _ => .fresh) calls
  refine ⟨hpainted.hasColor hpainted.background, fun hheed turtle hturtle => ?_⟩
  have hinked := hpainted.turtles hheed turtle hturtle
  refine ⟨hpainted.hasColor hinked.pen, fun stroke hstroke => ?_⟩
  exact hpainted.hasColor (hinked.strokes stroke (List.mem_reverse.mp hstroke))

/-- Behind a reset, it does not matter of which colours turtles were told
before. -/
theorem colors_exist_behind_reset :
    let first :=
      Session.startWithin .standard "English" (Report.fresh false none) 0
        (Draws.seeded 0)
    let calls : List Session.Call :=
      [.run "setpencolor 99" none, .reset,
        .run "tell [ 2 3 ] setpencolor 5 fd 10" none]
    let flock := (first.performAll calls).world.flock
    first.AllHeed calls ∧
      ∀ turtle ∈ flock.turtles,
        flock.HasColor turtle.penColor ∧
        ∀ stroke ∈ turtle.trail, flock.HasColor stroke.color := by
  intro first calls
  have hpaint :=
    colors_to_paint_exist .standard "English" (Report.fresh false none) 0
      (Draws.seeded 0) calls
  suffices hheed : first.AllHeed calls from ⟨hheed, hpaint.2 hheed⟩
  have hrenewed (session : Session) (call : Session.Call) :
      (Session.rested (session.performAll [call, .reset]).world).Painted True
        Expr.Modest :=
    ⟨Flock.Painted.fresh.clearMotion,
      fun _ hentry => absurd hentry List.not_mem_nil⟩
  have hlast :
      (first.performAll [.run "setpencolor 99" none, .reset]).Heeds
        (.run "tell [ 2 3 ] setpencolor 5 fd 10" none) := by
    intro body between hparse
    have hbody := Session.modest_of_parse hparse (by decide +kernel)
    exact heeds_of_modest _ hbody (hrenewed first (.run "setpencolor 99" none))
  rintro (_ | ⟨_, _ | ⟨_, _ | ⟨_, earlier⟩⟩⟩) call later hcalls hlater
  · simp only [calls, List.nil_append, List.cons.injEq] at hcalls
    obtain ⟨rfl, rfl⟩ := hcalls
    simp at hlater
  · simp only [calls, List.cons_append, List.nil_append,
      List.cons.injEq] at hcalls
    obtain ⟨rfl, rfl, -⟩ := hcalls
    trivial
  · simp only [calls, List.cons_append, List.nil_append,
      List.cons.injEq] at hcalls
    obtain ⟨rfl, rfl, rfl, -⟩ := hcalls
    exact hlast
  · simp [calls] at hcalls

/-- A turtle takes a pen of a colour that does not exist. -/
theorem pen_beyond_the_palette :
    let flock :=
      (finalState
        (Session.run "setpencolor 99" none
          (Session.start "English" (Report.fresh false none) 0
            (Draws.seeded 0)))).world.flock
    ∃ turtle ∈ flock.turtles, ¬ flock.HasColor turtle.penColor := by
  decide +kernel

end Logo
