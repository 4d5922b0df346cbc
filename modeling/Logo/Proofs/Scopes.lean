import Logo.Proofs.Execution.Balance
import Logo.Proofs.Session.History

/-!
# Local scopes

Loops and procedure calls evaluate their operands first and then open scopes for
their names.  When such an instruction is left, by its end or by a failure at
any depth, these names have the entries again that they had behind the operands,
and no frame is left over.
-/

namespace Logo

open Logo.Action Execution

/-- The operands that a loop or a procedure call evaluates before it opens its
scopes. -/
def Expr.operands : Expr → List Expr
  | .repeatTimes _ limit _ _ => [limit]
  | .countTo _ _ limit _ _ => [limit]
  | .countBy _ _ first last step _ _ => [first, last, step]
  | .call _ args => args
  | _ => []

/-- The names for which a loop or a procedure call opens scopes.  A call with a
wrong number of operands opens none. -/
def Expr.scopeNames (expr : Expr) (world : World) : List String :=
  match expr with
  | .repeatTimes .. => ["repcount"]
  | .countTo _ target .. => [target.variableName]
  | .countBy _ target .. => [target.variableName]
  | .call head args =>
      match world.bindings.entries.get? head.procedureName with
      | some (.function (.procedure procedure)) =>
          if procedure.params.length = args.length then procedure.params else []
      | _ => []
  | _ => []

theorem balanced_execute
    (turns depth : Nat) (mode : Mode) (expr : Expr) :
    Keeps Balanced (execute turns depth mode expr) :=
  (Balanced.discipline mode).keeps_execute turns depth expr

theorem balanced_body
    (turns depth : Nat) (mode : Mode) (body : List Expr) :
    Keeps Balanced (inOrder (execute turns depth mode) 0 body) :=
  (Balanced.discipline mode).keeps_inOrder
    (balanced_execute turns depth mode) 0 body

theorem each_cons_eq_ok
    {run : Expr → Action Number} {expr : Expr} {rest : List Expr}
    {world after : World} {values : List Number}
    (hrun : each run (expr :: rest) world = .ok values after) :
    ∃ value others between,
      values = value :: others ∧ run expr world = .ok value between ∧
        each run rest between = .ok others after := by
  obtain ⟨value, between, hvalue, hrun⟩ := exists_of_bind_eq_ok hrun
  obtain ⟨others, last, hothers, hrun⟩ := exists_of_bind_eq_ok hrun
  cases hrun
  exact ⟨value, others, between, rfl, hvalue, hothers⟩

theorem get?_tally_count
    (turns : Nat) (name : String) (limit : Expr) (number : Number)
    {body : Action Number} (hbody : Keeps Balanced body) (world : World) :
    (finalState
        ((tally limit number >>= fun last =>
          count turns name
            (.upTo last) body) world)).bindings.entries.get? name =
      world.bindings.entries.get? name := by
  have hreads := (tally_observes limit number).reads world
  cases htally : tally limit number world with
  | ok last after =>
      rw [htally] at hreads
      rw [bind_eq_of_ok htally, get?_count turns name _ hbody after, hreads]
      rfl
  | error fault after =>
      rw [htally] at hreads
      rw [bind_eq_of_error htally, hreads]
      rfl

theorem length_of_each
    {run : Expr → Action Number} {exprs : List Expr} {world after : World}
    {values : List Number} (hrun : each run exprs world = .ok values after) :
    values.length = exprs.length := by
  induction exprs generalizing world values with
  | nil =>
      cases hrun
      rfl
  | cons expr rest ih =>
      obtain ⟨value, others, between, rfl, -, hrest⟩ := each_cons_eq_ok hrun
      rw [List.length_cons, List.length_cons, ih hrest]

theorem get?_call
    (turns depth : Nat) (mode : Mode) (head : Token) (args : List Expr)
    {world after : World} {values : List Number}
    (hargs : each (execute turns depth mode) args world = .ok values after)
    {found : Procedure}
    (hentry :
      world.bindings.entries.get? head.procedureName =
        some (.function (.procedure found)))
    (hlength : found.params.length = args.length)
    {name : String} (hname : name ∈ found.params) :
    (finalState
        (execute turns (depth + 1) mode
          (.call head args) world)).bindings.entries.get? name =
      after.bindings.entries.get? name := by
  have hbound : name ∈ (found.params.zip values).map Prod.fst := by
    rw [List.map_fst_zip]
    · exact hname
    · rw [length_of_each hargs, hlength]
  rw [execute_call, bind_eq_of_ok (procedure_eq_ok hentry hlength),
    bind_eq_of_ok hargs]
  exact get?_withLocals
    _ (balanced_body turns depth mode found.body) after hbound

/-- Behind a loop or a procedure call its names are as they were behind its
operands. -/
theorem get?_execute_scopeNames
    {turns depth : Nat} {mode : Mode} {expr : Expr} {world after : World}
    {values : List Number}
    (hoperands :
      each (execute turns depth mode) expr.operands world = .ok values after)
    {name : String} (hname : name ∈ expr.scopeNames world) :
    (finalState
      (execute turns (depth + 1) mode expr world)).bindings.entries.get? name =
      after.bindings.entries.get? name := by
  have hbody := balanced_body turns depth mode
  cases expr <;>
    simp only [Expr.scopeNames, List.not_mem_nil, List.mem_singleton] at hname
  case repeatTimes head limit brackets body =>
    obtain ⟨number, others, between, -, hlimit, hnone⟩ :=
      each_cons_eq_ok hoperands
    cases hnone
    subst hname
    rw [execute_repeatTimes, bind_eq_of_ok hlimit]
    exact get?_tally_count turns _ limit number (hbody body) _
  case countTo head target limit brackets body =>
    obtain ⟨number, others, between, -, hlimit, hnone⟩ :=
      each_cons_eq_ok hoperands
    cases hnone
    subst hname
    rw [execute_countTo, bind_eq_of_ok hlimit]
    exact get?_tally_count turns _ limit number (hbody body) _
  case countBy head target first last size brackets body =>
    obtain ⟨start, others, second, -, hfirst, hrest⟩ :=
      each_cons_eq_ok hoperands
    obtain ⟨stop, others, third, -, hlast, hrest⟩ := each_cons_eq_ok hrest
    obtain ⟨number, others, between, -, hsize, hnone⟩ := each_cons_eq_ok hrest
    cases hnone
    subst hname
    rw [execute_countBy, bind_eq_of_ok hfirst, bind_eq_of_ok hlast,
      bind_eq_of_ok hsize]
    split
    · exact get?_count turns _ _ (hbody body) _
    · rfl
  case call head args =>
    split at hname
    next found hentry =>
      split at hname
      next hlength =>
        exact get?_call turns depth mode head args hoperands
          hentry hlength hname
      next => simp at hname
    next => simp at hname

/-- No call of a session leaves a frame behind. -/
theorem frames_perform
    {session : Session} (hframes : session.world.bindings.frames = [])
    (call : Session.Call) :
    (session.perform call).world.bindings.frames = [] := by
  have hprogram (mode : Mode) (body : List Expr) (world : World) :=
    (Balanced.discipline mode).keeps_program session.limits body world
  rcases Session.perform_world_cases session call with
    hsame | ⟨text, path, body, between, -, hrun⟩ |
    ⟨text, body, between, -, hrun⟩ | hreset
  · rw [hsame, hframes]
  · rw [hrun, (hprogram .effectful body _).frames]
    exact hframes
  · rw [hrun, (hprogram .pureAttempt body _).frames, hframes]
  · rw [hreset]
    rfl

theorem frames_performAll
    {session : Session} (hframes : session.world.bindings.frames = [])
    (calls : List Session.Call) :
    (session.performAll calls).world.bindings.frames = [] := by
  induction calls generalizing session with
  | nil => exact hframes
  | cons call rest ih => exact ih (frames_perform hframes call)

/-- Scopes unwind exactly.  No execution of an expression or a program changes
the frames that wait to be restored, in either mode and however it ends, so none
are left between the calls of a session.  When a loop or a procedure call has
evaluated its operands, then whatever its body does, each of its names ends with
the entry, or the absence of one, that it had at that moment. -/
theorem local_scopes_unwind :
    (∀ turns depth mode expr world,
      (finalState (execute turns depth mode expr world)).bindings.frames =
        world.bindings.frames) ∧
    (∀ limits mode body world,
      (finalState (program limits mode body world)).bindings.frames =
        world.bindings.frames) ∧
    (∀ language report observers draws calls,
      ((Session.start language report observers draws).performAll
        calls).world.bindings.frames = []) ∧
    (∀ turns depth mode expr world values after,
      each (execute turns depth mode) (Expr.operands expr) world =
        .ok values after →
        ∀ name ∈ expr.scopeNames world,
          (finalState
              (execute turns
                (depth + 1) mode expr world)).bindings.entries.get? name =
            after.bindings.entries.get? name) := by
  refine ⟨?_, ?_, ?_, ?_⟩
  · intro turns depth mode expr world
    exact (balanced_execute turns depth mode expr world).frames
  · intro limits mode body world
    exact ((Balanced.discipline mode).keeps_program limits body world).frames
  · intro language report observers draws calls
    exact frames_performAll rfl calls
  · intro turns depth mode expr world values after hoperands name hname
    exact get?_execute_scopeNames hoperands hname

/-- A world with a procedure that lists its parameter `x` twice, redefines `x`
as a procedure, and then fails for want of a variable. -/
def shadowingWorld : World :=
  let word (text : String) : Token := ⟨.command, text, 0, 0⟩
  let brackets : Brackets := ⟨word "[", word "]"⟩
  let body :=
    [.define (word "to") (word "x") [] brackets [], .variable (word ":y")]
  let bindings := (Bindings.fresh 1).install "x" (.integer 7)
  { World.fresh 1 (Draws.seeded 0) with
    bindings :=
      bindings.install "twice"
        (.function (.procedure ⟨"twice", ["x", "x"], body⟩)) }

theorem shadowed_parameter_restored :
    let call : Expr :=
      .call ⟨.command, "twice", 0, 0⟩
        [.literal ⟨.constant, "1", 0, 0⟩ 1, .literal ⟨.constant, "2", 0, 0⟩ 2]
    each (execute 9 9 .effectful) call.operands shadowingWorld =
        .ok [1, 2] shadowingWorld ∧
      "x" ∈ call.scopeNames shadowingWorld ∧
      (finalState
          (execute 9 10 .effectful call shadowingWorld)).bindings.entries.get?
            "x" =
        some (.integer 7) := by
  intro call
  have hoperands :
      each (execute 9 9 .effectful) call.operands shadowingWorld =
        .ok [1, 2] shadowingWorld := rfl
  have hname : "x" ∈ call.scopeNames shadowingWorld := by decide
  have hrestored :=
    local_scopes_unwind.2.2.2 9 9 .effectful call shadowingWorld
      _ _ hoperands "x" hname
  exact ⟨hoperands, hname, hrestored⟩

end Logo
