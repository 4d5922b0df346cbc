import Logo.Proofs.Program.Grammar

/-!
# What the reader accepts is derived

Between two tokens the reader stands in the middle of a derivation: every frame
on its stack is a rule of the grammar of which the first parts are complete.  A
token completes some of them or begins another, so at the end of a program that
is accepted there is a derivation of the whole.
-/

namespace Logo

open Vocabulary Reader

/-- Some tokens begin an expression that is complete once the need is met. -/
def Pending (lexicon : Lexicon) (room : Nat) (arities : NameMap Nat)
    (begun : List Token) (need : Need) (between : NameMap Nat) : Prop :=
  ∀ ⦃others expr after⦄,
    Reads lexicon room between others (.rest need expr) after →
    Reads lexicon room arities (begun ++ others) (.value expr) after

/-- The tokens of complete expressions and of the first parts of those that
stand on the stack, with the room and the arities for the next expression. -/
inductive Opened (lexicon : Lexicon) (nesting : Nat) (known : NameMap Nat)
    (body : List Expr) :
    List Frame → Nat → List Token → NameMap Nat → Prop where
  | program {tokens after}
      (hbody : Reads lexicon (nesting + 1) known tokens (.list body) after) :
      Opened lexicon nesting known body [] (nesting + 1) tokens after
  | call {frames room tokens arities head callee others args after}
      (houter : Opened lexicon nesting known body frames
        (room + 1) tokens arities)
      (hcalls : Calls lexicon arities head callee)
      (hargs : Reads lexicon room arities others (.list args) after)
      (hmore : args.length < callee.arity) :
      Opened lexicon nesting known body (.call head callee args :: frames) room
        (tokens ++ head :: others) after
  | group
      {frames room tokens arities begun opener between head callee
        others args after}
      (houter : Opened lexicon nesting known body frames
        (room + 1) tokens arities)
      (hpending : Pending lexicon (room + 1) arities begun
        (.leader opener) between)
      (hcalls : Calls lexicon between head callee)
      (hargs : Reads lexicon room between others (.list args) after) :
      Opened lexicon nesting known body
        (.group opener head callee args :: frames) room
        (tokens ++ (begun ++ head :: others)) after
  | list
      {frames room tokens arities begun next between opener others items after}
      (houter : Opened lexicon nesting known body frames
        (room + 1) tokens arities)
      (hpending : Pending lexicon (room + 1) arities begun
        (.block next) between)
      (hopener : opener.kind = .listStart)
      (hitems : Reads lexicon room between others (.list items) after) :
      Opened lexicon nesting known body (.list opener items next :: frames) room
        (tokens ++ (begun ++ opener :: others)) after
  | input {frames room tokens arities begun next after}
      (houter : Opened lexicon nesting known body frames
        (room + 1) tokens arities)
      (hpending : Pending lexicon (room + 1) arities begun
        (.value next) after) :
      Opened lexicon nesting known body (.input next :: frames) room
        (tokens ++ begun) after

/-- Whether a need is for a token of a certain kind. -/
def Need.IsForToken : Need → Prop
  | .done _ => False
  | .value _ => False
  | _ => True

/-- The state of a reader that has read some tokens. -/
inductive Reached (lexicon : Lexicon) (nesting : Nat) (known : NameMap Nat) :
    Reader → List Token → Prop where
  | ready {body frames room tokens arities}
      (hopened : Opened lexicon nesting known body frames room tokens arities) :
      Reached lexicon nesting known ⟨body, frames, none, arities⟩ tokens
  | needing {body frames room tokens arities begun need after}
      (hopened : Opened lexicon nesting known body frames
        (room + 1) tokens arities)
      (hpending : Pending lexicon (room + 1) arities begun need after)
      (hneed : need.IsForToken) :
      Reached lexicon nesting known ⟨body, frames, some need, after⟩
        (tokens ++ begun)

variable {lexicon : Lexicon} {nesting room : Nat}
  {known arities between after : NameMap Nat}
  {body : List Expr} {frames : List Frame} {tokens begun others : List Token}
  {token : Token}

theorem Pending.extend
    {need need' : Need} {more : List Token} {between' : NameMap Nat}
    (hpending : Pending lexicon room arities begun need between)
    (hmore : ∀ ⦃others expr after⦄,
      Reads lexicon room between' others (.rest need' expr) after →
      Reads lexicon room between (more ++ others) (.rest need expr) after) :
    Pending lexicon room arities (begun ++ more) need' between' := by
  intro others expr after hrest
  rw [List.append_assoc]
  exact hpending (hmore hrest)

theorem Opened.room_eq
    (hopened : Opened lexicon nesting known body frames room tokens arities) :
    room + frames.length = nesting + 1 := by
  induction hopened with
  | program hbody => rfl
  | call houter hcalls hargs hmore ih =>
      rw [List.length_cons]
      omega
  | group houter hpending hcalls hargs ih =>
      rw [List.length_cons]
      omega
  | list houter hpending hopener hitems ih =>
      rw [List.length_cons]
      omega
  | input houter hpending ih =>
      rw [List.length_cons]
      omega

/-- A form goes on, if whatever completes it can be delivered. -/
theorem Opened.advance_of_deliver
    (hopened : Opened lexicon nesting known body frames
      (room + 1) tokens arities)
    (hdeliver : ∀ ⦃others expr after⦄,
      Reads lexicon (room + 1) arities others (.value expr) after →
        Reached lexicon nesting known
          (deliver ⟨body, [], none, after⟩ expr frames) (tokens ++ others))
    {need : Need}
    (hpending : Pending lexicon (room + 1) arities begun need after) :
    Reached lexicon nesting known (advance ⟨body, frames, none, after⟩ need)
      (tokens ++ begun) := by
  cases need with
  | done expr =>
      have hdone :
          Reads lexicon (room + 1) after []
            (.rest (.done expr) expr) after := .done
      have hvalue := hpending hdone
      rw [List.append_nil] at hvalue
      change Reached lexicon nesting known (deliver _ expr frames) _
      rw [deliver_eq]
      exact hdeliver hvalue
  | value next => exact .ready (.input hopened hpending)
  | target next => exact .needing hopened hpending trivial
  | block next => exact .needing hopened hpending trivial
  | opening what next => exact .needing hopened hpending trivial
  | closing what next => exact .needing hopened hpending trivial
  | name next => exact .needing hopened hpending trivial
  | params name read next => exact .needing hopened hpending trivial
  | leader opener => exact .needing hopened hpending trivial

/-- A complete expression completes the rules that wait for it. -/
theorem Opened.deliver
    (hopened : Opened lexicon nesting known body frames room tokens arities)
    {expr : Expr}
    (hvalue : Reads lexicon room arities others (.value expr) after) :
    Reached lexicon nesting known (deliver ⟨body, [], none, after⟩ expr frames)
      (tokens ++ others) := by
  -- A completed call is itself a value for the frame below, which is the
  -- induction hypothesis.
  induction hopened generalizing others expr after with
  | program hbody => exact .ready (.program (.snoc hbody hvalue))
  | @call frames room tokens arities head callee words args between houter
    hcalls hargs hmore ih =>
      have hall := Reads.snoc hargs hvalue
      simp only [Reader.deliver]
      split
      next hfurther =>
        have hmore' : (args ++ [expr]).length < callee.arity := by
          rw [List.length_append, List.length_singleton]
          exact hfurther
        rw [List.append_assoc, List.cons_append]
        exact .ready (.call houter hcalls hall hmore')
      next hlast =>
        have hlength : (args ++ [expr]).length = callee.arity := by
          rw [List.length_append, List.length_singleton]
          omega
        rw [List.append_assoc, List.cons_append]
        exact ih (.call hcalls hall hlength)
  | group houter hpending hcalls hargs ih =>
      rw [List.append_assoc, List.append_assoc, List.cons_append]
      exact .ready (.group houter hpending hcalls (.snoc hargs hvalue))
  | list houter hpending hopener hitems ih =>
      rw [List.append_assoc, List.append_assoc, List.cons_append]
      exact .ready (.list houter hpending hopener (.snoc hitems hvalue))
  | @input frames room tokens arities begun next between houter hpending ih =>
      rw [deliver_input, List.append_assoc]
      exact houter.advance_of_deliver (fun _ _ _ => ih)
        (hpending.extend fun _ _ _ hrest => .value hvalue hrest)

theorem Opened.advance
    (hopened : Opened lexicon nesting known body frames
      (room + 1) tokens arities)
    {need : Need}
    (hpending : Pending lexicon (room + 1) arities begun need after) :
    Reached lexicon nesting known (advance ⟨body, frames, none, after⟩ need)
      (tokens ++ begun) :=
  hopened.advance_of_deliver (fun _ _ _ => hopened.deliver) hpending

section Tokens

variable {reader : Reader}

theorem Opened.instruction
    (hopened : Opened lexicon nesting known body frames
      (room + 1) tokens arities)
    (hkind : token.kind = .command)
    (hread : instruction lexicon
      ⟨body, frames, none, arities⟩ token = .ok reader) :
    Reached lexicon nesting known reader (tokens ++ [token]) := by
  unfold Reader.instruction at hread
  cases hform : formOf? lexicon token with
  | some form =>
      simp only [hform, Except.ok.injEq] at hread
      subst hread
      exact hopened.advance fun _ _ _ hrest => .form hkind hform hrest
  | none =>
      simp only [hform] at hread
      cases hcallee :
        Reader.callee lexicon ⟨body, frames, none, arities⟩ token with
      | error fault =>
          rw [hcallee] at hread
          cases hread
      | ok callee =>
          have hcalls : Calls lexicon arities token callee :=
            ⟨hkind, hform, hcallee⟩
          rw [hcallee] at hread
          simp only [bind, Except.bind, pure, Except.pure] at hread
          split at hread
          next harity =>
            cases hread
            rw [deliver_eq]
            exact hopened.deliver (.call hcalls .empty harity.symm)
          next harity =>
            cases hread
            exact .ready
              (.call hopened hcalls .empty (Nat.pos_of_ne_zero harity))

theorem Opened.close
    (hopened : Opened lexicon nesting known body frames
      (room + 1) tokens arities)
    (hread : close ⟨body, frames, none, arities⟩ token = .ok reader) :
    Reached lexicon nesting known reader (tokens ++ [token]) := by
  unfold Reader.close at hread
  generalize hroom : room + 1 = here at hopened
  cases hopened with
  | program hbody => cases hread
  | call houter hcalls hargs hmore => cases hread
  | input houter hpending => cases hread
  | @group frames room tokens before begun opener between head callee others
      args after houter hpending hcalls hargs =>
      subst hroom
      simp only at hread
      split at hread
      next hkind =>
        cases hgroup : callee.group ⟨opener, token⟩ head args with
        | error flaw =>
            rw [hgroup] at hread
            cases hread
        | ok expr =>
            rw [hgroup] at hread
            cases hread
            have hvalue := hpending (.leader hcalls hargs hkind hgroup)
            rw [deliver_eq, List.append_assoc, List.append_assoc,
              List.cons_append]
            exact houter.deliver hvalue
      next => cases hread
  | @list frames room tokens before begun next between opener others items after
      houter hpending hopener hitems =>
      subst hroom
      simp only at hread
      split at hread
      next hkind =>
        cases hread
        have hnext :
            Pending lexicon (room + 2) before
              (begun ++ (opener :: others ++ [token]))
              (next ⟨opener, token⟩ items) arities :=
          hpending.extend fun _ _ _ hrest => by
            simpa using Reads.block hopener hitems hkind hrest
        have hreached := houter.advance hnext
        simpa using hreached
      next => cases hread

theorem Opened.expression
    (hopened : Opened lexicon nesting known body frames
      (room + 1) tokens arities)
    (hread : expression lexicon
      ⟨body, frames, none, arities⟩ token = .ok reader) :
    Reached lexicon nesting known reader (tokens ++ [token]) := by
  unfold Reader.expression at hread
  cases hkind : token.kind with
  | constant =>
      simp only [hkind] at hread
      cases hvalue : Number.constant token.text with
      | error fault =>
          rw [hvalue] at hread
          cases hread
      | ok value =>
          rw [hvalue] at hread
          cases hread
          rw [deliver_eq]
          exact hopened.deliver (.constant hkind hvalue)
  | «variable» =>
      simp only [hkind, Except.ok.injEq] at hread
      subst hread
      rw [deliver_eq]
      exact hopened.deliver (.variable hkind)
  | command =>
      simp only [hkind] at hread
      exact hopened.instruction hkind hread
  | groupStart =>
      simp only [hkind, Except.ok.injEq] at hread
      subst hread
      exact .needing hopened (fun _ _ _ hrest => .group hkind hrest) trivial
  | listEnd =>
      simp only [hkind] at hread
      exact hopened.close hread
  | groupEnd =>
      simp only [hkind] at hread
      exact hopened.close hread
  | listStart =>
      simp only [hkind] at hread
      cases hread
  | comment =>
      simp only [hkind] at hread
      cases hread
  | unknown =>
      simp only [hkind] at hread
      cases hread

theorem Opened.leader
    (hopened : Opened lexicon nesting known body frames
      (room + 1) tokens arities)
    {opener : Token} {need : Option Need}
    (hpending : Pending lexicon (room + 1) arities begun (.leader opener) after)
    (hread : leader lexicon
      ⟨body, frames, need, after⟩ opener token = .ok reader) :
    Reached lexicon nesting known reader (tokens ++ begun ++ [token]) := by
  unfold Reader.leader at hread
  split at hread
  next => cases hread
  next hkind =>
    split at hread
    next => cases hread
    next hform =>
      cases hcallee :
        Reader.callee lexicon ⟨body, frames, need, after⟩ token with
      | error fault =>
          rw [hcallee] at hread
          cases hread
      | ok callee =>
          have hcalls : Calls lexicon after token callee :=
            ⟨not_not.mp hkind, by simpa using hform, hcallee⟩
          rw [hcallee] at hread
          cases hread
          rw [List.append_assoc]
          exact .ready (.group hopened hpending hcalls .empty)

/-- A token takes the reader from the middle of a derivation to the middle of
another. -/
theorem Reached.step
    {before : Reader} (hreached : Reached lexicon nesting known before tokens)
    (hread : step lexicon nesting before token = .ok reader) :
    Reached lexicon nesting known reader (tokens ++ [token]) := by
  unfold Reader.step at hread
  split at hread
  next => cases hread
  next hnested =>
    cases hreached with
    | @ready body frames room tokens arities hopened =>
        have hroom := hopened.room_eq
        obtain ⟨room, rfl⟩ : ∃ inner, room = inner + 1 :=
          Nat.exists_eq_succ_of_ne_zero (by simp only at hnested; omega)
        exact hopened.expression hread
    | @needing body frames room tokens arities begun need after hopened
      hpending hneed =>
        have hnext {need' : Need} {after' : NameMap Nat}
            (hmore : ∀ ⦃others expr last⦄,
              Reads lexicon (room + 1) after' others (.rest need' expr) last →
                Reads lexicon (room + 1) after ([token] ++ others)
                  (.rest need expr) last) :
            Reached lexicon nesting known
              (advance ⟨body, frames, some need, after'⟩ need')
              (tokens ++ begun ++ [token]) := by
          rw [advance_eq, List.append_assoc]
          exact hopened.advance (hpending.extend hmore)
        cases need with
        | done expr => exact hneed.elim
        | value next => exact hneed.elim
        | target next =>
            simp only at hread
            split at hread
            next hkind =>
              cases hread
              exact hnext fun _ _ _ hrest => .target hkind hrest
            next => cases hread
        | block next =>
            simp only at hread
            split at hread
            next hkind =>
              cases hread
              rw [List.append_assoc]
              exact .ready (.list hopened hpending hkind .empty)
            next => cases hread
        | opening what next =>
            simp only at hread
            split at hread
            next hkind =>
              cases hread
              exact hnext fun _ _ _ hrest => .opening hkind hrest
            next => cases hread
        | closing what next =>
            simp only at hread
            split at hread
            next hkind =>
              cases hread
              exact hnext fun _ _ _ hrest => .closing hkind hrest
            next => cases hread
        | name next =>
            simp only at hread
            split at hread
            next => cases hread
            next hkind =>
              split at hread
              next => cases hread
              next hnew =>
                cases hread
                exact hnext fun _ _ _ hrest =>
                  .name (not_not.mp hkind) (by simpa using hnew) hrest
        | params name read next =>
            simp only at hread
            split at hread
            next hkind =>
              cases hread
              exact hnext fun _ _ _ hrest => .params hkind hrest
            next =>
              split at hread
              next hkind =>
                cases hread
                exact hnext fun _ _ _ hrest => .param hkind hrest
              next => cases hread
        | leader opener => exact hopened.leader hpending hread

theorem Reached.steps
    {before : Reader} (hreached : Reached lexicon nesting known before tokens)
    (hread : steps lexicon nesting before others = .ok reader) :
    Reached lexicon nesting known reader (tokens ++ others) := by
  induction others generalizing before tokens with
  | nil =>
      cases hread
      rw [List.append_nil]
      exact hreached
  | cons token rest ih =>
      rw [steps_cons] at hread
      cases hstep : Reader.step lexicon nesting before token with
      | error fault =>
          rw [hstep] at hread
          cases hread
      | ok next =>
          rw [hstep] at hread
          have hlast := ih (hreached.step hstep) hread
          rwa [List.append_assoc, List.singleton_append] at hlast

end Tokens

/-- The reader accepts exactly what the grammar derives: the tokens of a program
are read as the expressions of its body, one after the other. -/
theorem read_eq_ok_iff_reads
    {lexicon : Lexicon} {nesting : Nat} {arities : NameMap Nat}
    {tokens : List Token} {reader : Reader} :
    read lexicon nesting arities tokens = .ok reader ↔
      reader.frames = [] ∧ reader.need = none ∧
        Reads lexicon (nesting + 1) arities tokens
          (.list reader.body) reader.arities := by
  rw [read_eq_ok_iff]
  constructor
  · rintro ⟨hsteps, hframes, hneed⟩
    have hstart : Reached lexicon nesting arities (start arities) [] :=
      .ready (.program .empty)
    have hreached := hstart.steps hsteps
    rw [List.nil_append] at hreached
    refine ⟨hframes, hneed, ?_⟩
    cases hreached with
    | needing hopened hpending _ => cases hneed
    | ready hopened =>
        cases hframes
        cases hopened with
        | program hbody => exact hbody
  · rintro ⟨hframes, hneed, hreads⟩
    obtain ⟨body, frames, need, after⟩ := reader
    simp only at hframes hneed hreads
    subst hframes hneed
    have hroom : nesting + 1 + ([] : List Frame).length = nesting + 1 := rfl
    exact ⟨(hreads.runs nesting).taking hroom trivial [], rfl, rfl⟩

end Logo
