import Logo.CommandLine.Run
import Logo.Proofs.Execution.Names
import Logo.Proofs.Session.Escapes
import Logo.Proofs.Session.Located

/-!
# What is shown behind a run

Behind a run, the command line writes one line for each turtle and one for each
name of the table.  Writing can fail where running did not: an integer may have
more digits than are ever written, and a coordinate may be too large for double
precision.  A run whose numbers stay below is shown in full.  Any other run ends
in a fault of arithmetic that nobody answers for, although the program itself
has come to its end.
-/

namespace Logo

open Execution

/-! ## Numbers on a line -/

namespace Decimal

theorem feed_not_mem_digits (n : Nat) : '\n' ∉ digits n := by
  intro hfeed
  rw [digits, show toString n = n.repr from rfl, Nat.toList_repr] at hfeed
  exact absurd
    (Nat.isDigit_of_mem_toDigits (by omega) (by omega) hfeed) (by decide)

theorem feed_not_mem_exponentMark (exponent : Int) :
    '\n' ∉ exponentMark exponent := by
  have hdigits := feed_not_mem_digits exponent.natAbs
  unfold exponentMark
  split <;> simp [hdigits]

theorem feed_not_mem_positional
    (wholeMark : Bool) {ds : List Char} (hds : '\n' ∉ ds) (place : Int) :
    '\n' ∉ positional wholeMark ds place := by
  have htake : '\n' ∉ ds.take place.toNat :=
    fun hfeed => hds (List.mem_of_mem_take hfeed)
  have hdrop : '\n' ∉ ds.drop place.toNat :=
    fun hfeed => hds (List.mem_of_mem_drop hfeed)
  unfold positional
  split
  · simp [hds]
  · split
    · split <;> simp [htake]
    · simp [htake, hdrop]

theorem feed_not_mem_write (layout : Layout) (s : Scientific) :
    '\n' ∉ layout.write s := by
  have hdigits := feed_not_mem_digits s.significand
  have hds :
      '\n' ∉ (digits s.significand).take 1 ++
        (((digits s.significand).drop 1).reverse.dropWhile
          (· = '0')).reverse := by
    rw [List.mem_append, List.mem_reverse]
    rintro (hfirst | hrest)
    · exact hdigits (List.mem_of_mem_take hfirst)
    · have hdrop :=
        List.mem_reverse.mp ((List.dropWhile_sublist _).subset hrest)
      exact hdigits (List.mem_of_mem_drop hdrop)
  have hmark := feed_not_mem_exponentMark s.exponent
  unfold Layout.write
  dsimp only
  split
  · split
    next => exact hmark
    next d heq =>
      rw [heq] at hds
      simpa [hmark] using hds
    next d fraction _ heq =>
      rw [heq] at hds
      simpa [hmark] using hds
  · exact feed_not_mem_positional _ hds _

/-- A number in double precision is written on one line. -/
theorem isUnbroken_text (layout : Layout) (x : Float) :
    Text.IsUnbroken (layout.text x) := by
  have hsign : Text.IsUnbroken (if Binary64.isNegative x then "-" else "") := by
    split <;> decide
  have hsigned {text : String} (htext : Text.IsUnbroken text) :
      Text.IsUnbroken ((if Binary64.isNegative x then "-" else "") ++ text) :=
    Text.isUnbroken_append.mpr ⟨hsign, htext⟩
  unfold Layout.text
  dsimp only
  split
  · split
    · decide
    · exact hsigned (by decide)
  · apply hsigned
    split <;> decide
  · apply hsigned
    rw [Text.IsUnbroken, String.toList_ofList]
    exact feed_not_mem_write layout _

end Decimal

namespace Text

theorem isUnbroken_toString_nat (n : Nat) : IsUnbroken (toString n) :=
  Decimal.feed_not_mem_digits n

theorem isUnbroken_toString_int (n : Int) : IsUnbroken (toString n) := by
  cases n with
  | ofNat n => exact isUnbroken_toString_nat n
  | negSucc n =>
      have hminus : IsUnbroken "-" := by decide
      exact isUnbroken_append.mpr ⟨hminus, isUnbroken_toString_nat (n + 1)⟩

theorem isUnbroken_intercalate
    {separator : String} (hseparator : IsUnbroken separator)
    {texts : List String} (htexts : ∀ text ∈ texts, IsUnbroken text) :
    IsUnbroken (separator.intercalate texts) := by
  induction texts with
  | nil => simp [IsUnbroken]
  | cons text rest ih =>
      rw [List.forall_mem_cons] at htexts
      cases rest with
      | nil => simpa using htexts.1
      | cons next others =>
          rw [String.intercalate_cons_cons, isUnbroken_append,
            isUnbroken_append]
          exact ⟨⟨htexts.1, hseparator⟩, ih htexts.2⟩

end Text

namespace Number

/-- A number that can be written with all its digits: an integer has not too
many. -/
def IsShort : Number → Prop
  | .integer n => n.natAbs < Nat.pow 10 digitLimit
  | .real _ => True
  | .marked _ => True

instance (number : Number) : Decidable number.IsShort :=
  match number with
  | .integer n => inferInstanceAs (Decidable (n.natAbs < Nat.pow 10 digitLimit))
  | .real _ => inferInstanceAs (Decidable True)
  | .marked _ => inferInstanceAs (Decidable True)

instance (number : Number) : Decidable number.IsOversize :=
  match number with
  | .integer n => inferInstanceAs (Decidable (Binary64.ofInt? n = none))
  | .real _ => inferInstanceAs (Decidable False)
  | .marked _ => inferInstanceAs (Decidable False)

theorem exists_text (number : Number) (hshort : number.IsShort) :
    ∃ text, number.text = .ok text ∧ Text.IsUnbroken text := by
  cases number with
  | integer n =>
      refine ⟨toString n, ?_, Text.isUnbroken_toString_int n⟩
      unfold text integerText
      dsimp only
      rw [if_neg (Nat.not_le_of_lt hshort)]
  | real x => exact ⟨_, rfl, Decimal.isUnbroken_text _ x⟩
  | marked mark => exact ⟨_, rfl, Decimal.isUnbroken_text _ _⟩

theorem text_of_not_isShort (number : Number) (hlong : ¬ number.IsShort) :
    number.text = .error (.tooManyDigits none) := by
  cases number with
  | integer n =>
      unfold text integerText
      dsimp only
      rw [if_pos (Nat.le_of_not_lt hlong)]
  | real x => exact absurd trivial hlong
  | marked mark => exact absurd trivial hlong

theorem exists_brief {number : Number} (hsize : ¬ number.IsOversize) :
    ∃ text, number.brief = .ok text ∧ Text.IsUnbroken text := by
  unfold brief
  cases hreal : number.toReal with
  | ok x => exact ⟨_, rfl, Decimal.isUnbroken_text _ x⟩
  | error fault => exact absurd (toReal_eq_error hreal).1 hsize

theorem brief_of_isOversize {number : Number} (hlarge : number.IsOversize) :
    number.brief = .error .integerTooLarge := by
  cases number with
  | integer n =>
      have hnone : Binary64.ofInt? n = none := hlarge
      have hreal : (Number.integer n).toReal = .error .integerTooLarge := by
        simp [toReal, hnone]
      unfold brief
      rw [hreal]
      rfl
  | real x => exact hlarge.elim
  | marked mark => exact hlarge.elim

end Number

/-! ## The entries of the table -/

theorem Procedure.isUnbroken_description
    {procedure : Procedure} (hname : Text.IsUnbroken procedure.name)
    (hparams : ∀ param ∈ procedure.params, Text.IsUnbroken param) :
    Text.IsUnbroken procedure.description := by
  have hsigns :
      ∀ sign ∈ ["<to ", " [", ", ", ":", "]>"], Text.IsUnbroken sign := by
    decide
  simp only [List.forall_mem_cons] at hsigns
  obtain ⟨hto, hopen, hcomma, hcolon, hclose, -⟩ := hsigns
  have hlist :
      Text.IsUnbroken (", ".intercalate (procedure.params.map (":" ++ ·))) := by
    refine Text.isUnbroken_intercalate hcomma
      (List.forall_mem_map.mpr fun param hparam => ?_)
    exact Text.isUnbroken_append.mpr ⟨hcolon, hparams param hparam⟩
  simp [Procedure.description, hto, hopen, hclose, hname, hlist]

namespace Entry

def IsShort : Entry → Prop
  | .integer n => (Number.integer n).IsShort
  | _ => True

instance (entry : Entry) : Decidable entry.IsShort :=
  match entry with
  | .integer n => inferInstanceAs (Decidable (Number.integer n).IsShort)
  | .double _ | .marked _ | .string _ | .function _ =>
      inferInstanceAs (Decidable True)

theorem exists_text
    {Good : Expr → Prop} {entry : Entry} (hsound : entry.Sound False Good)
    (hunbroken : entry.IsUnbroken) (hshort : entry.IsShort) :
    ∃ text, entry.value.text? = .ok text ∧ Text.IsUnbroken text := by
  cases entry with
  | integer n => exact Number.exists_text (.integer n) hshort
  | double x => exact Number.exists_text (.real x) trivial
  | marked mark => exact Number.exists_text (.marked mark) trivial
  | string text => exact ⟨text, rfl, hunbroken⟩
  | function value =>
      cases value with
      | procedure procedure =>
          exact ⟨_, rfl,
            Procedure.isUnbroken_description hunbroken.1 hunbroken.2.1⟩
      | _ => exact hsound.elim

theorem text_of_not_isShort {entry : Entry} (hlong : ¬ entry.IsShort) :
    entry.value.text? = .error (.tooManyDigits none) := by
  cases entry with
  | integer n => exact Number.text_of_not_isShort (.integer n) hlong
  | _ => exact absurd trivial hlong

end Entry

/-- Numbers that a world can be shown with: coordinates that fit into double
precision, and variables that do not have too many digits. -/
structure World.IsShowable (world : World) : Prop where
  near : ∀ turtle ∈ world.flock.turtles, ¬ turtle.x.IsOversize ∧
    ¬ turtle.y.IsOversize
  short : ∀ binding ∈ world.bindings.entries, binding.2.IsShort

theorem World.isShowable_iff (world : World) :
    world.IsShowable ↔
      (∀ turtle ∈ world.flock.turtles, ¬ turtle.x.IsOversize ∧
        ¬ turtle.y.IsOversize) ∧
        ∀ binding ∈ world.bindings.entries, binding.2.IsShort :=
  ⟨fun hshowable => ⟨hshowable.near, hshowable.short⟩,
    fun hboth => ⟨hboth.1, hboth.2⟩⟩

instance (world : World) : Decidable world.IsShowable :=
  decidable_of_iff' _ world.isShowable_iff

namespace CommandLine

/-! ## Lines -/

/-- One line, with the line feed that ends it. -/
def IsLine (text : String) : Prop :=
  ∃ line, Text.IsUnbroken line ∧ text = line ++ "\n"

def IsBindingLine (binding : String × Entry) (line : String) : Prop :=
  ∃ value, binding.2.value.text? = .ok value ∧
    line = binding.1 ++ " = " ++ value ++ "\n"

/-- The lines that a world is shown in: one for each turtle, then one for each
name. -/
structure Shows (world : World)
    (turtleLines bindingLines : List String) : Prop where
  turtles :
    List.Forall₂ (fun turtle line => turtleLine turtle = .ok line ∧ IsLine line)
      world.flock.turtles turtleLines
  bindings :
    List.Forall₂ (fun binding line => IsBindingLine binding line ∧ IsLine line)
      world.bindings.entries bindingLines

theorem exists_turtleLine
    {turtle : Turtle} (hx : ¬ turtle.x.IsOversize)
    (hy : ¬ turtle.y.IsOversize) :
    ∃ line, turtleLine turtle = .ok line ∧ IsLine line := by
  obtain ⟨x, hx, hxline⟩ := Number.exists_brief hx
  obtain ⟨y, hy, hyline⟩ := Number.exists_brief hy
  obtain ⟨heading, hheading, hheadingline⟩ :=
    Number.exists_brief
      (show ¬ (Number.real (Number.degrees turtle.heading)).IsOversize from id)
  have hident : Text.IsUnbroken turtle.ident.repr :=
    Text.isUnbroken_toString_nat turtle.ident
  have hpen : Text.IsUnbroken (if turtle.penDown then "down" else "up") := by
    split <;> decide
  have hvisible :
      Text.IsUnbroken (if turtle.visible then "" else " (hidden)") := by
    split <;> decide
  have hsigns :
      ∀ sign ∈ ["turtle ", ": x=", " y=", " heading=", " pen="],
        Text.IsUnbroken sign := by decide
  simp only [List.forall_mem_cons] at hsigns
  unfold turtleLine
  rw [hx, hy, hheading]
  refine ⟨_, rfl, _, ?_, rfl⟩
  simp [hxline, hyline, hheadingline, hident, hpen, hvisible, hsigns]

theorem turtleLine_of_isOversize
    {turtle : Turtle} (hlarge : turtle.x.IsOversize ∨ turtle.y.IsOversize) :
    turtleLine turtle = .error .integerTooLarge := by
  unfold turtleLine
  by_cases hx : turtle.x.IsOversize
  · rw [Number.brief_of_isOversize hx]
    rfl
  · obtain ⟨x, hbrief, -⟩ := Number.exists_brief hx
    rw [hbrief, Number.brief_of_isOversize (hlarge.resolve_left hx)]
    rfl

theorem exists_bindingLine
    {Good : Expr → Prop} {binding : String × Entry}
    (hsound : binding.2.Sound False Good) (hname : Text.IsUnbroken binding.1)
    (hunbroken : binding.2.IsUnbroken) (hshort : binding.2.IsShort) :
    ∃ line, IsBindingLine binding line ∧ IsLine line := by
  obtain ⟨value, hvalue, hline⟩ := Entry.exists_text hsound hunbroken hshort
  have hsign : Text.IsUnbroken " = " := by decide
  refine ⟨_, ⟨value, hvalue, rfl⟩, _, ?_, rfl⟩
  simp [hname, hsign, hline]

/-! ## All the lines of a world -/

theorem exists_forall₂
    {α β : Type} {R : α → β → Prop} {items : List α}
    (hitems : ∀ a ∈ items, ∃ b, R a b) :
    ∃ others, List.Forall₂ R items others := by
  induction items with
  | nil => exact ⟨[], .nil⟩
  | cons a rest ih =>
      rw [List.forall_mem_cons] at hitems
      obtain ⟨b, hb⟩ := hitems.1
      obtain ⟨others, hothers⟩ := ih hitems.2
      exact ⟨b :: others, .cons hb hothers⟩

theorem exists_shows
    {Good : Expr → Prop} {world : World} (hsound : world.Sound False Good)
    (hunbroken : world.IsUnbroken) (hshowable : world.IsShowable) :
    ∃ turtleLines bindingLines, Shows world turtleLines bindingLines := by
  obtain ⟨turtleLines, hturtles⟩ :=
    exists_forall₂ fun turtle hturtle =>
      exists_turtleLine (hshowable.near turtle hturtle).1
        (hshowable.near turtle hturtle).2
  obtain ⟨bindingLines, hbindings⟩ :=
    exists_forall₂ fun binding hbinding =>
      exists_bindingLine (hsound.entries binding hbinding)
        (hunbroken binding hbinding).1
        (hunbroken binding hbinding).2 (hshowable.short binding hbinding)
  exact ⟨turtleLines, bindingLines, hturtles, hbindings⟩

theorem turtleLines_eq_join
    {turtles : List Turtle} {lines : List String}
    (hlines : List.Forall₂
      (fun turtle line => turtleLine turtle = .ok line) turtles lines) :
    turtleLines turtles = (String.join lines, .ok ()) := by
  induction hlines with
  | nil => rfl
  | cons hline _ ih => rw [turtleLines, hline, ih, String.join_cons]

theorem text_eq_join
    {bindings : Bindings} {lines : List String}
    (hlines : List.Forall₂ IsBindingLine bindings.entries lines) :
    bindings.text = .ok (String.join lines) := by
  unfold Bindings.text
  generalize bindings.entries = entries at hlines
  suffices hmap :
      (entries.mapM fun binding => do
        return binding.1 ++ " = " ++ (← binding.2.value.text?) ++ "\n" :
          Except ArithmeticFault (List String)) = .ok lines by
    rw [hmap]
    rfl
  induction hlines with
  | nil => rfl
  | cons hline _ ih =>
      obtain ⟨value, hvalue, rfl⟩ := hline
      rw [List.mapM_cons, hvalue, ih]
      rfl

theorem showWorld_of_shows
    {world : World} {turtleLines bindingLines : List String}
    (hshows : Shows world turtleLines bindingLines) :
    showWorld world = (String.join (turtleLines ++ bindingLines), .ok ()) := by
  have hturtles :=
    turtleLines_eq_join (hshows.turtles.imp fun _ _ hline => hline.1)
  have hbindings := text_eq_join (hshows.bindings.imp fun _ _ hline => hline.1)
  rw [showWorld, hturtles, hbindings, String.join_append]

theorem turtleLines_of_mem
    {turtles : List Turtle} {turtle : Turtle} (hturtle : turtle ∈ turtles)
    (hlarge : turtle.x.IsOversize ∨ turtle.y.IsOversize) :
    ∃ out fault, turtleLines turtles = (out, .error fault) := by
  induction turtles with
  | nil => cases hturtle
  | cons first rest ih =>
      unfold turtleLines
      cases hline : turtleLine first with
      | error fault => exact ⟨_, fault, rfl⟩
      | ok line =>
          rcases List.mem_cons.mp hturtle with rfl | hrest
          · cases (turtleLine_of_isOversize hlarge).symm.trans hline
          · obtain ⟨out, fault, hlines⟩ := ih hrest
            rw [hlines]
            exact ⟨_, fault, rfl⟩

theorem text_of_mem
    {bindings : Bindings} {binding : String × Entry}
    (hbinding : binding ∈ bindings.entries) (hlong : ¬ binding.2.IsShort) :
    ∃ fault, bindings.text = .error fault := by
  unfold Bindings.text
  generalize bindings.entries = entries at hbinding
  suffices hmap :
      ∃ fault, (entries.mapM fun binding => do
        return binding.1 ++ " = " ++ (← binding.2.value.text?) ++ "\n" :
          Except ArithmeticFault (List String)) = .error fault by
    obtain ⟨fault, hmap⟩ := hmap
    rw [hmap]
    exact ⟨fault, rfl⟩
  induction entries with
  | nil => cases hbinding
  | cons first rest ih =>
      rw [List.mapM_cons]
      cases hvalue : first.2.value.text? with
      | error fault => exact ⟨fault, rfl⟩
      | ok value =>
          rcases List.mem_cons.mp hbinding with rfl | hrest
          · cases (Entry.text_of_not_isShort hlong).symm.trans hvalue
          · obtain ⟨fault, hmap⟩ := ih hrest
            rw [hmap]
            exact ⟨fault, rfl⟩

theorem showWorld_of_not_isShowable {world : World}
    (hhidden : ¬ world.IsShowable) :
    ∃ out fault, showWorld world = (out, .error fault) := by
  unfold showWorld
  split
  next lines fault _ => exact ⟨lines, fault, rfl⟩
  next lines hlines =>
    by_cases hshort : ∀ binding ∈ world.bindings.entries, binding.2.IsShort
    · have hnear :
          ∀ turtle ∈ world.flock.turtles, ¬ turtle.x.IsOversize ∧
            ¬ turtle.y.IsOversize := by
        intro turtle hturtle
        by_contra hfar
        obtain ⟨out, fault, herror⟩ := turtleLines_of_mem hturtle (by tauto)
        cases herror.symm.trans hlines
      exact absurd ⟨hnear, hshort⟩ hhidden
    · push Not at hshort
      obtain ⟨binding, hbinding, hlong⟩ := hshort
      obtain ⟨fault, htext⟩ := text_of_mem hbinding hlong
      rw [htext]
      exact ⟨lines, fault, rfl⟩

end CommandLine

/-! ## Announcing a number -/

theorem Report.announce_of_isShort
    {report : Report} {number : Number}
    (hshort : report.verbose = true → number.IsShort) (label : String) :
    ∃ after, report.announce label number = (.ok (), after) ∧
      after.verbose = report.verbose := by
  unfold announce
  split
  next hverbose =>
    obtain ⟨text, htext, -⟩ := Number.exists_text number (hshort hverbose)
    rw [htext]
    exact ⟨_, rfl, rfl⟩
  next => exact ⟨report, rfl, rfl⟩

theorem Report.announce_of_not_isShort
    {report : Report} (hverbose : report.verbose = true) {number : Number}
    (hlong : ¬ number.IsShort) (label : String) :
    ∃ after,
      report.announce label number = (.error (.tooManyDigits none), after) := by
  unfold announce
  rw [if_pos hverbose, Number.text_of_not_isShort number hlong]
  exact ⟨_, rfl⟩

namespace Session

/-- The value and the world of a program that is read from a text and executed
to its end. -/
def completion? (session : Session) (text : String) (path : Option String) :
    Option (Number × World) :=
  match Session.parse text path session with
  | .ok body _ =>
    match program session.limits .effectful body (rested session.world) with
    | .ok number world => some (number, world)
    | .error _ _ => none
  | .error _ _ => none

def Completes
    (session : Session) (text : String) (path : Option String) (number : Number)
    (world : World) :
    Prop :=
  session.completion? text path = some (number, world)

namespace Completes

variable {session : Session} {text : String} {path : Option String}
  {number : Number} {world : World}

theorem exists_program (hcompletes : session.Completes text path number world) :
    ∃ body between, Session.parse text path session = .ok body between ∧
      program session.limits .effectful body (rested session.world) =
        .ok number world := by
  unfold Completes completion? at hcompletes
  split at hcompletes
  next body between hparse =>
    split at hcompletes
    next hprogram =>
      cases hcompletes
      exact ⟨body, between, hparse, hprogram⟩
    next => cases hcompletes
  next => cases hcompletes

/-- What is left to do behind a program: its value is announced. -/
theorem run_eq (hcompletes : session.Completes text path number world) :
    ∃ after : Session, after.world = world ∧
      after.report.verbose = session.report.verbose ∧
      Session.run text path session =
        (announce "Result:" number >>= fun _ => pure number) after := by
  obtain ⟨body, between, hparse, hprogram⟩ := hcompletes.exists_program
  obtain ⟨hworld, hlimits⟩ := parse_ok_undisturbed hparse
  have hverbose := parse_verbose hparse
  refine ⟨{ between with world := world }, rfl, hverbose, ?_⟩
  have hexecute :
      Session.execute .effectful body
        { between with world := rested between.world } =
        .ok number { between with world := world } := by
    unfold Session.execute
    dsimp only
    rw [hworld, hlimits, hprogram]
  unfold Session.run
  rw [bind_eq_of_ok hparse]
  change (Session.execute .effectful body >>= fun number =>
    announce "Result:" number >>= fun _ => pure number)
      { between with world := rested between.world } = _
  rw [bind_eq_of_ok hexecute]

theorem run_eq_ok
    (hcompletes : session.Completes text path number world)
    (hshort : session.report.verbose = true → number.IsShort) :
    ∃ after : Session, after.world = world ∧
      after.report.verbose = session.report.verbose ∧
      Session.run text path session = .ok number after := by
  obtain ⟨before, hworld, hverbose, hrun⟩ := hcompletes.run_eq
  rw [← hverbose] at hshort
  obtain ⟨report, hresult, hsame⟩ := Report.announce_of_isShort hshort "Result:"
  have hannounce :
      announce "Result:" number before =
        .ok () { before with report := report } := by
    unfold announce
    rw [hresult]
  rw [bind_eq_of_ok hannounce] at hrun
  exact ⟨{ before with report := report }, hworld, hsame.trans hverbose, hrun⟩

theorem run_eq_error
    (hcompletes : session.Completes text path number world)
    (hverbose : session.report.verbose = true) (hlong : ¬ number.IsShort) :
    ∃ after, Session.run text path session =
      .error (.arithmetic (.tooManyDigits none)) after := by
  obtain ⟨before, -, hsame, hrun⟩ := hcompletes.run_eq
  rw [← hsame] at hverbose
  obtain ⟨report, hresult⟩ :=
    Report.announce_of_not_isShort hverbose hlong "Result:"
  have hannounce :
      announce "Result:" number before =
        .error (.arithmetic (.tooManyDigits none))
          { before with report := report } := by
    unfold announce
    rw [hresult]
  rw [bind_eq_of_error hannounce] at hrun
  exact ⟨_, hrun⟩

/-- The world behind a program in a fresh session. -/
theorem world_eq (hcompletes : session.Completes text path number world) :
    (session.performAll [.run text path]).world = world := by
  obtain ⟨body, between, hparse, hprogram⟩ := hcompletes.exists_program
  change (finalState (Session.run text path session)).world = world
  rw [run_world hparse, hprogram]
  rfl

/-- The names of the table stay on one line. -/
theorem isUnbroken
    (hcompletes : session.Completes text path number world)
    (hsession : session.world.IsUnbroken) : world.IsUnbroken := by
  obtain ⟨body, between, hparse, hprogram⟩ := hcompletes.exists_program
  obtain ⟨arities, tokens, index, reader, -, hscan, hread, rfl, -⟩ :=
    parse_eq_ok hparse
  have hbody := Reader.isUnbroken_read hread (Token.isUnbroken_of_scan hscan)
  have hrested : (rested session.world).IsUnbroken := hsession
  have hfinal := hrested.program session.limits .effectful hbody
  rw [hprogram] at hfinal
  exact hfinal

end Completes

/-- The complaint of a first run points at words that the index leads to, so it
can be reported. -/
theorem failed_of_run
    {language : String} {report : Report} {observers : Nat} {draws : Draws}
    {text : String} {path : Option String} {complaint : Complaint}
    {after : Session}
    (hrun :
      Session.run text path (start language report observers draws) =
        .error (.complaint complaint) after) :
    ∃ outcome, after.report.failed after.index complaint = .ok outcome := by
  let first := startWithin .standard language report observers draws
  have hlists : first.Lists :=
    lists_start .standard language report observers draws
  have hworld :
      first.world.Sound False (first.Located ([] ++ [.run text path])) :=
    ⟨Flock.sound_fresh, fun _ hentry => absurd hentry List.not_mem_nil⟩
  have hpoints :
      ∃ phrase, complaint.place? = some phrase ∧
        first.Points ([] ++ [.run text path]) phrase :=
    points_of_fails rfl hlists hworld (fails_run hrun)
  obtain ⟨phrase, hplace, tokens, segment, hheard, left, hleft, right, hright,
    hspan⟩ := hpoints
  have hlookup :=
    Source.Index.lookupSpan_of_lookup (hheard.liesIn hlists left hleft).lookup
      (hheard.liesIn hlists right hright).lookup
  rw [hspan.1, hspan.2.1] at hlookup
  have hindex :
      (first.performAll ([] ++ [.run text path])).index = after.index := by
    change (finalState
      (Session.run text path (start language report observers draws))).index = _
    rw [hrun]
    rfl
  rw [hindex] at hlookup
  exact failed_eq_ok hplace hlookup after.report

end Session

namespace CommandLine

section Runs

variable {session : Session} {text path : String} {number : Number}
  {world : World}

theorem run_of_shows
    (hcompletes : session.Completes text (some path) number world)
    {turtleLines bindingLines : List String}
    (hshows : Shows world turtleLines bindingLines)
    (hshort : session.report.verbose = true → number.IsShort)
    (exclamation : String) :
    ∃ err, run session text path exclamation =
      ⟨.exit 0, String.join (turtleLines ++ bindingLines), err⟩ := by
  obtain ⟨after, rfl, hverbose, hrun⟩ := hcompletes.run_eq_ok hshort
  rw [← hverbose] at hshort
  obtain ⟨last, hfinal, -⟩ := Report.announce_of_isShort hshort "Final value:"
  unfold run
  simp only [hrun, showWorld_of_shows hshows, hfinal]
  exact ⟨_, rfl⟩

theorem run_of_not_isShowable
    (hcompletes : session.Completes text (some path) number world)
    (hhidden : ¬ (world.IsShowable ∧
      (session.report.verbose = true → number.IsShort)))
    (exclamation : String) :
    ∃ fault out err, run session text path exclamation =
      ⟨.fault (.arithmetic fault), out, err⟩ := by
  unfold run
  by_cases hshort : session.report.verbose = true → number.IsShort
  · obtain ⟨after, rfl, hverbose, hrun⟩ := hcompletes.run_eq_ok hshort
    obtain ⟨out, fault, hworld⟩ :=
      showWorld_of_not_isShowable fun hshowable => hhidden ⟨hshowable, hshort⟩
    simp only [hrun, hworld]
    exact ⟨fault, out, _, rfl⟩
  · push Not at hshort
    obtain ⟨after, hrun⟩ := hcompletes.run_eq_error hshort.1 hshort.2
    simp only [hrun, failure]
    exact ⟨_, "", _, rfl⟩

end Runs

/-- A text that can be read from its file is run as it is, but for its line
ends. -/
theorem proceed_eq_run
    {options : Options} (hcheck : options.check = false) {bytes : ByteArray}
    {text : String} (htext : String.fromUTF8? bytes = some text)
    (language path : String) (draws : Draws) (exclamation : String) :
    proceed options language path (.ok bytes) draws exclamation =
      run
        (Session.start language
          (Report.fresh (0 < options.verbosity) (some Report.usualLimit)) 0
          draws)
        (String.ofList (Source.unified text.toList)) path exclamation := by
  simp [proceed, htext, hcheck]

/-- A program that complains is explained, with nothing on the output.  A
program that comes to its end is shown, with a line for each turtle in the order
of their numbers and then a line for each name in the order of the table,
exactly if all the numbers can be written: the coordinates of the turtles fit
into double precision, no integer in the table has more digits than are ever
written, and neither has the result if it is to be announced.  Otherwise an
arithmetic fault escapes behind the run. -/
theorem completed_programs_are_shown_unless_numbers_are_too_large
    (options : Options) (hcheck : options.check = false) (bytes : ByteArray)
    (text : String) (htext : String.fromUTF8? bytes = some text)
    (language path : String) (draws : Draws) (exclamation : String) :
    let session :=
      Session.start language
        (Report.fresh (0 < options.verbosity) (some Report.usualLimit)) 0 draws
    let program := String.ofList (Source.unified text.toList)
    let conclusion :=
      proceed options language path (.ok bytes) draws exclamation
    (∀ complaint after,
      Session.run program (some path) session =
        .error (.complaint complaint) after →
        ∃ err, conclusion = ⟨.exit 1, "", err⟩) ∧
    ∀ number world, session.Completes program (some path) number world →
      let showable :=
        world.IsShowable ∧ (0 < options.verbosity → number.IsShort)
      (showable →
        world.flock.turtles.Pairwise
          (fun turtle other => turtle.ident < other.ident) ∧
          ∃ turtleLines bindingLines err, Shows world turtleLines bindingLines ∧
            conclusion =
              ⟨.exit 0, String.join (turtleLines ++ bindingLines), err⟩) ∧
      (¬ showable → ∃ fault out err,
        conclusion = ⟨.fault (.arithmetic fault), out, err⟩) := by
  intro session program conclusion
  have hconclusion : conclusion = run session program path exclamation :=
    proceed_eq_run hcheck htext language path draws exclamation
  have hverbose : session.report.verbose = true ↔ 0 < options.verbosity := by
    simp [session, Session.start, Report.fresh]
  refine ⟨fun complaint after hrun => ?_, fun number world hcompletes => ?_⟩
  · obtain ⟨outcome, hfailed⟩ := Session.failed_of_run hrun
    rw [hconclusion, run, hrun]
    simp only [failure, hfailed]
    exact ⟨_, rfl⟩
  intro showable
  refine ⟨fun hshowable => ?_, fun hhidden => ?_⟩
  · have hsound :
        (session.performAll [.run program (some path)]).world.Sound False
          Expr.Complete :=
      Session.sound_of_start .standard language _ 0 draws _
    rw [hcompletes.world_eq] at hsound
    have hunbroken : world.IsUnbroken :=
      hcompletes.isUnbroken fun _ hentry => absurd hentry List.not_mem_nil
    obtain ⟨turtleLines, bindingLines, hshows⟩ :=
      exists_shows hsound hunbroken hshowable.1
    obtain ⟨err, hrun⟩ :=
      run_of_shows hcompletes hshows
        (fun hloud => hshowable.2 (hverbose.mp hloud)) exclamation
    exact ⟨hsound.flock.sorted, turtleLines, bindingLines, err, hshows,
      hconclusion.trans hrun⟩
  · rw [hconclusion]
    exact run_of_not_isShowable hcompletes (by rwa [hverbose]) exclamation

/-- The numbers of a small program are shown, with its procedure. -/
theorem small_program_is_shown :
    let text := "make :n 9 tell [ 1 2 ] setxy 3 4 to spin [ :k ] [ rt :k ]"
    let session :=
      Session.start "English" (Report.fresh true (some Report.usualLimit)) 0
        (Draws.seeded 0)
    ∃ number world, session.Completes text (some "p.logo") number world ∧
      (world.IsShowable ∧ number.IsShort) ∧
      ∃ turtleLines bindingLines err, Shows world turtleLines bindingLines ∧
        proceed ⟨"p.logo", some "English", false, 1⟩ "English" "p.logo"
          (.ok text.toUTF8) (Draws.seeded 0) "Nuts!" =
            ⟨.exit 0, String.join (turtleLines ++ bindingLines), err⟩ := by
  intro text session
  have hcompletion :
      ((session.completion? text (some "p.logo")).any fun ending =>
        decide (ending.2.IsShowable ∧ ending.1.IsShort)) = true := by
    decide +kernel
  obtain ⟨⟨number, world⟩, hcompletes, hnumbers⟩ :=
    (Option.any_eq_true _ _).mp hcompletion
  have hshowable := of_decide_eq_true hnumbers
  have htext : String.fromUTF8? text.toUTF8 = some text :=
    dif_pos text.isValidUTF8
  obtain ⟨-, hcompleted⟩ :=
    completed_programs_are_shown_unless_numbers_are_too_large
      ⟨"p.logo", some "English", false,
        1⟩ rfl text.toUTF8 text htext "English" "p.logo"
      (Draws.seeded 0) "Nuts!"
  have hunified : String.ofList (Source.unified text.toList) = text := by
    decide +kernel
  rw [hunified] at hcompleted
  obtain ⟨-, turtleLines, bindingLines, err, hshows⟩ :=
    (hcompleted number world hcompletes).1 ⟨hshowable.1, fun _ => hshowable.2⟩
  exact ⟨number, world, hcompletes, hshowable, turtleLines,
    bindingLines, err, hshows⟩

def Ending.escaped? : Ending → Option ArithmeticFault
  | .fault (.arithmetic trouble) => some trouble
  | _ => none

/-- A program that squares a number thirteen times comes to its end, but is not
shown. -/
theorem towering_variable_is_not_shown :
    let text := "make :n 9 repeat 13 [ make :n * :n :n ]"
    let session :=
      Session.start "English" (Report.fresh false (some Report.usualLimit)) 0
        (Draws.seeded 0)
    (session.completion? text (some "p.logo")).isSome = true ∧
      (proceed ⟨"p.logo", some "English", false, 0⟩ "English" "p.logo"
        (.ok text.toUTF8)
        (Draws.seeded 0) "Nuts!").ending.escaped? =
          some (.tooManyDigits none) := by
  decide +kernel

end CommandLine

end Logo
