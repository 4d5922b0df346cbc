import Logo.Proofs.Program.Spans
import Logo.Proofs.Session.Unbroken
import Logo.Proofs.Token.Scanned

/-!
# Complaints point at their words

A session keeps an index of all the words that it has heard.  Whatever a call
complains about, the complaint points at words of one text: the text of the call
itself or, for the body of a procedure, that of an earlier call.  The index of
the session still leads to these words, so the complaint can be reported.
-/

namespace Logo.Session

open Source

/-- The text that was heard by one of the calls, with its words. -/
def Heard (first : Session) (calls : List Call) (tokens : List Token)
    (segment : Segment) : Prop :=
  ∃ earlier call later, calls = earlier ++ call :: later ∧
    call.heard? = some (segment.text, segment.path) ∧
    segment.number = (first.performAll earlier).index.segments.length ∧
    segment.start = (first.performAll earlier).index.slices.size ∧
    tokens = Token.tokensOf
      (Token.scan (first.performAll earlier).index segment.path segment.text).1

theorem performAll_append (first : Session) (calls later : List Call) :
    first.performAll (calls ++ later) =
      (first.performAll calls).performAll later :=
  List.foldl_append

theorem performAll_concat (first : Session) (calls : List Call) (call : Call) :
    first.performAll (calls ++ [call]) =
      (first.performAll calls).perform call :=
  performAll_append first calls [call]

/-- Whatever calls come before, the procedures can be listed. -/
def Lists (first : Session) : Prop :=
  ∀ calls, ∃ arities, (first.performAll calls).procedures = .ok arities

theorem Lists.later {first : Session} (hlists : first.Lists)
    (calls : List Call) :
    (first.performAll calls).Lists := by
  intro later
  rw [← performAll_append]
  exact hlists (calls ++ later)

theorem lists_start
    (limits : Limits) (language : String) (report : Report) (observers : Nat)
    (draws : Draws) :
    (startWithin limits language report observers draws).Lists :=
  fun calls =>
    procedures_eq_ok
      (sound_of_start limits language report observers draws calls)

theorem extends_performAll {first : Session} (hlists : first.Lists)
    (calls : List Call) :
    first.index.Extends (first.performAll calls).index := by
  induction calls generalizing first with
  | nil => exact .refl _
  | cons call rest ih =>
      obtain ⟨arities, hprocedures⟩ :
          ∃ arities, first.procedures = .ok arities := hlists []
      have hcall : first.index.Extends (first.perform call).index := by
        rw [index_perform hprocedures call]
        split
        · exact Token.extends_scan _ _ _
        · exact .refl _
      exact hcall.trans (ih (hlists.later [call]))

namespace Heard

variable {first : Session} {calls : List Call} {tokens : List Token}
  {segment : Segment}

theorem later (hheard : first.Heard calls tokens segment) (more : List Call) :
    first.Heard (calls ++ more) tokens segment := by
  obtain ⟨earlier, call, later, rfl, hrest⟩ := hheard
  exact ⟨earlier, call, later ++ more, by simp, hrest⟩

/-- The text that a call hears as the last one so far. -/
theorem newest
    {call : Call} {text : String} {path : Option String}
    (hheard : call.heard? = some (text, path)) :
    first.Heard (calls ++ [call])
      (Token.tokensOf (Token.scan (first.performAll calls).index path text).1)
      ⟨(first.performAll calls).index.segments.length,
        (first.performAll calls).index.slices.size, path, text⟩ :=
  ⟨calls, call, [], rfl, hheard, rfl, rfl, rfl⟩

theorem ordered (hheard : first.Heard calls tokens segment) :
    Ordered tokens := by
  obtain ⟨earlier, call, later, -, -, -, -, rfl⟩ := hheard
  exact Token.pairwise_spot_scan _ _ _

theorem offsets (hheard : first.Heard calls tokens segment) :
    tokens.Pairwise (·.offset < ·.offset) := by
  obtain ⟨earlier, call, later, -, -, -, -, rfl⟩ := hheard
  exact Token.pairwise_offset_scan _ _ _

/-- The words of a text keep their places, whatever is heard afterwards. -/
theorem liesIn (hlists : first.Lists)
    (hheard : first.Heard calls tokens segment) :
    ∀ token ∈ tokens, token.LiesIn (first.performAll calls).index segment := by
  obtain ⟨earlier, call, later, rfl, hcall, hnumber, hstart, rfl⟩ := hheard
  intro token htoken
  obtain ⟨arities, hprocedures⟩ := hlists earlier
  have hlies := Token.liesIn_of_scan htoken
  have hindex := index_perform hprocedures call
  have hlater := extends_performAll (hlists.later (earlier ++ [call])) later
  rw [hcall] at hindex
  rw [← performAll_append, List.append_assoc, List.singleton_append,
    performAll_concat, hindex]
    at hlater
  rw [← hnumber, ← hstart] at hlies
  exact hlies.later hlater

/-- Within one text, tokens with later spots have later offsets. -/
theorem offset_le
    (hheard : first.Heard calls tokens segment) {token other : Token}
    (htoken : token ∈ tokens) (hother : other ∈ tokens)
    (hle : token.spot ≤ other.spot) : token.offset ≤ other.offset := by
  obtain ⟨i, hi, rfl⟩ := List.mem_iff_getElem.mp htoken
  obtain ⟨j, hj, rfl⟩ := List.mem_iff_getElem.mp hother
  rcases Nat.lt_trichotomy i j with hlt | heq | hgt
  · exact (List.pairwise_iff_getElem.mp hheard.offsets i j hi hj hlt).le
  · simp [heq]
  · have hspots := List.pairwise_iff_getElem.mp hheard.ordered j i hj hi hgt
    omega

end Heard

/-- An expression has been read from words that were heard. -/
def Located (first : Session) (calls : List Call) (expr : Expr) : Prop :=
  expr.Complete ∧ ∃ tokens segment, first.Heard calls tokens segment ∧
    expr.Covered tokens

theorem hereditary_located (first : Session) (calls : List Call) :
    Hereditary False (first.Located calls) where
  part := by
    rintro expr part ⟨hcomplete, tokens, segment, hheard, hcovered⟩ hpart
    exact ⟨hcomplete.part hpart, tokens, segment, hheard, hcovered.part hpart⟩
  addressed := by
    rintro expr list ⟨hcomplete, tokens, segment, hheard, hcovered⟩ hlist
    refine ⟨Expr.hereditary_complete.addressed expr list hcomplete hlist,
      tokens, segment, hheard, ?_⟩
    have hspans := (hcovered expr .self).2 list hlist
    cases expr with
    | tell head brackets numbers =>
        cases hlist
        exact Expr.covered_iff.mpr ⟨⟨hspans, by simp [Expr.addressed?]⟩,
          fun part hpart => hcovered.part hpart⟩
    | ask head listBrackets numbers brackets body =>
        cases hlist
        refine Expr.covered_iff.mpr ⟨⟨hspans, by simp [Expr.addressed?]⟩,
          fun part hpart => hcovered.part ?_⟩
        exact List.mem_append_left body hpart
    | _ => cases hlist
  counted expr hexpr := Expr.hereditary_complete.counted expr hexpr.1

/-- A phrase reaches from word to word of a text that was heard. -/
def Points (first : Session) (calls : List Call) (phrase : Phrase) : Prop :=
  ∃ tokens segment, first.Heard calls tokens segment ∧
    Spans tokens phrase.span.1 phrase.span.2

theorem Located.points
    {first : Session} {calls : List Call} {expr : Expr}
    (hlocated : first.Located calls expr) :
    first.Points calls (.expr expr) := by
  obtain ⟨-, tokens, segment, hheard, hcovered⟩ := hlocated
  exact ⟨tokens, segment, hheard, hcovered.spans⟩

section History

variable {first : Session} {calls : List Call} {call : Call} {text : String}
  {path : Option String}

theorem points_word
    (hheard : call.heard? = some (text, path)) {token : Token}
    (htoken : token ∈ Token.tokensOf
      (Token.scan (first.performAll calls).index path text).1) :
    first.Points (calls ++ [call]) (.word token) :=
  ⟨_, _, .newest hheard, token, htoken, token, htoken, rfl, rfl, le_rfl⟩

/-- What a call reads is located in the text that it hears. -/
theorem located_of_parse
    (hheard : call.heard? = some (text, path)) {body : List Expr}
    {between : Session}
    (hparse : Session.parse text path (first.performAll calls) =
      .ok body between) :
    (∀ expr ∈ body, first.Located (calls ++ [call]) expr) ∧
      (body ≠ [] → first.Points (calls ++ [call]) (.program body)) := by
  have hcomplete := complete_of_parse hparse
  obtain ⟨arities, tokens, index, reader, -, hscan, hread, rfl, -⟩ :=
    parse_eq_ok hparse
  have hnewest : first.Heard (calls ++ [call]) tokens
      ⟨(first.performAll calls).index.segments.length,
        (first.performAll calls).index.slices.size, path, text⟩ := by
    refine ⟨calls, call, [], rfl, hheard, rfl, rfl, ?_⟩
    rw [hscan]
    rfl
  obtain ⟨hcovered, hprogram⟩ := Reader.covered_read hnewest.ordered hread
  exact ⟨fun expr hexpr => ⟨hcomplete expr hexpr, _, _, hnewest,
    hcovered expr hexpr⟩, fun hbody => ⟨_, _, hnewest, hprogram hbody⟩⟩

/-- A fault of a program is about words that were heard. -/
theorem points_of_foreseen
    {complaint : Complaint}
    (hfault : Fault.Foreseen False (first.Located calls)
      (.complaint complaint)) :
    ∃ phrase, complaint.place? = some phrase ∧ first.Points calls phrase := by
  cases hfault with
  | mishap hplace mishap => exact ⟨_, rfl, hplace.points⟩
  | undefined hplace name => exact ⟨_, rfl, hplace.points⟩
  | impure hplace => exact ⟨_, rfl, hplace.points⟩

theorem points_of_fails
    (hheard : call.heard? = some (text, path)) (hlists : first.Lists)
    (hworld : (first.performAll calls).world.Sound False
      (first.Located (calls ++ [call])))
    {complaint : Complaint}
    (hfails : (first.performAll calls).Fails text path (.complaint complaint)) :
    ∃ phrase, complaint.place? = some phrase ∧
      first.Points (calls ++ [call]) phrase := by
  have hprogram {limits : Limits} {mode : Mode} {body : List Expr}
      {between : Session}
      (hparse : Session.parse text path (first.performAll calls) =
        .ok body between)
      {world after : World}
      (hstart : world.Sound False (first.Located (calls ++ [call])))
      (hrun : Execution.program limits mode body world =
        .error (.complaint complaint) after) :
      ∃ phrase, complaint.place? = some phrase ∧
        first.Points (calls ++ [call]) phrase := by
    obtain ⟨hbody, hwhole⟩ := located_of_parse hheard hparse
    rcases ending_program
        (hereditary_located first _) limits mode hbody hstart with
      hends | ⟨_, -, hnonempty, hdeep⟩
    · rw [hrun] at hends
      exact points_of_foreseen hends.1
    · rw [hrun] at hdeep
      cases hdeep
      exact ⟨_, rfl, hwhole hnonempty⟩
  cases hfails with
  | parse hparse =>
      rcases parse_eq_error hparse with
        hprocedures | ⟨token, index, hscan, hfault⟩ |
        ⟨arities, tokens, index, hscan, hread⟩
      · obtain ⟨arities, harities⟩ := hlists calls
        rw [harities] at hprocedures
        cases hprocedures
      · cases hfault
        refine ⟨_, rfl, points_word hheard ?_⟩
        rw [hscan]
        exact List.mem_singleton_self token
      · have houtcome :=
          Reader.outcome_read (first.performAll calls).lexicon
            (first.performAll calls).limits.nesting arities tokens
        rw [hread] at houtcome
        have hpoints {token : Token} (htoken : token ∈ tokens) :
            first.Points (calls ++ [call]) (.word token) := by
          apply points_word hheard
          rw [hscan]
          exact htoken
        cases houtcome with
        | unrecognized hknown word => exact ⟨_, rfl, hpoints hknown⟩
        | malformed hknown flaw => exact ⟨_, rfl, hpoints hknown⟩
  | run hparse hrun =>
      refine hprogram hparse ?_ hrun
      exact hworld.withFlock hworld.flock.clearMotion
  | evaluate hparse hrun => exact hprogram hparse hworld hrun

end History

/-- Every procedure that exists was read from words that were heard. -/
theorem sound_located
    (limits : Limits) (language : String) (report : Report) (observers : Nat)
    (draws : Draws) (calls : List Call) :
    let first := startWithin limits language report observers draws
    (first.performAll calls).world.Sound False (first.Located calls) := by
  intro first
  induction calls using List.reverseRecOn with
  | nil => exact ⟨Flock.sound_fresh, fun _ hentry => by cases hentry⟩
  | append_singleton calls call ih =>
      rw [performAll_concat]
      have hlater :
          (first.performAll calls).world.Sound False
            (first.Located (calls ++ [call])) := by
        refine ih.mono ?_
        rintro expr ⟨hcomplete, tokens, segment, hheard, hcovered⟩
        exact ⟨hcomplete, tokens, segment, hheard.later [call], hcovered⟩
      refine sound_perform (hereditary_located first _) hlater ?_
      intro text path body between hheard hparse
      exact (located_of_parse hheard hparse).1

theorem failed_eq_ok
    {index : Index} {complaint : Complaint} {phrase : Phrase} {place : Place}
    (hplace : complaint.place? = some phrase)
    (hlookup : index.lookupSpan phrase.span.1 phrase.span.2 = .ok place)
    (report : Report) :
    ∃ outcome, report.failed index complaint = .ok outcome := by
  have hissue : ∃ issue, Issue.ofComplaint index complaint = .ok issue := by
    unfold Issue.ofComplaint
    simp only [hplace, hlookup]
    exact ⟨_, rfl⟩
  obtain ⟨issue, hissue⟩ := hissue
  unfold Report.failed
  rw [hissue]
  exact ⟨_, rfl⟩

/-- Every complaint of a call points at words of a text that this call or an
earlier one has heard.  The index leads from the first of these words to the
last one, in that text, so whoever reports the complaint can show them. -/
theorem complaints_are_located
    (limits : Limits) (language : String) (report : Report) (observers : Nat)
    (draws : Draws) (calls : List Call) (call : Call) (complaint : Complaint)
    (hfault :
      ((startWithin limits language report observers draws).performAll
        calls).fault? call = some (.complaint complaint)) :
    let start := startWithin limits language report observers draws
    let index := (start.performAll (calls ++ [call])).index
    ∃ phrase tokens segment first last,
      complaint.place? = some phrase ∧
        start.Heard (calls ++ [call]) tokens segment ∧
        first ∈ tokens ∧ last ∈ tokens ∧
        phrase.span = (first.spot, last.spot) ∧
        index.lookupSpan phrase.span.1 phrase.span.2 =
          .ok ⟨segment, ⟨first.offset, last.offset + last.text.length⟩⟩ ∧
        first.offset < last.offset + last.text.length ∧
        last.offset + last.text.length ≤ segment.text.length ∧
        first.text.toList <+: segment.text.toList.drop first.offset ∧
        last.text.toList <:+ segment.text.toList.take
          (last.offset + last.text.length) ∧
        ∀ report : Report, ∃ outcome,
          report.failed index complaint = .ok outcome := by
  intro start index
  have hlists : start.Lists :=
    lists_start limits language report observers draws
  obtain ⟨text, path, hheard, hfails⟩ := fails_of_fault? hfault
  have hworld :
      (start.performAll calls).world.Sound False
        (start.Located (calls ++ [call])) := by
    refine (sound_located limits language report observers draws calls).mono ?_
    rintro expr ⟨hcomplete, tokens, segment, hearlier, hcovered⟩
    exact ⟨hcomplete, tokens, segment, hearlier.later [call], hcovered⟩
  obtain ⟨phrase, hplace, tokens, segment, htext, first, hfirst, last, hlast,
      hleft, hright, hle⟩ :=
    points_of_fails hheard hlists hworld hfails
  have hspan : phrase.span = (first.spot, last.spot) := by rw [hleft, hright]
  have hstarts := htext.liesIn hlists first hfirst
  have hends := htext.liesIn hlists last hlast
  have hlookup :
      index.lookupSpan phrase.span.1 phrase.span.2 =
        .ok ⟨segment, ⟨first.offset, last.offset + last.text.length⟩⟩ := by
    rw [hspan]
    exact Index.lookupSpan_of_lookup hstarts.lookup hends.lookup
  have hoffset : first.offset ≤ last.offset := by
    apply htext.offset_le hfirst hlast
    rw [hleft, hright]
    exact hle
  refine ⟨phrase, tokens, segment, first, last, hplace, htext, hfirst, hlast,
    hspan, hlookup, ?_, hends.end_le, ?_, ?_, failed_eq_ok hplace hlookup⟩
  · exact Nat.lt_of_le_of_lt hoffset (Nat.lt_add_of_pos_right hends.nonempty)
  · obtain ⟨before, after, hletters, hbefore⟩ := hstarts.letters
    rw [hletters, hbefore, List.append_assoc, List.drop_left]
    exact List.prefix_append _ _
  · obtain ⟨before, after, hletters, hbefore⟩ := hends.letters
    refine ⟨before, ?_⟩
    rw [hletters, hbefore, List.take_left']
    simp [String.length_toList]

def complaintOf? : Fault → Option Complaint
  | .complaint complaint => some complaint
  | _ => none

/-- The procedure `spin` fails in a later text than the one that defines it. -/
theorem missing_variable_is_located_in_its_procedure :
    let calls := [Call.run "to spin [ ] [ fd :missing ]" none]
    let start :=
      startWithin .standard "English" (Report.fresh false none) 0
        (Draws.seeded 0)
    ∃ complaint, (start.performAll calls).fault? (.run "spin" none) =
      some (.complaint complaint) ∧
      ∀ report : Report, ∃ outcome,
        report.failed
          (start.performAll (calls ++ [.run "spin" none])).index complaint =
          .ok outcome := by
  intro calls start
  have hfails :
      (((start.performAll calls).fault? (.run "spin" none)).bind
        complaintOf?).isSome = true := by
    decide +kernel
  obtain ⟨found, hfound⟩ := Option.isSome_iff_exists.mp hfails
  obtain ⟨fault, hfault, hcomplaint⟩ := Option.bind_eq_some_iff.mp hfound
  cases fault with
  | complaint complaint =>
      obtain ⟨_, _, _, _, _, -, -, -, -, -, -, -, -, -, -, hreport⟩ :=
        complaints_are_located _ _ _ _ _ calls
          (.run "spin" none) complaint hfault
      exact ⟨complaint, hfault, hreport⟩
  | _ => cases hcomplaint

end Logo.Session
