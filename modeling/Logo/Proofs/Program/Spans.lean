import Logo.Proofs.Program.Derivation
import Logo.Proofs.Program.Groups

/-!
# Expressions stand where their words do

Every expression that is read from some tokens reaches from one of these tokens
to another one that does not stand before it, and so do its parts and the lists
of turtles in it.  The same holds of a program as a whole.
-/

namespace Logo

open Vocabulary

def Ordered (tokens : List Token) : Prop := tokens.Pairwise (·.spot < ·.spot)

/-- Two spots are those of tokens, and the second is not before the first. -/
def Spans (tokens : List Token) (left right : Nat) : Prop :=
  ∃ first ∈ tokens, ∃ last ∈ tokens, first.spot = left ∧
    last.spot = right ∧ left ≤ right

theorem Spans.mono
    {tokens others : List Token} {left right : Nat}
    (hspans : Spans tokens left right) (hsubset : tokens ⊆ others) :
    Spans others left right := by
  obtain ⟨first, hfirst, last, hlast, hrest⟩ := hspans
  exact ⟨first, hsubset hfirst, last, hsubset hlast, hrest⟩

namespace Expr

/-- All that occurs in an expression reaches from token to token, also the lists
of turtles. -/
def Covered (tokens : List Token) (expr : Expr) : Prop :=
  ∀ part : Expr, part.Within expr →
    Spans tokens part.left part.right ∧
      ∀ list, part.addressed? = some list → Spans tokens list.left list.right

variable {tokens others : List Token} {expr : Expr}

theorem covered_iff :
    expr.Covered tokens ↔
      (Spans tokens expr.left expr.right ∧
        ∀ list, expr.addressed? = some list →
          Spans tokens list.left list.right) ∧
      ∀ part ∈ expr.parts, part.Covered tokens :=
  forall_within_iff

theorem Covered.mono (hexpr : expr.Covered tokens) (hsubset : tokens ⊆ others) :
    expr.Covered others := by
  intro part hpart
  obtain ⟨hself, hlists⟩ := hexpr part hpart
  exact ⟨hself.mono hsubset, fun list hlist => (hlists list hlist).mono hsubset⟩

theorem Covered.part {part : Expr} (hexpr : expr.Covered tokens)
    (hpart : part ∈ expr.parts) :
    part.Covered tokens :=
  (covered_iff.mp hexpr).2 part hpart

theorem Covered.spans (hexpr : expr.Covered tokens) :
    Spans tokens expr.left expr.right :=
  (hexpr expr .self).1

theorem rightOfLast_append (spot : Nat) (init : List Expr) (last : Expr) :
    rightOfLast spot (init ++ [last]) = last.right := by
  induction init generalizing spot with
  | nil => rfl
  | cons expr rest ih => exact ih expr.right

/-- An expression that starts with the first of some tokens and ends with any of
them. -/
theorem covered_of_head
    {head : Token} (hordered : Ordered (head :: tokens))
    (hhead : expr.head = head) (last : Token) (hlast : last ∈ head :: tokens)
    (hright : expr.right = last.spot)
    (haddressed :
      ∀ list, expr.addressed? = some list →
        Spans (head :: tokens) list.left list.right)
    (hparts : ∀ part ∈ expr.parts, part.Covered (head :: tokens)) :
    expr.Covered (head :: tokens) := by
  have hleft : expr.left = head.spot := by rw [left, hhead]
  have hle : head.spot ≤ last.spot := by
    rcases List.mem_cons.mp hlast with rfl | hlater
    · exact le_rfl
    · exact ((List.pairwise_cons.mp hordered).1 last hlater).le
  refine covered_iff.mpr
    ⟨⟨⟨head, by simp, last, hlast, hleft.symm, hright.symm, ?_⟩,
      haddressed⟩, hparts⟩
  rw [hleft, hright]
  exact hle

end Expr

theorem Callee.covered_call
    (callee : Callee) {head : Token} {tokens : List Token}
    (hordered : Ordered (head :: tokens)) {args : List Expr}
    (hargs : ∀ arg ∈ args, arg.Covered tokens) :
    (callee.call head args).Covered (head :: tokens) := by
  have hhead : (callee.call head args).head = head := by cases callee <;> rfl
  have hright :
      (callee.call head args).right = Expr.rightOfLast head.spot args := by
    cases callee <;> simp [Callee.call, Expr.right]
  have haddressed : (callee.call head args).addressed? = none := by
    cases callee <;> rfl
  have hlast :
      ∃ last ∈ head :: tokens, Expr.rightOfLast head.spot args = last.spot := by
    rcases List.eq_nil_or_concat args with rfl | ⟨init, final, rfl⟩
    · exact ⟨head, by simp, rfl⟩
    · obtain ⟨-, -, last, hlast, -, hspot, -⟩ := (hargs final (by simp)).spans
      refine ⟨last, List.mem_cons_of_mem _ hlast, ?_⟩
      rw [List.concat_eq_append, Expr.rightOfLast_append, hspot]
  obtain ⟨last, hlast, hspot⟩ := hlast
  refine Expr.covered_of_head hordered hhead last hlast (hright.trans hspot)
    (by simp [haddressed]) ?_
  rw [callee.parts_call]
  exact fun arg harg => (hargs arg harg).mono (List.subset_cons_self _ _)

/-! ## What a form makes of its parts -/

/-- Behind some tokens that are in order, whatever a need makes of further ones
is covered by all of them together. -/
def Need.Covers : Need → List Token → Prop
  | .done expr, tokens => expr.Covered tokens
  | .value next, tokens =>
      ∀ more expr, Ordered (tokens ++ more) → expr.Covered more →
        (next expr).Covers (tokens ++ more)
  | .target next, tokens =>
      ∀ token, Ordered (tokens ++ [token]) →
        (next token).Covers (tokens ++ [token])
  | .block next, tokens =>
      ∀ opener more closer body,
        Ordered (tokens ++ opener :: (more ++ [closer])) →
        (∀ expr ∈ body, expr.Covered more) →
          (next ⟨opener, closer⟩ body).Covers
            (tokens ++ opener :: (more ++ [closer]))
  | .opening _ next, tokens =>
      ∀ token, Ordered (tokens ++ [token]) → next.Covers (tokens ++ [token])
  | .closing _ next, tokens =>
      ∀ token, Ordered (tokens ++ [token]) → next.Covers (tokens ++ [token])
  | .name next, tokens =>
      ∀ token, Ordered (tokens ++ [token]) →
        (next token).Covers (tokens ++ [token])
  | .params _ _ next, tokens =>
      ∀ more params, Ordered (tokens ++ more) →
        (next params).Covers (tokens ++ more)
  | .leader opener, tokens => opener ∈ tokens

theorem Form.need_covers (form : Form) (head : Token) :
    (form.need head).Covers [head] := by
  have hblock {tokens more : List Token} {opener closer : Token}
      {list : List Expr}
      (hordered : Ordered (tokens ++ opener :: (more ++ [closer]))) :
      Spans (tokens ++ opener :: (more ++ [closer]))
        (Expr.block ⟨opener, closer⟩ list).left
        (Expr.block ⟨opener, closer⟩ list).right := by
    have hafter :=
      (List.pairwise_cons.mp (List.pairwise_append.mp hordered).2.1).1
    exact ⟨opener, by simp, closer, by simp, rfl, by simp [Expr.right],
      (hafter closer (by simp)).le⟩
  cases form with
  | make =>
      intro target _ more value hordered hvalue
      obtain ⟨-, -, last, hlast, -, hspot, -⟩ := hvalue.spans
      refine Expr.covered_of_head hordered rfl last (by simp [hlast]) ?_
        (by simp [Expr.addressed?]) ?_
      · rw [Expr.right, hspot]
      · simpa [Expr.parts] using hvalue.mono (by simp)
  | repeatTimes =>
      intro inputs count _ hcount opener more closer body hordered hbody
      refine Expr.covered_of_head hordered rfl closer (by simp)
        (by simp [Expr.right]) (by simp [Expr.addressed?]) ?_
      refine List.forall_mem_cons.mpr
        ⟨hcount.mono fun t ht => ?_, fun part hpart => ?_⟩
      · simp [ht]
      · exact (hbody part hpart).mono fun t ht => by simp [ht]
  | countTo =>
      intro outer _ target _ inputs limit _ hlimit inner _ opener more closer
        body hordered hbody
      refine Expr.covered_of_head hordered rfl closer (by simp)
        (by simp [Expr.right]) (by simp [Expr.addressed?]) ?_
      refine List.forall_mem_cons.mpr
        ⟨hlimit.mono fun t ht => ?_, fun part hpart => ?_⟩
      · simp [ht]
      · exact (hbody part hpart).mono fun t ht => by simp [ht]
  | countBy =>
      intro outer _ target _ firsts first _ hfirst lasts last _ hlast steps step
        _ hstep inner _ opener more closer body hordered hbody
      refine Expr.covered_of_head hordered rfl closer (by simp)
        (by simp [Expr.right]) (by simp [Expr.addressed?]) ?_
      simp only [Expr.parts, List.forall_mem_cons]
      refine ⟨hfirst.mono fun t ht => ?_, hlast.mono fun t ht => ?_,
        hstep.mono fun t ht => ?_, fun part hpart =>
          (hbody part hpart).mono fun t ht => ?_⟩ <;> simp [ht]
  | ifThen =>
      intro inputs condition _ hcondition opener more closer body hordered hbody
      refine Expr.covered_of_head hordered rfl closer (by simp)
        (by simp [Expr.right]) (by simp [Expr.addressed?]) ?_
      refine List.forall_mem_cons.mpr
        ⟨hcondition.mono fun t ht => ?_, fun part hpart => ?_⟩
      · simp [ht]
      · exact (hbody part hpart).mono fun t ht => by simp [ht]
  | ifElse =>
      intro inputs condition _ hcondition thenOpener thenTokens thenCloser
        thenPart _ hthen opener more closer elsePart hordered helse
      refine Expr.covered_of_head hordered rfl closer (by simp)
        (by simp [Expr.right]) (by simp [Expr.addressed?]) ?_
      simp only [Expr.parts, List.forall_mem_cons, List.forall_mem_append]
      refine ⟨hcondition.mono fun t ht => ?_,
        fun part hpart => (hthen part hpart).mono fun t ht => ?_,
        fun part hpart => (helse part hpart).mono fun t ht => ?_⟩ <;> simp [ht]
  | define =>
      intro name _ outer _ params read _ opener more closer body hordered hbody
      refine Expr.covered_of_head hordered rfl closer (by simp)
        (by simp [Expr.right]) (by simp [Expr.addressed?]) ?_
      exact fun part hpart => (hbody part hpart).mono fun t ht => by simp [ht]
  | tell =>
      intro opener more closer list hordered hlist
      refine Expr.covered_of_head hordered rfl closer (by simp)
        (by simp [Expr.right]) ?_ ?_
      · intro addressed haddressed
        cases haddressed
        exact hblock hordered
      · exact fun part hpart => (hlist part hpart).mono fun t ht => by simp [ht]
  | ask =>
      intro listOpener listTokens listCloser list hlisted hlist opener more
        closer body hordered hbody
      refine Expr.covered_of_head hordered rfl closer (by simp)
        (by simp [Expr.right]) ?_ ?_
      · intro addressed haddressed
        cases haddressed
        exact (hblock hlisted).mono (List.subset_append_left _ _)
      · simp only [Expr.parts, List.forall_mem_append]
        refine ⟨fun part hpart => (hlist part hpart).mono fun t ht => ?_,
          fun part hpart => (hbody part hpart).mono fun t ht =>
            ?_⟩ <;> simp [ht]
  | askWith =>
      intro askOpener askTokens askCloser condition _ hcondition opener more
        closer body hordered hbody
      refine Expr.covered_of_head hordered rfl closer (by simp)
        (by simp [Expr.right]) (by simp [Expr.addressed?]) ?_
      simp only [Expr.parts, List.forall_mem_append]
      refine ⟨fun part hpart => (hcondition part hpart).mono fun t ht => ?_,
        fun part hpart => (hbody part hpart).mono fun t ht => ?_⟩ <;> simp [ht]

/-- A closed group starts with its opener, or with its instruction if that is
called only once. -/
theorem Callee.covered_group
    {callee : Callee} {prior tokens : List Token} {opener head closer : Token}
    (hordered : Ordered (prior ++ head :: (tokens ++ [closer])))
    (hopener : opener ∈ prior) {args : List Expr}
    (hargs : ∀ arg ∈ args, arg.Covered tokens) {expr : Expr}
    (hgroup : callee.group ⟨opener, closer⟩ head args = .ok expr) :
    expr.Covered (prior ++ head :: (tokens ++ [closer])) := by
  obtain ⟨-, hbehind, hbefore⟩ := List.pairwise_append.mp hordered
  have hcalls : Ordered (head :: tokens) :=
    hbehind.sublist
      (List.Sublist.cons_cons head (List.sublist_append_left tokens [closer]))
  have hsubset : head :: tokens ⊆ prior ++ head :: (tokens ++ [closer]) := by
    intro t ht
    simp only [List.mem_cons, List.mem_append] at ht ⊢
    tauto
  rcases Callee.group_eq_ok hgroup with ⟨-, rfl, -⟩ | ⟨runs, -, rfl, -, rfl⟩
  · exact (callee.covered_call hcalls hargs).mono hsubset
  · refine Expr.covered_iff.mpr ⟨⟨?_, by simp [Expr.addressed?]⟩,
      fun part hpart => ?_⟩
    · exact ⟨opener,
        by simp [hopener], closer, by simp, rfl, by simp [Expr.right],
        (hbefore opener hopener closer (by simp)).le⟩
    · obtain ⟨run, hrun, rfl⟩ := List.mem_map.mp hpart
      refine (callee.covered_call hcalls fun arg harg => ?_).mono hsubset
      exact hargs arg (List.mem_flatten_of_mem hrun harg)

/-! ## Programs -/

/-- What is read from tokens in order is covered by them. -/
def Reading.Covered (tokens : List Token) : Reading → Prop
  | .value expr => Ordered tokens → expr.Covered tokens
  | .list exprs =>
      Ordered tokens →
        (∀ expr ∈ exprs, expr.Covered tokens) ∧
          ∀ first rest, exprs = first :: rest →
            Spans tokens first.left (Expr.rightOfLast first.right rest)
  | .rest need expr =>
      ∀ prior, Ordered (prior ++ tokens) → need.Covers prior →
        expr.Covered (prior ++ tokens)

theorem Reads.covered
    {lexicon : Lexicon} {room : Nat} {arities after : NameMap Nat}
    {tokens : List Token} {reading : Reading}
    (hreads : Reads lexicon room arities tokens reading after) :
    reading.Covered tokens := by
  have hleaf {token : Token} {expr : Expr} (hhead : expr.head = token)
      (hright : expr.right = token.spot) (haddressed : expr.addressed? = none)
      (hparts : expr.parts = []) : expr.Covered [token] :=
    Expr.covered_of_head (List.pairwise_singleton _ _) hhead token
      (by simp) hright (by simp [haddressed]) (by simp [hparts])
  induction hreads with
  | constant hkind hvalue =>
      exact fun _ => hleaf rfl (by simp [Expr.right]) rfl rfl
  | «variable» hkind => exact fun _ => hleaf rfl (by simp [Expr.right]) rfl rfl
  | @form room arities token form tokens expr after hkind hform hrest ih =>
      exact fun hordered => ih [token] hordered (form.need_covers token)
  | call hcalls hargs hlength ih =>
      intro hordered
      exact Callee.covered_call _ hordered
        (ih (List.pairwise_cons.mp hordered).2).1
  | @group room arities opener tokens expr after hopener hrest ih =>
      exact fun hordered =>
        ih [opener] hordered (List.mem_singleton_self opener)
  | empty => exact fun _ => ⟨by simp, by simp⟩
  | @snoc room arities tokens exprs between others expr after hlist hvalue
    ihlist ihvalue =>
      intro hordered
      obtain ⟨hfirst, hsecond, hbetween⟩ := List.pairwise_append.mp hordered
      obtain ⟨hexprs, -⟩ := ihlist hfirst
      have hexpr := ihvalue hsecond
      refine ⟨?_, fun first rest hsplit => ?_⟩
      · rw [List.forall_mem_append, List.forall_mem_singleton]
        exact ⟨fun part hpart =>
          (hexprs part hpart).mono (List.subset_append_left _ _),
          hexpr.mono (List.subset_append_right _ _)⟩
      · cases exprs with
        | nil =>
            cases hsplit
            exact hexpr.spans.mono (List.subset_append_right _ _)
        | cons leading inner =>
            cases hsplit
            obtain ⟨start, hstart, -, -, hleft, -, -⟩ :=
              (hexprs first (by simp)).spans
            obtain ⟨-, -, last, hlast, -, hright, -⟩ := hexpr.spans
            have hlastRight := Expr.rightOfLast_append first.right inner expr
            refine ⟨start, by simp [hstart], last, by simp [hlast], hleft,
              hright.trans hlastRight.symm, ?_⟩
            refine le_trans ?_ hlastRight.ge
            rw [← hleft, ← hright]
            exact (hbetween start hstart last hlast).le
  | done =>
      intro prior _ hneed
      rw [List.append_nil]
      exact hneed
  | @value room arities tokens input between others next expr after hvalue hrest
    ihvalue ihrest =>
      intro prior hordered hneed
      rw [← List.append_assoc] at hordered ⊢
      have hso := (List.pairwise_append.mp hordered).1
      have hinput := ihvalue (List.pairwise_append.mp hso).2.1
      exact ihrest (prior ++ tokens) hordered (hneed tokens input hso hinput)
  | @target room arities token tokens next expr after hkind hrest ih =>
      intro prior hordered hneed
      rw [List.append_cons] at hordered ⊢
      exact ih _ hordered (hneed token (List.pairwise_append.mp hordered).1)
  | @block room arities opener tokens body between closer others next expr
      after hopener hbody hcloser hrest ihbody ihrest =>
      intro prior hordered hneed
      have hsplit :
          prior ++ opener :: (tokens ++ closer :: others) =
            prior ++ opener :: (tokens ++ [closer]) ++ others := by simp
      rw [hsplit] at hordered ⊢
      have hso := (List.pairwise_append.mp hordered).1
      have hinside : Ordered tokens := by
        have hlist := (List.pairwise_append.mp hso).2.1
        exact (List.pairwise_append.mp (List.pairwise_cons.mp hlist).2).1
      exact ihrest _ hordered
        (hneed opener tokens closer body hso (ihbody hinside).1)
  | @opening room arities token tokens what next expr after hkind hrest ih =>
      intro prior hordered hneed
      rw [List.append_cons] at hordered ⊢
      exact ih _ hordered (hneed token (List.pairwise_append.mp hordered).1)
  | @closing room arities token tokens what next expr after hkind hrest ih =>
      intro prior hordered hneed
      rw [List.append_cons] at hordered ⊢
      exact ih _ hordered (hneed token (List.pairwise_append.mp hordered).1)
  | @name room arities token tokens next expr after hkind hnew hrest ih =>
      intro prior hordered hneed
      rw [List.append_cons] at hordered ⊢
      exact ih _ hordered (hneed token (List.pairwise_append.mp hordered).1)
  | @param room arities token tokens name read next expr after hkind hrest ih =>
      intro prior hordered hneed
      rw [List.append_cons] at hordered ⊢
      refine ih _ hordered fun more params hmore => ?_
      rw [← List.append_cons] at hmore ⊢
      exact hneed (token :: more) params hmore
  | @params room arities token tokens name read next expr after
    hkind hrest ih =>
      intro prior hordered hneed
      rw [List.append_cons] at hordered ⊢
      exact ih _ hordered
        (hneed [token] read (List.pairwise_append.mp hordered).1)
  | @leader room arities head callee tokens args closer opener expr after
      hcalls hargs hcloser hgroup ih =>
      intro prior hordered hneed
      have hinside : Ordered tokens := by
        have hlist := (List.pairwise_append.mp hordered).2.1
        exact (List.pairwise_append.mp (List.pairwise_cons.mp hlist).2).1
      exact Callee.covered_group hordered hneed (ih hinside).1 hgroup

/-- Every expression of a program, and the program as a whole, is covered by its
tokens. -/
theorem Reader.covered_read
    {lexicon : Lexicon} {nesting : Nat} {arities : NameMap Nat}
    {tokens : List Token} {reader : Reader} (hordered : Ordered tokens)
    (hread : Reader.read lexicon nesting arities tokens = .ok reader) :
    (∀ expr ∈ reader.body, expr.Covered tokens) ∧
      (reader.body ≠ [] →
        Spans tokens (Phrase.program reader.body).span.1
          (Phrase.program reader.body).span.2) := by
  obtain ⟨-, -, hreads⟩ := read_eq_ok_iff_reads.mp hread
  obtain ⟨hexprs, hwhole⟩ := hreads.covered hordered
  refine ⟨hexprs, fun hbody => ?_⟩
  obtain ⟨first, rest, hsplit⟩ := List.exists_cons_of_ne_nil hbody
  rw [hsplit]
  exact hwhole first rest hsplit

end Logo
