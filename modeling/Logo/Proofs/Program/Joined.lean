import Logo.Proofs.NameMap
import Logo.Proofs.Program.Printing
import Logo.Proofs.Program.Rendering
import Logo.Proofs.Token.Scanned

/-!
# Reading two texts as one

Two texts with a line end between them are read as one text in the way in which
they are read one after the other: a remark at the end of the first one does not
reach into the second, and a word stays the same word wherever it stands.  The
second text has to know the procedures of the first by their numbers of inputs,
and it does not matter in which order they are listed.
-/

namespace Logo

namespace Token

/-! ## Words -/

/-- The words of a line, wherever the line stands. -/
def spelling (line : List Char) : List (List Char) :=
  (wordsFrom 0 line).map (·.letters)

theorem letters_wordsFrom (offset other : Nat) (line : List Char) :
    (wordsFrom offset line).map (·.letters) = (wordsFrom other line).map
      (·.letters) := by
  induction offset, line using wordsFrom.induct generalizing other with
  | case1 offset => simp [wordsFrom]
  | case2 offset c rest hblank ih =>
      rw [wordsFrom, if_pos hblank, wordsFrom, if_pos hblank]
      exact ih _
  | case3 offset c rest hletter letters ih =>
      rw [wordsFrom, if_neg hletter, wordsFrom, if_neg hletter]
      simp only [List.map_cons]
      rw [ih]

theorem lines_linesFrom (offset other : Nat) (text : List Char) :
    (linesFrom offset text).map (·.2) = (linesFrom other text).map (·.2) := by
  induction text using lines_induction generalizing offset other with
  | last only hlast => simp [linesFrom_of_isLine hlast]
  | next first c rest hfirst hend ih =>
      rw [linesFrom_append hfirst hend, linesFrom_append hfirst hend,
        List.map_cons, List.map_cons, ih]

theorem lines_joined (offset : Nat) (text more : List Char) :
    (linesFrom offset (text ++ '\n' :: more)).map (·.2) =
      (linesFrom offset text).map (·.2) ++ (linesFrom 0 more).map (·.2) := by
  have hnewline : Text.isLineEnd '\n' = true := by decide
  induction text using lines_induction generalizing offset with
  | last only hlast =>
      rw [linesFrom_append hlast hnewline, linesFrom_of_isLine hlast,
        List.map_cons, lines_linesFrom _ 0]
      rfl
  | next first c rest hfirst hend ih =>
      rw [List.append_assoc, List.cons_append, linesFrom_append hfirst hend,
        linesFrom_append hfirst hend, List.map_cons, List.map_cons, ih,
        List.cons_append]

theorem spelling_wordsByLine (text : String) :
    (wordsByLine text).map (·.map (·.letters)) =
      ((linesFrom 0 text.toList).map (·.2)).map spelling := by
  unfold wordsByLine
  rw [List.map_map, List.map_map]
  apply List.map_congr_left
  intro line _
  exact letters_wordsFrom line.1 0 line.2

theorem spelling_joined (text more : String) :
    (wordsByLine (text ++ "\n" ++ more)).map (·.map (·.letters)) =
      (wordsByLine text).map (·.map (·.letters)) ++ (wordsByLine more).map
        (·.map (·.letters)) := by
  have hletters :
      (text ++ "\n" ++ more).toList = text.toList ++ '\n' :: more.toList := by
    simp
  rw [spelling_wordsByLine, spelling_wordsByLine, spelling_wordsByLine,
    hletters, lines_joined, List.map_append]

/-! ## Tokens -/

theorem scanLine_sameWords
    {index last : Source.Index} {words words' : List Word}
    (hwords : words.map (·.letters) = words'.map (·.letters))
    {tokens : List Token} (hscan : scanLine index words = (.ok tokens, last))
    (index' : Source.Index) :
    ∃ tokens' last', scanLine index' words' = (.ok tokens', last') ∧
      List.Forall₂ SameWord tokens' tokens := by
  induction words generalizing index words' tokens index' with
  | nil =>
      obtain rfl : words' = [] := by simpa using hwords.symm
      cases hscan
      exact ⟨[], index', rfl, .nil⟩
  | cons word rest ih =>
      obtain ⟨word', rest', rfl, hword, hrest⟩ :=
        List.map_eq_cons_iff.mp hwords.symm
      unfold scanLine at hscan ⊢
      simp only [hword] at hscan ⊢
      split at hscan
      next => cases hscan
      next hcomment =>
        cases hscan
        exact ⟨[], _, rfl, .nil⟩
      next kind hother hkind =>
        split at hscan
        next others after hothers =>
          cases hscan
          obtain ⟨others', last', hothers', hsame⟩ := ih hrest.symm hothers _
          refine ⟨⟨kind, String.ofList word.letters, index'.slices.size,
            word'.offset⟩ :: others', last', ?_, .cons ⟨rfl, rfl⟩ hsame⟩
          rw [hothers']
          rfl
        next => cases hscan

theorem scanLines_sameWords
    {index last : Source.Index} {lines lines' : List (List Word)}
    (hlines : lines.map (·.map (·.letters)) = lines'.map (·.map (·.letters)))
    {tokens : List Token} (hscan : scanLines index lines = (.ok tokens, last))
    (index' : Source.Index) :
    ∃ tokens' last', scanLines index' lines' = (.ok tokens', last') ∧
      List.Forall₂ SameWord tokens' tokens := by
  induction lines generalizing index lines' tokens index' with
  | nil =>
      obtain rfl : lines' = [] := by simpa using hlines.symm
      cases hscan
      exact ⟨[], index', rfl, .nil⟩
  | cons line rest ih =>
      obtain ⟨line', rest', rfl, hline, hrest⟩ :=
        List.map_eq_cons_iff.mp hlines.symm
      unfold scanLines at hscan ⊢
      split at hscan
      next => cases hscan
      next first between hfirst =>
        obtain ⟨first', between', hfirst', hsame⟩ :=
          scanLine_sameWords hline.symm hfirst index'
        split at hscan
        next others after hothers =>
          cases hscan
          obtain ⟨others', last', hothers', hmore⟩ :=
            ih hrest.symm hothers between'
          refine ⟨first' ++ others', last', ?_, List.rel_append hsame hmore⟩
          simp only [hfirst', hothers']
        next => cases hscan

theorem scanLines_append
    {index between last : Source.Index} {lines more : List (List Word)}
    {tokens others : List Token}
    (hscan : scanLines index lines = (.ok tokens, between))
    (hmore : scanLines between more = (.ok others, last)) :
    scanLines index (lines ++ more) = (.ok (tokens ++ others), last) := by
  induction lines generalizing index tokens with
  | nil =>
      cases hscan
      exact hmore
  | cons line rest ih =>
      unfold scanLines at hscan
      rw [List.cons_append]
      unfold scanLines
      split at hscan
      next => cases hscan
      next first start hfirst =>
        split at hscan
        next further after hfurther =>
          cases hscan
          simp only [ih hfurther, List.append_assoc]
        next => cases hscan

/-- Two texts that are joined by a line end have the words of both. -/
theorem scan_joined
    {index between : Source.Index} {path path' : Option String}
    {text more : String} {tokens others : List Token}
    {last last' : Source.Index}
    (hscan : scan index path text = (.ok tokens, last))
    (hmore : scan between path' more = (.ok others, last'))
    (start : Source.Index) (name : Option String) :
    ∃ tokens' others' final,
      scan start name (text ++ "\n" ++ more) =
        (.ok (tokens' ++ others'), final) ∧
        List.Forall₂ SameWord tokens' tokens ∧
          List.Forall₂ SameWord others' others := by
  obtain ⟨lines, lines', hlines, hfirst, hsecond⟩ :=
    List.map_eq_append_iff.mp (spelling_joined text more)
  obtain ⟨tokens', middle, hscan', htokens⟩ :=
    scanLines_sameWords hfirst.symm hscan _
  obtain ⟨others', final, hmore', hothers⟩ :=
    scanLines_sameWords hsecond.symm hmore middle
  refine ⟨tokens', others', final, ?_, htokens, hothers⟩
  rw [scan, hlines]
  exact scanLines_append hscan' hmore'

end Token

/-! ## Programs -/

open Vocabulary

theorem Calls.agree
    {lexicon : Lexicon} {arities known : NameMap Nat} {token : Token}
    {callee : Callee} (hcalls : Calls lexicon arities token callee)
    (hagree : arities.Agree known) :
    Calls lexicon known token callee where
  kind := hcalls.kind
  form := hcalls.form
  callee := by
    have hcallee := hcalls.callee
    unfold Reader.callee at hcallee ⊢
    rw [Reader.start, ← hagree]
    exact hcallee

/-- What is read depends on the numbers of inputs of procedures, not on how they
are listed. -/
theorem Reads.agree
    {lexicon : Lexicon} {room : Nat} {arities known after : NameMap Nat}
    {tokens : List Token} {reading : Reading}
    (hreads : Reads lexicon room arities tokens reading after)
    (hagree : arities.Agree known) :
    ∃ after', Reads lexicon room known tokens reading after' ∧
      after.Agree after' := by
  induction hreads generalizing known with
  | constant hkind hvalue => exact ⟨known, .constant hkind hvalue, hagree⟩
  | «variable» hkind => exact ⟨known, .variable hkind, hagree⟩
  | form hkind hform _ ih =>
      obtain ⟨after', hrest, hafter⟩ := ih hagree
      exact ⟨after', .form hkind hform hrest, hafter⟩
  | call hcalls _ hlength ih =>
      obtain ⟨after', hargs, hafter⟩ := ih hagree
      exact ⟨after', .call (hcalls.agree hagree) hargs hlength, hafter⟩
  | group hopener _ ih =>
      obtain ⟨after', hrest, hafter⟩ := ih hagree
      exact ⟨after', .group hopener hrest, hafter⟩
  | empty => exact ⟨known, .empty, hagree⟩
  | snoc _ _ ihlist ihvalue =>
      obtain ⟨between', hlist, hbetween⟩ := ihlist hagree
      obtain ⟨after', hvalue, hafter⟩ := ihvalue hbetween
      exact ⟨after', .snoc hlist hvalue, hafter⟩
  | done => exact ⟨known, .done, hagree⟩
  | value _ _ ihvalue ihrest =>
      obtain ⟨between', hvalue, hbetween⟩ := ihvalue hagree
      obtain ⟨after', hrest, hafter⟩ := ihrest hbetween
      exact ⟨after', .value hvalue hrest, hafter⟩
  | target hkind _ ih =>
      obtain ⟨after', hrest, hafter⟩ := ih hagree
      exact ⟨after', .target hkind hrest, hafter⟩
  | block hopener _ hcloser _ ihbody ihrest =>
      obtain ⟨between', hbody, hbetween⟩ := ihbody hagree
      obtain ⟨after', hrest, hafter⟩ := ihrest hbetween
      exact ⟨after', .block hopener hbody hcloser hrest, hafter⟩
  | opening hkind _ ih =>
      obtain ⟨after', hrest, hafter⟩ := ih hagree
      exact ⟨after', .opening hkind hrest, hafter⟩
  | closing hkind _ ih =>
      obtain ⟨after', hrest, hafter⟩ := ih hagree
      exact ⟨after', .closing hkind hrest, hafter⟩
  | name hkind hnew _ ih =>
      obtain ⟨after', hrest, hafter⟩ := ih hagree
      exact ⟨after', .name hkind hnew hrest, hafter⟩
  | param hkind _ ih =>
      obtain ⟨after', hrest, hafter⟩ := ih hagree
      exact ⟨after', .param hkind hrest, hafter⟩
  | params hkind _ ih =>
      obtain ⟨after', hrest, hafter⟩ := ih (hagree.insert _ _)
      exact ⟨after', .params hkind hrest, hafter⟩
  | leader hcalls _ hcloser hgroup ih =>
      obtain ⟨after', hargs, hafter⟩ := ih hagree
      exact ⟨after', .leader (hcalls.agree hagree) hargs hcloser hgroup, hafter⟩

namespace Reader

variable {lexicon : Lexicon} {nesting : Nat} {arities known : NameMap Nat}
variable {tokens tokens' more more' : List Token} {reader last : Reader}

theorem read_agree
    (hread : read lexicon nesting arities tokens = .ok reader)
    (hagree : arities.Agree known) :
    ∃ after, read lexicon nesting known tokens =
      .ok { reader with arities := after } := by
  obtain ⟨hframes, hneed, hreads⟩ := read_eq_ok_iff_reads.mp hread
  obtain ⟨after, hknown, -⟩ := hreads.agree hagree
  exact ⟨after, read_eq_ok_iff_reads.mpr ⟨hframes, hneed, hknown⟩⟩

theorem rendering_sameWord (lexicon : Lexicon) :
    Rendering lexicon lexicon Token.SameWord where
  kind hword := hword.kind
  constant hword _ := hword.text
  «variable» hword _ := hword.text
  translate hword _ := by rw [hword.text]
  name hword _ _ := by rw [Token.procedureName, Token.procedureName, hword.text]

theorem read_sameWords
    (hread : read lexicon nesting arities tokens = .ok reader)
    (htokens : List.Forall₂ Token.SameWord tokens' tokens) :
    ∃ reader', read lexicon nesting arities tokens' = .ok reader' ∧
      reader'.Similar Token.SameWord reader := by
  have hlikewise :=
    read_likewise (rendering_sameWord lexicon) nesting arities htokens
  rw [hread] at hlikewise
  generalize read lexicon nesting arities tokens' = found at hlikewise
  cases hlikewise with
  | ok hreader => exact ⟨_, rfl, hreader⟩

/-- A program is read behind another one as it is read on its own, if it knows
the procedures that are known behind the other one. -/
theorem read_joined
    (hread : read lexicon nesting arities tokens = .ok reader)
    (hmore : read lexicon nesting known more = .ok last)
    (hagree : reader.arities.Agree known)
    (htokens : List.Forall₂ Token.SameWord tokens' tokens)
    (hothers : List.Forall₂ Token.SameWord more' more) :
    ∃ whole body body',
      read lexicon nesting arities (tokens' ++ more') = .ok whole ∧
      whole.body = body ++ body' ∧
      List.Forall₂ (Expr.Similar Token.SameWord) body reader.body ∧
      List.Forall₂ (Expr.Similar Token.SameWord) body' last.body := by
  obtain ⟨reader', hread', hreader⟩ := read_sameWords hread htokens
  obtain ⟨after, hknown⟩ := read_agree hmore hagree.symm
  rw [← hreader.arities] at hknown
  obtain ⟨last', hmore', hlast⟩ := read_sameWords hknown hothers
  refine ⟨last'.following reader'.body, reader'.body, last'.body, ?_,
    rfl, hreader.body, hlast.body⟩
  rw [read_append_of_ok hread', hmore']
  rfl

end Reader

end Logo
