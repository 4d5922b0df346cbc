import Logo.Proofs.Source.Places
import Logo.Token
import Mathlib.Data.List.TakeWhile

/-!
# Where the words of a text lie

Cutting a text into words never loses track of them.  Every token, also one of
no kind, names characters that stand in its text at its offset, its spot leads
to them in the index of places, and both spots and offsets grow from token to
token.
-/

namespace Logo.Token

open Source

/-! ## Words -/

/-- A word stands in some characters, of which the first has the given
offset. -/
structure Word.StandsIn (word : Word) (start : Nat)
    (text : List Char) : Prop where
  nonempty : word.letters ≠ []
  letters :
    ∃ before after, text = before ++ word.letters ++ after ∧
      word.offset = start + before.length

/-- One word ends where the other starts, or before. -/
def Word.Before (word other : Word) : Prop :=
  word.offset + word.letters.length ≤ other.offset

namespace Word.StandsIn

variable {word : Word} {start : Nat} {text : List Char}

theorem within
    (before after : List Char)
    (hword : word.StandsIn (start + before.length) text) :
    word.StandsIn start (before ++ text ++ after) := by
  obtain ⟨hnonempty, inner, outer, rfl, hoffset⟩ := hword
  refine ⟨hnonempty, before ++ inner, outer ++ after, by simp, ?_⟩
  rw [hoffset, List.length_append, Nat.add_assoc]

theorem start_le (hword : word.StandsIn start text) : start ≤ word.offset := by
  obtain ⟨-, before, after, -, hoffset⟩ := hword
  omega

theorem end_le (hword : word.StandsIn start text) :
    word.offset + word.letters.length ≤ start + text.length := by
  obtain ⟨-, before, after, rfl, hoffset⟩ := hword
  simp only [List.length_append]
  omega

end Word.StandsIn

theorem standsIn_of_mem_wordsFrom
    {offset : Nat} {text : List Char} {word : Word}
    (hword : word ∈ wordsFrom offset text) :
    word.StandsIn offset text := by
  induction offset, text using wordsFrom.induct with
  | case1 offset => simp [wordsFrom] at hword
  | case2 offset c rest hblank ih =>
      rw [wordsFrom, if_pos hblank] at hword
      simpa using (ih hword).within [c] []
  | case3 offset c rest hletter letters ih =>
      rw [wordsFrom, if_neg hletter] at hword
      have hsplit :
          c :: rest = letters ++ rest.dropWhile (!Text.isBlank ·) := by
        simp [letters, List.takeWhile_append_dropWhile]
      rcases List.mem_cons.mp hword with rfl | hlater
      · exact ⟨by simp, [], rest.dropWhile (!Text.isBlank ·), hsplit, rfl⟩
      · have hwithin := (ih hlater).within letters []
        rw [List.append_nil, ← hsplit] at hwithin
        exact hwithin

theorem pairwise_wordsFrom (offset : Nat) (text : List Char) :
    (wordsFrom offset text).Pairwise Word.Before := by
  induction offset, text using wordsFrom.induct with
  | case1 offset => simp [wordsFrom]
  | case2 offset c rest hblank ih =>
      rw [wordsFrom, if_pos hblank]
      exact ih
  | case3 offset c rest hletter letters ih =>
      rw [wordsFrom, if_neg hletter]
      exact List.pairwise_cons.mpr
        ⟨fun other hother => (standsIn_of_mem_wordsFrom hother).start_le, ih⟩

theorem pairwise_offset_of_before
    {words : List Word} (hwords : words.Pairwise Word.Before)
    (hnonempty : ∀ word ∈ words, word.letters ≠ []) :
    words.Pairwise (·.offset < ·.offset) := by
  apply hwords.imp_of_mem
  intro word other hword _ hbefore
  have hpositive := List.length_pos_iff.mpr (hnonempty word hword)
  unfold Word.Before at hbefore
  omega

/-! ## Lines -/

def IsLine (line : List Char) : Prop := ∀ c ∈ line, Text.isLineEnd c = false

theorem linesFrom_of_isLine {line : List Char} (hline : IsLine line)
    (offset : Nat) :
    linesFrom offset line = [(offset, line)] := by
  have htake : line.takeWhile (!Text.isLineEnd ·) = line :=
    List.takeWhile_eq_self_iff.mpr fun c hc => by simp [hline c hc]
  have hdrop : line.dropWhile (!Text.isLineEnd ·) = [] :=
    List.dropWhile_eq_nil_iff.mpr fun c hc => by simp [hline c hc]
  rw [linesFrom]
  split
  · rw [htake]
  · simp_all

theorem linesFrom_append
    {line : List Char} (hline : IsLine line) {c : Char}
    (hend : Text.isLineEnd c = true) (offset : Nat) (rest : List Char) :
    linesFrom offset (line ++ c :: rest) =
      (offset, line) :: linesFrom (offset + line.length + 1) rest := by
  have hkept : ∀ d ∈ line, (!Text.isLineEnd d) = true :=
    fun d hd => by simp [hline d hd]
  have htake : (line ++ c :: rest).takeWhile (!Text.isLineEnd ·) = line := by
    rw [List.takeWhile_append_of_pos hkept,
      List.takeWhile_cons_of_neg (by simp [hend]), List.append_nil]
  have hdrop :
      (line ++ c :: rest).dropWhile (!Text.isLineEnd ·) = c :: rest := by
    rw [List.dropWhile_append_of_pos hkept,
      List.dropWhile_cons_of_neg (by simp [hend])]
  rw [linesFrom]
  split
  · simp_all
  · simp_all

/-- A text is cut at certain characters: either it has none of them, or a part
without them stands before the first. -/
theorem pieces_induction
    {p : Char → Bool} {motive : List Char → Prop}
    (last : ∀ piece, (∀ c ∈ piece, p c = false) → motive piece)
    (next :
      ∀ piece c rest, (∀ d ∈ piece, p d = false) → p c = true → motive rest →
        motive (piece ++ c :: rest))
    (text : List Char) : motive text := by
  induction hlength :
    text.length using Nat.strong_induction_on generalizing text with
  | h length ih =>
      have hpiece : ∀ c ∈ text.takeWhile (!p ·), p c = false := by
        intro c hc
        simpa using List.mem_takeWhile_imp hc
      have hsplit := List.takeWhile_append_dropWhile (p := (!p ·)) (l := text)
      cases hrest : text.dropWhile (!p ·) with
      | nil =>
          rw [hrest, List.append_nil] at hsplit
          exact hsplit ▸ last _ hpiece
      | cons c rest =>
          have hend : p c = true := by
            have hfirst :=
              List.head_dropWhile_not (!p ·) (l := text) (by simp [hrest])
            simpa [hrest] using hfirst
          rw [hrest] at hsplit
          have hshorter : rest.length < length := by
            rw [← hlength, ← hsplit, List.length_append, List.length_cons]
            omega
          exact hsplit ▸ next _ c rest hpiece hend
            (ih rest.length hshorter rest rfl)

/-- A text is a line, or a line with its end and another text behind it. -/
theorem lines_induction
    {motive : List Char → Prop} (last : ∀ line, IsLine line → motive line)
    (next :
      ∀ line c rest, IsLine line → Text.isLineEnd c = true → motive rest →
        motive (line ++ c :: rest))
    (text : List Char) : motive text :=
  pieces_induction last next text

theorem exists_of_mem_linesFrom
    {offset : Nat} {text : List Char} {line : Nat × List Char}
    (hline : line ∈ linesFrom offset text) :
    ∃ before after, text = before ++ line.2 ++ after ∧
      line.1 = offset + before.length := by
  induction text using lines_induction generalizing offset with
  | last only hlast =>
      rw [linesFrom_of_isLine hlast, List.mem_singleton] at hline
      subst hline
      exact ⟨[], [], by simp, rfl⟩
  | next first c rest hfirst hend ih =>
      rw [linesFrom_append hfirst hend, List.mem_cons] at hline
      rcases hline with rfl | hlater
      · exact ⟨[], c :: rest, by simp, rfl⟩
      · obtain ⟨before, after, rfl, hoffset⟩ := ih hlater
        refine ⟨first ++ c :: before, after, by simp, ?_⟩
        simp only [hoffset, List.length_append, List.length_cons]
        omega

theorem pairwise_linesFrom (offset : Nat) (text : List Char) :
    (linesFrom offset text).Pairwise
      fun line other => line.1 + line.2.length ≤ other.1 := by
  induction text using lines_induction generalizing offset with
  | last only hlast => simp [linesFrom_of_isLine hlast]
  | next first c rest hfirst hend ih =>
      rw [linesFrom_append hfirst hend, List.pairwise_cons]
      refine ⟨fun other hother => ?_, ih _⟩
      obtain ⟨before, after, -, hoffset⟩ := exists_of_mem_linesFrom hother
      simp only [hoffset]
      omega

theorem standsIn_of_mem_line
    {line : Nat × List Char} {text : List Char}
    (hline : line ∈ linesFrom 0 text) {word : Word}
    (hword : word ∈ wordsFrom line.1 line.2) : word.StandsIn 0 text := by
  obtain ⟨before, after, rfl, hoffset⟩ := exists_of_mem_linesFrom hline
  rw [hoffset] at hword
  exact (standsIn_of_mem_wordsFrom hword).within before after

theorem standsIn_of_mem_text
    {text : String} {word : Word} (hword : word ∈ (wordsByLine text).flatten) :
    word.StandsIn 0 text.toList := by
  obtain ⟨words, hwords, hword⟩ := List.mem_flatten.mp hword
  obtain ⟨line, hline, rfl⟩ := List.mem_map.mp hwords
  exact standsIn_of_mem_line hline hword

theorem pairwise_words (text : String) :
    (wordsByLine text).flatten.Pairwise Word.Before := by
  rw [List.pairwise_flatten]
  constructor
  · intro words hwords
    obtain ⟨line, -, rfl⟩ := List.mem_map.mp hwords
    exact pairwise_wordsFrom line.1 line.2
  · rw [wordsByLine, List.pairwise_map]
    refine (pairwise_linesFrom 0 text.toList).imp
      fun {line other} hbefore word hword later hlater => ?_
    have hend := (standsIn_of_mem_wordsFrom hword).end_le
    have hstart := (standsIn_of_mem_wordsFrom hlater).start_le
    exact (hend.trans hbefore).trans hstart

/-! ## Tokens -/

/-- The tokens of a scan, or the one that is of no kind. -/
def tokensOf : Except Token (List Token) → List Token
  | .ok tokens => tokens
  | .error token => [token]

/-- The index has been continued by words in their order, and tokens have been
made of some. -/
structure Recorded (first last : Index) (words : List Word)
    (tokens : List Token) : Prop where
  segments : last.segments = first.segments
  size : first.slices.size ≤ last.slices.size
  kept : ∀ spot < first.slices.size, last.slices[spot]? = first.slices[spot]?
  added : ∀ token ∈ tokens, first.slices.size ≤ token.spot ∧
    token.spot < last.slices.size
  word :
    ∀ token ∈ tokens, ∃ word ∈ words, token.text = String.ofList word.letters ∧
      token.offset = word.offset ∧
      last.slices[token.spot]? =
        some ⟨word.offset, word.offset + word.letters.length⟩
  spots : tokens.Pairwise (·.spot < ·.spot)
  offsets : (tokens.map (·.offset)).Sublist (words.map (·.offset))

namespace Recorded

variable {first second third : Index} {words later : List Word}
  {tokens others : List Token}

theorem refl (index : Index) : Recorded index index [] [] :=
  ⟨rfl, le_rfl, fun _ _ => rfl, by simp, by simp, .nil, by simp⟩

theorem append
    (hfirst : Recorded first second words tokens)
    (hsecond : Recorded second third later others) :
    Recorded first third (words ++ later) (tokens ++ others) where
  segments := hsecond.segments.trans hfirst.segments
  size := hfirst.size.trans hsecond.size
  kept spot hspot := by
    rw [hsecond.kept spot (hspot.trans_le hfirst.size), hfirst.kept spot hspot]
  added := by
    rw [List.forall_mem_append]
    constructor
    · intro token htoken
      have hadded := hfirst.added token htoken
      exact ⟨hadded.1, hadded.2.trans_le hsecond.size⟩
    · intro token htoken
      have hadded := hsecond.added token htoken
      exact ⟨hfirst.size.trans hadded.1, hadded.2⟩
  word := by
    rw [List.forall_mem_append]
    constructor
    · intro token htoken
      obtain ⟨word, hword, htext, hoffset, hslice⟩ := hfirst.word token htoken
      refine ⟨word, List.mem_append_left _ hword, htext, hoffset, ?_⟩
      rw [hsecond.kept _ (hfirst.added token htoken).2, hslice]
    · intro token htoken
      obtain ⟨word, hword, hrest⟩ := hsecond.word token htoken
      exact ⟨word, List.mem_append_right _ hword, hrest⟩
  spots := by
    refine List.pairwise_append.mpr ⟨hfirst.spots, hsecond.spots, ?_⟩
    intro token htoken other hother
    exact (hfirst.added token htoken).2.trans_le (hsecond.added other hother).1
  offsets := by
    rw [List.map_append, List.map_append]
    exact hfirst.offsets.append hsecond.offsets

/-- Words may be left out, and so may tokens. -/
theorem mono
    (hrecorded : Recorded first second words tokens)
    (hwords : words.Sublist later) (htokens : others.Sublist tokens) :
    Recorded first second later others where
  segments := hrecorded.segments
  size := hrecorded.size
  kept := hrecorded.kept
  added token htoken := hrecorded.added token (htokens.subset htoken)
  word token htoken := by
    obtain ⟨word, hword, hrest⟩ := hrecorded.word token (htokens.subset htoken)
    exact ⟨word, hwords.subset hword, hrest⟩
  spots := hrecorded.spots.sublist htokens
  offsets := ((htokens.map _).trans hrecorded.offsets).trans (hwords.map _)

/-- A word gets the next spot. -/
theorem insert (index : Index) (word : Word) (kind : Vocabulary.WordKind) :
    Recorded index
      (index.insert ⟨word.offset, word.offset + word.letters.length⟩).2 [word]
      [⟨kind, String.ofList word.letters, index.slices.size, word.offset⟩] where
  segments := rfl
  size := by simp [Index.insert]
  kept spot hspot := by
    simp only [Index.insert]
    rw [Array.getElem?_push, if_neg (by omega)]
  added := by simp [Index.insert]
  word := by simp [Index.insert]
  spots := by simp
  offsets := by simp

end Recorded

theorem recorded_scanLine (index : Index) (words : List Word) :
    Recorded index (scanLine index words).2 words
      (tokensOf (scanLine index words).1) := by
  induction words generalizing index with
  | nil => exact .refl index
  | cons word rest ih =>
      have hnoted := Recorded.insert index word
      have hrest :=
        ih (index.insert ⟨word.offset, word.offset + word.letters.length⟩).2
      unfold scanLine
      simp only
      split
      next =>
        exact (hnoted .unknown).mono (by simp)
          (by simp [tokensOf, Index.insert])
      next => exact (hnoted .unknown).mono (by simp) (by simp [tokensOf])
      next kind _ _ =>
        have hall := (hnoted kind).append hrest
        split
        next hscan =>
          rw [hscan] at hall
          exact hall
        next hscan =>
          rw [hscan] at hall
          exact hall.mono (.refl _) (List.sublist_cons_self _ _)

theorem recorded_scanLines (index : Index) (lines : List (List Word)) :
    Recorded index (scanLines index lines).2 lines.flatten
      (tokensOf (scanLines index lines).1) := by
  induction lines generalizing index with
  | nil => exact .refl index
  | cons line rest ih =>
      have hline := recorded_scanLine index line
      unfold scanLines
      split
      next hscan =>
        rw [hscan] at hline
        exact hline.mono (by simp) (.refl _)
      next tokens between hscan =>
        rw [hscan] at hline
        have hall := hline.append (ih between)
        split
        next hrest =>
          rw [hrest] at hall
          exact hall
        next hrest =>
          rw [hrest] at hall
          exact hall.mono (.refl _) (List.sublist_append_right _ _)

/-- A token lies in a text: the index leads to its characters there. -/
structure LiesIn (token : Token) (index : Index)
    (segment : Segment) : Prop where
  spot : token.spot < index.slices.size
  lookup :
    index.lookup token.spot =
      .ok ⟨segment, ⟨token.offset, token.offset + token.text.length⟩⟩
  nonempty : 0 < token.text.length
  letters :
    ∃ before after, segment.text.toList = before ++ token.text.toList ++ after ∧
      token.offset = before.length

theorem LiesIn.later
    {token : Token} {older newer : Index} {segment : Segment}
    (hlies : token.LiesIn older segment) (hextends : older.Extends newer) :
    token.LiesIn newer segment where
  spot := hlies.spot.trans_le hextends.size
  lookup := (hextends.lookup token.spot hlies.spot).trans hlies.lookup
  nonempty := hlies.nonempty
  letters := hlies.letters

theorem LiesIn.end_le
    {token : Token} {index : Index} {segment : Segment}
    (hlies : token.LiesIn index segment) :
    token.offset + token.text.length ≤ segment.text.length := by
  obtain ⟨before, after, htext, hoffset⟩ := hlies.letters
  rw [← String.length_toList, ← String.length_toList, htext, hoffset,
    List.length_append, List.length_append]
  omega

theorem extends_scan (index : Index) (path : Option String) (text : String) :
    index.Extends (scan index path text).2 := by
  refine (Index.Extends.startSegment index path text).trans ?_
  have hrecorded :=
    recorded_scanLines (index.startSegment path text) (wordsByLine text)
  refine ⟨hrecorded.size, fun spot hspot => ?_⟩
  simp only [Index.lookup, Index.segmentOf?_natCast, Index.slice?_natCast]
  rw [scan, hrecorded.segments, hrecorded.kept spot hspot]

theorem liesIn_of_scan
    {index : Index} {path : Option String} {text : String} {token : Token}
    (htoken : token ∈ tokensOf (scan index path text).1) :
    token.LiesIn (scan index path text).2
      ⟨index.segments.length, index.slices.size, path, text⟩ := by
  have hrecorded :=
    recorded_scanLines (index.startSegment path text) (wordsByLine text)
  obtain ⟨word, hword, htext, hoffset, hslice⟩ := hrecorded.word token htoken
  have hadded := hrecorded.added token htoken
  obtain ⟨hnonempty, before, after, hletters, hstart⟩ :=
    standsIn_of_mem_text hword
  have hlength : token.text.length = word.letters.length := by simp [htext]
  refine ⟨hadded.2, ?_, ?_, before, after, ?_, ?_⟩
  · rw [hoffset, hlength]
    exact Index.lookup_of_newest hrecorded.segments hadded.1 hslice
  · rw [hlength]
    exact List.length_pos_iff.mpr hnonempty
  · rw [hletters, htext]
    simp
  · omega

theorem pairwise_spot_scan (index : Index) (path : Option String)
    (text : String) :
    (tokensOf (scan index path text).1).Pairwise (·.spot < ·.spot) :=
  (recorded_scanLines (index.startSegment path text) (wordsByLine text)).spots

theorem pairwise_offset_scan (index : Index) (path : Option String)
    (text : String) :
    (tokensOf (scan index path text).1).Pairwise (·.offset < ·.offset) := by
  have hrecorded :=
    recorded_scanLines (index.startSegment path text) (wordsByLine text)
  have hwords :
      ((wordsByLine text).flatten.map (·.offset)).Pairwise (· < ·) := by
    rw [List.pairwise_map]
    exact pairwise_offset_of_before (pairwise_words text) fun word hword =>
      (standsIn_of_mem_text hword).nonempty
  exact List.pairwise_map.mp (hwords.sublist hrecorded.offsets)

end Logo.Token
