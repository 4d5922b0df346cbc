import Logo.Proofs.Session.Failures
import Logo.Proofs.Token.Scanned
import Logo.Proofs.Vocabulary.Spelling

/-!
# The words that count

A word of a text is a longest stretch without white space.  It counts unless a
remark covers it, that is, unless it or an earlier word of its line starts with
a number sign.  Cutting a text into tokens yields the words that count, all of
them and in their order, up to the first one of no kind.
-/

namespace Logo.Token

open Vocabulary Source

/-! ## Words -/

/-- Some letters without white space among them. -/
def IsSolid (letters : List Char) : Prop :=
  letters ≠ [] ∧ ∀ c ∈ letters, Text.isBlank c = false

/-- A longest stretch without white space in some characters, of which the first
has the given offset. -/
structure Word.IsMaximalIn (word : Word) (start : Nat)
    (text : List Char) : Prop where
  solid : IsSolid word.letters
  bounds :
    ∃ before after, text = before ++ word.letters ++ after ∧
      word.offset = start + before.length ∧
      (∀ c ∈ before.getLast?, Text.isBlank c = true) ∧
        ∀ c ∈ after.head?, Text.isBlank c = true

/-- Words on both sides of a blank have nothing to do with each other. -/
theorem wordsFrom_append
    {c : Char} (hblank : Text.isBlank c = true) (offset : Nat)
    (text rest : List Char) :
    wordsFrom offset (text ++ c :: rest) =
      wordsFrom offset text ++ wordsFrom (offset + text.length + 1) rest := by
  induction offset, text using wordsFrom.induct with
  | case1 offset => simp [wordsFrom, hblank]
  | case2 offset d text hd ih =>
      rw [List.cons_append, wordsFrom, if_pos hd, ih, wordsFrom, if_pos hd,
        List.length_cons]
      congr 2
      omega
  | case3 offset d text hd letters ih =>
      have htake :
          (text ++ c :: rest).takeWhile (!Text.isBlank ·) = text.takeWhile
            (!Text.isBlank ·) := by
        rw [List.takeWhile_append]
        split
        next hall =>
          have hself := List.takeWhile_prefix (!Text.isBlank ·) (l := text)
          simp [hblank, hself.eq_of_length hall]
        next => rfl
      have hdrop :
          (text ++ c :: rest).dropWhile (!Text.isBlank ·) =
            text.dropWhile (!Text.isBlank ·) ++ c :: rest := by
        rw [List.dropWhile_append]
        split
        next hnone => simp [hblank, List.isEmpty_iff.mp hnone]
        next => rfl
      have hlength :
          letters.length + (text.dropWhile (!Text.isBlank ·)).length =
            (d :: text).length := by
        rw [← List.length_append, List.cons_append,
          List.takeWhile_append_dropWhile]
      have hfirst :
          wordsFrom offset (d :: text) =
            ⟨offset, letters⟩ ::
              wordsFrom (offset + letters.length)
                (text.dropWhile (!Text.isBlank ·)) := by
        rw [wordsFrom, if_neg hd]
      rw [List.cons_append, wordsFrom, if_neg hd, htake, hdrop, hfirst,
        List.cons_append, ← hlength, ← Nat.add_assoc]
      exact congrArg _ ih

theorem wordsFrom_of_solid {letters : List Char} (hsolid : IsSolid letters)
    (offset : Nat) :
    wordsFrom offset letters = [⟨offset, letters⟩] := by
  obtain ⟨hnonempty, hletters⟩ := hsolid
  obtain ⟨c, rest, rfl⟩ := List.exists_cons_of_ne_nil hnonempty
  rw [List.forall_mem_cons] at hletters
  have htake : rest.takeWhile (!Text.isBlank ·) = rest :=
    List.takeWhile_eq_self_iff.mpr fun c hc => by simp [hletters.2 c hc]
  have hdrop : rest.dropWhile (!Text.isBlank ·) = [] :=
    List.dropWhile_eq_nil_iff.mpr fun c hc => by simp [hletters.2 c hc]
  simp [wordsFrom, hletters.1, htake, hdrop]

theorem eq_of_mem_wordsFrom
    {letters : List Char} (hletters : ∀ c ∈ letters, Text.isBlank c = false)
    {start : Nat} {word : Word} (hword : word ∈ wordsFrom start letters) :
    IsSolid letters ∧ word = ⟨start, letters⟩ := by
  by_cases hnonempty : letters = []
  · simp [hnonempty, wordsFrom] at hword
  · rw [wordsFrom_of_solid ⟨hnonempty, hletters⟩, List.mem_singleton] at hword
    exact ⟨⟨hnonempty, hletters⟩, hword⟩

theorem isMaximalIn_of_mem_wordsFrom
    {start : Nat} {text : List Char} {word : Word}
    (hword : word ∈ wordsFrom start text) :
    word.IsMaximalIn start text := by
  induction text using
    pieces_induction (p := Text.isBlank) generalizing start with
  | last piece hpiece =>
      obtain ⟨hsolid, rfl⟩ := eq_of_mem_wordsFrom hpiece hword
      exact ⟨hsolid, [], [], by simp⟩
  | next piece c rest hpiece hblank ih =>
      rw [wordsFrom_append hblank, List.mem_append] at hword
      rcases hword with hword | hword
      · obtain ⟨hsolid, rfl⟩ := eq_of_mem_wordsFrom hpiece hword
        exact ⟨hsolid, [], c :: rest, by simp [hblank]⟩
      · obtain ⟨hsolid, before, after, rfl, hoffset, hbefore, hafter⟩ :=
          ih hword
        refine ⟨hsolid, piece ++ c :: before, after, by simp, ?_, ?_, hafter⟩
        · simp only [hoffset, List.length_append, List.length_cons]
          omega
        · cases before with
          | nil => simp [hblank]
          | cons d before => simpa using hbefore

/-- The words of a text are its longest stretches without white space. -/
theorem mem_wordsFrom_iff {start : Nat} {text : List Char} {word : Word} :
    word ∈ wordsFrom start text ↔ word.IsMaximalIn start text := by
  constructor
  · exact isMaximalIn_of_mem_wordsFrom
  · rintro ⟨hsolid, before, after, rfl, hoffset, hbefore, hafter⟩
    have hself := wordsFrom_of_solid hsolid word.offset
    -- The word alone, with what follows it, and then with what stands before
    -- it.
    have hfollowed : word ∈ wordsFrom word.offset (word.letters ++ after) := by
      cases after with
      | nil => simp [hself]
      | cons c after => simp [wordsFrom_append (hafter c rfl), hself]
    rcases List.eq_nil_or_concat before with rfl | ⟨before, c, rfl⟩
    · simpa [hoffset] using hfollowed
    · have hblank := hbefore c (by simp)
      simp only [List.concat_eq_append, List.length_append,
        List.length_singleton] at hoffset
      have hplace : start + before.length + 1 = word.offset := by omega
      simp [wordsFrom_append hblank, hplace, hfollowed]

namespace Word.IsMaximalIn

variable {word : Word} {start : Nat} {text : List Char}

theorem start_le (hword : word.IsMaximalIn start text) : start ≤ word.offset :=
  (standsIn_of_mem_wordsFrom (mem_wordsFrom_iff.mpr hword)).start_le

theorem offset_le (hword : word.IsMaximalIn start text) :
    word.offset ≤ start + text.length := by
  have hend := (standsIn_of_mem_wordsFrom (mem_wordsFrom_iff.mpr hword)).end_le
  omega

end Word.IsMaximalIn

theorem pairwise_offset_wordsFrom (start : Nat) (text : List Char) :
    (wordsFrom start text).Pairwise (·.offset < ·.offset) :=
  pairwise_offset_of_before (pairwise_wordsFrom start text) fun _ hword =>
    (standsIn_of_mem_wordsFrom hword).nonempty

/-! ## Remarks -/

def lineAt (start : Nat) (text : List Char) (offset : Nat) : Nat :=
  (text.take (offset - start)).countP Text.isLineEnd

def Word.startsRemark (word : Word) : Bool := word.letters.head? == some '#'

/-- A remark covers a word: it starts with this word, or with an earlier one of
the same line. -/
def Word.IsRemarkedIn (word : Word) (start : Nat) (text : List Char) : Prop :=
  ∃ mark : Word, mark.IsMaximalIn start text ∧ mark.startsRemark = true ∧
    mark.offset ≤ word.offset ∧ lineAt start text mark.offset =
      lineAt start text word.offset

/-- The words before the remark of a line. -/
def heededOf (words : List Word) : List Word :=
  words.takeWhile (!·.startsRemark)

/-- The words that no remark covers, line by line. -/
def heeded (start : Nat) (text : List Char) : List Word :=
  (linesFrom start text).flatMap fun line => heededOf (wordsFrom line.1 line.2)

theorem lineAt_of_isLine {line : List Char} (hline : IsLine line)
    (start offset : Nat) :
    lineAt start line offset = 0 := by
  rw [lineAt, List.countP_eq_zero]
  intro c hc
  simp [hline c (List.mem_of_mem_take hc)]

section Lines

variable {line : List Char} {c : Char} {start offset : Nat} {word : Word}

theorem lineAt_append_left
    (hline : IsLine line) (hoffset : offset ≤ start + line.length)
    (rest : List Char) :
    lineAt start (line ++ c :: rest) offset = 0 := by
  have hwithin : offset - start ≤ line.length := by omega
  rw [lineAt, List.take_append_of_le_length hwithin]
  exact lineAt_of_isLine hline start offset

theorem lineAt_append_right
    (hline : IsLine line) (hend : Text.isLineEnd c = true)
    (hoffset : start + line.length + 1 ≤ offset) (rest : List Char) :
    lineAt start (line ++ c :: rest) offset =
      lineAt (start + line.length + 1) rest offset + 1 := by
  have hbehind :
      offset - start =
        line.length + 1 + (offset - (start + line.length + 1)) := by
    omega
  have hnone : line.countP Text.isLineEnd = 0 := by
    rw [List.countP_eq_zero]
    intro d hd
    simp [hline d hd]
  have hsplit : line ++ c :: rest = (line ++ [c]) ++ rest := by simp
  have htake :
      (line ++ c :: rest).take (offset - start) =
        line ++ c :: rest.take (offset - (start + line.length + 1)) := by
    rw [hbehind, hsplit, ← List.length_singleton (a := c), ← List.length_append,
      List.take_length_add_append]
    simp
  rw [lineAt, htake, List.countP_append, hnone, List.countP_cons_of_pos hend,
    Nat.zero_add, lineAt]

theorem isMaximalIn_append_iff (hend : Text.isLineEnd c = true)
    (rest : List Char) :
    word.IsMaximalIn start (line ++ c :: rest) ↔
      word.IsMaximalIn start line ∨
        word.IsMaximalIn (start + line.length + 1) rest := by
  rw [← mem_wordsFrom_iff, wordsFrom_append (Text.isBlank_of_isLineEnd c hend),
    List.mem_append, mem_wordsFrom_iff, mem_wordsFrom_iff]

theorem isRemarkedIn_append_left
    (hline : IsLine line) (hend : Text.isLineEnd c = true)
    (hword : word.offset ≤ start + line.length) (rest : List Char) :
    word.IsRemarkedIn start (line ++ c :: rest) ↔
      word.IsRemarkedIn start line := by
  constructor
  · rintro ⟨mark, hmark, hsign, hle, -⟩
    rw [isMaximalIn_append_iff hend] at hmark
    rcases hmark with hmark | hmark
    · refine ⟨mark, hmark, hsign, hle, ?_⟩
      rw [lineAt_of_isLine hline, lineAt_of_isLine hline]
    · have hstart := hmark.start_le
      omega
  · rintro ⟨mark, hmark, hsign, hle, -⟩
    refine ⟨mark, (isMaximalIn_append_iff hend rest).mpr (.inl hmark),
      hsign, hle, ?_⟩
    rw [lineAt_append_left hline (hle.trans hword),
      lineAt_append_left hline hword]

theorem isRemarkedIn_append_right
    (hline : IsLine line) (hend : Text.isLineEnd c = true)
    (hword : start + line.length + 1 ≤ word.offset) (rest : List Char) :
    word.IsRemarkedIn start (line ++ c :: rest) ↔
      word.IsRemarkedIn (start + line.length + 1) rest := by
  constructor
  · rintro ⟨mark, hmark, hsign, hle, hsame⟩
    rw [lineAt_append_right hline hend hword] at hsame
    rw [isMaximalIn_append_iff hend] at hmark
    rcases hmark with hmark | hmark
    · -- A line ends between the two.
      rw [lineAt_append_left hline hmark.offset_le] at hsame
      omega
    · rw [lineAt_append_right hline hend hmark.start_le] at hsame
      exact ⟨mark, hmark, hsign, hle, Nat.succ_injective hsame⟩
  · rintro ⟨mark, hmark, hsign, hle, hsame⟩
    refine ⟨mark, (isMaximalIn_append_iff hend rest).mpr (.inr hmark),
      hsign, hle, ?_⟩
    rw [lineAt_append_right hline hend hmark.start_le,
      lineAt_append_right hline hend hword, hsame]

end Lines

theorem mem_heededOf_iff
    {words : List Word} (hwords : words.Pairwise (·.offset < ·.offset))
    {word : Word} :
    word ∈ heededOf words ↔
      word ∈ words ∧ ∀ mark ∈ words, mark.offset ≤ word.offset →
        mark.startsRemark = false := by
  induction words with
  | nil => simp [heededOf]
  | cons first rest ih =>
      rw [List.pairwise_cons] at hwords
      have hrest := ih hwords.2
      have hfirst : ∀ mark ∈ rest, ¬ mark.offset ≤ first.offset := by
        intro mark hmark
        exact not_le.mpr (hwords.1 mark hmark)
      by_cases hsign : first.startsRemark = true
      · have hnone : heededOf (first :: rest) = [] := by simp [heededOf, hsign]
        rw [hnone]
        constructor
        · intro hword
          cases hword
        · rintro ⟨hword, hmarks⟩
          have hle : first.offset ≤ word.offset := by
            rcases List.mem_cons.mp hword with rfl | hword
            · exact le_rfl
            · exact (hwords.1 word hword).le
          simp [hmarks first List.mem_cons_self hle] at hsign
      · have hcons : heededOf (first :: rest) = first :: heededOf rest := by
          simp [heededOf, hsign]
        rw [Bool.not_eq_true] at hsign
        rw [hcons, List.mem_cons, hrest, List.mem_cons, List.forall_mem_cons]
        constructor
        · rintro (rfl | ⟨hword, hmarks⟩)
          · exact ⟨.inl rfl,
              fun _ => hsign, fun mark hmark hle =>
                absurd hle (hfirst mark hmark)⟩
          · exact ⟨.inr hword, fun _ => hsign, hmarks⟩
        · rintro ⟨rfl | hword, -, hmarks⟩
          · exact .inl rfl
          · exact .inr ⟨hword, hmarks⟩

theorem mem_heededOf_wordsFrom_iff
    {line : List Char} (hline : IsLine line) {start : Nat} {word : Word} :
    word ∈ heededOf (wordsFrom start line) ↔
      word.IsMaximalIn start line ∧ ¬ word.IsRemarkedIn start line := by
  rw [mem_heededOf_iff (pairwise_offset_wordsFrom start line),
    mem_wordsFrom_iff]
  simp only [Word.IsRemarkedIn, mem_wordsFrom_iff, lineAt_of_isLine hline,
    and_true, not_exists, not_and, and_congr_right_iff, ← Bool.not_eq_true]
  intro _
  constructor
  · intro hmarks mark hmark hsign hle
    exact hmarks mark hmark hle hsign
  · intro hmarks mark hmark hle hsign
    exact hmarks mark hmark hsign hle

/-- The words that are heeded are those that no remark covers. -/
theorem mem_heeded_iff {start : Nat} {text : List Char} {word : Word} :
    word ∈ heeded start text ↔
      word.IsMaximalIn start text ∧ ¬ word.IsRemarkedIn start text := by
  induction text using lines_induction generalizing start with
  | last line hline =>
      rw [heeded, linesFrom_of_isLine hline, List.flatMap_singleton]
      exact mem_heededOf_wordsFrom_iff hline
  | next line c rest hline hend ih =>
      rw [heeded, linesFrom_append hline hend, List.flatMap_cons,
        List.mem_append, mem_heededOf_wordsFrom_iff hline, ← heeded, ih,
        isMaximalIn_append_iff hend]
      constructor
      · rintro (⟨hword, hfree⟩ | ⟨hword, hfree⟩)
        · rw [isRemarkedIn_append_left hline hend hword.offset_le]
          exact ⟨.inl hword, hfree⟩
        · rw [isRemarkedIn_append_right hline hend hword.start_le]
          exact ⟨.inr hword, hfree⟩
      · rintro ⟨hword | hword, hfree⟩
        · rw [isRemarkedIn_append_left hline hend hword.offset_le] at hfree
          exact .inl ⟨hword, hfree⟩
        · rw [isRemarkedIn_append_right hline hend hword.start_le] at hfree
          exact .inr ⟨hword, hfree⟩

theorem pairwise_offset_heeded (start : Nat) (text : List Char) :
    (heeded start text).Pairwise (·.offset < ·.offset) := by
  have hwords (offset : Nat) (line : List Char) :
      (heededOf (wordsFrom offset line)).Pairwise (·.offset < ·.offset) :=
    (pairwise_offset_wordsFrom offset line).sublist (List.takeWhile_sublist _)
  induction text using lines_induction generalizing start with
  | last line hline =>
      rw [heeded, linesFrom_of_isLine hline, List.flatMap_singleton]
      exact hwords start line
  | next line c rest hline hend ih =>
      rw [heeded, linesFrom_append hline hend, List.flatMap_cons, ← heeded,
        List.pairwise_append]
      refine ⟨hwords start line, ih _, fun word hword other hother => ?_⟩
      have hle := ((mem_heededOf_wordsFrom_iff hline).mp hword).1.offset_le
      have hstart := (mem_heeded_iff.mp hother).1.start_le
      omega

theorem startsRemark_of_mem_heeded
    {start : Nat} {text : List Char} {word : Word}
    (hword : word ∈ heeded start text) :
    word.startsRemark = false := by
  obtain ⟨hmaximal, hfree⟩ := mem_heeded_iff.mp hword
  by_contra hsign
  exact hfree ⟨word, hmaximal, by simpa using hsign, le_rfl, rfl⟩

/-! ## Tokens -/

def Word.kind? (word : Word) : Option WordKind :=
  WordKind.of? (String.ofList word.letters)

def word (token : Token) : Word := ⟨token.offset, token.text.toList⟩

@[simp] theorem word_mk (kind : WordKind) (spot : Nat) (word : Word) :
    Token.word ⟨kind, String.ofList word.letters, spot,
      word.offset⟩ = word := by
  simp [Token.word]

theorem Spelled.kind?_word {token : Token} (hspelled : token.Spelled) :
    token.word.kind? = some token.kind := by
  rw [Word.kind?, Token.word, String.ofList_toList]
  exact hspelled

/-- The outcome of a scan covers some words: there is a token for each of them,
or one for the first that is of no kind. -/
def Covers (words : List Word) : Except Token (List Token) → Prop
  | .ok tokens =>
    tokens.map Token.word = words ∧ ∀ token ∈ tokens, token.Spelled
  | .error token =>
    ∃ before after, words = before ++ token.word :: after ∧
      (∀ other ∈ before, other.kind?.isSome = true) ∧ token.word.kind? = none ∧
      token.kind = .unknown

namespace Covers

variable {words more : List Word} {tokens others : List Token} {token : Token}

theorem isSome_of_ok (hcovers : Covers words (.ok tokens)) :
    ∀ word ∈ words, word.kind?.isSome = true := by
  obtain ⟨rfl, hspelled⟩ := hcovers
  intro word hword
  obtain ⟨token, htoken, rfl⟩ := List.mem_map.mp hword
  simp [(hspelled token htoken).kind?_word]

theorem append_ok (hfirst : Covers words (.ok tokens))
    (hsecond : Covers more (.ok others)) :
    Covers (words ++ more) (.ok (tokens ++ others)) := by
  constructor
  · rw [List.map_append, hfirst.1, hsecond.1]
  · rw [List.forall_mem_append]
    exact ⟨hfirst.2, hsecond.2⟩

theorem append_error (hfirst : Covers words (.ok tokens))
    (hsecond : Covers more (.error token)) :
    Covers (words ++ more) (.error token) := by
  obtain ⟨before, after, rfl, hbefore, hrest⟩ := hsecond
  refine ⟨words ++ before, after, by simp, ?_, hrest⟩
  rw [List.forall_mem_append]
  exact ⟨hfirst.isSome_of_ok, hbefore⟩

theorem of_error (hfirst : Covers words (.error token)) (more : List Word) :
    Covers (words ++ more) (.error token) := by
  obtain ⟨before, after, rfl, hrest⟩ := hfirst
  exact ⟨before, after ++ more, by simp, hrest⟩

/-- The word that is found out is the first one of no kind. -/
theorem word_eq
    (hcovers : Covers words (.error token))
    (hwords : words.Pairwise (·.offset < ·.offset))
    {word : Word} (hword : word ∈ words) (hnone : word.kind? = none)
    (hearlier : ∀ other ∈ words, other.offset < word.offset →
      other.kind?.isSome = true) :
    token.word = word := by
  obtain ⟨before, after, rfl, hbefore, hunknown, -⟩ := hcovers
  rw [List.pairwise_append, List.pairwise_cons] at hwords
  rcases List.mem_append.mp hword with hmem | hmem
  · have hkind := hbefore word hmem
    simp [hnone] at hkind
  · rcases List.mem_cons.mp hmem with rfl | hmem
    · rfl
    · have hkind := hearlier token.word (by simp) (hwords.2.1.1 word hmem)
      simp [hunknown] at hkind

end Covers

theorem startsRemark_iff {word : Word} (hword : '\n' ∉ word.letters) :
    word.startsRemark = true ↔ word.kind? = some .comment := by
  rw [Word.kind?, WordKind.of?_eq_comment_iff hword,
    Word.startsRemark, beq_iff_eq]

theorem covers_scanLine
    {words : List Word} (hwords : ∀ word ∈ words, '\n' ∉ word.letters)
    (index : Index) :
    Covers (heededOf words) (scanLine index words).1 := by
  induction words generalizing index with
  | nil => simp [heededOf, scanLine, Covers]
  | cons word rest ih =>
      rw [List.forall_mem_cons] at hwords
      have hsign := startsRemark_iff hwords.1
      have hrest :=
        ih hwords.2
          (index.insert ⟨word.offset, word.offset + word.letters.length⟩).2
      have hheeded (hkind : ¬ word.kind? = some .comment) :
          heededOf (word :: rest) = [word] ++ heededOf rest := by
        rw [← hsign] at hkind
        simp [heededOf, hkind]
      unfold scanLine
      simp only
      split
      next hkind =>
        rw [hheeded (by simp [Word.kind?, hkind])]
        exact ⟨[], heededOf rest,
          by simp, by simp, by simpa [Word.kind?] using hkind, rfl⟩
      next hkind =>
        simp [heededOf, hsign.mpr hkind, Covers]
      next kind hother hkind =>
        have hone :
            Covers [word]
              (.ok [⟨kind, String.ofList word.letters, index.slices.size,
                word.offset⟩]) := by
          simpa [Covers, Spelled] using hkind
        have hnot : ¬ word.kind? = some .comment := by
          rw [Word.kind?, hkind, Option.some.injEq]
          exact hother
        rw [hheeded hnot]
        split
        next hscan =>
          rw [hscan] at hrest
          exact hone.append_ok hrest
        next hscan =>
          rw [hscan] at hrest
          exact hone.append_error hrest

theorem covers_scanLines
    {lines : List (List Word)}
    (hlines : ∀ line ∈ lines, ∀ word ∈ line, '\n' ∉ word.letters)
    (index : Index) :
    Covers (lines.flatMap heededOf) (scanLines index lines).1 := by
  induction lines generalizing index with
  | nil => simp [scanLines, Covers]
  | cons line rest ih =>
      rw [List.forall_mem_cons] at hlines
      have hline := covers_scanLine hlines.1 index
      rw [List.flatMap_cons]
      unfold scanLines
      split
      next hscan =>
        rw [hscan] at hline
        exact hline.of_error _
      next tokens between hscan =>
        rw [hscan] at hline
        have hrest := ih hlines.2 between
        split
        next hothers =>
          rw [hothers] at hrest
          exact hline.append_ok hrest
        next hothers =>
          rw [hothers] at hrest
          exact hline.append_error hrest

/-- Cutting a text into tokens covers the words that no remark covers. -/
theorem covers_scan (index : Index) (path : Option String) (text : String) :
    Covers (heeded 0 text.toList) (scan index path text).1 := by
  have hlines :
      ∀ line ∈ wordsByLine text, ∀ word ∈ line, '\n' ∉ word.letters := by
    intro line hline word hword hfeed
    obtain ⟨place, -, rfl⟩ := List.mem_map.mp hline
    have hsolid := (mem_wordsFrom_iff.mp hword).solid.2 '\n' hfeed
    have hblank : Text.isBlank '\n' = true := by decide
    simp [hblank] at hsolid
  have hcovers := covers_scanLines hlines (index.startSegment path text)
  rw [wordsByLine, List.flatMap_map] at hcovers
  exact hcovers

/-! ## Texts put together from tokens -/

theorem letters_wordsFrom_spaced
    {pieces : List (List Char)} (hpieces : ∀ piece ∈ pieces, IsSolid piece)
    (offset : Nat) :
    (wordsFrom offset ([' '].intercalate pieces)).map (·.letters) = pieces := by
  have hblank : Text.isBlank ' ' = true := by decide
  induction pieces generalizing offset with
  | nil => simp [wordsFrom]
  | cons piece rest ih =>
      rw [List.forall_mem_cons] at hpieces
      have hone := wordsFrom_of_solid hpieces.1 offset
      cases rest with
      | nil => simp [hone]
      | cons other rest =>
          rw [List.intercalate_cons_cons, List.append_assoc,
            List.singleton_append, wordsFrom_append hblank, hone,
            List.map_append, ih hpieces.2]
          rfl

theorem isLine_spaced {pieces : List (List Char)}
    (hpieces : ∀ piece ∈ pieces, IsSolid piece) :
    IsLine ([' '].intercalate pieces) := by
  have hspace : Text.isLineEnd ' ' = false := by decide
  induction pieces with
  | nil => simp [IsLine]
  | cons piece rest ih =>
      rw [List.forall_mem_cons] at hpieces
      have hpiece : IsLine piece := by
        intro c hc
        by_contra hend
        have hblank := Text.isBlank_of_isLineEnd c (by simpa using hend)
        simp [hpieces.1.2 c hc] at hblank
      cases rest with
      | nil => simpa using hpiece
      | cons other rest =>
          rw [List.intercalate_cons_cons, IsLine, List.forall_mem_append,
            List.forall_mem_append]
          exact ⟨⟨hpiece, by simp [hspace]⟩, ih hpieces.2⟩

theorem letters_heeded_spaced (text : List Char) :
    (heeded 0 ([' '].intercalate ((heeded 0 text).map (·.letters)))).map
      (·.letters) = (heeded 0 text).map (·.letters) := by
  have hpieces : ∀ piece ∈ (heeded 0 text).map (·.letters), IsSolid piece := by
    rw [List.forall_mem_map]
    intro word hword
    exact (mem_heeded_iff.mp hword).1.solid
  have hletters := letters_wordsFrom_spaced hpieces 0
  -- All words stand in one line, and none of them starts a remark.
  rw [heeded, linesFrom_of_isLine (isLine_spaced hpieces),
    List.flatMap_singleton, heededOf, List.takeWhile_eq_self_iff.mpr, hletters]
  intro word hword
  have hmem : word.letters ∈ (heeded 0 text).map (·.letters) := by
    rw [← hletters]
    exact List.mem_map_of_mem hword
  obtain ⟨same, hsame, heq⟩ := List.mem_map.mp hmem
  have hsign := startsRemark_of_mem_heeded hsame
  unfold Word.startsRemark at hsign ⊢
  rw [← heq, hsign]
  rfl

theorem kinds_eq_of_texts_eq
    {tokens again : List Token} (htokens : ∀ token ∈ tokens, token.Spelled)
    (hagain : ∀ token ∈ again, token.Spelled)
    (htexts : again.map (·.text) = tokens.map (·.text)) :
    again.map (·.kind) = tokens.map (·.kind) := by
  have hkinds (list : List Token) (hlist : ∀ token ∈ list, token.Spelled) :
      (list.map (·.kind)).map some = (list.map (·.text)).map WordKind.of? := by
    rw [List.map_map, List.map_map]
    apply List.map_congr_left
    intro token htoken
    exact (hlist token htoken).symm
  apply List.map_injective_iff.mpr (Option.some_injective _)
  rw [hkinds again hagain, hkinds tokens htokens, htexts]

theorem Word.kind?_eq_of_letters {word other : Word}
    (hletters : word.letters = other.letters) :
    word.kind? = other.kind? := by
  rw [Word.kind?, hletters, Word.kind?]

/-- The tokens of a text, written with blanks between them, are read as the same
words again. -/
theorem scan_spaced
    {index : Index} {path : Option String} {text : String} {tokens : List Token}
    (hscan : (scan index path text).1 = .ok tokens) (index' : Index)
    (path' : Option String) :
    ∃ again,
      (scan index' path' (" ".intercalate (tokens.map (·.text)))).1 =
        .ok again ∧
      again.map (·.text) = tokens.map (·.text) ∧
        again.map (·.kind) = tokens.map (·.kind) := by
  have hcovers := covers_scan index path text
  rw [hscan] at hcovers
  have hkinds := hcovers.isSome_of_ok
  obtain ⟨hwords, hspelled⟩ := hcovers
  have hjoined :
      (" ".intercalate (tokens.map (·.text))).toList =
        [' '].intercalate ((heeded 0 text.toList).map (·.letters)) := by
    rw [← hwords, String.toList_intercalate, List.map_map, List.map_map]
    rfl
  have hletters := letters_heeded_spaced text.toList
  have hagain :=
    covers_scan index' path' (" ".intercalate (tokens.map (·.text)))
  rw [hjoined] at hagain
  cases hresult :
    (scan index' path' (" ".intercalate (tokens.map (·.text)))).1 with
  | error token =>
      rw [hresult] at hagain
      obtain ⟨before, after, hsplit, -, hnone, -⟩ := hagain
      have hmem :
          token.word.letters ∈ (heeded 0 text.toList).map (·.letters) := by
        rw [← hletters, hsplit]
        simp
      obtain ⟨same, hsame, heq⟩ := List.mem_map.mp hmem
      have hkind := hkinds same hsame
      rw [Word.kind?_eq_of_letters heq, hnone] at hkind
      cases hkind
  | ok again =>
      rw [hresult] at hagain
      have htexts : again.map (·.text) = tokens.map (·.text) := by
        have hinjective : Function.Injective String.toList :=
          fun _ _ heq => String.toList_injective heq
        apply List.map_injective_iff.mpr hinjective
        rw [← hagain.1, ← hwords, List.map_map, List.map_map] at hletters
        rw [List.map_map, List.map_map]
        exact hletters
      exact ⟨again, rfl, htexts, kinds_eq_of_texts_eq hspelled hagain.2 htexts⟩

/-! ## The whole text -/

/-- A word of a text that no remark covers. -/
def Word.CountsIn (word : Word) (text : String) : Prop :=
  word.IsMaximalIn 0 text.toList ∧ ¬ word.IsRemarkedIn 0 text.toList

/-- A text is cut into the words that count, or else the first of them that is
of no kind is found out. -/
theorem scan_covers_the_text (index : Index) (path : Option String)
    (text : String) :
    ((∀ word : Word, word.CountsIn text → word.kind?.isSome = true) →
      ∃ tokens, (scan index path text).1 = .ok tokens ∧
        (∀ word : Word, word ∈ tokens.map Token.word ↔ word.CountsIn text) ∧
        tokens.Pairwise (·.offset < ·.offset) ∧
        tokens.Pairwise (·.spot < ·.spot) ∧
        (∀ token ∈ tokens, token.Spelled ∧
          token.LiesIn (scan index path text).2
            ⟨index.segments.length, index.slices.size, path, text⟩) ∧
        ∀ (index' : Index) (path' : Option String),
          ∃ again,
            (scan index' path' (" ".intercalate (tokens.map (·.text)))).1 =
              .ok again ∧
            again.map (·.text) = tokens.map (·.text) ∧
            again.map (·.kind) = tokens.map (·.kind)) ∧
      ∀ word : Word, word.CountsIn text → word.kind? = none →
        (∀ other : Word, other.CountsIn text → other.offset < word.offset →
          other.kind?.isSome = true) →
        ∃ token, (scan index path text).1 = .error token ∧ token.word = word ∧
          token.kind = .unknown ∧
          token.LiesIn (scan index path text).2
            ⟨index.segments.length, index.slices.size, path, text⟩ ∧
          ∀ session : Session, session.index = index →
            ∃ session', Session.scan text path session =
              .error (.complaint (.unrecognized token.text (some token)))
                session' := by
  have hcovers := covers_scan index path text
  have hoffsets := pairwise_offset_scan index path text
  have hspots := pairwise_spot_scan index path text
  have hlies (token : Token) := @liesIn_of_scan index path text token
  constructor
  · intro hkinds
    cases hresult : (scan index path text).1 with
    | error token =>
        rw [hresult] at hcovers
        obtain ⟨before, after, hsplit, -, hnone, -⟩ := hcovers
        have hcounts : token.word.CountsIn text :=
          mem_heeded_iff.mp (by simp [hsplit])
        have hkind := hkinds token.word hcounts
        rw [hnone] at hkind
        cases hkind
    | ok tokens =>
        rw [hresult] at hcovers hoffsets hspots hlies
        refine ⟨tokens, rfl,
          fun word => ?_, hoffsets, hspots, fun token htoken => ?_, ?_⟩
        · rw [hcovers.1]
          exact mem_heeded_iff
        · exact ⟨hcovers.2 token htoken, hlies token htoken⟩
        · exact scan_spaced hresult
  · intro word hcounts hnone hearlier
    have hword := mem_heeded_iff.mpr hcounts
    cases hresult : (scan index path text).1 with
    | ok tokens =>
        rw [hresult] at hcovers
        have hkind := hcovers.isSome_of_ok word hword
        rw [hnone] at hkind
        cases hkind
    | error token =>
        rw [hresult] at hcovers hlies
        have hfirst : token.word = word :=
          hcovers.word_eq (pairwise_offset_heeded 0 text.toList) hword hnone
            fun other hother => hearlier other (mem_heeded_iff.mp hother)
        obtain ⟨-, -, -, -, -, hunknown⟩ := hcovers
        refine ⟨token, rfl, hfirst, hunknown,
          hlies token (List.mem_singleton_self token), ?_⟩
        rintro session rfl
        exact ⟨_, Session.scan_eq_error (Prod.ext hresult rfl)⟩

/-- Two lines, the first with a remark in which anything may stand, and then the
same with a word of no kind before the remark. -/
theorem remark_hides_a_word_of_no_kind :
    (∃ tokens, (scan Index.fresh none "fd 50 # $\n)").1 = .ok tokens ∧
      ∀ word : Word, word ∈ tokens.map Token.word ↔
        word.CountsIn "fd 50 # $\n)") ∧
      (Word.mk 3 ['$']).CountsIn "fd $ # 50\n)" ∧
      ∃ token, (scan Index.fresh none "fd $ # 50\n)").1 = .error token ∧
        token.word = ⟨3, ['$']⟩ := by
  have hfirst :
      heeded 0 "fd 50 # $\n)".toList =
        [⟨0, ['f', 'd']⟩, ⟨3, ['5', '0']⟩, ⟨10, [')']⟩] := by
    decide +kernel
  have hsecond :
      heeded 0 "fd $ # 50\n)".toList =
        [⟨0, ['f', 'd']⟩, ⟨3, ['$']⟩, ⟨10, [')']⟩] := by
    decide +kernel
  have hkinds :
      ∀ word ∈ heeded 0 "fd 50 # $\n)".toList, word.kind?.isSome = true := by
    rw [hfirst]
    decide +kernel
  have hearlier :
      ∀ word ∈ heeded 0 "fd $ # 50\n)".toList, word.offset < 3 →
        word.kind?.isSome = true := by
    rw [hsecond]
    decide +kernel
  have hcounts : (Word.mk 3 ['$']).CountsIn "fd $ # 50\n)" := by
    apply mem_heeded_iff.mp
    rw [hsecond]
    decide
  obtain ⟨tokens, hscan, hwords, -⟩ :=
    (scan_covers_the_text Index.fresh none "fd 50 # $\n)").1 fun word hword =>
      hkinds word (mem_heeded_iff.mpr hword)
  obtain ⟨token, herror, hword, -⟩ :=
    (scan_covers_the_text Index.fresh none "fd $ # 50\n)").2 ⟨3, ['$']⟩ hcounts
      (by decide +kernel)
        fun other hother => hearlier other (mem_heeded_iff.mpr hother)
  exact ⟨⟨tokens, hscan, hwords⟩, hcounts, token, herror, hword⟩

end Logo.Token
