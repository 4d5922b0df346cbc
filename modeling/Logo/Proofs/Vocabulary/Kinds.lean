import Logo.Proofs.Pattern.Matches
import Logo.Proofs.Text.AsciiKin
import Logo.Vocabulary.WordKind

/-!
# The kinds of words

Each kind of word has a grammar of its own.  The patterns of the kinds describe
these grammars, and no word belongs to two of them: already its first two
characters tell which kind it can be of.  So the order in which the patterns are
tried does not matter.
-/

namespace Logo

/-- The letters of a constant: an optional sign, some digits, and perhaps a
point with more digits behind it. -/
inductive IsConstant : List Char → Prop where
  | integer (negative : Bool) {whole : List Char} (hsome : whole ≠ [])
      (hwhole : ∀ c ∈ whole, c.isDigit = true) :
      IsConstant ((if negative then ['-'] else []) ++ whole)
  | point (negative : Bool) {whole fraction : List Char} (hsome : whole ≠ [])
      (hwhole : ∀ c ∈ whole, c.isDigit = true)
      (hfraction : ∀ c ∈ fraction, c.isDigit = true) :
      IsConstant
        ((if negative then ['-'] else []) ++ (whole ++ '.' :: fraction))

namespace Vocabulary

open Text

/-- Names start with a letter of ASCII, regardless of case, or with an
underscore. -/
def isNameStart (c : Char) : Bool :=
  c.isAlpha || c == '_' || asciiKin.contains c

def isNamePart (c : Char) : Bool := isNameStart c || c.isDigit

inductive IsName : List Char → Prop where
  | intro {c : Char} {rest : List Char} (hstart : isNameStart c = true)
      (hrest : ∀ d ∈ rest, isNamePart d = true) : IsName (c :: rest)

namespace WordKind

def signs : List Char := "*+/%~-".toList

def Spells : WordKind → List Char → Prop
  | .comment, letters => letters.head? = some '#' ∧ '\n' ∉ letters
  | .constant, letters => IsConstant letters
  | .variable, letters => ∃ name, IsName name ∧ letters = ':' :: name
  | .command, letters =>
    (∃ name, IsName name ∧ (letters = name ∨ letters = name ++ ['?'])) ∨
      ∃ c ∈ signs, letters = [c]
  | .listStart, letters => letters = ['[']
  | .listEnd, letters => letters = [']']
  | .groupStart, letters => letters = ['(']
  | .groupEnd, letters => letters = [')']
  | .unknown, _ => False

/-- The only kind that a word can be of, told by its first characters. -/
def told : List Char → WordKind
  | [] => .unknown
  | c :: rest =>
    if c = '#' then .comment
    else if c = ':' then .variable
    else if c = '[' then .listStart
    else if c = ']' then .listEnd
    else if c = '(' then .groupStart
    else if c = ')' then .groupEnd
    else if c.isDigit || c = '-' && !rest.isEmpty then .constant
    else .command

theorem told_of_isDigit {c : Char} (hdigit : c.isDigit = true)
    (rest : List Char) :
    told (c :: rest) = .constant := by
  have hne (d : Char) (hd : d.isDigit = false) : c ≠ d := by
    rintro rfl
    simp [hd] at hdigit
  simp [told, hdigit, hne]

theorem told_of_isName {name : List Char} (hname : IsName name)
    (rest : List Char) :
    told (name ++ rest) = .command := by
  cases hname with
  | @intro c more hstart _ =>
      have hne (d : Char) (hd : isNameStart d = false) : c ≠ d := by
        rintro rfl
        simp [hd] at hstart
      have hdigit : c.isDigit = false := by
        rw [Bool.eq_false_iff]
        intro hdigit
        have hnot : isNameStart c = false :=
          of_isDigit (P := fun c => isNameStart c = false) (by decide) hdigit
        simp [hnot] at hstart
      simp (disch := decide) [told, hdigit, hne]

/-- Behind its sign a constant starts with a digit. -/
theorem exists_digit_of_isConstant {letters : List Char}
    (hconstant : IsConstant letters) :
    ∃ (negative : Bool) (c : Char) (rest : List Char), c.isDigit = true ∧
      letters = (if negative then ['-'] else []) ++ c :: rest := by
  cases hconstant with
  | integer negative hsome hwhole =>
      obtain ⟨c, digits, rfl⟩ := List.exists_cons_of_ne_nil hsome
      exact ⟨negative, c, digits, hwhole c List.mem_cons_self, rfl⟩
  | point negative hsome hwhole hfraction =>
      obtain ⟨c, digits, rfl⟩ := List.exists_cons_of_ne_nil hsome
      exact ⟨negative, c, _, hwhole c List.mem_cons_self, rfl⟩

/-- A word is of no kind but the one that its first characters tell. -/
theorem eq_told_of_spells {kind : WordKind} {letters : List Char}
    (hspells : kind.Spells letters) :
    kind = told letters := by
  cases kind with
  | comment =>
      obtain ⟨rest, rfl⟩ := List.head?_eq_some_iff.mp hspells.1
      rfl
  | constant =>
      obtain ⟨negative, c, rest, hdigit, rfl⟩ :=
        exists_digit_of_isConstant hspells
      cases negative with
      | true => rfl
      | false => exact (told_of_isDigit hdigit rest).symm
  | «variable» =>
      obtain ⟨name, -, rfl⟩ := hspells
      rfl
  | command =>
      rcases hspells with ⟨name, hname, rfl | rfl⟩ | ⟨c, hc, rfl⟩
      · have htold := told_of_isName hname []
        rw [List.append_nil] at htold
        exact htold.symm
      · exact (told_of_isName hname _).symm
      · have hall :
            signs.all (fun c => decide (command = told [c])) = true := by
          decide
        exact of_decide_eq_true (List.all_eq_true.mp hall c hc)
  | listStart => exact hspells ▸ rfl
  | listEnd => exact hspells ▸ rfl
  | groupStart => exact hspells ▸ rfl
  | groupEnd => exact hspells ▸ rfl
  | unknown => exact hspells.elim

end WordKind

end Vocabulary

/-! ## Sets of characters -/

namespace CharSet

open Vocabulary Text

def nameStart : CharSet :=
  ⟨false,
    [.range 'a'.toNat 'z'.toNat, .range 'A'.toNat 'Z'.toNat, .single '_'.toNat]⟩

def namePart : CharSet := ⟨false, nameStart.members ++ digits.members⟩

def signs : CharSet := ⟨false, WordKind.signs.map (.single ·.toNat)⟩

theorem toNat_lt_of_isAlpha {c : Char} (halpha : c.isAlpha = true) :
    c.toNat < 128 := by
  rcases Bool.or_eq_true_iff.mp halpha with hupper | hlower
  · have hlast := (of_decide_eq_true hupper).2
    exact (UInt32.le_iff_toNat_le.mp hlast).trans_lt (by decide)
  · have hlast := of_decide_eq_true (Bool.and_eq_true_iff.mp hlower).2
    exact (UInt32.le_iff_toNat_le.mp hlast).trans_lt (by decide)

theorem has_nameStart (c : Char) : nameStart.has c = isNameStart c := by
  refine has_eq_of_ascii (by decide) _ (by decide +kernel) (by decide) ?_ c
  intro c hc hstart
  simp only [isNameStart, Bool.or_eq_true, beq_iff_eq,
    List.contains_iff_mem] at hstart
  rcases hstart with (halpha | rfl) | hkin
  · exact absurd (toNat_lt_of_isAlpha halpha) hc
  · exact absurd (by decide) hc
  · exact hkin

theorem has_namePart (c : Char) : namePart.has c = isNamePart c := by
  rw [isNamePart, ← has_nameStart, ← has_digits, has_eq_any (by decide),
    has_eq_any (by decide), has_eq_any (by decide), ← List.any_append]
  rfl

theorem has_signs (c : Char) : signs.has c = WordKind.signs.contains c := by
  refine has_eq_of_ascii (by decide) _ (by decide +kernel) (by decide) ?_ c
  intro c hc hsign
  have hall : WordKind.signs.all (fun c => decide (c.toNat < 128)) = true := by
    decide
  exact absurd
    (of_decide_eq_true
      (List.all_eq_true.mp hall c (List.contains_iff_mem.mp hsign))) hc

def marks : List Char := "#-.:?[]()".toList

theorem has_literal {d : Char} (hd : d ∈ marks) (c : Char) :
    (literal d).has c = (c == d) := by
  have hascii : marks.all (fun d => decide (d.toNat < 128)) = true := by decide
  have hcodes :
      ∀ code < 128, marks.all (fun d =>
        (literal d).has (Char.ofNat code) ==
          (Char.ofNat code == d)) = true := by
    decide +kernel
  have hkin :
      marks.all
        (fun d => asciiKin.all fun c => (asciiForm c == d) == (c == d)) =
          true := by
    decide
  have hsmall : d.toNat < 128 :=
    of_decide_eq_true (List.all_eq_true.mp hascii d hd)
  have hset : (literal d).isAscii = true := by
    simpa [isAscii, literal, Member.isAscii] using hsmall
  refine has_eq_of_ascii hset (· == d) ?_ ?_ ?_ c
  · exact fun code hcode =>
      beq_iff_eq.mp (List.all_eq_true.mp (hcodes code hcode) d hd)
  · exact List.all_eq_true.mp hkin d hd
  · intro c hc heq
    exact absurd (beq_iff_eq.mp heq ▸ hsmall) hc

end CharSet

/-! ## Patterns -/

namespace Vocabulary

namespace WordKind

open CharSet Pattern

/-- The pattern that the spelling of a kind is read as. -/
def pattern : WordKind → Pattern
  | .comment =>
    .sequence (.one (.literal '#'))
      (.repeated .anyNumber .eager (.one .anyCharacter))
  | .constant =>
    .sequence (.repeated .atMostOne .eager (.one (.literal '-')))
      (.sequence (.repeated .oneOrMore .eager (.one .digits))
        (.sequence (.repeated .atMostOne .eager (.one (.literal '.')))
          (.repeated .anyNumber .eager (.one .digits))))
  | .variable =>
    .sequence (.one (.literal ':'))
      (.sequence (.one nameStart) (.repeated .anyNumber .eager (.one namePart)))
  | .command =>
    .choice
      (.sequence (.one nameStart)
        (.sequence (.repeated .anyNumber .eager (.one namePart))
          (.repeated .atMostOne .eager (.one (.literal '?')))))
      (.one CharSet.signs)
  | .listStart => .one (.literal '[')
  | .listEnd => .one (.literal ']')
  | .groupStart => .one (.literal '(')
  | .groupEnd => .one (.literal ')')
  | .unknown => .one ⟨false, []⟩

theorem read_spelling {pair : WordKind × String} (hpair : pair ∈ spellings) :
    Pattern.read pair.2 = .ok pair.1.pattern := by
  have hall :
      ∀ pair ∈ spellings,
        (Pattern.read pair.2).toOption = some pair.1.pattern := by
    decide +kernel
  have hread := hall pair hpair
  cases hcase : Pattern.read pair.2 with
  | ok found =>
      rw [hcase] at hread
      exact congrArg _ (Option.some.inj hread)
  | error flaw =>
      rw [hcase] at hread
      cases hread

variable {letters : List Char}

theorem matches_literal_iff {d : Char} (hd : d ∈ marks) :
    (one (.literal d)).Matches letters ↔ letters = [d] := by
  simp [matches_one_iff, has_literal hd]

theorem matches_optional_iff {d : Char} (hd : d ∈ marks) :
    (repeated .atMostOne .eager (.one (.literal d))).Matches letters ↔
      letters = [] ∨ letters = [d] := by
  simp [matches_atMostOne_one_iff, has_literal hd]

theorem matches_name_iff :
    (sequence (.one nameStart)
      (.repeated .anyNumber .eager (.one namePart))).Matches letters ↔
      IsName letters := by
  simp only [matches_sequence_iff, matches_one_iff, matches_anyNumber_one_iff,
    has_nameStart, has_namePart]
  constructor
  · rintro ⟨_, rest, ⟨c, hstart, rfl⟩, hrest, rfl⟩
    exact .intro hstart hrest
  · intro hname
    cases hname with
    | @intro c rest hstart hrest =>
        exact ⟨[c], rest, ⟨c, hstart, rfl⟩, hrest, rfl⟩

theorem matches_comment_iff :
    comment.pattern.Matches letters ↔ comment.Spells letters := by
  have hmark (letters : List Char) : (one (.literal '#')).Matches letters ↔
      letters = ['#'] :=
    matches_literal_iff (by decide)
  simp only [pattern, matches_sequence_iff, hmark, matches_anyNumber_one_iff,
    has_anyCharacter_eq, bne_iff_ne, Spells]
  constructor
  · rintro ⟨_, rest, rfl, hrest, rfl⟩
    refine ⟨rfl, fun hfeed => ?_⟩
    rcases List.mem_cons.mp hfeed with heq | hmem
    · cases heq
    · exact hrest '\n' hmem rfl
  · rintro ⟨hhead, hfeed⟩
    obtain ⟨rest, rfl⟩ := List.head?_eq_some_iff.mp hhead
    refine ⟨['#'], rest, rfl, ?_, rfl⟩
    rintro c hc rfl
    exact hfeed (List.mem_cons_of_mem _ hc)

theorem matches_constant_iff :
    constant.pattern.Matches letters ↔ constant.Spells letters := by
  have hminus (letters : List Char) :
      (repeated .atMostOne .eager (.one (.literal '-'))).Matches letters ↔
        ∃ negative : Bool, letters = if negative then ['-'] else [] := by
    rw [matches_optional_iff (by decide), Bool.exists_bool]
    rfl
  simp only [pattern, matches_sequence_iff, matches_oneOrMore_one_iff,
    matches_anyNumber_one_iff, hminus, matches_optional_iff (d := '.')
      (by decide), has_digits, Spells]
  constructor
  · rintro ⟨_, _, ⟨negative, rfl⟩, ⟨whole, _, ⟨hsome, hwhole⟩, hback, rfl⟩, rfl⟩
    obtain ⟨_, fraction, rfl | rfl, hfraction, rfl⟩ := hback
    · exact .integer negative (by simp [hsome])
        (List.forall_mem_append.mpr ⟨hwhole, hfraction⟩)
    · exact .point negative hsome hwhole hfraction
  · intro hspells
    cases hspells with
    | @integer negative whole hsome hwhole =>
        exact ⟨_, whole, ⟨negative, rfl⟩,
          ⟨whole, [], ⟨hsome, hwhole⟩, ⟨[], [], .inl rfl, by simp, rfl⟩,
            by simp⟩, rfl⟩
    | @point negative whole fraction hsome hwhole hfraction =>
        exact ⟨_, _, ⟨negative, rfl⟩,
          ⟨whole, _, ⟨hsome, hwhole⟩,
            ⟨['.'], fraction, .inr rfl, hfraction, rfl⟩, rfl⟩, rfl⟩

theorem matches_variable_iff :
    WordKind.variable.pattern.Matches letters ↔
      WordKind.variable.Spells letters := by
  rw [pattern, matches_sequence_iff]
  simp only [matches_literal_iff (d := ':') (by decide),
    matches_name_iff, Spells]
  constructor
  · rintro ⟨_, name, rfl, hname, rfl⟩
    exact ⟨name, hname, rfl⟩
  · rintro ⟨name, hname, rfl⟩
    exact ⟨[':'], name, rfl, hname, rfl⟩

theorem matches_command_iff :
    command.pattern.Matches letters ↔ command.Spells letters := by
  rw [pattern, matches_choice_iff]
  constructor
  · rintro (hword | hword)
    · obtain ⟨front, back, hfront, hback, rfl⟩ := matches_sequence_iff.mp hword
      obtain ⟨middle, mark, hmiddle, hmark, rfl⟩ :=
        matches_sequence_iff.mp hback
      have hname : IsName (front ++ middle) :=
        matches_name_iff.mp (.sequence hfront hmiddle)
      rw [← List.append_assoc]
      rcases (matches_optional_iff (by decide)).mp hmark with rfl | rfl
      · exact .inl ⟨_, hname, .inl (List.append_nil _)⟩
      · exact .inl ⟨_, hname, .inr rfl⟩
    · obtain ⟨c, hc, rfl⟩ := matches_one_iff.mp hword
      rw [has_signs, List.contains_iff_mem] at hc
      exact .inr ⟨c, hc, rfl⟩
  · rintro (⟨name, hname, hletters⟩ | ⟨c, hc, rfl⟩)
    · obtain ⟨front, middle, hfront, hmiddle, rfl⟩ :=
        matches_sequence_iff.mp (matches_name_iff.mpr hname)
      obtain ⟨mark, hmark, rfl⟩ :
          ∃ mark, (mark = [] ∨ mark = ['?']) ∧
            letters = front ++ (middle ++ mark) := by
        rcases hletters with rfl | rfl
        · exact ⟨[], .inl rfl, by simp⟩
        · exact ⟨['?'], .inr rfl, by simp⟩
      exact .inl (.sequence hfront
        (.sequence hmiddle ((matches_optional_iff (by decide)).mpr hmark)))
    · refine .inr (.one ?_)
      rwa [has_signs, List.contains_iff_mem]

/-- The patterns describe the words of the kinds. -/
theorem matches_pattern_iff (kind : WordKind) :
    kind.pattern.Matches letters ↔ kind.Spells letters := by
  cases kind with
  | comment => exact matches_comment_iff
  | constant => exact matches_constant_iff
  | «variable» => exact matches_variable_iff
  | command => exact matches_command_iff
  | listStart => exact matches_literal_iff (by decide)
  | listEnd => exact matches_literal_iff (by decide)
  | groupStart => exact matches_literal_iff (by decide)
  | groupEnd => exact matches_literal_iff (by decide)
  | unknown => simp [pattern, Spells, matches_one_iff, CharSet.has]

theorem isRegular_pattern (kind : WordKind) :
    kind.pattern.isRegular = true := by
  cases kind <;> rfl

theorem accepts_pattern_iff (kind : WordKind) :
    kind.pattern.accepts letters = true ↔ kind.Spells letters := by
  rw [accepts_iff (isRegular_pattern kind), matches_pattern_iff]

end WordKind

/-! ## The order of the patterns -/

theorem Classifier.addPairs_of_read
    {α : Type} {pairs : List (α × String)} {pattern : α → Pattern}
    (hread : ∀ pair ∈ pairs, Pattern.read pair.2 = .ok (pattern pair.1))
    (rules : Classifier α) :
    rules.addPairs pairs =
      (rules ++ pairs.map fun pair => ⟨pair.1, pattern pair.1⟩, none) := by
  induction pairs generalizing rules with
  | nil => rw [addPairs, List.map_nil, List.append_nil]
  | cons pair pairs ih =>
      rw [List.forall_mem_cons] at hread
      rw [addPairs, hread.1]
      dsimp only
      rw [ih hread.2, List.map_cons, List.append_assoc, List.singleton_append]

namespace WordKind

theorem ofPairs_eq_map {pairs : List (WordKind × String)}
    (hpairs : pairs ⊆ spellings) :
    Classifier.ofPairs pairs =
      pairs.map fun pair => ⟨pair.1, pair.1.pattern⟩ := by
  rw [Classifier.ofPairs,
    Classifier.addPairs_of_read
      (fun pair hpair => read_spelling (hpairs hpair)), List.nil_append]

theorem exists_spelling {kind : WordKind} {letters : List Char}
    (hspells : kind.Spells letters) :
    ∃ pair ∈ spellings, pair.1 = kind := by
  have hall : ∀ kind : WordKind, kind ≠ unknown →
      kind ∈ spellings.map (·.1) := by
    intro kind
    cases kind <;> decide
  refine List.mem_map.mp (hall kind ?_)
  rintro rfl
  exact hspells

/-- In whatever order the patterns are tried, a word is found to be of the kind
that it spells. -/
theorem symbol?_eq_some_iff
    {pairs : List (WordKind × String)} (hperm : pairs.Perm spellings)
    (word : String) (kind : WordKind) :
    (Classifier.ofPairs pairs).symbol? word = some kind ↔
      kind.Spells word.toList := by
  rw [Classifier.symbol?, Classifier.rule?, Option.map_eq_some_iff]
  have hfound {rule : Rule WordKind}
      (hrule : (Classifier.ofPairs pairs).find?
        (·.pattern.accepts word.toList) = some rule) :
      rule.symbol.Spells word.toList := by
    have hmem := List.mem_of_find?_eq_some hrule
    have haccepts := List.find?_some hrule
    rw [ofPairs_eq_map hperm.subset] at hmem
    obtain ⟨pair, -, rfl⟩ := List.mem_map.mp hmem
    exact (accepts_pattern_iff _).mp haccepts
  constructor
  · rintro ⟨rule, hrule, rfl⟩
    exact hfound hrule
  · intro hspells
    obtain ⟨pair, hpair, rfl⟩ := exists_spelling hspells
    have hmem : ⟨pair.1, pair.1.pattern⟩ ∈ Classifier.ofPairs pairs := by
      rw [ofPairs_eq_map hperm.subset]
      exact List.mem_map_of_mem (hperm.mem_iff.mpr hpair)
    have hsome :
        ((Classifier.ofPairs pairs).find?
          (·.pattern.accepts word.toList)).isSome = true :=
      List.find?_isSome.mpr ⟨_, hmem, (accepts_pattern_iff pair.1).mpr hspells⟩
    obtain ⟨rule, hrule⟩ := Option.isSome_iff_exists.mp hsome
    -- Whichever rule comes first, its kind is the one that the first characters
    -- tell.
    refine ⟨rule, hrule, ?_⟩
    rw [eq_told_of_spells (hfound hrule), ← eq_told_of_spells hspells]

theorem of?_eq_some_iff {word : String} {kind : WordKind} :
    of? word = some kind ↔ kind.Spells word.toList :=
  symbol?_eq_some_iff (List.Perm.refl spellings) word kind

def matching (word : String) : List WordKind :=
  (classifier.filter (·.pattern.accepts word.toList)).map (·.symbol)

theorem classifier_eq_map :
    classifier = spellings.map fun pair => ⟨pair.1, pair.1.pattern⟩ :=
  ofPairs_eq_map (List.Subset.refl _)

theorem mem_matching_iff {word : String} {kind : WordKind} :
    kind ∈ matching word ↔ kind.Spells word.toList := by
  rw [matching, classifier_eq_map, List.mem_map]
  constructor
  · rintro ⟨rule, hrule, rfl⟩
    obtain ⟨hmem, haccepts⟩ := List.mem_filter.mp hrule
    obtain ⟨pair, -, rfl⟩ := List.mem_map.mp hmem
    exact (accepts_pattern_iff _).mp haccepts
  · intro hspells
    obtain ⟨pair, hpair, rfl⟩ := exists_spelling hspells
    refine ⟨⟨pair.1, pair.1.pattern⟩, List.mem_filter.mpr ⟨?_, ?_⟩, rfl⟩
    · exact List.mem_map_of_mem hpair
    · exact (accepts_pattern_iff _).mpr hspells

/-- No word matches two of the patterns. -/
theorem length_matching_le (word : String) : (matching word).length ≤ 1 := by
  have hkinds : (classifier.map (·.symbol)).Nodup := by
    rw [classifier_eq_map]
    decide
  have hnodup : (matching word).Nodup :=
    hkinds.sublist (List.filter_sublist.map _)
  have htold : ∀ kind ∈ matching word, kind = told word.toList :=
    fun kind hkind => eq_told_of_spells (mem_matching_iff.mp hkind)
  rw [List.eq_replicate_of_mem htold, List.nodup_replicate] at hnodup
  exact hnodup

example : matching "-" = [command] ∧ matching "-5" = [constant] := by
  decide +kernel

end WordKind

end Vocabulary

end Logo
