import Logo.Pattern.Search
import Mathlib.Tactic

/-!
# The words of a regular pattern

Regular patterns are matched by carrying along what may still follow.  Here the
words of a pattern are given by what the pattern is put together from, and these
are the words that are matched.
-/

namespace Logo.Pattern

inductive Matches : Pattern → List Char → Prop where
  | empty : Matches .empty []
  | one {set : CharSet} {c : Char} (hset : set.has c = true) :
      Matches (.one set) [c]
  | sequence {first second : Pattern} {word rest : List Char}
      (hfirst : Matches first word) (hsecond : Matches second rest) :
      Matches (.sequence first second) (word ++ rest)
  | left {first second : Pattern} {word : List Char}
      (hfirst : Matches first word) :
      Matches (.choice first second) word
  | right {first second : Pattern} {word : List Char}
      (hsecond : Matches second word) :
      Matches (.choice first second) word
  | group {number : Nat} {pattern : Pattern} {word : List Char}
      (hpattern : Matches pattern word) : Matches (.group number pattern) word
  | never {count : Count} {manner : Manner} {pattern : Pattern}
      (hleast : count.least = 0) :
      Matches (.repeated count manner pattern) []
  | again {count : Count} {manner : Manner} {pattern : Pattern}
      {word rest : List Char} (hpattern : Matches pattern word)
      (hrest : Matches (furtherRepetitions count manner pattern) rest) :
      Matches (.repeated count manner pattern) (word ++ rest)

theorem matches_furtherRepetitions_nil (count : Count) (manner : Manner)
    (pattern : Pattern) :
    (furtherRepetitions count manner pattern).Matches [] := by
  cases count with
  | anyNumber => exact .never rfl
  | oneOrMore => exact .never rfl
  | atMostOne => exact .empty

theorem matches_of_hasEmpty {pattern : Pattern}
    (hempty : pattern.hasEmpty = true) :
    pattern.Matches [] := by
  induction pattern with
  | empty => exact .empty
  | one set => cases hempty
  | sequence first second ihfirst ihsecond =>
      simp only [hasEmpty, Bool.and_eq_true] at hempty
      exact .sequence (ihfirst hempty.1) (ihsecond hempty.2)
  | choice first second ihfirst ihsecond =>
      simp only [hasEmpty, Bool.or_eq_true] at hempty
      rcases hempty with hempty | hempty
      · exact .left (ihfirst hempty)
      · exact .right (ihsecond hempty)
  | group number pattern ih => exact .group (ih hempty)
  | repeated count manner pattern ih =>
      simp only [hasEmpty, Bool.or_eq_true, beq_iff_eq] at hempty
      rcases hempty with hleast | hempty
      · exact .never hleast
      · exact .again (ih hempty)
          (matches_furtherRepetitions_nil count manner pattern)
  | edge place => cases hempty
  | copy number => cases hempty

theorem exists_of_matches_andThen
    {first second : Pattern} {word : List Char}
    (hword : (first.andThen second).Matches word) :
    ∃ front rest, word = front ++ rest ∧ first.Matches front ∧
      second.Matches rest := by
  unfold andThen at hword
  split at hword
  · exact ⟨[], word, rfl, .empty, hword⟩
  · cases hword with
    | sequence hfirst hsecond => exact ⟨_, _, rfl, hfirst, hsecond⟩

theorem matches_cons_of_mem_after
    {c : Char} {pattern next : Pattern} {word : List Char}
    (hnext : next ∈ after c pattern) (hword : next.Matches word) :
    pattern.Matches (c :: word) := by
  induction pattern generalizing next word with
  | empty => simp [after] at hnext
  | one set =>
      simp only [after, List.mem_ite_nil_right, List.mem_singleton] at hnext
      obtain ⟨hset, rfl⟩ := hnext
      cases hword
      exact .one hset
  | sequence first second ihfirst ihsecond =>
      have hrests (hmem : next ∈ (after c first).map (andThen · second)) :
          (sequence first second).Matches (c :: word) := by
        obtain ⟨later, hlater, rfl⟩ := List.mem_map.mp hmem
        obtain ⟨front, rest, rfl, hfront, hrest⟩ :=
          exists_of_matches_andThen hword
        exact .sequence (ihfirst hlater hfront) hrest
      simp only [after] at hnext
      split at hnext
      next hempty =>
        rcases List.mem_append.mp hnext with hmem | hmem
        · exact hrests hmem
        · exact .sequence (matches_of_hasEmpty hempty) (ihsecond hmem hword)
      next => exact hrests hnext
  | choice first second ihfirst ihsecond =>
      rcases List.mem_append.mp hnext with hmem | hmem
      · exact .left (ihfirst hmem hword)
      · exact .right (ihsecond hmem hword)
  | group number pattern ih => exact .group (ih hnext hword)
  | repeated count manner pattern ih =>
      obtain ⟨later, hlater, rfl⟩ := List.mem_map.mp hnext
      obtain ⟨front, rest, rfl, hfront, hrest⟩ :=
        exists_of_matches_andThen hword
      exact .again (ih hlater hfront) hrest
  | edge place => simp [after] at hnext
  | copy number => simp [after] at hnext

theorem exists_matches_of_foldl
    {patterns : List Pattern} {word : List Char}
    (hhas : (word.foldl afterEach patterns).any hasEmpty = true) :
    ∃ pattern ∈ patterns, pattern.Matches word := by
  induction word generalizing patterns with
  | nil =>
      obtain ⟨pattern, hmem, hempty⟩ := List.any_eq_true.mp hhas
      exact ⟨pattern, hmem, matches_of_hasEmpty hempty⟩
  | cons c rest ih =>
      obtain ⟨next, hnext, hrest⟩ := ih hhas
      rw [afterEach, List.mem_eraseDups, List.mem_flatMap] at hnext
      obtain ⟨pattern, hmem, hafter⟩ := hnext
      exact ⟨pattern, hmem, matches_cons_of_mem_after hafter hrest⟩

/-- Every word that is matched one character at a time is a word of the
pattern. -/
theorem matches_of_has {pattern : Pattern} {word : List Char}
    (hhas : pattern.has word = true) :
    pattern.Matches word := by
  obtain ⟨found, hmem, hmatches⟩ := exists_matches_of_foldl hhas
  rwa [List.mem_singleton.mp hmem] at hmatches

theorem hasEmpty_of_matches {pattern : Pattern}
    (hpattern : pattern.Matches []) :
    pattern.hasEmpty = true := by
  generalize hword : ([] : List Char) = word at hpattern
  induction hpattern with
  | empty => rfl
  | one => cases hword
  | sequence _ _ ihfirst ihsecond =>
      obtain ⟨rfl, rfl⟩ := List.append_eq_nil_iff.mp hword.symm
      simp [hasEmpty, ihfirst, ihsecond]
  | left _ ih => simp [hasEmpty, ih hword]
  | right _ ih => simp [hasEmpty, ih hword]
  | group _ ih => exact ih hword
  | never hleast => simp [hasEmpty, hleast]
  | again _ _ ih =>
      obtain ⟨rfl, rfl⟩ := List.append_eq_nil_iff.mp hword.symm
      simp [hasEmpty, ih]

theorem matches_andThen
    {first second : Pattern} {word rest : List Char}
    (hfirst : first.Matches word) (hsecond : second.Matches rest) :
    (first.andThen second).Matches (word ++ rest) := by
  unfold andThen
  split
  · cases hfirst
    exact hsecond
  · exact .sequence hfirst hsecond

theorem exists_mem_after_of_matches
    {c : Char} {pattern : Pattern} {word : List Char}
    (hpattern : pattern.Matches (c :: word)) :
    ∃ next ∈ after c pattern, next.Matches word := by
  generalize hletters : c :: word = letters at hpattern
  -- Along the derivation: the first character belongs to the first part that is
  -- not empty.
  induction hpattern generalizing word with
  | empty => cases hletters
  | one hset =>
      cases hletters
      exact ⟨.empty, by simp [after, hset], .empty⟩
  | @sequence first second front rest hfirst hsecond ihfirst ihsecond =>
      cases front with
      | nil =>
          obtain ⟨next, hnext, hword⟩ := ihsecond hletters
          exact ⟨next,
            by simp [after, hasEmpty_of_matches hfirst, hnext], hword⟩
      | cons d front =>
          obtain ⟨rfl, rfl⟩ := List.cons.inj hletters
          obtain ⟨next, hnext, hword⟩ := ihfirst rfl
          have hmem :
              next.andThen second ∈ (after c first).map (andThen · second) :=
            List.mem_map_of_mem hnext
          refine ⟨next.andThen second, ?_, matches_andThen hword hsecond⟩
          simp only [after]
          by_cases hempty : first.hasEmpty = true
          · rw [if_pos hempty]
            exact List.mem_append_left _ hmem
          · rw [if_neg hempty]
            exact hmem
  | left _ ih =>
      obtain ⟨next, hnext, hword⟩ := ih hletters
      exact ⟨next, by simp [after, hnext], hword⟩
  | right _ ih =>
      obtain ⟨next, hnext, hword⟩ := ih hletters
      exact ⟨next, by simp [after, hnext], hword⟩
  | group _ ih => exact ih hletters
  | never => cases hletters
  | @again count manner pattern front rest hpattern hrest ihpattern ihrest =>
      cases front with
      | nil =>
          obtain ⟨next, hnext, hword⟩ := ihrest hletters
          refine ⟨next, ?_, hword⟩
          cases count with
          | atMostOne => simp [furtherRepetitions, after] at hnext
          | anyNumber => exact hnext
          | oneOrMore => exact hnext
      | cons d front =>
          obtain ⟨rfl, rfl⟩ := List.cons.inj hletters
          obtain ⟨next, hnext, hword⟩ := ihpattern rfl
          exact ⟨_, List.mem_map_of_mem hnext, matches_andThen hword hrest⟩

theorem any_hasEmpty_of_matches
    {patterns : List Pattern} {pattern : Pattern} (hmem : pattern ∈ patterns)
    {word : List Char} (hpattern : pattern.Matches word) :
    (word.foldl afterEach patterns).any hasEmpty = true := by
  induction word generalizing patterns pattern with
  | nil =>
      exact List.any_eq_true.mpr ⟨pattern, hmem, hasEmpty_of_matches hpattern⟩
  | cons c rest ih =>
      obtain ⟨next, hnext, hrest⟩ := exists_mem_after_of_matches hpattern
      have hafter : next ∈ afterEach patterns c := by
        rw [afterEach, List.mem_eraseDups, List.mem_flatMap]
        exact ⟨pattern, hmem, hnext⟩
      exact ih hafter hrest

/-- Reading a word one character at a time misses none of the words of the
pattern. -/
theorem has_of_matches {pattern : Pattern} {word : List Char}
    (hpattern : pattern.Matches word) :
    pattern.has word = true :=
  any_hasEmpty_of_matches (List.mem_singleton_self pattern) hpattern

theorem matches_anyNumber_one
    {manner : Manner} {set : CharSet} {word : List Char}
    (hword : ∀ c ∈ word, set.has c = true) :
    (repeated .anyNumber manner (.one set)).Matches word := by
  induction word with
  | nil => exact .never rfl
  | cons c rest ih =>
      rw [List.forall_mem_cons] at hword
      exact .again (.one hword.1) (ih hword.2)

/-- Repeated characters are all of the set, and there are at least as many as
there have to be. -/
theorem Matches.repeated_one
    {count : Count} {manner : Manner} {set : CharSet} {word : List Char}
    (hword : (repeated count manner (.one set)).Matches word) :
    (∀ c ∈ word, set.has c = true) ∧ count.least ≤ word.length := by
  generalize hpattern : repeated count manner (.one set) = pattern at hword
  induction hword generalizing count with
  | never hleast =>
      cases hpattern
      simp [hleast]
  | again hone hrest _ ih =>
      obtain ⟨rfl, rfl, rfl⟩ := repeated.inj hpattern
      cases hone with
      | one hset =>
          rw [List.singleton_append, List.forall_mem_cons]
          refine ⟨⟨hset, ?_⟩, ?_⟩
          · cases count with
            | atMostOne =>
                cases hrest
                simp
            | anyNumber => exact (ih rfl).1
            | oneOrMore => exact (ih rfl).1
          · cases count <;> simp [Count.least]
  | _ => cases hpattern

/-! ## Words of small patterns -/

section Small

variable {first second : Pattern} {manner : Manner} {set : CharSet}
  {word : List Char}

theorem matches_one_iff :
    (one set).Matches word ↔ ∃ c, set.has c = true ∧ word = [c] := by
  constructor
  · intro hword
    cases hword with
    | one hset => exact ⟨_, hset, rfl⟩
  · rintro ⟨c, hset, rfl⟩
    exact .one hset

theorem matches_sequence_iff :
    (sequence first second).Matches word ↔
      ∃ front rest, first.Matches front ∧ second.Matches rest ∧
        word = front ++ rest := by
  constructor
  · intro hword
    cases hword with
    | sequence hfirst hsecond => exact ⟨_, _, hfirst, hsecond, rfl⟩
  · rintro ⟨front, rest, hfirst, hsecond, rfl⟩
    exact .sequence hfirst hsecond

theorem matches_choice_iff :
    (choice first second).Matches word ↔ first.Matches word ∨
      second.Matches word := by
  constructor
  · intro hword
    cases hword with
    | left hfirst => exact .inl hfirst
    | right hsecond => exact .inr hsecond
  · rintro (hfirst | hsecond)
    · exact .left hfirst
    · exact .right hsecond

theorem matches_anyNumber_one_iff :
    (repeated .anyNumber manner (.one set)).Matches word ↔
      ∀ c ∈ word, set.has c = true :=
  ⟨fun hword => hword.repeated_one.1, matches_anyNumber_one⟩

theorem matches_oneOrMore_one_iff :
    (repeated .oneOrMore manner (.one set)).Matches word ↔
      word ≠ [] ∧ ∀ c ∈ word, set.has c = true := by
  constructor
  · intro hword
    obtain ⟨hall, hleast⟩ := hword.repeated_one
    exact ⟨List.ne_nil_of_length_pos hleast, hall⟩
  · rintro ⟨hsome, hall⟩
    obtain ⟨c, rest, rfl⟩ := List.exists_cons_of_ne_nil hsome
    rw [List.forall_mem_cons] at hall
    exact .again (.one hall.1) (matches_anyNumber_one hall.2)

theorem matches_atMostOne_one_iff :
    (repeated .atMostOne manner (.one set)).Matches word ↔
      word = [] ∨ ∃ c, set.has c = true ∧ word = [c] := by
  constructor
  · intro hword
    cases hword with
    | never => exact .inl rfl
    | again hone hrest =>
        cases hone with
        | one hset =>
            cases hrest
            exact .inr ⟨_, hset, rfl⟩
  · rintro (rfl | ⟨c, hset, rfl⟩)
    · exact .never rfl
    · exact .again (.one hset) .empty

end Small

theorem accepts_iff
    {pattern : Pattern} (hregular : pattern.isRegular = true)
    (word : List Char) :
    pattern.accepts word = true ↔ pattern.Matches word := by
  rw [accepts, if_pos hregular]
  exact ⟨matches_of_has, has_of_matches⟩

end Logo.Pattern
