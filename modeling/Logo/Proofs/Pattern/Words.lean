import Logo.Proofs.Pattern.Matches
import Logo.Proofs.Pattern.Regex
import Logo.Proofs.Text.Folding

/-!
# The words of a pattern as a language

The words of a regular pattern make up a language, and what the reader does with
the alternatives of a group can be told from the laws of languages.  A common
beginning is read before the choice, because products distribute over sums.
Alternatives of one character each become one set, which only goes wrong where a
member is met in another way among others than alone.
-/

namespace Logo

open Regex (oneOf times)
open scoped Computability

/-! ## Sets -/

namespace Member

/-- Whether a member by itself stands for a character, regardless of case. -/
def meets (c : Char) : Member → Bool
  | .single code => hasForm c (· == code)
  | member => member.has c

theorem has_eq_meets
    {member : Member} {word : List Char} (hsteady : member.isSteady word = true)
    {c : Char} (hc : c ∈ word) : member.has c = member.meets c := by
  cases member with
  | single code =>
      simp only [isSteady, Regex.isSteady, Bool.or_eq_true,
        decide_eq_true_eq, beq_iff_eq, Bool.not_eq_true', List.any_eq_false,
        or_assoc] at hsteady
      unfold has meets
      dsimp only
      split
      next => rfl
      next hfirst =>
        rw [Bool.eq_iff_iff, beq_iff_eq]
        constructor
        · intro hlower
          have hmem : Text.lower c ∈ Text.variants c :=
            Text.lower_mem_variants (by omega)
          exact List.any_eq_true.mpr ⟨Text.lower c, hmem, beq_iff_eq.mpr hlower⟩
        · intro hform
          obtain ⟨d, hmem, hd⟩ := List.any_eq_true.mp hform
          have hcode : d.toNat = code := beq_iff_eq.mp hd
          subst hcode
          rcases hsteady.resolve_left hfirst with hsmall | hnone
          · rw [Char.ofNat_toNat, Char.toNat_inj] at hsmall
            rw [Text.lower_eq_of_mem_variants
              (Nat.le_of_not_lt hfirst) hsmall hmem]
          · exact absurd hform (hnone c hc)
  | range first last => rfl
  | named cls => rfl

end Member

namespace CharSet

theorem has_of_isSteady
    {members : List Member} {word : List Char}
    (hsteady : ∀ member ∈ members, member.isSteady word = true) (negated : Bool)
    {c : Char} (hc : c ∈ word) :
    has ⟨negated, members⟩ c = (negated != members.any (·.meets c)) := by
  have hany : members.any (·.has c) = members.any (·.meets c) := by
    rw [Bool.eq_iff_iff, List.any_eq_true, List.any_eq_true]
    refine exists_congr fun member => and_congr_right fun hmem => ?_
    rw [Member.has_eq_meets (hsteady member hmem) hc]
  unfold has
  split
  next code heq =>
    have hmembers : members = [.single code] := heq
    simp [hmembers, Member.meets]
  next => rw [hany]

theorem has_of_length_le_one
    {members : List Member} (hfew : members.length ≤ 1) (negated : Bool)
    (c : Char) :
    has ⟨negated, members⟩ c = (negated != members.any (·.meets c)) := by
  cases members with
  | nil => rfl
  | cons member rest =>
      have hrest : rest = [] :=
        List.eq_nil_of_length_eq_zero (by simpa using hfew)
      subst hrest
      cases member <;> simp [has, Member.meets]

/-- The members of a set that are written down several times count once. -/
theorem any_eraseDups (members : List Member) (test : Member → Bool) :
    members.eraseDups.any test = members.any test := by
  rw [Bool.eq_iff_iff, List.any_eq_true, List.any_eq_true]
  simp only [List.mem_eraseDups]

end CharSet

namespace Regex

theorem mem_oneOf {test : Char → Bool} {word : List Char} :
    word ∈ oneOf test ↔ ∃ c, word = [c] ∧ test c = true :=
  Iff.rfl

theorem oneOf_false : oneOf (fun _ => false) = 0 := by
  ext word
  simp [mem_oneOf]

theorem oneOf_add (test test' : Char → Bool) :
    oneOf test + oneOf test' = oneOf fun c => test c || test' c := by
  ext word
  rw [Language.mem_add]
  simp only [mem_oneOf, Bool.or_eq_true]
  constructor
  · rintro (⟨c, hword, htest⟩ | ⟨c, hword, htest⟩)
    · exact ⟨c, hword, .inl htest⟩
    · exact ⟨c, hword, .inr htest⟩
  · rintro ⟨c, hword, htest | htest⟩
    · exact .inl ⟨c, hword, htest⟩
    · exact .inr ⟨c, hword, htest⟩

end Regex

/-! ## Languages over the characters of a word -/

/-- Two languages have the same words as far as these have no other characters
than a given word. -/
def AgreeOn (word : List Char) (language language' : Language Char) : Prop :=
  ∀ other ⊆ word, other ∈ language ↔ other ∈ language'

namespace AgreeOn

variable {word : List Char} {first first' second second' : Language Char}

theorem refl (language : Language Char) : AgreeOn word language language :=
  fun _ _ => Iff.rfl

theorem trans (hfirst : AgreeOn word first second)
    (hsecond : AgreeOn word second second') :
    AgreeOn word first second' :=
  fun other hother => (hfirst other hother).trans (hsecond other hother)

theorem symm (hfirst : AgreeOn word first first') : AgreeOn word first' first :=
  fun other hother => (hfirst other hother).symm

theorem oneOf {test test' : Char → Bool}
    (hsame : ∀ c ∈ word, test c = test' c) :
    AgreeOn word (oneOf test) (oneOf test') := by
  intro other hother
  simp only [Regex.mem_oneOf]
  refine exists_congr fun c => and_congr_right fun heq => ?_
  rw [hsame c (hother (by simp [heq]))]

theorem add (hfirst : AgreeOn word first first')
    (hsecond : AgreeOn word second second') :
    AgreeOn word (first + second) (first' + second') := by
  intro other hother
  rw [Language.mem_add, Language.mem_add, hfirst other hother,
    hsecond other hother]

theorem mul (hfirst : AgreeOn word first first')
    (hsecond : AgreeOn word second second') :
    AgreeOn word (first * second) (first' * second') := by
  intro other hother
  rw [Language.mem_mul, Language.mem_mul]
  constructor
  · rintro ⟨front, hfront, back, hback, rfl⟩
    obtain ⟨hfrontSub, hbackSub⟩ := List.append_subset.mp hother
    exact ⟨front, (hfirst front hfrontSub).mp hfront, back,
      (hsecond back hbackSub).mp hback, rfl⟩
  · rintro ⟨front, hfront, back, hback, rfl⟩
    obtain ⟨hfrontSub, hbackSub⟩ := List.append_subset.mp hother
    exact ⟨front, (hfirst front hfrontSub).mpr hfront, back,
      (hsecond back hbackSub).mpr hback, rfl⟩

theorem mem_kstar
    (hfirst : AgreeOn word first first') {other : List Char}
    (hother : other ⊆ word) (hmem : other ∈ first∗) : other ∈ first'∗ := by
  rw [Language.mem_kstar] at hmem ⊢
  obtain ⟨pieces, rfl, hpieces⟩ := hmem
  refine ⟨pieces, rfl,
    fun piece hpiece => (hfirst piece ?_).mp (hpieces piece hpiece)⟩
  exact fun c hc => hother (List.mem_flatten_of_mem hpiece hc)

theorem kstar (hfirst : AgreeOn word first first') :
    AgreeOn word first∗ first'∗ :=
  fun _ hother => ⟨hfirst.mem_kstar hother, hfirst.symm.mem_kstar hother⟩

theorem times (hfirst : AgreeOn word first first') (count : Pattern.Count) :
    AgreeOn word (times first count) (times first' count) := by
  cases count with
  | anyNumber => exact hfirst.kstar
  | oneOrMore => exact hfirst.mul hfirst.kstar
  | atMostOne => exact (refl 1).add hfirst

end AgreeOn

namespace Pattern

def words (pattern : Pattern) : Language Char := {word | pattern.Matches word}

theorem mem_words {pattern : Pattern} {word : List Char} :
    word ∈ pattern.words ↔ pattern.Matches word :=
  Iff.rfl

@[simp] theorem words_empty : words .empty = 1 := by
  ext word
  rw [mem_words, Language.mem_one]
  constructor
  · intro hword
    cases hword
    rfl
  · rintro rfl
    exact .empty

@[simp] theorem words_one (set : CharSet) :
    words (.one set) = oneOf set.has := by
  ext word
  rw [mem_words, Regex.mem_oneOf]
  constructor
  · intro hword
    cases hword with
    | one hset => exact ⟨_, rfl, hset⟩
  · rintro ⟨c, rfl, hset⟩
    exact .one hset

@[simp] theorem words_sequence (first second : Pattern) :
    words (.sequence first second) = first.words * second.words := by
  ext word
  rw [mem_words, Language.mem_mul]
  constructor
  · intro hword
    cases hword with
    | sequence hfirst hsecond => exact ⟨_, hfirst, _, hsecond, rfl⟩
  · rintro ⟨front, hfirst, back, hsecond, rfl⟩
    exact .sequence hfirst hsecond

@[simp] theorem words_choice (first second : Pattern) :
    words (.choice first second) = first.words + second.words := by
  ext word
  rw [mem_words, Language.mem_add]
  constructor
  · intro hword
    cases hword with
    | left hfirst => exact .inl hfirst
    | right hsecond => exact .inr hsecond
  · rintro (hfirst | hsecond)
    · exact .left hfirst
    · exact .right hsecond

@[simp] theorem words_group (number : Nat) (pattern : Pattern) :
    words (.group number pattern) = pattern.words := by
  ext word
  rw [mem_words, mem_words]
  constructor
  · intro hword
    cases hword with
    | group hpattern => exact hpattern
  · exact .group

theorem words_anyNumber (manner : Manner) (pattern : Pattern) :
    words (.repeated .anyNumber manner pattern) = pattern.words∗ := by
  ext word
  rw [mem_words, Language.mem_kstar]
  constructor
  · intro hword
    generalize hrepeated : Pattern.repeated .anyNumber manner pattern =
      whole at hword
    induction hword with
    | never hleast => exact ⟨[], rfl, by simp⟩
    | again hpattern hrest _ ih =>
        obtain ⟨rfl, rfl, rfl⟩ := repeated.inj hrepeated
        obtain ⟨pieces, rfl, hpieces⟩ := ih rfl
        refine ⟨_ :: pieces, rfl, List.forall_mem_cons.mpr ⟨hpattern, hpieces⟩⟩
    | _ => cases hrepeated
  · rintro ⟨pieces, rfl, hpieces⟩
    induction pieces with
    | nil => exact .never rfl
    | cons piece rest ih =>
        rw [List.forall_mem_cons] at hpieces
        exact .again hpieces.1 (ih hpieces.2)

@[simp] theorem words_repeated (count : Count) (manner : Manner)
    (pattern : Pattern) :
    words (.repeated count manner pattern) = times pattern.words count := by
  cases count with
  | anyNumber => exact words_anyNumber manner pattern
  | oneOrMore =>
      ext word
      rw [times, ← words_anyNumber manner, ← words_sequence,
        mem_words, mem_words]
      constructor
      · intro hword
        cases hword with
        | never hleast => cases hleast
        | again hpattern hrest => exact .sequence hpattern hrest
      · intro hword
        cases hword with
        | sequence hpattern hrest => exact .again hpattern hrest
  | atMostOne =>
      ext word
      rw [times, Language.mem_add, Language.mem_one, mem_words, mem_words]
      constructor
      · intro hword
        cases hword with
        | never hleast => exact .inl rfl
        | again hpattern hrest =>
            cases hrest
            rw [List.append_nil]
            exact .inr hpattern
      · rintro (rfl | hpattern)
        · exact .never rfl
        · rw [← List.append_nil word]
          exact .again hpattern .empty

/-! ## Sequences and choices -/

theorem words_inSequence (patterns : List Pattern) :
    (inSequence patterns).words = (patterns.map words).prod := by
  induction patterns with
  | nil => simp [inSequence]
  | cons first rest ih =>
      cases rest with
      | nil => simp [inSequence]
      | cons second others =>
          change words (.sequence first (inSequence (second :: others))) = _
          rw [words_sequence, ih, ← List.prod_cons, ← List.map_cons]

theorem words_inChoice {patterns : List Pattern} (hsome : patterns ≠ []) :
    (inChoice patterns).words = (patterns.map words).sum := by
  induction patterns with
  | nil => exact absurd rfl hsome
  | cons first rest ih =>
      cases rest with
      | nil => simp [inChoice]
      | cons second others =>
          change words (.choice first (inChoice (second :: others))) = _
          rw [words_choice, ih (by simp), ← List.sum_cons, ← List.map_cons]

theorem isRegular_inSequence
    {patterns : List Pattern}
    (hregular : ∀ pattern ∈ patterns, pattern.isRegular = true) :
    (inSequence patterns).isRegular = true := by
  induction patterns with
  | nil => rfl
  | cons first rest ih =>
      rw [List.forall_mem_cons] at hregular
      cases rest with
      | nil => exact hregular.1
      | cons second others =>
          simp [inSequence, isRegular, hregular.1, ih hregular.2]

theorem isRegular_inChoice
    {patterns : List Pattern}
    (hregular : ∀ pattern ∈ patterns, pattern.isRegular = true) :
    (inChoice patterns).isRegular = true := by
  induction patterns with
  | nil => rfl
  | cons first rest ih =>
      rw [List.forall_mem_cons] at hregular
      cases rest with
      | nil => exact hregular.1
      | cons second others =>
          simp [inChoice, isRegular, hregular.1, ih hregular.2]

/-! ## Groups -/

/-- The set that a part is, if it is a single character. -/
def Part.set? : Part → Option CharSet
  | .simple (.one set) => some set
  | _ => none

/-- Parts that are no places and no copies. -/
def Part.IsOrdinary (part : Part) : Prop :=
  ∀ p, part = .simple p → part.set?.isSome = true

/-- The words of the parts of an alternative, one after the other. -/
def wordsOf (parts : List Part) : Language Char :=
  (parts.map (·.pattern.words)).prod

@[simp] theorem wordsOf_nil : wordsOf [] = 1 := rfl

@[simp] theorem wordsOf_cons (part : Part) (parts : List Part) :
    wordsOf (part :: parts) = part.pattern.words * wordsOf parts := by
  simp [wordsOf]

theorem wordsOf_append (front back : List Part) :
    wordsOf (front ++ back) = wordsOf front * wordsOf back := by
  simp [wordsOf]

/-- The common beginning and what is left make up the alternatives. -/
theorem map_sharedStart (first : List Part) (others : List (List Part)) :
    (sharedStart first others).2.map
      ((sharedStart first others).1.map Part.simple ++ ·) =
      first :: others := by
  fun_induction sharedStart first others with
  | case1 p rest others hall shared alternatives hshared ih =>
      rw [hshared] at ih
      have hothers :
          (others.map List.tail).map (Part.simple p :: ·) = others := by
        rw [List.map_map]
        refine (List.map_congr_left fun parts hparts => ?_).trans
          (List.map_id others)
        have hhead := List.all_eq_true.mp hall parts hparts
        rw [decide_eq_true_eq] at hhead
        obtain ⟨behind, rfl⟩ := List.head?_eq_some_iff.mp hhead
        rfl
      calc
        alternatives.map ((p :: shared).map Part.simple ++ ·)
          = (alternatives.map (shared.map Part.simple ++ ·)).map
              (Part.simple p :: ·) := by
            rw [List.map_map]
            rfl
        _ = (rest :: others.map List.tail).map (Part.simple p :: ·) := by
          rw [ih]
        _ = (.simple p :: rest) :: others := by rw [List.map_cons, hothers]
  | case2 => simp
  | case3 => simp

/-- The common beginning goes as far as it can. -/
theorem exists_head?_ne_of_sharedStart
    (first : List Part) (others : List (List Part)) (p : Pattern) :
    ∃ parts ∈ (sharedStart first others).2, parts.head? ≠ some (.simple p) := by
  fun_induction sharedStart first others with
  | case1 q rest others hall shared alternatives hshared ih =>
      rw [hshared] at ih
      exact ih
  | case2 q rest others hall =>
      by_cases heq : q = p
      · subst heq
        rw [List.all_eq_true] at hall
        push Not at hall
        obtain ⟨parts, hparts, hhead⟩ := hall
        exact ⟨parts, List.mem_cons_of_mem _ hparts,
          fun h => hhead (decide_eq_true h)⟩
      · exact ⟨_, List.mem_cons_self, fun h => heq (by simpa using h)⟩
  | case3 first others hfirst =>
      refine ⟨first, List.mem_cons_self, fun h => ?_⟩
      obtain ⟨behind, rfl⟩ := List.head?_eq_some_iff.mp h
      exact hfirst p behind rfl

/-- Products distribute over sums, so the common beginning may be read before
the choice. -/
theorem words_sharedStart (first : List Part) (others : List (List Part)) :
    ((sharedStart first others).1.map words).prod *
        ((sharedStart first others).2.map wordsOf).sum =
      ((first :: others).map wordsOf).sum := by
  have hfront : ((sharedStart first others).1.map words).prod =
      wordsOf ((sharedStart first others).1.map Part.simple) := by
    rw [wordsOf, List.map_map]
    rfl
  rw [← map_sharedStart first others, List.map_map,
    hfront, ← List.sum_map_mul_left]
  simp only [Function.comp_def, wordsOf_append]

theorem exists_of_members? {parts : List Part} {members : List Member}
    (hmembers : Part.members? parts = some members) :
    parts = [.simple (.one ⟨false, members⟩)] := by
  unfold Part.members? at hmembers
  split at hmembers
  · cases hmembers
    rfl
  · cases hmembers

theorem eq_map_of_members?
    {alternatives : List (List Part)} {sets : List (List Member)}
    (hsets : alternatives.mapM Part.members? = some sets) :
    alternatives =
      sets.map fun members => [.simple (.one ⟨false, members⟩)] := by
  induction alternatives generalizing sets with
  | nil =>
      cases hsets
      rfl
  | cons parts rest ih =>
      rw [List.mapM_cons] at hsets
      obtain ⟨members, hmembers, hrest⟩ := Option.bind_eq_some_iff.mp hsets
      obtain ⟨others, hothers, hpure⟩ := Option.bind_eq_some_iff.mp hrest
      cases hpure
      rw [exists_of_members? hmembers, ih hothers, List.map_cons]

section Steady

variable {word : List Char}

theorem agreeOn_sum_wordsOf
    {sets : List (List Member)}
    (hsteady : ∀ members ∈ sets, ∀ member ∈ members,
      member.isSteady word = true) :
    AgreeOn word
      (oneOf fun c => sets.any fun members => members.any (·.meets c))
      ((sets.map fun members => [Part.simple (.one ⟨false, members⟩)]).map
        wordsOf).sum := by
  induction sets with
  | nil =>
      change AgreeOn word (oneOf fun _ => false) 0
      rw [Regex.oneOf_false]
      exact .refl 0
  | cons members rest ih =>
      rw [List.forall_mem_cons] at hsteady
      have hwords : AgreeOn word (oneOf fun c => members.any (·.meets c))
          (wordsOf [.simple (.one ⟨false, members⟩)]) := by
        rw [wordsOf_cons, wordsOf_nil, mul_one]
        change AgreeOn word _ (words (.one ⟨false, members⟩))
        rw [words_one]
        refine .oneOf fun c hc => ?_
        rw [CharSet.has_of_isSteady hsteady.1 false hc, Bool.false_bne]
      have hadd := hwords.add (ih hsteady.2)
      rw [Regex.oneOf_add] at hadd
      exact hadd

theorem words_choiceOf
    {alternatives : List (List Part)} (hsome : alternatives ≠ [])
    (hsteady : ∀ sets, alternatives.mapM Part.members? = some sets →
      ∀ members ∈ sets, ∀ member ∈ members, member.isSteady word = true) :
    AgreeOn word (choiceOf alternatives).words
      (alternatives.map wordsOf).sum := by
  unfold choiceOf
  split
  next sets hsets =>
    have hmembers := hsteady sets hsets
    have hflat :
        ∀ member ∈ sets.flatten.eraseDups, member.isSteady word = true := by
      intro member hmember
      obtain ⟨members, hset, hmem⟩ :=
        List.mem_flatten.mp (List.mem_eraseDups.mp hmember)
      exact hmembers members hset member hmem
    rw [words_one, eq_map_of_members? hsets]
    refine AgreeOn.trans (.oneOf fun c hc => ?_) (agreeOn_sum_wordsOf hmembers)
    rw [CharSet.has_of_isSteady hflat false hc, Bool.false_bne,
      CharSet.any_eraseDups, List.any_flatten]
  next =>
    have hpatterns :
        (alternatives.map fun parts => inSequence (parts.map Part.pattern)) ≠
          [] := by
      simpa using hsome
    have hsum :
        (inChoice
          (alternatives.map
            fun parts => inSequence (parts.map Part.pattern))).words =
          (alternatives.map wordsOf).sum := by
      rw [words_inChoice hpatterns, List.map_map]
      congr 1
      refine List.map_congr_left fun parts _ => ?_
      simp [words_inSequence, wordsOf, Function.comp_def]
    rw [hsum]
    exact .refl _

/-- Alternatives that end with different sets behind the same single characters
are joined. -/
theorem areJoined_of_eq_map
    {front : List (Option CharSet)} (hfront : ∀ set ∈ front, set.isSome = true)
    {sets : List (List Member)}
    (hsets : ∀ members, ∃ other ∈ sets, other ≠ members) :
    Regex.areJoined
      (sets.map fun members => front ++ [some ⟨false, members⟩]) = true := by
  have hlast (members : List Member) :
      Regex.lastMembers? (front ++ [some ⟨false, members⟩]) = some members := by
    simp [Regex.lastMembers?]
  cases sets with
  | nil =>
      obtain ⟨_, hnone, -⟩ := hsets []
      cases hnone
  | cons first others =>
      rw [List.map_cons]
      unfold Regex.areJoined
      simp only [Bool.and_eq_true]
      refine ⟨⟨?_, ?_⟩, ?_⟩
      · rw [List.dropLast_concat]
        exact List.all_eq_true.mpr hfront
      · rw [List.all_cons, List.all_map]
        simp [hlast, Function.comp_def]
      · obtain ⟨other, hother, hne⟩ := hsets first
        have hmem := (List.mem_cons.mp hother).resolve_left hne
        refine List.any_eq_true.mpr ⟨_, List.mem_map_of_mem hmem, ?_⟩
        simpa using hne

/-- Where the reader makes one set of the alternatives of a group, their members
are steady. -/
theorem isSteady_of_areSteady
    {first : List Part} {others : List (List Part)}
    (hordinary : ∀ parts ∈ first :: others, ∀ part ∈ parts, part.IsOrdinary)
    (hsteady : Regex.areSteady word
      ((first :: others).map (·.map Part.set?)) = true)
    {sets : List (List Member)}
    (hsets : (sharedStart first others).2.mapM Part.members? = some sets) :
    ∀ members ∈ sets, ∀ member ∈ members, member.isSteady word = true := by
  have hrest := eq_map_of_members? hsets
  have hwhole := map_sharedStart first others
  have hfurther := exists_head?_ne_of_sharedStart first others
  generalize (sharedStart first others).1 = shared at hwhole
  generalize (sharedStart first others).2 = rest at hrest hwhole hfurther
  subst hrest
  have hshown : (first :: others).map (·.map Part.set?) =
      sets.map fun members =>
        (shared.map Part.simple).map Part.set? ++ [some ⟨false, members⟩] := by
    rw [← hwhole, List.map_map, List.map_map]
    refine List.map_congr_left fun members _ => ?_
    simp [Part.set?]
  have hdiffer (members : List Member) : ∃ other ∈ sets, other ≠ members := by
    obtain ⟨parts, hparts, hne⟩ := hfurther (.one ⟨false, members⟩)
    obtain ⟨other, hother, rfl⟩ := List.mem_map.mp hparts
    refine ⟨other, hother, fun heq => hne ?_⟩
    rw [heq]
    rfl
  have hfront :
      ∀ set ∈ (shared.map Part.simple).map Part.set?, set.isSome = true := by
    rw [← hwhole, List.forall_mem_map, List.forall_mem_map] at hordinary
    obtain ⟨members, hmembers, -⟩ := hdiffer []
    refine List.forall_mem_map.mpr fun part hpart => ?_
    obtain ⟨p, -, rfl⟩ := List.mem_map.mp hpart
    exact hordinary members hmembers _ (List.mem_append_left _ hpart) p rfl
  rw [hshown, Regex.areSteady, areJoined_of_eq_map hfront hdiffer] at hsteady
  intro members hmembers
  have hall := List.all_eq_true.mp hsteady members ?_
  · exact List.all_eq_true.mp hall
  · refine List.mem_filterMap.mpr ⟨_, List.mem_map_of_mem hmembers, ?_⟩
    simp [Regex.lastMembers?]

end Steady

theorem isRegular_choiceOf
    {alternatives : List (List Part)}
    (hregular : ∀ parts ∈ alternatives, ∀ part ∈ parts,
      part.pattern.isRegular = true) :
    (choiceOf alternatives).isRegular = true := by
  unfold choiceOf
  split
  next => rfl
  next =>
    refine isRegular_inChoice (List.forall_mem_map.mpr fun parts hparts => ?_)
    exact isRegular_inSequence (List.forall_mem_map.mpr (hregular parts hparts))

namespace OpenGroup

variable {group : OpenGroup}

theorem words_finish
    {word : List Char}
    (hordinary : ∀ parts ∈ group.next.alternatives, ∀ part ∈ parts,
      part.IsOrdinary)
    (hsteady :
      Regex.areSteady word
        (group.next.alternatives.map (·.map Part.set?)) = true) :
    AgreeOn word group.finish.words
      (group.next.alternatives.map wordsOf).sum := by
  unfold finish
  split
  next hnone => simp [next] at hnone
  next parts hparts =>
    have hwords :
        (inSequence (parts.map Part.pattern)).words =
          ([parts].map wordsOf).sum := by
      rw [words_inSequence]
      simp [wordsOf, Function.comp_def]
    rw [hparts, hwords]
    exact .refl _
  next first others _ hparts =>
    rw [hparts] at hordinary hsteady ⊢
    obtain ⟨parts, hsome, -⟩ :=
      exists_head?_ne_of_sharedStart first others .empty
    rw [words_inSequence, List.map_append, List.prod_append, List.map_singleton,
      List.prod_singleton, ← words_sharedStart]
    refine (AgreeOn.refl _).mul
      (words_choiceOf (List.ne_nil_of_mem hsome) fun sets hsets => ?_)
    exact isSteady_of_areSteady hordinary hsteady hsets

theorem isRegular_finish
    (hregular : ∀ parts ∈ group.next.alternatives, ∀ part ∈ parts,
      part.pattern.isRegular = true) :
    group.finish.isRegular = true := by
  unfold finish
  split
  next => rfl
  next parts hparts =>
    rw [hparts, List.forall_mem_singleton] at hregular
    exact isRegular_inSequence (List.forall_mem_map.mpr hregular)
  next first others _ hparts =>
    rw [hparts, ← map_sharedStart first others, List.forall_mem_map] at hregular
    obtain ⟨parts, hsome, -⟩ :=
      exists_head?_ne_of_sharedStart first others .empty
    refine isRegular_inSequence
      (List.forall_mem_append.mpr ⟨fun p hp => ?_, ?_⟩)
    · exact hregular parts hsome (.simple p) (by simp [hp])
    · refine List.forall_mem_singleton.mpr
        (isRegular_choiceOf fun parts hmem part hpart => ?_)
      exact hregular parts hmem part (List.mem_append_right _ hpart)

end OpenGroup

end Pattern

end Logo
