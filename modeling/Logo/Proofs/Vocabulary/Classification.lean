import Logo.Proofs.Pattern.Reading
import Logo.Vocabulary.Classifier

/-!
# Classification by regular languages

A table of rules is built up by adding rules, adding named sets of rules, and
starting anew with such a set.  A word then has the symbol of the earliest rule,
since the table was last started anew, whose regular language it belongs to.  No
change of case among the letters of ASCII makes a difference.

The one exception are capitals beyond the first plane of code points, which are
not always recognized where they stand among other characters.
-/

namespace Logo

/-! ## Changes of case -/

/-- Words that only differ in the case of letters of ASCII match alike. -/
theorem Pattern.Matches.recased
    {pattern : Pattern} {word : List Char} (hword : pattern.Matches word)
    {other : List Char}
    (hother : other.map Char.toLower = word.map Char.toLower) :
    pattern.Matches other := by
  induction hword generalizing other with
  | empty =>
      rw [List.map_nil, List.map_eq_nil_iff] at hother
      subst hother
      exact .empty
  | one hset =>
      obtain ⟨c, rfl, hc⟩ := List.map_eq_singleton_iff.mp hother
      exact .one (by rw [CharSet.has_eq_of_toLower_eq hc, hset])
  | sequence _ _ ihfirst ihsecond =>
      rw [List.map_append, List.map_eq_append_iff] at hother
      obtain ⟨front, back, rfl, hfront, hback⟩ := hother
      exact .sequence (ihfirst hfront) (ihsecond hback)
  | left _ ih => exact .left (ih hother)
  | right _ ih => exact .right (ih hother)
  | group _ ih => exact .group (ih hother)
  | never hleast =>
      rw [List.map_nil, List.map_eq_nil_iff] at hother
      subst hother
      exact .never hleast
  | again _ _ ihpattern ihrest =>
      rw [List.map_append, List.map_eq_append_iff] at hother
      obtain ⟨front, back, rfl, hfront, hback⟩ := hother
      exact .again (ihpattern hfront) (ihrest hback)

namespace Vocabulary

variable {α : Type}

/-! ## Building tables -/

namespace Edit

variable {ρ σ : Type} (loader : String → List ρ)

/-- The same edit, with the rules in another form. -/
def map (f : ρ → σ) : Edit ρ → Edit σ
  | .addRules rules => .addRules (rules.map f)
  | .addPatterns name => .addPatterns name
  | .setPatterns name => .setPatterns name

@[simp] theorem clears_map (f : ρ → σ) (edit : Edit ρ) :
    (edit.map f).clears = edit.clears := by
  cases edit <;> rfl

@[simp] theorem rules_map (f : ρ → σ) (edit : Edit ρ) :
    (edit.map f).rules (fun name => (loader name).map f) =
      (edit.rules loader).map f := by
  cases edit <;> rfl

/-- What has been done since the old rules were last forgotten, including
this. -/
def sinceLastSet : List (Edit ρ) → List (Edit ρ)
  | [] => []
  | edit :: later =>
      if later.any clears then sinceLastSet later else edit :: later

/-- The rules in force, in order of addition. -/
def standing (edits : List (Edit ρ)) : List ρ :=
  (sinceLastSet edits).flatMap (rules loader)

theorem sinceLastSet_append_singleton (edits : List (Edit ρ)) (edit : Edit ρ) :
    sinceLastSet (edits ++ [edit]) =
      if edit.clears then [edit] else sinceLastSet edits ++ [edit] := by
  induction edits with
  | nil => cases hclears : edit.clears <;> simp [sinceLastSet]
  | cons first later ih =>
      rw [List.cons_append, sinceLastSet, sinceLastSet, List.any_append, ih]
      cases hclears : edit.clears <;> cases hlater :
        later.any clears <;> simp [hclears]

end Edit

namespace Classifier

def written (rule : α × Regex) : α × String := (rule.1, rule.2.text)

/-- The table that comes of editing an empty one, up to the first expression
that cannot be read. -/
def edited (loader : String → List (α × Regex))
    (edits : List (Edit (α × Regex))) :
    Except (String × Pattern.Flaw) (Classifier α) :=
  edits.foldlM (fun table edit =>
    match (edit.map written).apply
      (fun name => (loader name).map written) table with
    | (larger, none) => .ok larger
    | (_, some trouble) => .error trouble) []

/-- A table consists of certain rules, as they are read. -/
def Holds (table : Classifier α) (rules : List (α × Regex)) : Prop :=
  List.Forall₂ (fun entry rule =>
    entry.symbol = rule.1 ∧
      Pattern.read rule.2.text = .ok entry.pattern) table rules

theorem Holds.addPairs
    {table : Classifier α} {rules : List (α × Regex)}
    (hholds : table.Holds rules) (more : List (α × Regex)) :
    ∃ larger, table.addPairs (more.map written) = (larger, none) ∧
      larger.Holds (rules ++ more) := by
  induction more generalizing table rules with
  | nil => exact ⟨table, rfl, by rwa [List.append_nil]⟩
  | cons rule more ih =>
      obtain ⟨pattern, hread, -⟩ := Pattern.read_text rule.2
      have hnext : Holds (table ++ [⟨rule.1, pattern⟩]) (rules ++ [rule]) :=
        List.rel_append hholds (.cons ⟨rfl, hread⟩ .nil)
      obtain ⟨larger, hadd, hlarger⟩ := ih hnext
      refine ⟨larger, ?_, by rwa [List.append_assoc] at hlarger⟩
      rw [List.map_cons, written, Classifier.addPairs, hread]
      exact hadd

theorem Holds.apply
    {table : Classifier α} {rules : List (α × Regex)}
    (hholds : table.Holds rules) (loader : String → List (α × Regex))
    (edit : Edit (α × Regex)) :
    ∃ larger,
      (edit.map written).apply (fun name => (loader name).map written) table =
        (larger, none) ∧
      larger.Holds
        ((if edit.clears then [] else rules) ++ edit.rules loader) := by
  have hkept :
      Holds (if edit.clears then [] else table)
        (if edit.clears then [] else rules) := by
    split
    · exact .nil
    · exact hholds
  obtain ⟨larger, hadd, hlarger⟩ := hkept.addPairs (edit.rules loader)
  refine ⟨larger, ?_, hlarger⟩
  rw [Edit.apply, Edit.clears_map, Edit.rules_map, hadd]

theorem exists_edited
    (loader : String → List (α × Regex)) (edits : List (Edit (α × Regex))) :
    ∃ table, edited loader edits = .ok table ∧
      table.Holds (Edit.standing loader edits) := by
  induction edits using List.reverseRecOn with
  | nil => exact ⟨[], rfl, .nil⟩
  | append_singleton edits edit ih =>
      obtain ⟨table, hedited, hholds⟩ := ih
      obtain ⟨larger, happly, hlarger⟩ := hholds.apply loader edit
      refine ⟨larger, ?_, ?_⟩
      · unfold edited at hedited ⊢
        rw [List.foldlM_append, hedited]
        simp only [bind, Except.bind, List.foldlM_cons, List.foldlM_nil, happly,
          pure, Except.pure]
      · -- The last edit decides whether the rules from before still stand.
        have hstanding : Edit.standing loader (edits ++ [edit]) =
            (if edit.clears then [] else Edit.standing loader edits) ++
              edit.rules loader := by
          rw [Edit.standing, Edit.sinceLastSet_append_singleton]
          split <;> simp [Edit.standing]
        rwa [hstanding]

end Classifier

/-! ## Looking up words -/

/-- A symbol is that of the earliest rule whose language has a word. -/
def IsEarliest (rules : List (α × Regex)) (word : List Char)
    (symbol : α) : Prop :=
  ∃ before regex after, rules = before ++ (symbol, regex) :: after ∧
    word ∈ regex.language ∧
    ∀ rule ∈ before, word ∉ rule.2.language

theorem isEarliest_cons_of_mem
    {rule : α × Regex} {word : List Char} (hword : word ∈ rule.2.language)
    (rules : List (α × Regex)) (symbol : α) :
    IsEarliest (rule :: rules) word symbol ↔ rule.1 = symbol := by
  constructor
  · rintro ⟨before, regex, after, hrules, -, hbefore⟩
    cases before with
    | nil =>
        cases hrules
        rfl
    | cons first before =>
        cases hrules
        exact absurd hword (hbefore rule List.mem_cons_self)
  · rintro rfl
    exact ⟨[], rule.2, rules, rfl, hword, List.forall_mem_nil _⟩

theorem isEarliest_cons_of_not_mem
    {rule : α × Regex} {word : List Char} (hword : word ∉ rule.2.language)
    (rules : List (α × Regex)) (symbol : α) :
    IsEarliest (rule :: rules) word symbol ↔ IsEarliest rules word symbol := by
  constructor
  · rintro ⟨before, regex, after, hrules, hregex, hbefore⟩
    cases before with
    | nil =>
        cases hrules
        exact absurd hregex hword
    | cons first before =>
        cases hrules
        exact ⟨before, regex, after, rfl, hregex,
          (List.forall_mem_cons.mp hbefore).2⟩
  · rintro ⟨before, regex, after, rfl, hregex, hbefore⟩
    exact ⟨rule :: before, regex, after, rfl, hregex,
      List.forall_mem_cons.mpr ⟨hword, hbefore⟩⟩

theorem isRegular_of_read
    {regex : Regex} {pattern : Pattern}
    (hread : Pattern.read regex.text = .ok pattern) :
    pattern.isRegular = true := by
  obtain ⟨found, hfound, hregular, -⟩ := Pattern.read_text regex
  rw [hread] at hfound
  cases hfound
  exact hregular

theorem accepts_iff_mem_language
    {regex : Regex} {pattern : Pattern}
    (hread : Pattern.read regex.text = .ok pattern)
    {word : List Char} (hsteady : regex.body.isSteady word = true) :
    pattern.accepts word = true ↔ word ∈ regex.language := by
  obtain ⟨found, hfound, hregular, hwords⟩ := Pattern.read_text regex
  rw [hread] at hfound
  cases hfound
  rw [Pattern.accepts_iff hregular, hwords word hsteady]

namespace Classifier

theorem symbol?_cons (entry : Rule α) (table : Classifier α) (word : String) :
    symbol? (entry :: table) word =
      if entry.pattern.accepts word.toList = true then some entry.symbol
      else table.symbol? word := by
  unfold symbol? rule?
  rw [List.find?_cons]
  cases entry.pattern.accepts word.toList <;> rfl

section Holds

variable {table : Classifier α} {rules : List (α × Regex)} {word : String}

theorem Holds.symbol?_eq_some_iff
    (hholds : table.Holds rules)
    (hsteady : ∀ rule ∈ rules, rule.2.body.isSteady word.toList = true)
    (symbol : α) :
    table.symbol? word = some symbol ↔ IsEarliest rules word.toList symbol := by
  induction hholds with
  | nil =>
      constructor
      · intro hsymbol
        cases hsymbol
      · rintro ⟨before, regex, after, hrules, -⟩
        simp at hrules
  | @cons entry rule table rules hentry _ ih =>
      rw [List.forall_mem_cons] at hsteady
      have haccepts := accepts_iff_mem_language hentry.2 hsteady.1
      rw [symbol?_cons]
      by_cases hword : word.toList ∈ rule.2.language
      · rw [if_pos (haccepts.mpr hword), isEarliest_cons_of_mem hword, hentry.1,
          Option.some_inj]
      · rw [if_neg (fun h => hword (haccepts.mp h)),
          isEarliest_cons_of_not_mem hword, ih hsteady.2]

theorem Holds.symbol?_eq_none_iff
    (hholds : table.Holds rules)
    (hsteady : ∀ rule ∈ rules, rule.2.body.isSteady word.toList = true) :
    table.symbol? word = none ↔
      ∀ rule ∈ rules, word.toList ∉ rule.2.language := by
  induction hholds with
  | nil => exact ⟨fun _ => List.forall_mem_nil _, fun _ => rfl⟩
  | @cons entry rule table rules hentry _ ih =>
      rw [List.forall_mem_cons] at hsteady
      have haccepts := accepts_iff_mem_language hentry.2 hsteady.1
      rw [symbol?_cons, List.forall_mem_cons, ← ih hsteady.2, ← haccepts]
      split
      next h => simp [h]
      next h => simp [h]

theorem Holds.isRegular (hholds : table.Holds rules) :
    ∀ entry ∈ table, entry.pattern.isRegular = true := by
  induction hholds with
  | nil => exact List.forall_mem_nil _
  | cons hentry _ ih =>
      exact List.forall_mem_cons.mpr ⟨isRegular_of_read hentry.2, ih⟩

theorem Holds.isTangledBy (hholds : table.Holds rules) (word : String) :
    table.isTangledBy word = false := by
  unfold Classifier.isTangledBy
  cases hrule : table.rule? word with
  | none => rfl
  | some entry =>
      have hregular := hholds.isRegular entry (List.mem_of_find?_eq_some hrule)
      change entry.pattern.isTangledBy word.toList = false
      rw [Pattern.isTangledBy, if_pos hregular]

theorem Holds.symbol?_recased
    (hholds : table.Holds rules) {other : String}
    (hother : other.toList.map Char.toLower = word.toList.map Char.toLower) :
    table.symbol? other = table.symbol? word := by
  have hsame : ∀ entry ∈ table,
      entry.pattern.accepts other.toList =
        entry.pattern.accepts word.toList := by
    intro entry hentry
    have hregular := hholds.isRegular entry hentry
    rw [Bool.eq_iff_iff, Pattern.accepts_iff hregular,
      Pattern.accepts_iff hregular]
    exact ⟨fun h => h.recased hother.symm, fun h => h.recased hother⟩
  unfold symbol? rule?
  rw [List.find?_congr hsame]

theorem symbol_eq_ok_iff (symbol : α) :
    table.symbol word = .ok symbol ↔ table.symbol? word = some symbol := by
  unfold Classifier.symbol
  split
  next found hfound => simp [hfound]
  next hnone => simp [hnone]

theorem symbol_eq_error_iff :
    table.symbol word = .error ⟨word⟩ ↔ table.symbol? word = none := by
  unfold Classifier.symbol
  split
  next found hfound => simp [hfound]
  next hnone => simp [hnone]

end Holds

/-- Words are classified by the earliest rule whose regular language has them,
unless a capital beyond the first plane stands in a set among others, written in
brackets or made of alternatives, and the word has a form of it. -/
theorem symbol_is_that_of_earliest_regular_language
    (loader : String → List (α × Regex)) (edits : List (Edit (α × Regex))) :
    ∃ table, edited loader edits = .ok table ∧
      (∀ text : String,
        (∀ rule ∈ Edit.standing loader edits,
          rule.2.body.isSteady text.toList = true) →
          (∀ symbol, table.symbol text = .ok symbol ↔
            IsEarliest (Edit.standing loader edits) text.toList symbol) ∧
          (table.symbol text = .error ⟨text⟩ ↔
            ∀ rule ∈ Edit.standing loader edits,
              text.toList ∉ rule.2.language) ∧
          ((table.symbol? text).isSome = true ↔
            ∃ rule ∈ Edit.standing loader edits,
              text.toList ∈ rule.2.language)) ∧
      ∀ text other : String,
        table.isTangledBy text = false ∧
          (other.toList.map Char.toLower = text.toList.map Char.toLower →
            table.symbol? other = table.symbol? text) := by
  obtain ⟨table, hedited, hholds⟩ := exists_edited loader edits
  refine ⟨table, hedited, fun text hsteady => ⟨fun symbol => ?_, ?_, ?_⟩,
    fun text other => ⟨hholds.isTangledBy text, hholds.symbol?_recased⟩⟩
  · rw [symbol_eq_ok_iff, hholds.symbol?_eq_some_iff hsteady]
  · rw [symbol_eq_error_iff, hholds.symbol?_eq_none_iff hsteady]
  · rw [Option.isSome_iff_ne_none, ne_eq, hholds.symbol?_eq_none_iff hsteady]
    simp only [not_forall, not_not, exists_prop]

end Classifier

section Examples

open Regex (Piece Body)
open scoped Computability

def onePiece (piece : Piece)
    (proper : (Body.last (.next piece .nothing)).isProper = true) : Regex :=
  ⟨.last (.next piece .nothing), proper⟩

/-- The expression `.*`, for all words without a line feed. -/
def anyLine : Regex :=
  onePiece (.repeated .anyNumber false .anyCharacter) (by decide)

def turns : List (String × Regex) :=
  [("Right",
      onePiece
        (.once (.set false [.single (.plain '𐐀'), .single (.plain 'r')]))
        (by decide)),
    ("Turn",
      onePiece
        (.repeated .oneOrMore false (.group (.last (.next
          (.repeated .anyNumber false (.letter (.plain 't'))) .nothing))))
        (by decide))]

/-- The rules of the first step are forgotten in the second. -/
def turnEdits : List (Edit (String × Regex)) :=
  [.addRules [("Forgotten", anyLine)], .setPatterns "turns",
    .addRules [("Any", anyLine)]]

def turnLoader (name : String) : List (String × Regex) :=
  if name = "turns" then turns else []

/-- The capital in the first expression does no harm to words without it. -/
theorem repeated_letter_is_classified :
    (∀ rule ∈ Edit.standing turnLoader turnEdits,
      rule.2.body.isSteady "TT".toList = true) ∧
      ∃ table, Classifier.edited turnLoader turnEdits = .ok table ∧
        table.symbol "TT" = .ok "Turn" := by
  have hstanding :
      Edit.standing turnLoader turnEdits = turns ++ [("Any", anyLine)] := rfl
  have hsteady :
      ∀ rule ∈ Edit.standing turnLoader turnEdits,
        rule.2.body.isSteady "TT".toList = true := by
    decide +kernel
  obtain ⟨table, hedited, hsymbol, -⟩ :=
    Classifier.symbol_is_that_of_earliest_regular_language turnLoader turnEdits
  refine ⟨hsteady, table, hedited, ((hsymbol "TT" hsteady).1 "Turn").mpr ?_⟩
  rw [hstanding]
  refine ⟨turns.take 1, _, [("Any", anyLine)], rfl, ?_,
    List.forall_mem_singleton.mpr ?_⟩
  · have hletter : ['T'] ∈ Regex.oneOf fun c => hasForm c (· == 't'.toNat) :=
      ⟨'T', rfl, by decide⟩
    have hletters :
        "TT".toList ∈ (Regex.oneOf fun c => hasForm c (· == 't'.toNat))∗ :=
      Language.mem_kstar.mpr ⟨[['T'], ['T']], rfl,
        List.forall_mem_cons.mpr
          ⟨hletter, List.forall_mem_singleton.mpr hletter⟩⟩
    exact ⟨"TT".toList, ⟨"TT".toList, ⟨"TT".toList, hletters, [], rfl, rfl⟩, [],
      Language.nil_mem_kstar _, rfl⟩, [], rfl, rfl⟩
  · rintro ⟨front, ⟨c, rfl, -⟩, back, hback, heq⟩
    cases hback
    simp at heq

def capitals : List Regex :=
  [onePiece
      (.once (.set false [.single (.plain '𐐀'), .single (.plain 'x')]))
      (by decide),
    ⟨.or (.next (.once (.letter (.plain '𐐀'))) .nothing)
      (.last (.next (.once (.letter (.plain 'x'))) .nothing)), by decide⟩]

/-- Capitals beyond the first plane are missed among other characters. -/
theorem capital_among_others_is_not_recognized :
    capitals.map Regex.text = ["[𐐀x]", "𐐀|x"] ∧
      ∀ regex ∈ capitals, "𐐀".toList ∈ regex.language ∧
        ∃ table, Classifier.edited (fun _ => [])
          [.addRules [("X", regex)]] = .ok table ∧
          table.symbol "𐐀" = .error ⟨"𐐀"⟩ := by
  have hform : hasForm '𐐀' (· == '𐐀'.toNat) = true := by decide +kernel
  refine ⟨rfl,
    List.forall_mem_cons.mpr ⟨⟨?_, _, rfl, ?_⟩, List.forall_mem_singleton.mpr
    ⟨?_, _, rfl, ?_⟩⟩⟩
  · refine ⟨['𐐀'], ⟨'𐐀', rfl, ?_⟩, [], rfl, rfl⟩
    change (false != (hasForm '𐐀' (· == '𐐀'.toNat) || _)) = true
    rw [hform]
    rfl
  · exact Classifier.symbol_eq_error_iff.mpr (by decide +kernel)
  · exact .inl ⟨['𐐀'], ⟨'𐐀', rfl, hform⟩, [], rfl, rfl⟩
  · exact Classifier.symbol_eq_error_iff.mpr (by decide +kernel)

end Examples

end Vocabulary

end Logo
