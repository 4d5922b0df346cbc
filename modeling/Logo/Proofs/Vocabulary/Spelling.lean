import Logo.Proofs.Vocabulary.Kinds
import Logo.Token

/-!
# How words are spelled

The kind of a word comes from the pattern that it matches.  A bracket or a
parenthesis is spelled in one way only, and a remark is recognised by its first
character.  The tokens of a text are of the kinds that their spellings decide.
-/

namespace Logo

open Vocabulary

namespace Vocabulary.WordKind

def bracket? : WordKind → Option Char
  | .listStart => some '['
  | .listEnd => some ']'
  | .groupStart => some '('
  | .groupEnd => some ')'
  | _ => none

theorem eq_of_bracket?
    {word : String} {kind : WordKind} {c : Char}
    (hkind : of? word = some kind) (hbracket : kind.bracket? = some c) :
    word = String.ofList [c] := by
  have hspells := of?_eq_some_iff.mp hkind
  have hletters : word.toList = [c] := by
    cases kind <;> cases hbracket <;> exact hspells
  rw [← hletters, String.ofList_toList]

/-- A remark is recognised by its first character. -/
theorem of?_eq_comment_iff {letters : List Char} (hletters : '\n' ∉ letters) :
    of? (String.ofList letters) = some .comment ↔ letters.head? = some '#' := by
  rw [of?_eq_some_iff, String.toList_ofList]
  exact and_iff_left hletters

theorem isConstant_of_of? {word : String} (hkind : of? word = some .constant) :
    IsConstant word.toList :=
  of?_eq_some_iff.mp hkind

end Vocabulary.WordKind

namespace Token

/-- A token whose spelling is that of its kind. -/
def Spelled (token : Token) : Prop := WordKind.of? token.text = some token.kind

/-- A list of tokens that some text is cut into. -/
def IsScanned (tokens : List Token) : Prop :=
  ∃ index path text, (scan index path text).1 = .ok tokens

theorem spelled_of_scanLine
    {index : Source.Index} {line : List Word} {tokens : List Token}
    (hscan : (scanLine index line).1 = .ok tokens) :
    ∀ token ∈ tokens, token.Spelled := by
  induction line generalizing index tokens with
  | nil =>
      cases hscan
      simp
  | cons word rest ih =>
      simp only [scanLine] at hscan
      split at hscan
      next => cases hscan
      next =>
        cases hscan
        simp
      next kind _ hkind =>
        split at hscan
        next others last hrest =>
          cases hscan
          rw [List.forall_mem_cons]
          exact ⟨hkind, ih (congrArg Prod.fst hrest)⟩
        next => cases hscan

theorem spelled_of_scanLines
    {index : Source.Index} {lines : List (List Word)} {tokens : List Token}
    (hscan : (scanLines index lines).1 = .ok tokens) :
    ∀ token ∈ tokens, token.Spelled := by
  induction lines generalizing index tokens with
  | nil =>
      cases hscan
      simp
  | cons line rest ih =>
      simp only [scanLines] at hscan
      split at hscan
      next => cases hscan
      next here between hline =>
        split at hscan
        next others last hrest =>
          cases hscan
          rw [List.forall_mem_append]
          exact ⟨spelled_of_scanLine (congrArg Prod.fst hline),
            ih (congrArg Prod.fst hrest)⟩
        next => cases hscan

/-- The kind of a token of a text is the one that its spelling decides. -/
theorem IsScanned.spelled {tokens : List Token} (hscanned : IsScanned tokens) :
    ∀ token ∈ tokens, token.Spelled := by
  obtain ⟨index, path, text, hscan⟩ := hscanned
  exact spelled_of_scanLines hscan

end Token

end Logo
