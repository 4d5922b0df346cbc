import Logo.Proofs.Execution.RunsAlike
import Logo.Proofs.Program.Rendering

/-!
# Programs do not depend on their words

The same program can be written in two languages, and its instruction words in
upper or lower case.  As long as the words say the same one by one, one program
is accepted exactly when the other one is, and then both do the same to the same
world.  Where they are not accepted, or fail, it is for the same reason and at
corresponding words.
-/

namespace Logo

open Vocabulary Execution

/-- Two words say the same, each in its language.  A word that means an
instruction says the same as any word for this instruction; other instruction
words are the names of procedures, for which case does not matter. -/
structure Token.SaysTheSame (lexicon lexicon' : Lexicon)
    (token token' : Token) : Prop where
  kind : token.kind = token'.kind
  text : token.kind = .constant ∨ token.kind = .variable →
    token.text = token'.text
  command :
    token.kind = .command →
      (∃ symbol, lexicon.translate? token.text = some symbol ∧
        lexicon'.translate? token'.text = some symbol) ∨
      (lexicon.translate? token.text = none ∧
        lexicon'.translate? token'.text = none ∧
        Text.lowered token.text = Text.lowered token'.text)

/-- Two words stand at the same place of two programs. -/
def Token.Paired (tokens tokens' : List Token) (token token' : Token) : Prop :=
  ∃ i : Nat, tokens[i]? = some token ∧ tokens'[i]? = some token'

/-- Two programs that were read from two lists of tokens mean the same: their
expressions differ in paired tokens only, they define the same procedures with
the same numbers of inputs, and from every world, under all limits and in both
modes, they yield the same value or similar faults, and lead to worlds that
differ in the tokens of stored procedures only. -/
structure Reader.MeansTheSame (tokens tokens' : List Token)
    (reader reader' : Reader) :
    Prop where
  body :
    List.Forall₂
      (Expr.Similar (Token.Paired tokens tokens')) reader.body reader'.body
  arities : reader.arities = reader'.arities
  runs :
    ∀ limits mode world,
      Outcome.Similar
        (fun token token' => token = token' ∨
          Token.Paired tokens tokens' token token') Eq
        (program limits mode reader.body world)
        (program limits mode reader'.body world)

namespace Token

variable {lexicon lexicon' : Lexicon} {tokens tokens' : List Token}

namespace SaysTheSame

variable {token token' : Token}

theorem of_text
    (hkind : token.kind = token'.kind) (htext : token.text = token'.text)
    (hcommand : token.kind ≠ .command) :
    SaysTheSame lexicon lexicon' token token' :=
  ⟨hkind, fun _ => htext, fun h => absurd h hcommand⟩

theorem of_symbol
    {symbol : String} (hkind : token.kind = .command)
    (hkind' : token'.kind = .command)
    (hknown : lexicon.translate? token.text = some symbol)
    (hknown' : lexicon'.translate? token'.text = some symbol) :
    SaysTheSame lexicon lexicon' token token' where
  kind := by rw [hkind, hkind']
  text := by simp [hkind]
  command _ := .inl ⟨symbol, hknown, hknown'⟩

theorem of_name
    (hkind : token.kind = .command) (hkind' : token'.kind = .command)
    (hunknown : lexicon.translate? token.text = none)
    (hunknown' : lexicon'.translate? token'.text = none)
    (hname : Text.lowered token.text = Text.lowered token'.text) :
    SaysTheSame lexicon lexicon' token token' where
  kind := by rw [hkind, hkind']
  text := by simp [hkind]
  command _ := .inr ⟨hunknown, hunknown', hname⟩

end SaysTheSame

theorem forall₂_paired (hlength : tokens.length = tokens'.length) :
    List.Forall₂ (Paired tokens tokens') tokens tokens' := by
  rw [List.forall₂_iff_get]
  refine ⟨hlength, fun i hi hi' => ⟨i, ?_, ?_⟩⟩
  · exact List.getElem?_eq_getElem hi
  · exact List.getElem?_eq_getElem hi'

theorem Paired.saysTheSame
    (htokens : List.Forall₂ (SaysTheSame lexicon lexicon') tokens tokens')
    {token token' : Token} (hpaired : Paired tokens tokens' token token') :
    SaysTheSame lexicon lexicon' token token' := by
  obtain ⟨i, hi, hi'⟩ := hpaired
  obtain ⟨hbound, rfl⟩ := List.getElem?_eq_some_iff.mp hi
  obtain ⟨hbound', rfl⟩ := List.getElem?_eq_some_iff.mp hi'
  exact (List.forall₂_iff_get.mp htokens).2 i hbound hbound'

theorem rendering_paired
    (htokens : List.Forall₂ (SaysTheSame lexicon lexicon') tokens tokens') :
    Rendering lexicon lexicon' (Paired tokens tokens') where
  kind hpaired := (hpaired.saysTheSame htokens).kind
  constant hpaired hkind := (hpaired.saysTheSame htokens).text (.inl hkind)
  «variable» hpaired hkind := (hpaired.saysTheSame htokens).text (.inr hkind)
  translate hpaired hkind := by
    rcases (hpaired.saysTheSame htokens).command hkind with
      ⟨symbol, hknown, hknown'⟩ | ⟨hunknown, hunknown', -⟩
    · rw [hknown, hknown']
    · rw [hunknown, hunknown']
  name hpaired hkind hunknown := by
    rcases (hpaired.saysTheSame htokens).command hkind with
      ⟨symbol, hknown, -⟩ | ⟨-, -, hname⟩
    · rw [hknown] at hunknown
      cases hunknown
    · exact hname

end Token

/-- Programs whose words say the same are both accepted and then mean the same,
or they are both refused, for the same reason and at the same place. -/
theorem programs_mean_the_same_in_other_words
    (lexicon lexicon' : Lexicon) (nesting : Nat) (arities : NameMap Nat)
    {tokens tokens' : List Token}
    (htokens : List.Forall₂
      (Token.SaysTheSame lexicon lexicon') tokens tokens') :
    Likewise (Fault.Similar (Token.Paired tokens tokens'))
      (Reader.MeansTheSame tokens tokens')
      (Reader.read lexicon nesting arities tokens)
      (Reader.read lexicon' nesting arities tokens') := by
  have hread :=
    Reader.read_likewise (Token.rendering_paired htokens) nesting arities
      (Token.forall₂_paired htokens.length_eq)
  generalize Reader.read lexicon nesting arities tokens = found at hread
  generalize Reader.read lexicon' nesting arities tokens' = found' at hread
  cases hread with
  | error hfault => exact .error hfault
  | @ok reader reader' hreader =>
      refine .ok ⟨hreader.body, hreader.arities, fun limits mode world => ?_⟩
      refine runsAlike_program
        (fun token => .inl rfl) limits mode ?_ world world world.similar_refl
      exact Expr.similar_mono_all (fun _ _ => .inr) hreader.body

def englishHalf : List Token :=
  [⟨.command, "to", 1, 0⟩, ⟨.command, "Half", 2, 3⟩, ⟨.listStart, "[", 3, 8⟩,
    ⟨.variable, ":x", 4, 10⟩, ⟨.listEnd, "]", 5, 13⟩, ⟨.listStart, "[", 6, 15⟩,
    ⟨.command, "fd", 7, 17⟩, ⟨.variable, ":x", 8, 20⟩, ⟨.listEnd, "]", 9, 23⟩,
    ⟨.command, "half", 10, 25⟩, ⟨.constant, "5", 11, 30⟩]

/-- The same in French, and with the name of the procedure in upper case. -/
def frenchHalf : List Token :=
  [⟨.command, "procedure", 1, 0⟩, ⟨.command, "half", 2, 10⟩,
    ⟨.listStart, "[", 3, 15⟩, ⟨.variable, ":x", 4, 17⟩, ⟨.listEnd, "]", 5, 20⟩,
    ⟨.listStart, "[", 6, 22⟩, ⟨.command, "avance", 7, 24⟩,
    ⟨.variable, ":x", 8, 31⟩, ⟨.listEnd, "]", 9, 34⟩,
    ⟨.command, "HALF", 10, 36⟩, ⟨.constant, "5", 11, 41⟩]

theorem half_means_the_same_in_french :
    List.Forall₂
      (Token.SaysTheSame (Lexicon.speaking "English")
        (Lexicon.speaking "French"))
      englishHalf frenchHalf ∧
    ∃ reader reader',
      Reader.read (Lexicon.speaking "English") 9 [] englishHalf = .ok reader ∧
        Reader.read (Lexicon.speaking "French") 9 [] frenchHalf = .ok reader' ∧
          Reader.MeansTheSame englishHalf frenchHalf reader reader' := by
  have henglish :
      ["to", "Half", "fd", "half"].map (Lexicon.speaking "English").translate? =
        [some "MakeUserInstruction", none, some "Forward", none] := by
    decide +kernel
  have hfrench :
      ["procedure", "half", "avance", "HALF"].map
        (Lexicon.speaking "French").translate? =
        [some "MakeUserInstruction", none, some "Forward", none] := by
    decide +kernel
  have haccepted :
      (Reader.read (Lexicon.speaking "English") 9
        [] englishHalf).toOption.isSome = true := by
    decide +kernel
  simp only [List.map_cons, List.map_nil, List.cons.injEq,
    and_true] at henglish hfrench
  obtain ⟨hto, hHalf, hfd, hhalf⟩ := henglish
  obtain ⟨hto', hHalf', hfd', hhalf'⟩ := hfrench
  have htokens :
      List.Forall₂
        (Token.SaysTheSame (Lexicon.speaking "English")
          (Lexicon.speaking "French"))
        englishHalf frenchHalf := by
    refine .cons (.of_symbol rfl rfl hto hto') ?_
    refine .cons (.of_name rfl rfl hHalf hHalf' (by decide +kernel)) ?_
    refine .cons (.of_text rfl rfl nofun) <| .cons (.of_text rfl rfl nofun) ?_
    refine .cons (.of_text rfl rfl nofun) <| .cons (.of_text rfl rfl nofun) ?_
    refine .cons (.of_symbol rfl rfl hfd hfd') ?_
    refine .cons (.of_text rfl rfl nofun) <| .cons (.of_text rfl rfl nofun) ?_
    refine .cons (.of_name rfl rfl hhalf hhalf' (by decide +kernel)) ?_
    exact .cons (.of_text rfl rfl nofun) .nil
  have hread :=
    programs_mean_the_same_in_other_words (Lexicon.speaking "English")
      (Lexicon.speaking "French") 9 [] htokens
  refine ⟨htokens, ?_⟩
  generalize Reader.read (Lexicon.speaking "English") 9 [] englishHalf = found
    at hread haccepted
  generalize Reader.read (Lexicon.speaking "French") 9 [] frenchHalf =
    found' at hread
  cases hread with
  | ok hmeans => exact ⟨_, _, rfl, rfl, hmeans⟩
  | error hfault => cases haccepted

end Logo
