import Logo.Proofs.Text.AsciiKin

/-!
# Forms of a letter

Characters are compared by their forms: two letters of ASCII that differ in case
only have the same forms.  Beyond the first plane of code points there are only
pairs of a capital and its small letter, so a small letter there is among the
forms of a character exactly if it is the small letter of this character.
-/

namespace Logo

namespace Text

/-! ## ASCII -/

theorem toLower_of_not_capital {c : Char}
    (hc : ¬ (65 ≤ c.toNat ∧ c.toNat < 91)) :
    c.toLower = c := by
  refine dif_neg fun hupper => hc ?_
  have hfirst := UInt32.le_iff_toNat_le.mp hupper.1
  have hlast := UInt32.le_iff_toNat_le.mp hupper.2
  exact ⟨hfirst, Nat.lt_succ_of_le hlast⟩

theorem toNat_toLower_lt {c : Char} (hc : c.toNat < 128) :
    c.toLower.toNat < 128 := by
  have hall : ∀ code < 128, (Char.ofNat code).toLower.toNat < 128 := by decide
  rw [← Char.ofNat_toNat c]
  exact hall c.toNat hc

/-- Different characters with the same small letter in ASCII belong to ASCII. -/
theorem eq_or_ascii_of_toLower_eq {c d : Char} (hsame : c.toLower = d.toLower) :
    c = d ∨ c.toNat < 128 ∧ d.toNat < 128 := by
  by_cases hc : c.toNat < 128
  · by_cases hd : d.toNat < 128
    · exact .inr ⟨hc, hd⟩
    · have hlower := toNat_toLower_lt hc
      rw [hsame, toLower_of_not_capital (by omega)] at hlower
      exact absurd hlower hd
  · by_cases hd : d.toNat < 128
    · have hlower := toNat_toLower_lt hd
      rw [← hsame, toLower_of_not_capital (by omega)] at hlower
      exact absurd hlower hc
    · have hcap := toLower_of_not_capital (c := c) (by omega)
      have hcap' := toLower_of_not_capital (c := d) (by omega)
      exact .inl (by rwa [hcap, hcap'] at hsame)

theorem variants_eq_of_toLower_eq {c d : Char} (hsame : c.toLower = d.toLower) :
    variants c = variants d := by
  rcases eq_or_ascii_of_toLower_eq hsame with rfl | ⟨hc, hd⟩
  · rfl
  · rw [variants, variants, if_pos hc, if_pos hd, asciiVariants,
      asciiVariants, hsame]

theorem lower_eq_of_toLower_eq {c d : Char} (hsame : c.toLower = d.toLower) :
    lower c = lower d := by
  rcases eq_or_ascii_of_toLower_eq hsame with rfl | ⟨hc, hd⟩
  · rfl
  · rw [lower, lower, if_pos hc, if_pos hd, hsame]

end Text

namespace CharKind

theorem has_toLower (c : Char) (kind : CharKind) :
    kind.has c.toLower = kind.has c := by
  have hall :
      ∀ code < 91, 65 ≤ code → [digit, blank, word].all (fun kind =>
        decide (kind.has (Char.ofNat code).toLower =
          kind.has (Char.ofNat code))) = true := by
    decide +kernel
  by_cases hcapital : 65 ≤ c.toNat ∧ c.toNat < 91
  · have hkind :=
      List.all_eq_true.mp (hall c.toNat hcapital.2 hcapital.1) kind
        (by cases kind <;> simp)
    rw [Char.ofNat_toNat] at hkind
    exact of_decide_eq_true hkind
  · rw [Text.toLower_of_not_capital hcapital]

theorem has_eq_of_toLower_eq {c d : Char} (hsame : c.toLower = d.toLower)
    (kind : CharKind) :
    kind.has c = kind.has d := by
  rw [← has_toLower c, ← has_toLower d, hsame]

end CharKind

/-- No set tells letters of ASCII apart that differ in case only. -/
theorem CharSet.has_eq_of_toLower_eq {c d : Char}
    (hsame : c.toLower = d.toLower) (set : CharSet) :
    set.has c = set.has d := by
  have hmember (member : Member) : member.has c = member.has d := by
    unfold Member.has hasForm
    rw [Text.variants_eq_of_toLower_eq hsame, Text.lower_eq_of_toLower_eq hsame]
    split
    · rfl
    · rfl
    · simp only [CharClass.has, CharKind.has_eq_of_toLower_eq hsame]
  unfold CharSet.has hasForm
  simp only [Text.variants_eq_of_toLower_eq hsame, hmember]

/-! ## Beyond the first plane -/

namespace Text

theorem eq_toNat_of_ofNat {code : Nat} {c : Char} (hc : Char.ofNat code = c)
    (hpos : 0 < c.toNat) :
    code = c.toNat := by
  unfold Char.ofNat at hc
  by_cases hvalid : code.isValidChar
  · rw [dif_pos hvalid] at hc
    rw [← hc]
    rfl
  · rw [dif_neg hvalid] at hc
    subst hc
    exact absurd hpos (by decide)

/-- A run of capitals stays in its plane, and none of them is its own small
letter. -/
theorem capitalRun_spec {run : CapitalRun} (hrun : run ∈ capitalRuns.toList) :
    run.offset ≠ 0 ∧ (run.last < 0x10000 ∨ 0 < run.offset) := by
  have hall :
      ∀ run ∈ capitalRuns.toList, run.offset ≠ 0 ∧
        (run.last < 0x10000 ∨ 0 < run.offset) := by
    decide +kernel
  exact hall run hrun

theorem lt_of_mem_asciiVariants {c d : Char} (hc : c.toNat < 128)
    (hd : d ∈ asciiVariants c) :
    d.toNat < 0x10000 := by
  have hall :
      ∀ code < 128, (asciiVariants (Char.ofNat code)).all
        (fun d => decide (d.toNat < 0x10000)) = true := by
    decide
  have hvariants :=
    List.all_eq_true.mp (hall c.toNat hc) d (by rwa [Char.ofNat_toNat])
  exact of_decide_eq_true hvariants

theorem lt_of_mem_kin
    {code : Nat} {c : Char}
    (hkin : c ∈ ((kindred.lookup code).getD []).map Char.ofNat) :
    c.toNat < 0x10000 := by
  have hall :
      ∀ kin ∈ kindred, ∀ code ∈ kin.2, (Char.ofNat code).toNat < 0x10000 := by
    decide
  obtain ⟨kin, hmem, -, other, hother, rfl⟩ := exists_kin hkin
  exact hall kin hmem other hother

/-- A capital beyond the first plane is not its own small letter, and the small
letter is there as well. -/
theorem of_mem_capitals {small c : Char} (hc : c ∈ capitals small)
    (hbeyond : 0x10000 ≤ c.toNat) :
    lower c ≠ c ∧ 0x10000 ≤ small.toNat := by
  simp only [capitals, List.mem_filterMap, Option.ite_none_right_eq_some,
    Option.some.injEq] at hc
  obtain ⟨run, hrun, hhas, hcode⟩ := hc
  have hcode := eq_toNat_of_ofNat hcode (by omega)
  rw [hcode] at hhas
  constructor
  · intro hsame
    unfold lower at hsame
    rw [if_neg (by omega)] at hsame
    split at hsame
    next found hfound =>
      have hmem : found ∈ capitalRuns.toList := by
        simpa using Array.mem_of_find?_eq_some hfound
      have hoffset := (capitalRun_spec hmem).1
      have hlower := eq_toNat_of_ofNat hsame (by omega)
      omega
    next hnone =>
      have hmiss := Array.find?_eq_none.mp hnone run (by simpa using hrun)
      exact hmiss hhas
  · have hoffset := (capitalRun_spec hrun).2
    simp only [CapitalRun.has, Bool.and_eq_true, decide_eq_true_eq] at hhas
    omega

/-- A small letter beyond the first plane is a form of the characters whose
small letter it is. -/
theorem lower_mem_variants {c : Char} (hbeyond : 0x10000 ≤ (lower c).toNat) :
    lower c ∈ variants c := by
  unfold variants
  by_cases hc : c.toNat < 128
  · rw [lower, if_pos hc] at hbeyond
    have hlt := toNat_toLower_lt hc
    omega
  · rw [if_neg hc, List.mem_flatMap]
    refine ⟨lower c, List.mem_cons_self, ?_⟩
    rw [if_neg (by omega)]
    exact List.mem_cons_self

/-- It is a form of no other characters. -/
theorem lower_eq_of_mem_variants
    {c d : Char} (hbeyond : 0x10000 ≤ d.toNat) (hsmall : lower d = d)
    (hmem : d ∈ variants c) :
    lower c = d := by
  unfold variants at hmem
  split at hmem
  next hc =>
    have hlt := lt_of_mem_asciiVariants hc hmem
    omega
  next =>
    obtain ⟨s, hs, hform⟩ := List.mem_flatMap.mp hmem
    split at hform
    next hascii =>
      have hlt := lt_of_mem_asciiVariants hascii hform
      omega
    next =>
      rcases List.mem_cons.mp hform with rfl | hcapital
      · rcases List.mem_cons.mp hs with rfl | hkin
        · rfl
        · have hlt := lt_of_mem_kin hkin
          omega
      · exact absurd hsmall (of_mem_capitals hcapital hbeyond).1

end Text

end Logo
