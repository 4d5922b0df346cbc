import Logo.Pattern.Basic
import Mathlib.Tactic

/-!
# Kin of ASCII letters

Words are compared without regard to case, and so a set of characters of ASCII
also has some characters outside of it: two further forms of i, the long s and
the Kelvin sign.  It has no others, and these go with the letters that they are
forms of.  To know such a set it is enough to look at ASCII.
-/

namespace Logo

namespace Text

/-- What holds of the ten digits of ASCII, one after the other, holds of every
digit. -/
theorem of_isDigit
    {P : Char → Prop} (hall : ∀ code < 58, 48 ≤ code → P (Char.ofNat code))
    {c : Char} (hdigit : c.isDigit = true) : P c := by
  simp only [Char.isDigit, Bool.and_eq_true, decide_eq_true_eq, ge_iff_le,
    UInt32.le_iff_toNat_le]
    at hdigit
  rw [← Char.ofNat_toNat c]
  exact hall c.toNat (Nat.lt_succ_of_le hdigit.2) hdigit.1

/-! ## Forms in ASCII -/

/-- The characters outside of ASCII that differ from one of its letters in case
only. -/
def asciiKin : List Char :=
  [Char.ofNat 0x130, Char.ofNat 0x131, Char.ofNat 0x17F, Char.ofNat 0x212A]

/-- The code points of small letters that are outside of ASCII and kindred to a
letter inside. -/
def kindredToAscii : List Nat := [0x131, 0x17F]

theorem exists_kin
    {code : Nat} {c : Char}
    (hkin : c ∈ ((kindred.lookup code).getD []).map Char.ofNat) :
    ∃ kin ∈ kindred, kin.1 = code ∧ ∃ other ∈ kin.2, Char.ofNat other = c := by
  cases hlookup : kindred.lookup code with
  | none => simp [hlookup] at hkin
  | some codes =>
      rw [hlookup, Option.getD_some, List.mem_map] at hkin
      have hmem : (code, codes) ∈ kindred := by
        obtain ⟨front, back, heq, -⟩ := List.lookup_eq_some_iff.mp hlookup
        simp [heq]
      exact ⟨_, hmem, rfl, hkin⟩

theorem mem_kindredToAscii
    {code : Nat} {s : Char} (hcode : 128 ≤ code) (hs : s.toNat < 128)
    (hkin : s ∈ ((kindred.lookup code).getD []).map Char.ofNat) :
    code ∈ kindredToAscii := by
  have hall :
      ∀ kin ∈ kindred, 128 ≤ kin.1 →
        ∀ code ∈ kin.2, (Char.ofNat code).toNat < 128 →
        kin.1 ∈ kindredToAscii := by
    decide
  obtain ⟨kin, hmem, rfl, other, hother, rfl⟩ := exists_kin hkin
  exact hall kin hmem hcode other hother hs

theorem toNat_ofNat_of_valid {code : Nat} (hvalid : code.isValidChar) :
    (Char.ofNat code).toNat = code := by
  rw [Char.ofNat, dif_pos hvalid]
  rfl

/-- What the table of capitals has to do with ASCII. -/
theorem capitalRun_ascii {run : CapitalRun} (hrun : run ∈ capitalRuns.toList)
    {code : Nat} (hhas : run.has code = true) :
    128 ≤ (Char.ofNat code).toNat ∧
      ((Char.ofNat ((code : Int) + run.offset).toNat).toNat < 128 ∨
          (Char.ofNat ((code : Int) + run.offset).toNat).toNat ∈
            kindredToAscii →
        Char.ofNat code ∈ asciiKin) := by
  -- No run is split by the surrogates, and only runs of a single capital lead
  -- into ASCII.
  have hall :
      ∀ run ∈ capitalRuns.toList,
        (128 ≤ run.first ∧
          (run.last < 0xD800 ∨ 0xDFFF < run.first ∧ run.last < 0x110000)) ∧
          (run.first = run.last ∧
            asciiKin.contains (Char.ofNat run.first) = true ∨
            (128 ≤ run.first + run.offset ∧
              (run.last + run.offset < 0xD800 ∨
                0xDFFF < run.first + run.offset ∧
                  run.last + run.offset < 0x110000)) ∧
            ∀ small ∈ kindredToAscii,
              (small : Int) < run.first + run.offset ∨
                run.last + run.offset < small) := by
    decide +kernel
  simp only [CapitalRun.has, Bool.and_eq_true, decide_eq_true_eq] at hhas
  obtain ⟨⟨hascii, hplanes⟩, hlead⟩ := hall run hrun
  constructor
  · have hvalid : code.isValidChar := by
      unfold Nat.isValidChar
      omega
    rw [toNat_ofNat_of_valid hvalid]
    omega
  · intro hsmall
    rcases hlead with ⟨hsingle, hkin⟩ | ⟨⟨hlow, hplanes⟩, hapart⟩
    · rwa [show code = run.first by omega, ← List.contains_iff_mem]
    · have hvalid : ((code : Int) + run.offset).toNat.isValidChar := by
        unfold Nat.isValidChar
        omega
      rw [toNat_ofNat_of_valid hvalid] at hsmall
      rcases hsmall with hsmall | hsmall
      · omega
      · have hmiss := hapart _ hsmall
        omega

/-- A character whose small letter leads into ASCII is one of the four. -/
theorem mem_asciiKin_of_lower
    {c : Char} (hc : ¬ c.toNat < 128)
    (hlower : (lower c).toNat < 128 ∨ (lower c).toNat ∈ kindredToAscii) :
    c ∈ asciiKin := by
  unfold lower at hlower
  rw [if_neg hc] at hlower
  split at hlower
  next run hrun =>
    have hmem : run ∈ capitalRuns.toList := by
      simpa using Array.mem_of_find?_eq_some hrun
    have hhas : run.has c.toNat = true := by simpa using Array.find?_some hrun
    have hkin := (capitalRun_ascii hmem hhas).2 hlower
    rwa [Char.ofNat_toNat] at hkin
  next =>
    rcases hlower with hlower | hlower
    · exact absurd hlower hc
    · rw [← Char.ofNat_toNat c]
      have hall : ∀ code ∈ kindredToAscii, Char.ofNat code ∈ asciiKin := by
        decide
      exact hall c.toNat hlower

theorem capitals_not_ascii {small d : Char} (hd : d ∈ capitals small) :
    ¬ d.toNat < 128 := by
  simp only [capitals, List.mem_filterMap, Option.ite_none_right_eq_some,
    Option.some.injEq] at hd
  obtain ⟨run, hrun, hhas, rfl⟩ := hd
  exact not_lt.mpr (capitalRun_ascii hrun hhas).1

/-- Only the four have a form in ASCII. -/
theorem mem_asciiKin_of_mem_variants
    {c d : Char} (hc : ¬ c.toNat < 128) (hd : d.toNat < 128)
    (hvariant : d ∈ variants c) :
    c ∈ asciiKin := by
  unfold variants at hvariant
  rw [if_neg hc, List.mem_flatMap] at hvariant
  obtain ⟨s, hs, hvariant⟩ := hvariant
  split at hvariant
  next hascii =>
    apply mem_asciiKin_of_lower hc
    rcases List.mem_cons.mp hs with rfl | hkin
    · exact .inl hascii
    · by_cases hlower : (lower c).toNat < 128
      · exact .inl hlower
      · exact .inr (mem_kindredToAscii (not_lt.mp hlower) hascii hkin)
  next hlarge =>
    rcases List.mem_cons.mp hvariant with rfl | hcapital
    · exact absurd hd hlarge
    · exact absurd hd (capitals_not_ascii hcapital)

/-- The small letter of ASCII that one of the four is a form of. -/
def asciiForm (c : Char) : Char :=
  if c = Char.ofNat 0x17F then 's'
  else if c = Char.ofNat 0x212A then 'k' else 'i'

theorem toNat_asciiForm_lt (c : Char) : (asciiForm c).toNat < 128 := by
  unfold asciiForm
  split_ifs <;> decide

theorem mem_variants_asciiForm {c : Char} (hc : c ∈ asciiKin) (d : Char) :
    d ∈ variants (asciiForm c) ↔ d ∈ variants c := by
  have hall :
      asciiKin.all
        (fun c => (variants c).all (variants (asciiForm c)).contains &&
        (variants (asciiForm c)).all (variants c).contains) = true := by
    -- A search in a list is evaluated far more quickly than one in an array.
    simp only [variants, lower, ← Array.find?_toList]
    decide
  have hforms := List.all_eq_true.mp hall c hc
  simp only [Bool.and_eq_true, List.all_eq_true,
    List.contains_iff_mem] at hforms
  exact ⟨hforms.2 d, hforms.1 d⟩

end Text

/-! ## Sets of characters -/

def CharSet.digits : CharSet := ⟨false, [.range '0'.toNat '9'.toNat]⟩

def Member.isAscii : Member → Bool
  | .single code => code < 128
  | .range _ last => last < 128
  | .named _ => false

def CharSet.isAscii (set : CharSet) : Bool :=
  !set.negated && set.members.all Member.isAscii

theorem mem_asciiKin_of_hasForm
    {c : Char} (hc : ¬ c.toNat < 128) {test : Nat → Bool}
    (htest : ∀ code, test code = true → code < 128)
    (hform : hasForm c test = true) :
    c ∈ Text.asciiKin := by
  obtain ⟨d, hd, hcode⟩ := List.any_eq_true.mp hform
  exact Text.mem_asciiKin_of_mem_variants hc (htest _ hcode) hd

theorem Member.mem_asciiKin_of_has
    {member : Member} (hmember : member.isAscii = true) {c : Char}
    (hc : ¬ c.toNat < 128) (hhas : member.has c = true) :
    c ∈ Text.asciiKin := by
  cases member with
  | single code =>
      have hcode : code < 128 := by simpa [isAscii] using hmember
      rw [has, if_pos (by omega)] at hhas
      exact mem_asciiKin_of_hasForm hc (by simp; omega) hhas
  | range first last =>
      have hlast : last < 128 := by simpa [isAscii] using hmember
      rw [has] at hhas
      exact mem_asciiKin_of_hasForm hc (by simp; omega) hhas
  | named cls => cases hmember

theorem hasForm_asciiForm {c : Char} (hc : c ∈ Text.asciiKin)
    (test : Nat → Bool) :
    hasForm (Text.asciiForm c) test = hasForm c test := by
  rw [hasForm, hasForm, Bool.eq_iff_iff, List.any_eq_true, List.any_eq_true]
  simp only [Text.mem_variants_asciiForm hc]

theorem Member.has_asciiForm
    {member : Member} (hmember : member.isAscii = true) {c : Char}
    (hc : c ∈ Text.asciiKin) :
    member.has (Text.asciiForm c) = member.has c := by
  cases member with
  | single code =>
      have hcode : code < 128 := by simpa [isAscii] using hmember
      rw [has, has, if_pos (by omega), if_pos (by omega), hasForm_asciiForm hc]
  | range first last => rw [has, has, hasForm_asciiForm hc]
  | named cls => cases hmember

namespace CharSet

variable {set : CharSet} (hset : set.isAscii = true)
include hset

theorem has_eq_any (c : Char) : set.has c = set.members.any (·.has c) := by
  obtain ⟨negated, members⟩ := set
  simp only [isAscii, Bool.and_eq_true, Bool.not_eq_true',
    List.all_eq_true] at hset
  obtain ⟨rfl, hmembers⟩ := hset
  unfold has
  dsimp only
  split
  next code =>
    have hcode : code < 128 := by simpa [Member.isAscii] using hmembers
    simp [Member.has, show code < 0x10000 by omega]
  next => simp

theorem mem_asciiKin_of_has {c : Char} (hc : ¬ c.toNat < 128)
    (hhas : set.has c = true) :
    c ∈ Text.asciiKin := by
  rw [has_eq_any hset, List.any_eq_true] at hhas
  obtain ⟨member, hmem, hhas⟩ := hhas
  simp only [isAscii, Bool.and_eq_true, List.all_eq_true] at hset
  exact Member.mem_asciiKin_of_has (hset.2 member hmem) hc hhas

theorem has_asciiForm {c : Char} (hc : c ∈ Text.asciiKin) :
    set.has (Text.asciiForm c) = set.has c := by
  rw [has_eq_any hset, has_eq_any hset, Bool.eq_iff_iff, List.any_eq_true,
    List.any_eq_true]
  simp only [isAscii, Bool.and_eq_true, List.all_eq_true] at hset
  refine exists_congr fun member => and_congr_right fun hmem => ?_
  rw [Member.has_asciiForm (hset.2 member hmem) hc]

/-- A set is known by its characters in ASCII. -/
theorem has_eq_of_ascii
    (test : Char → Bool)
    (hascii : ∀ code < 128, set.has (Char.ofNat code) = test (Char.ofNat code))
    (hkin : Text.asciiKin.all
      (fun c => test (Text.asciiForm c) == test c) = true)
    (htest : ∀ c, ¬ c.toNat < 128 → test c = true → c ∈ Text.asciiKin)
    (c : Char) :
    set.has c = test c := by
  have hsame {c : Char} (hc : c.toNat < 128) : set.has c = test c := by
    have hcode := hascii c.toNat hc
    rwa [Char.ofNat_toNat] at hcode
  by_cases hc : c.toNat < 128
  · exact hsame hc
  · by_cases hmem : c ∈ Text.asciiKin
    · rw [← has_asciiForm hset hmem, hsame (Text.toNat_asciiForm_lt c)]
      exact beq_iff_eq.mp (List.all_eq_true.mp hkin c hmem)
    · have hhas : set.has c = false := by
        rw [Bool.eq_false_iff]
        exact fun hhas => hmem (mem_asciiKin_of_has hset hc hhas)
      have hother : test c = false := by
        rw [Bool.eq_false_iff]
        exact fun hother => hmem (htest c hc hother)
      rw [hhas, hother]

end CharSet

theorem CharSet.has_digits (c : Char) : digits.has c = c.isDigit := by
  refine has_eq_of_ascii (by decide) _ (by decide) (by decide) ?_ c
  intro c hc hdigit
  exact absurd
    (Text.of_isDigit (P := fun c => c.toNat < 128) (by decide) hdigit) hc

theorem CharSet.has_anyCharacter_eq (c : Char) :
    anyCharacter.has c = (c != '\n') := by
  have hfeed : CharSet.has ⟨false, anyCharacter.members⟩ c = (c == '\n') := by
    refine has_eq_of_ascii (by decide) (· == '\n') (by decide) (by decide) ?_ c
    intro c hc heq
    exact absurd (by rw [beq_iff_eq.mp heq]; decide) hc
  rw [bne, ← hfeed]
  simp [CharSet.has, anyCharacter]

end Logo
