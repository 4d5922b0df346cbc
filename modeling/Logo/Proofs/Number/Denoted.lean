import Logo.Proofs.Binary64.Nearest
import Logo.Proofs.Number.Constants

/-!
# The numbers that constants denote

A word is of one kind at most, and a word that is a constant always has a value.
Without a point this is the integer that its sign and digits denote, as long as
there are not too many of them.  With a point it is the number in double
precision that is nearest to the decimal, also where the decimal is so small or
so large that its power of ten is never computed.
-/

namespace Logo

open Decimal Binary64 Vocabulary

/-! ## Decimals -/

namespace Decimal

/-- The natural that some digits denote.  The last one counts ones, the one
before it tens, and so on. -/
def denoted (digits : List Char) : Nat :=
  Nat.ofDigits 10 (digits.reverse.map digitValue)

theorem value_eq_denoted (digits : List Char) :
    value (digits.map digitValue) = denoted digits := by
  rw [value, denoted, Nat.ofDigits_eq_foldr, List.map_reverse,
    List.foldr_reverse]
  congr
  funext n d
  exact Nat.add_comm _ _

/-- A positive natural lies between the powers of ten that its number of digits
tells. -/
theorem length_digits_bounds {n : Nat} (hn : n ≠ 0) :
    0 < (digits n).length ∧ 10 ^ ((digits n).length - 1) ≤ n ∧
      n < 10 ^ (digits n).length := by
  have hdigits : digits n = Nat.toDigits 10 n := by
    rw [digits, Nat.toString_eq_repr, Nat.repr, String.toList_ofList]
  have hpos : 0 < (Nat.toDigits 10 n).length := Nat.length_toDigits_pos
  rw [hdigits]
  refine ⟨hpos, ?_, (Nat.length_toDigits_le_iff (by decide) hpos).mp le_rfl⟩
  by_contra hless
  rcases Nat.eq_zero_or_pos ((Nat.toDigits 10 n).length - 1) with hone | hmore
  · rw [hone, pow_zero] at hless
    omega
  · have hshort :=
      (Nat.length_toDigits_le_iff (by decide) hmore).mpr (not_le.mp hless)
    omega

theorem tenfold_one_eq (n : Nat) (power : Int) :
    0 < (tenfold n 1 power).2 ∧
      ((tenfold n 1 power).1 : ℚ) / (tenfold n 1 power).2 = n * 10 ^ power := by
  unfold tenfold
  split
  next hneg =>
    obtain ⟨k, rfl⟩ : ∃ k : Nat, power = -k := ⟨(-power).toNat, by omega⟩
    simp only [neg_neg, Int.toNat_natCast, Nat.pow_eq, zpow_neg,
      zpow_natCast, one_mul]
    refine ⟨by positivity, ?_⟩
    push_cast
    rw [div_eq_mul_inv]
  next hpos =>
    obtain ⟨k, rfl⟩ : ∃ k : Nat, power = k := ⟨power.toNat, by omega⟩
    simp only [Int.toNat_natCast, Nat.pow_eq, zpow_natCast]
    refine ⟨one_pos, ?_⟩
    push_cast
    rw [div_one]

/-- The number of digits and the power tell between which powers of ten a
decimal lies. -/
theorem decimal_bounds {n : Nat} (hn : n ≠ 0) (power : Int) :
    (10 : ℚ) ^ (power + (digits n).length - 1) ≤ n * 10 ^ power ∧
      (n : ℚ) * 10 ^ power < 10 ^ (power + (digits n).length) := by
  obtain ⟨hpos, hlow, hhigh⟩ := length_digits_bounds hn
  have hlow : (10 : ℚ) ^ ((digits n).length - 1) ≤ n := by exact_mod_cast hlow
  have hhigh : (n : ℚ) < 10 ^ (digits n).length := by exact_mod_cast hhigh
  constructor
  · calc
      (10 : ℚ) ^ (power + (digits n).length - 1) =
          10 ^ ((digits n).length - 1) * 10 ^ power := by
        rw [← zpow_natCast, ← zpow_add₀ (by norm_num)]
        congr 1
        omega
      _ ≤ n * 10 ^ power := by gcongr
  · calc
      (n : ℚ) * 10 ^ power < 10 ^ (digits n).length * 10 ^ power := by gcongr
      _ = 10 ^ (power + (digits n).length) := by
        rw [← zpow_natCast, ← zpow_add₀ (by norm_num), add_comm]

theorem isNearest_zero_of_lt {r : ℚ} (hr : 0 ≤ r)
    (hsmall : r < 10 ^ (-401 : Int)) :
    IsNearest 0 r := by
  have hone : rung 1 = (2 : ℚ) ^ (-1074 : Int) := by
    have hrung := rung_add (u := 0) (m := 1) (.inl rfl) (by decide)
    simpa using hrung
  have hreach : (2 : ℚ) * 10 ^ (-401 : Int) ≤ 2 ^ (-1074 : Int) := by
    have hpowers : 2 * 2 ^ 1074 ≤ 10 ^ 401 := by decide +kernel
    have hten : (10 : ℚ) ^ (-401 : Int) = (10 ^ 401)⁻¹ := zpow_neg 10 401
    have htwo : (2 : ℚ) ^ (-1074 : Int) = (2 ^ 1074)⁻¹ := zpow_neg 2 1074
    rw [hten, htwo, ← div_eq_mul_inv,
      div_le_iff₀ (by positivity), ← div_eq_inv_mul,
      le_div_iff₀ (by positivity)]
    exact_mod_cast hpowers
  refine isNearest_zero hr ?_
  rw [hone]
  linarith

theorem isNearest_infinityBits_of_le {r : ℚ}
    (hlarge : (10 : ℚ) ^ (400 : Int) ≤ r) :
    IsNearest infinityBits r := by
  have hreach : (2 : ℚ) ^ 1024 ≤ 10 ^ (400 : Int) := by
    have hpowers : 2 ^ 1024 ≤ 10 ^ 400 := by decide +kernel
    exact_mod_cast hpowers
  refine isNearest_infinityBits ?_
  rw [rung_infinityBits]
  exact hreach.trans hlarge

/-- A decimal is rounded to the nearest number, also if it is out of reach. -/
theorem exists_nearestDecimal (n : Nat) (power : Int) :
    ∃ bits, nearestDecimal n power = ofPattern bits ∧
      IsNearest bits (n * 10 ^ power) := by
  unfold nearestDecimal
  dsimp only
  split
  next hsmall =>
    refine ⟨0, rfl, isNearest_zero_of_lt (by positivity) ?_⟩
    rcases eq_or_ne n 0 with rfl | hn
    · rw [Nat.cast_zero, zero_mul]
      positivity
    · refine (decimal_bounds hn power).2.trans_le
        (zpow_le_zpow_right₀ (by norm_num) ?_)
      omega
  next hnot =>
    split
    next hlarge =>
      refine ⟨infinityBits, rfl, isNearest_infinityBits_of_le ?_⟩
      have hn : n ≠ 0 := fun heq => hnot (.inl heq)
      refine le_trans (zpow_le_zpow_right₀ (by norm_num) ?_)
        (decimal_bounds hn power).1
      omega
    next =>
      obtain ⟨hpos, hvalue⟩ := tenfold_one_eq n power
      refine ⟨_, rfl, ?_⟩
      rw [← hvalue]
      exact isNearest_nearestBits _ hpos

end Decimal

/-! ## Constants -/

/-- What a constant denotes: an integer, or with a point the number in double
precision that is nearest to the decimal, with the sign that is written. -/
inductive Decimal.Denotes : List Char → Number → Prop where
  | integer (negative : Bool) {whole : List Char} (hsome : whole ≠ [])
      (hwhole : ∀ c ∈ whole, c.isDigit = true) :
      Denotes ((if negative then ['-'] else []) ++ whole)
        (.integer (if negative then -(denoted whole : Int) else denoted whole))
  | real (negative : Bool) {whole fraction : List Char} (hsome : whole ≠ [])
      (hwhole : ∀ c ∈ whole, c.isDigit = true)
      (hfraction : ∀ c ∈ fraction, c.isDigit = true) {bits : Nat}
      (hnearest : IsNearest bits
        (denoted (whole ++ fraction) / 10 ^ fraction.length)) :
      Denotes ((if negative then ['-'] else []) ++ (whole ++ '.' :: fraction))
        (.real (withSign negative (ofPattern bits)))

/-- A constant denotes one number only. -/
theorem Decimal.Denotes.unique
    {letters : List Char} {m n : Number} (hm : Denotes letters m)
    (hn : Denotes letters n) :
    m = n := by
  have hdot {digits : List Char} (hdigits : ∀ c ∈ digits, c.isDigit = true) :
      '.' ∉ digits :=
    fun hmem => absurd (hdigits '.' hmem) (by decide)
  generalize hletters : letters = others at hn
  cases hm with
  | @integer negative whole hsome hwhole =>
      have hsign := sign_signed negative hsome hwhole []
      rw [List.append_nil, hletters] at hsign
      cases hn with
      | @integer negative' whole' hsome' hwhole' =>
          have hsign' := sign_signed negative' hsome' hwhole' []
          rw [List.append_nil, hsign, Prod.mk.injEq] at hsign'
          rw [hsign'.1, hsign'.2]
      | @real negative' whole' fraction' hsome' hwhole' =>
          rw [sign_signed negative' hsome' hwhole', Prod.mk.injEq] at hsign
          exact absurd (by simp [← hsign.2]) (hdot hwhole)
  | @real negative whole fraction hsome hwhole hfraction bits hnearest =>
      have hsign := sign_signed negative hsome hwhole ('.' :: fraction)
      rw [hletters] at hsign
      cases hn with
      | @integer negative' whole' hsome' hwhole' =>
          have hsign' := sign_signed negative' hsome' hwhole' []
          rw [List.append_nil, hsign, Prod.mk.injEq] at hsign'
          exact absurd (by simp [← hsign'.2]) (hdot hwhole')
      | @real negative' whole' fraction' hsome' hwhole' hfraction'
        bits' hnearest' =>
          rw [sign_signed negative' hsome' hwhole', Prod.mk.injEq] at hsign
          obtain ⟨rfl, hsplit⟩ := hsign
          obtain ⟨rfl, -, rfl⟩ :=
            (List.append_cons_inj_of_notMem (hdot hwhole')
              (hdot hfraction')).mp hsplit
          rw [hnearest.unique hnearest']

theorem Decimal.Denotes.iff_eq
    {letters : List Char} {m : Number} (hm : Denotes letters m) (n : Number) :
    Denotes letters n ↔ n = m := by
  constructor
  · exact fun hn => hn.unique hm
  · rintro rfl
    exact hm

/-- An integer with not too many digits is read as what it denotes. -/
theorem exists_integer_of_isConstant
    {word : String} (hconstant : IsConstant word.toList)
    (hpoint : '.' ∉ word.toList)
    (hlimit : word.toList.countP Char.isDigit ≤ digitLimit) :
    ∃ n, Number.constant word = .ok (.integer n) ∧ integer? word = some n ∧
      ∀ number, Denotes word.toList number ↔ number = .integer n := by
  generalize hletters : word.toList = letters at hconstant hpoint hlimit ⊢
  cases hconstant with
  | @integer negative whole hsome hwhole =>
      have hlength : ¬ digitLimit < whole.length := by
        rw [List.countP_append, List.countP_eq_length.mpr hwhole] at hlimit
        omega
      refine ⟨_, ?_, ?_, (Denotes.integer negative hsome hwhole).iff_eq⟩
      · rw [Number.constant_signed hsome hwhole hletters, if_neg hlength,
          value_eq_denoted]
      · rw [integer?_signed hsome hwhole hletters, if_neg hlength,
          value_eq_denoted]
  | point negative hsome hwhole hfraction => simp at hpoint

/-- A decimal is read as the nearest number, whatever its length. -/
theorem exists_real_of_isConstant
    {word : String} (hconstant : IsConstant word.toList)
    (hpoint : '.' ∈ word.toList) :
    ∃ x, Number.constant word = .ok (.real x) ∧ real? word = some x ∧
      ∀ number, Denotes word.toList number ↔ number = .real x := by
  generalize hletters : word.toList = letters at hconstant hpoint ⊢
  cases hconstant with
  | @integer negative whole hsome hwhole =>
      exfalso
      rcases List.mem_append.mp hpoint with hsign | hmem
      · cases negative <;> simp at hsign
      · exact absurd (hwhole '.' hmem) (by decide)
  | @point negative whole fraction hsome hwhole hfraction =>
      obtain ⟨bits, hbits, hnearest⟩ :=
        exists_nearestDecimal (denoted (whole ++ fraction)) (-fraction.length)
      rw [zpow_neg, zpow_natCast, ← div_eq_mul_inv] at hnearest
      refine ⟨withSign negative (ofPattern bits), ?_, ?_,
        (Denotes.real negative hsome hwhole hfraction hnearest).iff_eq⟩
      · rw [Number.constant_point hsome hwhole hfraction hletters,
          value_eq_denoted, hbits]
      · rw [real?_point hsome hwhole hfraction hletters,
          value_eq_denoted, hbits]

/-- A word matches at most one of the patterns, so its kind does not depend on
their order, and a constant denotes exactly one number, which is what it is read
as. -/
theorem words_are_unambiguous_and_constants_denote_numbers (word : String) :
    (WordKind.matching word).length ≤ 1 ∧
      (∀ kind, WordKind.of? word = some kind ↔ kind.Spells word.toList) ∧
      (∀ pairs : List (WordKind × String), pairs.Perm WordKind.spellings →
        (Classifier.ofPairs pairs).symbol? word = WordKind.of? word) ∧
      (WordKind.of? word = some .constant →
        ('.' ∉ word.toList → word.toList.countP Char.isDigit ≤ digitLimit →
          ∃ n, Number.constant word = .ok (.integer n) ∧
            integer? word = some n ∧
            ∀ number, Denotes word.toList number ↔ number = .integer n) ∧
        ('.' ∈ word.toList →
          ∃ x, Number.constant word = .ok (.real x) ∧ real? word = some x ∧
            ∀ number, Denotes word.toList number ↔ number = .real x)) := by
  refine ⟨WordKind.length_matching_le word,
    fun kind => WordKind.of?_eq_some_iff, ?_, ?_⟩
  · intro pairs hperm
    ext kind
    rw [WordKind.symbol?_eq_some_iff hperm, WordKind.of?_eq_some_iff]
  · intro hkind
    have hconstant := WordKind.isConstant_of_of? hkind
    exact ⟨exists_integer_of_isConstant hconstant,
      exists_real_of_isConstant hconstant⟩

theorem constants_with_leading_zeros_denote_numbers :
    (Classifier.ofPairs WordKind.spellings.reverse).symbol? "-0075" =
      some .constant ∧
      (∃ n, Number.constant "-0075" = .ok (.integer n) ∧
        integer? "-0075" = some n ∧
        ∀ number, Denotes "-0075".toList number ↔ number = .integer n) ∧
      ∃ x, Number.constant "-00.75" = .ok (.real x) ∧ real? "-00.75" = some x ∧
        ∀ number, Denotes "-00.75".toList number ↔ number = .real x := by
  have hinteger : WordKind.of? "-0075" = some .constant := by decide +kernel
  have hdecimal : WordKind.of? "-00.75" = some .constant := by decide +kernel
  obtain ⟨-, -, horder, hread⟩ :=
    words_are_unambiguous_and_constants_denote_numbers "-0075"
  obtain ⟨-, -, -, hreal⟩ :=
    words_are_unambiguous_and_constants_denote_numbers "-00.75"
  refine ⟨?_, (hread hinteger).1 (by decide) (by decide),
    (hreal hdecimal).2 (by decide)⟩
  rw [horder _ (List.reverse_perm _), hinteger]

end Logo
