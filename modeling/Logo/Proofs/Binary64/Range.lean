import Logo.Binary64
import Mathlib

/-!
# Integers within double precision

An integer has a nearest number in double precision up to a bit above the
largest finite one.  The integer part of a finite number always does, and what
does stays below the 1024th power of two.  The nearest number is finite.
Counting up to a finite number is counting up to its integer part.
-/

namespace Logo.Binary64

def largest : Nat := (2 ^ 53 - 1) * 2 ^ 971

theorem log2_largest : largest.log2 = 1023 := by decide +kernel

theorem significand_le_largest : 2 ^ 53 - 1 ≤ largest := by decide +kernel

theorem le_roundQuotient (numerator denominator : Nat) :
    numerator / denominator ≤ roundQuotient numerator denominator := by
  unfold roundQuotient
  dsimp only
  split
  · exact le_rfl
  · split <;> omega

theorem roundQuotient_le (numerator denominator : Nat) :
    roundQuotient numerator denominator ≤ numerator / denominator + 1 := by
  unfold roundQuotient
  dsimp only
  split
  · omega
  · split <;> omega

/-- Rounding does not get past a bound that the exact quotient does not pass. -/
theorem roundQuotient_le_of_le_mul
    {numerator denominator bound : Nat} (hpos : 0 < denominator)
    (hle : numerator ≤ bound * denominator) :
    roundQuotient numerator denominator ≤ bound := by
  have hquotient : numerator / denominator ≤ bound :=
    Nat.div_le_of_le_mul (by rwa [mul_comm])
  rcases hquotient.lt_or_eq with hlt | heq
  · exact (roundQuotient_le _ _).trans hlt
  · have hrest : numerator % denominator = 0 := by
      have hsplit := Nat.div_add_mod numerator denominator
      rw [heq, mul_comm] at hsplit
      omega
    unfold roundQuotient
    simp [hrest, hpos, heq]

theorem roundQuotient_le_of_le_pow_mul
    {n bound exponent : Nat} (hle : n ≤ bound * 2 ^ exponent) :
    roundQuotient n (Nat.pow 2 exponent) ≤ bound :=
  roundQuotient_le_of_le_mul (pow_pos two_pos exponent) hle

/-- The significand of a natural before it is rounded. -/
theorem scaled_significand {n : Nat} (hn : n ≠ 0) :
    let parts := scaled n 1 ((n.log2 : Int) - 52)
    0 < parts.2 ∧ 2 ^ 52 ≤ parts.1 / parts.2 ∧ parts.1 / parts.2 < 2 ^ 53 := by
  have hlow := Nat.log2_self_le hn
  have hhigh := Nat.lt_log2_self (n := n)
  unfold scaled
  split
  next hsmall =>
    obtain ⟨k, hk⟩ : ∃ k, n.log2 + k = 52 := ⟨52 - n.log2, by omega⟩
    have hexponent : (-((n.log2 : Int) - 52)).toNat = k := by omega
    simp only [hexponent, Nat.pow_eq, Nat.div_one]
    refine ⟨one_pos, ?_, ?_⟩
    · calc
        2 ^ 52 = 2 ^ n.log2 * 2 ^ k := by rw [← pow_add, hk]
        _ ≤ n * 2 ^ k := Nat.mul_le_mul_right _ hlow
    · calc
        n * 2 ^ k < 2 ^ (n.log2 + 1) * 2 ^ k :=
          Nat.mul_lt_mul_of_pos_right hhigh (by positivity)
        _ = 2 ^ 53 := by rw [← pow_add, show n.log2 + 1 + k = 53 by omega]
  next hlarge =>
    obtain ⟨k, hk⟩ : ∃ k, n.log2 = 52 + k := ⟨n.log2 - 52, by omega⟩
    have hexponent : ((n.log2 : Int) - 52).toNat = k := by omega
    simp only [hexponent, Nat.pow_eq, one_mul]
    refine ⟨by positivity, ?_, ?_⟩
    · rw [Nat.le_div_iff_mul_le (by positivity), ← pow_add, ← hk]
      exact hlow
    · rw [Nat.div_lt_iff_lt_mul (by positivity), ← pow_add,
        show 53 + k = n.log2 + 1 by omega]
      exact hhigh

theorem exponentFor_one {n : Nat} (hn : n ≠ 0) :
    exponentFor n 1 = (n.log2 : Int) - 52 := by
  have hone : Nat.log2 1 = 0 := by decide
  have hfull := (scaled_significand hn).2.1
  simp only [exponentFor, significandBits, leastExponent, hone,
    Nat.cast_zero, sub_zero, Nat.cast_ofNat, Nat.pow_eq, if_neg hfull.not_gt]
  omega

theorem nearestBits_one {n : Nat} (hn : n ≠ 0) :
    nearestBits n 1 =
      min infinityBits
        ((n.log2 + 1022) * 2 ^ 52 +
          roundQuotient (scaled n 1 ((n.log2 : Int) - 52)).1
            (scaled n 1 ((n.log2 : Int) - 52)).2) := by
  have hexponent :
      ((n.log2 : Int) - 52 - leastExponent).toNat = n.log2 + 1022 := by
    unfold leastExponent
    omega
  unfold nearestBits
  simp only [hn, if_false, exponentFor_one hn, hexponent,
    significandBits, Nat.pow_eq]

theorem nearestBits_lt_infinityBits {n : Nat} (hn : n ≤ largest) :
    nearestBits n 1 < infinityBits := by
  rcases eq_or_ne n 0 with rfl | hzero
  · decide
  rw [nearestBits_one hzero, min_lt_iff]
  right
  have hlog : n.log2 ≤ 1023 := by
    rw [← log2_largest, Nat.log2_eq_log_two, Nat.log2_eq_log_two]
    exact Nat.log_mono_right hn
  rcases Nat.lt_or_ge n.log2 1023 with hsmall | hlarge
  · have hround := roundQuotient_le
      (scaled n 1 ((n.log2 : Int) - 52)).1 (scaled n 1 ((n.log2 : Int) - 52)).2
    have hfull := (scaled_significand hzero).2.2
    unfold infinityBits
    omega
  · -- At the last exponent the significand must not be rounded up to the next
    -- power of two.
    have hexponent : ((n.log2 : Int) - 52).toNat = 971 := by omega
    have hround := roundQuotient_le_of_le_pow_mul hn
    unfold scaled infinityBits
    rw [if_neg (by omega), one_mul, hexponent]
    dsimp only
    omega

theorem lt_pow_of_nearestBits_lt {n : Nat}
    (hn : nearestBits n 1 < infinityBits) :
    n < 2 ^ 1024 := by
  rcases eq_or_ne n 0 with rfl | hzero
  · positivity
  rw [← Nat.log2_lt hzero]
  rw [nearestBits_one hzero, min_lt_iff] at hn
  have hround := le_roundQuotient
    (scaled n 1 ((n.log2 : Int) - 52)).1 (scaled n 1 ((n.log2 : Int) - 52)).2
  have hfull := (scaled_significand hzero).2.1
  unfold infinityBits at hn
  omega

theorem ofInt?_isSome_of_le {n : Int} (hn : n.natAbs ≤ largest) :
    (ofInt? n).isSome := by
  unfold ofInt?
  rw [if_pos (nearestBits_lt_infinityBits hn)]
  rfl

theorem lt_pow_of_ofInt?_isSome {n : Int} (hn : (ofInt? n).isSome) :
    n.natAbs < 2 ^ 1024 := by
  unfold ofInt? at hn
  split at hn
  next hbits => exact lt_pow_of_nearestBits_lt hbits
  next => cases hn

theorem magnitude?_bounds
    {x : Float} {m : Nat} {q : Int} (hmagnitude : magnitude? x = some (m, q)) :
    m ≤ 2 ^ 53 - 1 ∧ q ≤ 971 := by
  have hbits : x.toBits.toNat % Nat.pow 2 63 < 2 ^ 63 :=
    Nat.mod_lt _ (by decide)
  have hwidth : Nat.pow 2 significandBits = 2 ^ 52 := rfl
  unfold magnitude? leastExponent at hmagnitude
  rw [hwidth] at hmagnitude
  generalize x.toBits.toNat % Nat.pow 2 63 = bits at hmagnitude hbits
  dsimp only at hmagnitude
  split at hmagnitude
  · cases hmagnitude
  · split at hmagnitude
    · cases hmagnitude
      omega
    · cases hmagnitude
      omega

theorem natAbs_le_largest_of_truncate?
    {x : Float} {n : Int} (htruncate : truncate? x = some n) :
    n.natAbs ≤ largest := by
  simp only [truncate?, Option.map_eq_some_iff, Prod.exists,
    Nat.pow_eq] at htruncate
  obtain ⟨m, q, hmagnitude, rfl⟩ := htruncate
  obtain ⟨hm, hq⟩ := magnitude?_bounds hmagnitude
  have hwhole :
      (if q < 0 then m / 2 ^ (-q).toNat else m * 2 ^ q.toNat) ≤ largest := by
    split
    · exact ((Nat.div_le_self _ _).trans hm).trans significand_le_largest
    · exact Nat.mul_le_mul hm (pow_le_pow_right₀ one_le_two (by omega))
  split
  · rwa [Int.natAbs_neg, Int.natAbs_natCast]
  · rwa [Int.natAbs_natCast]

/-! ## Finite numbers -/

section Finite

open Float.Model Float.Model.UnpackedFloat

/-- A word whose exponent is not the one of infinity stands for a finite
number. -/
theorem isFinite_unpack
    {word : BitVec 64}
    (hexponent : @unpackExponent Format.binary64 word ≠ -1#11) :
    (UnpackedFloat.unpack Format.binary64 word).isFinite = true := by
  unfold UnpackedFloat.unpack
  simp only [hexponent, if_false]
  split
  · split
    · rfl
    · rfl
  · rfl

/-- Putting a finite number together does not give it the exponent of
infinity. -/
theorem unpackExponent_pack
    {sign : Sign} {m : Nat} {q : Int} (hpos : 0 < m)
    (hsmall : (q + 1075).toNat < 2047) :
    unpackExponent
      (UnpackedFloat.pack Format.binary64 (.finite sign m q hpos)) ≠ -1#11 := by
  have hbias :
      q + (Format.binary64.exponentBias : Int) +
          (Format.binary64.mantissaBitsWithoutImplicit : Int) =
        q + 1075 := by
    change q + 1023 + 52 = q + 1075
    omega
  have hinfinity : -1#11 = BitVec.ofNat 11 2047 := by decide
  simp only [UnpackedFloat.pack, hbias]
  rw [if_neg (by change ¬ 2048 ≤ _; omega), hinfinity]
  split
  · rw [unpackExponent_packComponents]
    intro heq
    have hfield := congrArg BitVec.toNat heq
    simp only [BitVec.toNat_ofNat] at hfield
    omega
  · rw [unpackExponent_packComponents]
    decide

theorem unpackExponent_lt {bits : Nat} (hbits : bits < infinityBits) :
    (@unpackExponent Format.binary64 (UInt64.ofNat bits).toBitVec).toNat <
      2047 := by
  change ((BitVec.ofNat 64 bits).extractLsb 62 52).toNat < 2047
  rw [BitVec.extractLsb_toNat, BitVec.toNat_ofNat, Nat.shiftRight_eq_div_pow]
  unfold infinityBits at hbits
  omega

theorem unpackExponent_ne_iff {word : BitVec 64} :
    @unpackExponent Format.binary64 word ≠ -1#11 ↔
      (@unpackExponent Format.binary64 word).toNat < 2047 := by
  have hinfinity : (-1#11).toNat = 2047 := by decide
  have hbound : (@unpackExponent Format.binary64 word).toNat < 2048 :=
    (@unpackExponent Format.binary64 word).isLt
  constructor
  · intro hne
    refine lt_of_le_of_ne (by omega) fun heq => hne (BitVec.eq_of_toNat_eq ?_)
    rw [heq, hinfinity]
  · intro hlt heq
    rw [heq, hinfinity] at hlt
    omega

/-- Taking a finite number apart and putting it together again leaves it
finite. -/
theorem unpackExponent_pack_unpack
    {word : BitVec 64}
    (hexponent : @unpackExponent Format.binary64 word ≠ -1#11) :
    unpackExponent
      (UnpackedFloat.pack Format.binary64
        (UnpackedFloat.unpack Format.binary64 word)) ≠
      -1#11 := by
  have hfield := unpackExponent_ne_iff.mp hexponent
  have hbias :
      (Format.binary64.exponentBias : Int) +
        Format.binary64.mantissaBitsWithoutImplicit = 1075 :=
    rfl
  unfold UnpackedFloat.unpack
  simp only [hexponent, if_false]
  split
  next hzero =>
    split
    · rw [UnpackedFloat.pack, packedZero, unpackExponent_packComponents]
      decide
    · apply unpackExponent_pack
      rw [hbias, hzero]
      decide
  next =>
    apply unpackExponent_pack
    rw [hbias]
    omega

/-- The sign does not matter to the exponent. -/
theorem unpackExponent_pack_neg (unpacked : UnpackedFloat) :
    unpackExponent (UnpackedFloat.pack Format.binary64 unpacked.neg) =
      unpackExponent (UnpackedFloat.pack Format.binary64 unpacked) := by
  cases unpacked with
  | notANumber => rfl
  | infinity sign =>
      simp only [UnpackedFloat.neg, UnpackedFloat.pack, packedInfinity,
        unpackExponent_packComponents]
  | zero sign =>
      simp only [UnpackedFloat.neg, UnpackedFloat.pack, packedZero,
        unpackExponent_packComponents]
  | finite sign m q hpos =>
      simp only [UnpackedFloat.neg, UnpackedFloat.pack]
      split
      · simp only [packedInfinity, unpackExponent_packComponents]
      · split
        · simp only [unpackExponent_packComponents]
        · simp only [unpackExponent_packComponents]

/-- A bit pattern below that of infinity is the one of a finite number. -/
theorem isFinite_ofBits {bits : Nat} (hbits : bits < infinityBits) :
    (Float.ofBits (UInt64.ofNat bits)).isFinite = true :=
  isFinite_unpack
    (unpackExponent_pack_unpack
      (unpackExponent_ne_iff.mpr (unpackExponent_lt hbits)))

theorem unpackExponent_ne_of_isFinite {x : Float}
    (hfinite : x.isFinite = true) :
    @unpackExponent Format.binary64 x.toBits.toBitVec ≠ -1#11 := by
  intro hexponent
  change (UnpackedFloat.unpack Format.binary64 x.toBits.toBitVec).isFinite =
    true at hfinite
  unfold UnpackedFloat.unpack at hfinite
  simp only [hexponent, if_true] at hfinite
  split at hfinite
  · cases hfinite
  · cases hfinite

theorem isFinite_neg {x : Float} (hfinite : x.isFinite = true) :
    (-x).isFinite = true := by
  apply isFinite_unpack
  change unpackExponent (UnpackedFloat.pack Format.binary64
    (UnpackedFloat.unpack Format.binary64 x.toBits.toBitVec).neg) ≠ -1#11
  rw [unpackExponent_pack_neg]
  exact unpackExponent_pack_unpack (unpackExponent_ne_of_isFinite hfinite)

/-- The number nearest to an integer is finite, if there is one. -/
theorem isFinite_of_ofInt? {n : Int} {x : Float} (hx : ofInt? n = some x) :
    x.isFinite = true := by
  unfold ofInt? at hx
  split at hx
  next hbits =>
    have hnearest : (nearest n.natAbs 1).isFinite = true :=
      isFinite_ofBits hbits
    cases hx
    unfold withSign
    split
    · exact isFinite_neg hnearest
    · exact hnearest
  next => cases hx

end Finite

/-! ## Integer parts -/

theorem exists_magnitude? {x : Float} (hfinite : x.isFinite = true) :
    ∃ m q, magnitude? x = some (m, q) := by
  have hfield :=
    unpackExponent_ne_iff.mp (unpackExponent_ne_of_isFinite hfinite)
  have hbits :
      x.toBits.toNat % Nat.pow 2 63 / Nat.pow 2 significandBits < 2047 := by
    change (x.toBits.toBitVec.extractLsb 62 52).toNat < 2047 at hfield
    rw [BitVec.extractLsb_toNat, Nat.shiftRight_eq_div_pow] at hfield
    change x.toBits.toNat / 2 ^ 52 % 2 ^ 11 < 2047 at hfield
    change x.toBits.toNat % 2 ^ 63 / 2 ^ 52 < 2047
    omega
  unfold magnitude?
  dsimp only
  rw [if_neg hbits.ne]
  split
  · exact ⟨_, _, rfl⟩
  · exact ⟨_, _, rfl⟩

theorem exists_truncate? {x : Float} (hfinite : x.isFinite = true) :
    ∃ n, truncate? x = some n := by
  obtain ⟨m, q, hmagnitude⟩ := exists_magnitude? hfinite
  exact ⟨_, congrArg (Option.map _) hmagnitude⟩

theorem compare_le_iff (m n : Int) :
    (compare m n = .lt ∨ compare m n = .eq) ↔ m ≤ n := by
  rw [compare_lt_iff_lt, compare_eq_iff_eq]
  omega

/-- An integer from one on does not exceed a number exactly if it does not
exceed its integer part. -/
theorem compareInt_le_iff
    {x : Float} {n : Int} (htruncate : truncate? x = some n) {k : Int}
    (hk : 1 ≤ k) :
    (compareInt k x = some .lt ∨ compareInt k x = some .eq) ↔ k ≤ n := by
  simp only [truncate?, Option.map_eq_some_iff, Prod.exists,
    Nat.pow_eq] at htruncate
  obtain ⟨m, q, hmagnitude, rfl⟩ := htruncate
  unfold compareInt
  simp only [hmagnitude, Option.some.injEq, Nat.pow_eq]
  by_cases hq : q < 0
  · simp only [if_pos hq, compare_le_iff]
    have hpow : 0 < 2 ^ (-q).toNat := by positivity
    generalize 2 ^ (-q).toNat = scale at hpow
    split
    · have hquotient : (0 : Int) ≤ (m / scale : Nat) := by positivity
      have hproduct : 1 * 1 ≤ k * scale := by gcongr; omega
      omega
    · rw [Int.natCast_div, Int.le_ediv_iff_mul_le (by exact_mod_cast hpow)]
  · simp only [if_neg hq, compare_le_iff]
    split
    · rw [Nat.cast_mul, neg_mul]
    · rw [Nat.cast_mul]

end Logo.Binary64
