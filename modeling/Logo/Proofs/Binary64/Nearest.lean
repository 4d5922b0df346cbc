import Logo.Proofs.Binary64.Range

/-!
# The number nearest to a quotient

The bit patterns from zero up to the one of infinity stand for larger and larger
numbers, like the rungs of a ladder whose spacing doubles from one power of two
to the next.  A quotient lies between two neighbouring rungs, and the pattern
that is put together from it is the one of the nearer rung, or of the even one
if both are equally near.  Infinity takes part in this as the power of two that
would follow the largest number.
-/

namespace Logo.Binary64

def ofPattern (bits : Nat) : Float := Float.ofBits (UInt64.ofNat bits)

/-- The exact size of a number.  What is not finite counts as the power of two
that would follow the largest number. -/
def size (x : Float) : ℚ :=
  match magnitude? x with
  | some (m, q) => m * 2 ^ q
  | none => 2 ^ 1024

/-- No number is nearer to `r` than the one with this bit pattern, and if
another one is equally near, the pattern is even. -/
structure IsNearest (bits : Nat) (r : ℚ) : Prop where
  bounded : bits ≤ infinityBits
  closest : ∀ other ≤ infinityBits,
    |size (ofPattern bits) - r| ≤ |size (ofPattern other) - r|
  even : ∀ other ≤ infinityBits, other ≠ bits →
    |size (ofPattern bits) - r| = |size (ofPattern other) - r| → Even bits

/-! ## The ladder of sizes -/

/-- How many times the spacing of the patterns has doubled. -/
def doublings (bits : Nat) : Nat := bits / 2 ^ 52 - 1

/-- The size of the number with a bit pattern, also for patterns beyond
infinity. -/
def rung (bits : Nat) : ℚ :=
  (bits - doublings bits * 2 ^ 52 : Nat) * 2 ^ ((doublings bits : Int) - 1074)

theorem rung_add
    {u m : Nat} (hfull : u = 0 ∨ 2 ^ 52 ≤ m) (hm : m ≤ 2 ^ 53) :
    rung (u * 2 ^ 52 + m) = m * 2 ^ ((u : Int) - 1074) := by
  unfold rung
  rcases hm.lt_or_eq with hlt | rfl
  · have hdoublings : doublings (u * 2 ^ 52 + m) = u := by
      unfold doublings
      omega
    rw [hdoublings, Nat.add_sub_cancel_left]
  · -- The last pattern of a power of two is the first one of the next.
    have hdoublings : doublings (u * 2 ^ 52 + 2 ^ 53) = u + 1 := by
      unfold doublings
      omega
    have hrest : u * 2 ^ 52 + 2 ^ 53 - (u + 1) * 2 ^ 52 = 2 ^ 52 := by omega
    have hexponent : ((u + 1 : Nat) : Int) - 1074 = (u : Int) - 1074 + 1 := by
      omega
    rw [hdoublings, hrest, hexponent, zpow_add_one₀ two_ne_zero]
    push_cast
    ring

theorem rung_lt_succ (bits : Nat) : rung bits < rung (bits + 1) := by
  obtain ⟨u, m, rfl, hfull, hm⟩ :
      ∃ u m, bits = u * 2 ^ 52 + m ∧ (u = 0 ∨ 2 ^ 52 ≤ m) ∧ m < 2 ^ 53 :=
    ⟨doublings bits, bits - doublings bits * 2 ^ 52, by unfold doublings; omega⟩
  rw [rung_add hfull hm.le, Nat.add_assoc, rung_add (by omega) hm]
  have hpos : (0 : ℚ) < 2 ^ ((u : Int) - 1074) := by positivity
  push_cast
  linarith

theorem strictMono_rung : StrictMono rung :=
  strictMono_nat_of_lt_succ rung_lt_succ

theorem rung_zero : rung 0 = 0 := by simp [rung]

theorem rung_infinityBits : rung infinityBits = 2 ^ 1024 := by
  have hbits : infinityBits = 2046 * 2 ^ 52 + 2 ^ 52 := by decide
  have hexponent : ((2046 : Nat) : Int) - 1074 = (972 : Nat) := by norm_num
  rw [hbits, rung_add (.inr le_rfl) (by decide), hexponent,
    zpow_natCast, Nat.cast_pow, Nat.cast_ofNat, ← pow_add]

section Patterns

open Float.Model Float.Model.UnpackedFloat

/-- The bit patterns up to the one of infinity are all taken as they are. -/
theorem toBits_ofPattern {bits : Nat} (hbits : bits ≤ infinityBits) :
    (ofPattern bits).toBits.toNat = bits := by
  have hsmall : bits < 2 ^ 64 := by
    unfold infinityBits at hbits
    omega
  have hnumber :
      @isNaNBits Format.binary64 (UInt64.ofNat bits).toBitVec = false := by
    rw [isNaNBits, decide_eq_false_iff_not, not_and_not_right]
    intro hexponent
    rcases hbits.lt_or_eq with hlt | rfl
    · exact absurd hexponent (unpackExponent_ne_iff.mpr (unpackExponent_lt hlt))
    · decide
  have hpack :=
    @pack_unpack Format.binary64 (UInt64.ofNat bits).toBitVec (by decide)
  rw [if_neg (by simp [hnumber])] at hpack
  have hbitVec :
      (ofPattern bits).toBits.toBitVec = (UInt64.ofNat bits).toBitVec := hpack
  rw [UInt64.toBitVec_inj.mp hbitVec, UInt64.toNat_ofNat_of_lt' hsmall]

end Patterns

theorem magnitude?_ofPattern {bits : Nat} (hbits : bits < infinityBits) :
    magnitude? (ofPattern bits) =
      some (bits - doublings bits * 2 ^ 52, (doublings bits : Int) - 1074) := by
  have hwidth : Nat.pow 2 significandBits = 2 ^ 52 := rfl
  have hsign : Nat.pow 2 63 = 2 ^ 63 := rfl
  unfold infinityBits at hbits
  unfold magnitude? leastExponent doublings
  rw [toBits_ofPattern (by unfold infinityBits; omega), hwidth, hsign,
    Nat.mod_eq_of_lt (by omega)]
  dsimp only
  rw [if_neg (by omega)]
  split
  · rw [Option.some.injEq, Prod.mk.injEq]
    omega
  · rw [Option.some.injEq, Prod.mk.injEq]
    omega

theorem size_ofPattern {bits : Nat} (hbits : bits ≤ infinityBits) :
    size (ofPattern bits) = rung bits := by
  unfold size
  rcases hbits.lt_or_eq with hlt | rfl
  · rw [magnitude?_ofPattern hlt]
    rfl
  · have hinfinite : magnitude? (ofPattern infinityBits) = none := by
      unfold magnitude?
      rw [toBits_ofPattern le_rfl]
      rfl
    rw [hinfinite, rung_infinityBits]

/-- Two numbers that are equally near have nothing between them. -/
theorem IsNearest.succ_of_lt
    {low high : Nat} {r : ℚ} (hlow : IsNearest low r) (hhigh : IsNearest high r)
    (hlt : low < high) : high = low + 1 := by
  have hbetween : low + 1 ≤ infinityBits :=
    (Nat.succ_le_of_lt hlt).trans hhigh.bounded
  have hsame :=
    le_antisymm (hlow.closest high hhigh.bounded)
      (hhigh.closest low hlow.bounded)
  have hnearer := hlow.closest (low + 1) hbetween
  rw [size_ofPattern hlow.bounded, size_ofPattern hhigh.bounded] at hsame
  rw [size_ofPattern hlow.bounded, size_ofPattern hbetween] at hnearer
  by_contra hne
  have hbelow := rung_lt_succ low
  have habove :=
    strictMono_rung (lt_of_le_of_ne (Nat.succ_le_of_lt hlt) (Ne.symm hne))
  -- The quotient is half way between both, and so nearer to whatever lies
  -- between them.
  have hmiddle : r - rung low = rung high - r := by
    rcases abs_eq_abs.mp hsame with heq | heq
    · linarith
    · linarith
  rw [abs_of_neg (by linarith), le_abs] at hnearer
  rcases hnearer with hnearer | hnearer
  · linarith
  · linarith

/-- Only one number is the nearest, for of two neighbours one has an odd
pattern. -/
theorem IsNearest.unique
    {bits other : Nat} {r : ℚ} (hbits : IsNearest bits r)
    (hother : IsNearest other r) :
    bits = other := by
  have hsame :=
    le_antisymm (hbits.closest other hother.bounded)
      (hother.closest bits hbits.bounded)
  by_contra hne
  have heven := hbits.even other hother.bounded (Ne.symm hne) hsame
  have heven' := hother.even bits hbits.bounded hne hsame.symm
  rcases Nat.lt_or_gt_of_ne hne with hlt | hgt
  · rw [hbits.succ_of_lt hother hlt] at heven'
    exact Nat.even_add_one.mp heven' heven
  · rw [hother.succ_of_lt hbits hgt] at heven
    exact Nat.even_add_one.mp heven heven'

/-! ## Rounding to a rung -/

/-- Quotients from infinity's rung on are nearest to infinity. -/
theorem isNearest_infinityBits {r : ℚ} (hr : rung infinityBits ≤ r) :
    IsNearest infinityBits r where
  bounded := le_rfl
  closest := by
    intro other hother
    have hle := strictMono_rung.monotone hother
    rw [size_ofPattern le_rfl, size_ofPattern hother,
      abs_of_nonpos (by linarith), abs_of_nonpos (by linarith)]
    linarith
  even := fun _ _ _ _ => by decide

/-- What it means to round to the nearer one of two rungs, or to the even
one. -/
def RoundsTo (low bits : Nat) (below above : ℚ) : Prop :=
  bits = low ∧ below < above ∨ bits = low + 1 ∧ above < below ∨
    bits = low + low % 2 ∧ below = above

/-- Every other rung is farther away, or at least not nearer than an even
one. -/
theorem farther_of_roundsTo
    {low bits other : Nat} {r : ℚ} (hlow : rung low ≤ r)
    (hhigh : r < rung (low + 1))
    (hround : RoundsTo low bits (r - rung low) (rung (low + 1) - r))
    (hother : other ≠ bits) :
    |rung bits - r| < |rung other - r| ∨ |rung bits - r| ≤ |rung other - r| ∧
        Even bits := by
  have hbelow : |rung low - r| = r - rung low := by
    rw [abs_of_nonpos (by linarith), neg_sub]
  have habove : |rung (low + 1) - r| = rung (low + 1) - r :=
    abs_of_pos (by linarith)
  have hfar :
      other ≤ low ∧ r - rung low ≤ |rung other - r| ∨
        low + 1 ≤ other ∧ rung (low + 1) - r ≤ |rung other - r| := by
    rcases Nat.lt_or_ge low other with hgt | hle
    · have hmono := strictMono_rung.monotone (Nat.succ_le_of_lt hgt)
      exact .inr ⟨hgt, by rw [abs_of_pos (by linarith)]; linarith⟩
    · have hmono := strictMono_rung.monotone hle
      exact .inl ⟨hle, by rw [abs_of_nonpos (by linarith)]; linarith⟩
  rcases hround with ⟨rfl, hnear⟩ | ⟨rfl, hnear⟩ | ⟨rfl, htie⟩
  · left
    rw [hbelow]
    rcases hfar with ⟨hle, -⟩ | ⟨-, hdistance⟩
    · have hmono := strictMono_rung (lt_of_le_of_ne hle hother)
      rw [abs_of_neg (by linarith)]
      linarith
    · linarith
  · left
    rw [habove]
    rcases hfar with ⟨-, hdistance⟩ | ⟨hle, -⟩
    · linarith
    · have hmono := strictMono_rung (lt_of_le_of_ne hle hother.symm)
      rw [abs_of_pos (by linarith)]
      linarith
  · right
    refine ⟨?_, by rw [Nat.even_iff]; omega⟩
    have hdistance : |rung (low + low % 2) - r| = r - rung low := by
      rcases Nat.mod_two_eq_zero_or_one low with heven | hodd
      · rw [heven, Nat.add_zero, hbelow]
      · rw [hodd, habove, htie]
    rw [hdistance]
    rcases hfar with ⟨-, hfar⟩ | ⟨-, hfar⟩ <;> linarith

theorem isNearest_of_between
    {low bits : Nat} {r : ℚ} (hlow : rung low ≤ r) (hhigh : r < rung (low + 1))
    (hround : RoundsTo low bits (r - rung low) (rung (low + 1) - r)) :
    IsNearest (min infinityBits bits) r := by
  have hbits : low ≤ bits ∧ bits ≤ low + 1 := by
    rcases hround with ⟨rfl, -⟩ | ⟨rfl, -⟩ | ⟨rfl, -⟩ <;> omega
  rcases Nat.lt_or_ge low infinityBits with hfinite | hinfinite
  · have hbound : bits ≤ infinityBits := hbits.2.trans hfinite
    rw [min_eq_right hbound]
    have hapart (other : Nat) (hne : other ≠ bits) :=
      farther_of_roundsTo hlow hhigh hround hne
    refine ⟨hbound, ?_, ?_⟩
    · intro other hother
      rw [size_ofPattern hbound, size_ofPattern hother]
      rcases eq_or_ne other bits with rfl | hne
      · exact le_rfl
      · exact (hapart other hne).elim le_of_lt And.left
    · intro other hother hne heq
      rw [size_ofPattern hbound, size_ofPattern hother] at heq
      rcases hapart other hne with hlt | ⟨-, heven⟩
      · exact absurd heq hlt.ne
      · exact heven
  · rw [min_eq_left (hinfinite.trans hbits.1)]
    exact isNearest_infinityBits
      ((strictMono_rung.monotone hinfinite).trans hlow)

/-- What is smaller than half of the first rung is nearest to zero. -/
theorem isNearest_zero {r : ℚ} (hr : 0 ≤ r) (hsmall : r < rung 1 - r) :
    IsNearest 0 r := by
  have hround : RoundsTo 0 0 (r - rung 0) (rung (0 + 1) - r) :=
    .inl ⟨rfl, by rwa [rung_zero, sub_zero, Nat.zero_add]⟩
  have hnearest :=
    isNearest_of_between (rung_zero.le.trans hr) (by linarith) hround
  rwa [Nat.min_zero] at hnearest

/-! ## Quotients -/

theorem scaled_eq {n d : Nat} (hd : 0 < d) (e : Int) :
    0 < (scaled n d e).2 ∧ ((scaled n d e).1 : ℚ) / (scaled n d e).2 =
      n / d / 2 ^ e := by
  unfold scaled
  split
  next hneg =>
    refine ⟨hd, ?_⟩
    obtain ⟨k, rfl⟩ : ∃ k : Nat, e = -k := ⟨(-e).toNat, by omega⟩
    simp only [neg_neg, Int.toNat_natCast, Nat.pow_eq, zpow_neg, zpow_natCast]
    push_cast
    field_simp
  next hpos =>
    obtain ⟨k, rfl⟩ : ∃ k : Nat, e = k := ⟨e.toNat, by omega⟩
    simp only [Int.toNat_natCast, Nat.pow_eq, zpow_natCast]
    refine ⟨by positivity, ?_⟩
    push_cast
    rw [div_div]

theorem roundsTo_roundQuotient {a b : Nat} (hb : 0 < b) :
    RoundsTo (a / b) (roundQuotient a b) ((a : ℚ) / b - (a / b : Nat))
      ((a / b : Nat) + 1 - (a : ℚ) / b) := by
  have hpos : (0 : ℚ) < b := by exact_mod_cast hb
  have hrest : (a : ℚ) / b - (a / b : Nat) = (a % b : Nat) / b := by
    have hsplit : (a : ℚ) = b * (a / b : Nat) + (a % b : Nat) := by
      exact_mod_cast (Nat.div_add_mod a b).symm
    rw [sub_eq_iff_eq_add, div_eq_iff hpos.ne', add_mul,
      div_mul_cancel₀ _ hpos.ne']
    linarith
  have htwice :
      ((2 * (a % b) : Nat) : ℚ) / b =
        (a % b : Nat) / b + (a % b : Nat) / b := by
    push_cast
    ring
  unfold roundQuotient
  dsimp only
  split
  next hless =>
    have hless : ((2 * (a % b) : Nat) : ℚ) / b < 1 := by
      rw [div_lt_one hpos]
      exact_mod_cast hless
    exact .inl ⟨rfl, by linarith⟩
  next hnot =>
    split
    next hmore =>
      have hmore : 1 < ((2 * (a % b) : Nat) : ℚ) / b := by
        rw [one_lt_div hpos]
        exact_mod_cast hmore
      exact .inr (.inl ⟨rfl, by linarith⟩)
    next hnot' =>
      have hhalf : ((2 * (a % b) : Nat) : ℚ) / b = 1 := by
        rw [div_eq_one_iff_eq hpos.ne']
        exact_mod_cast le_antisymm (not_lt.mp hnot') (not_lt.mp hnot)
      exact .inr (.inr ⟨rfl, by linarith⟩)

/-- The logarithms of its parts locate a quotient between powers of two. -/
theorem quotient_bounds {n d : Nat} (hn : n ≠ 0) (hd : d ≠ 0) :
    (2 : ℚ) ^ ((n.log2 : Int) - d.log2 - 1) < n / d ∧
      (n : ℚ) / d < 2 ^ ((n.log2 : Int) - d.log2 + 1) := by
  have hlow : (2 : ℚ) ^ n.log2 ≤ n := by exact_mod_cast Nat.log2_self_le hn
  have hhigh : (n : ℚ) < 2 ^ (n.log2 + 1) := by
    exact_mod_cast Nat.lt_log2_self (n := n)
  have hlow' : (2 : ℚ) ^ d.log2 ≤ d := by exact_mod_cast Nat.log2_self_le hd
  have hhigh' : (d : ℚ) < 2 ^ (d.log2 + 1) := by
    exact_mod_cast Nat.lt_log2_self (n := d)
  have hpos : (0 : ℚ) < d := by positivity
  constructor
  · calc
      (2 : ℚ) ^ ((n.log2 : Int) - d.log2 - 1) =
          2 ^ n.log2 / 2 ^ (d.log2 + 1) := by
        rw [sub_sub, zpow_sub₀ two_ne_zero]
        norm_cast
      _ < n / d := div_lt_div₀' hlow hhigh' (by positivity) hpos
  · calc
      (n : ℚ) / d < 2 ^ (n.log2 + 1) / 2 ^ d.log2 := by gcongr
      _ = 2 ^ ((n.log2 : Int) - d.log2 + 1) := by
        rw [sub_add_eq_add_sub, zpow_sub₀ two_ne_zero]
        norm_cast

/-- The exponent gives a quotient a significand of at most 53 bits, and of
exactly so many unless it is the least one. -/
theorem exponentFor_spec {n d : Nat} (hn : n ≠ 0) (hd : 0 < d) :
    leastExponent ≤ exponentFor n d ∧
      (n : ℚ) / d / 2 ^ exponentFor n d < 2 ^ 53 ∧
      (exponentFor n d = leastExponent ∨
        2 ^ 52 ≤ (n : ℚ) / d / 2 ^ exponentFor n d) := by
  obtain ⟨hlow, hhigh⟩ := quotient_bounds hn hd.ne'
  obtain ⟨guess, hguess⟩ :
      ∃ guess : Int, guess = (n.log2 : Int) - d.log2 - 52 := ⟨_, rfl⟩
  obtain ⟨hpos, hscaled⟩ := scaled_eq (n := n) hd guess
  have hshift (k : Int) : (2 : ℚ) ^ (k + guess) = 2 ^ k * 2 ^ guess :=
    zpow_add₀ two_ne_zero k guess
  have hunit : (0 : ℚ) < 2 ^ guess := by positivity
  -- The guess is the right exponent, or one too large.
  obtain ⟨e, he, hexponent⟩ :
      ∃ e, exponentFor n d = max e leastExponent ∧
        (2 : ℚ) ^ (52 + e) ≤ n / d ∧ (n : ℚ) / d < 2 ^ (53 + e) := by
    refine ⟨if (scaled n d guess).1 / (scaled n d guess).2 < 2 ^ 52 then
      guess - 1 else guess, by rw [hguess]; rfl, ?_⟩
    split
    next hless =>
      have hless : (n : ℚ) / d / 2 ^ guess < 2 ^ 52 := by
        rw [Nat.div_lt_iff_lt_mul hpos] at hless
        rw [← hscaled, div_lt_iff₀ (by exact_mod_cast hpos)]
        exact_mod_cast hless
      rw [div_lt_iff₀ hunit] at hless
      constructor
      · rw [hguess]
        refine le_of_lt (lt_of_eq_of_lt (congrArg _ ?_) hlow)
        omega
      · rw [show 53 + (guess - 1) = 52 + guess by omega, hshift]
        exact hless
    next hmore =>
      have hmore : 2 ^ 52 ≤ (n : ℚ) / d / 2 ^ guess := by
        rw [not_lt, Nat.le_div_iff_mul_le hpos] at hmore
        rw [← hscaled, le_div_iff₀ (by exact_mod_cast hpos)]
        exact_mod_cast hmore
      rw [le_div_iff₀ hunit] at hmore
      constructor
      · rw [hshift]
        exact hmore
      · rw [hguess]
        refine lt_of_lt_of_eq hhigh (congrArg _ ?_)
        omega
  have hunit : (0 : ℚ) < 2 ^ exponentFor n d := by positivity
  refine ⟨he ▸ le_max_right _ _, ?_, ?_⟩
  · rw [div_lt_iff₀ hunit]
    calc
      (n : ℚ) / d < 2 ^ (53 + e) := hexponent.2
      _ ≤ 2 ^ (53 + exponentFor n d) :=
        zpow_le_zpow_right₀ one_le_two (by omega)
      _ = 2 ^ 53 * 2 ^ exponentFor n d := by rw [zpow_add₀ two_ne_zero]; rfl
  · rcases le_total e leastExponent with hsmall | hlarge
    · exact .inl (he.trans (max_eq_right hsmall))
    · rw [max_eq_left hlarge] at he
      right
      rw [he, le_div_iff₀ (by positivity)]
      calc
        (2 : ℚ) ^ 52 * 2 ^ e = 2 ^ (52 + e) := by
          rw [zpow_add₀ two_ne_zero]; rfl
        _ ≤ n / d := hexponent.1

/-- Rounding does not depend on the scale. -/
theorem RoundsTo.scale
    {low bits : Nat} {below above unit : ℚ}
    (hround : RoundsTo low bits below above)
    (hunit : 0 < unit) {base : Nat} (heven : Even base) :
    RoundsTo (base + low) (base + bits) (below * unit) (above * unit) := by
  rw [Nat.even_iff] at heven
  rcases hround with ⟨rfl, hnear⟩ | ⟨rfl, hnear⟩ | ⟨rfl, htie⟩
  · exact .inl ⟨rfl, by gcongr⟩
  · exact .inr (.inl ⟨rfl, by gcongr⟩)
  · exact .inr (.inr ⟨by omega, by rw [htie]⟩)

/-- A significand that is rounded lands on the rung that is nearest to it. -/
theorem isNearest_of_significand
    {a b u : Nat} (hb : 0 < b) (hwidth : (a : ℚ) / b < 2 ^ 53)
    (hfull : u = 0 ∨ 2 ^ 52 ≤ (a : ℚ) / b) :
    IsNearest (min infinityBits (u * 2 ^ 52 + roundQuotient a b))
      ((a : ℚ) / b * 2 ^ ((u : Int) - 1074)) := by
  have hpos : (0 : ℚ) < b := by exact_mod_cast hb
  have hunit : (0 : ℚ) < 2 ^ ((u : Int) - 1074) := by positivity
  have hbelow : ((a / b : Nat) : ℚ) ≤ a / b := Nat.cast_div_le
  have habove : (a : ℚ) / b < (a / b : Nat) + 1 := by
    rw [div_lt_iff₀ hpos]
    exact_mod_cast Nat.lt_mul_of_div_lt (Nat.lt_succ_self (a / b)) hb
  have hwidth : a / b < 2 ^ 53 := by exact_mod_cast hbelow.trans_lt hwidth
  have hfull : u = 0 ∨ 2 ^ 52 ≤ a / b := by
    refine hfull.imp_right fun hfull => ?_
    rw [le_div_iff₀ hpos] at hfull
    rw [Nat.le_div_iff_mul_le hb]
    exact_mod_cast hfull
  have hlow := rung_add hfull hwidth.le
  have hhigh :
      rung (u * 2 ^ 52 + a / b + 1) =
        ((a / b : Nat) + 1) * 2 ^ ((u : Int) - 1074) := by
    rw [Nat.add_assoc, rung_add (hfull.imp_right Nat.le_succ_of_le) hwidth,
      Nat.cast_succ]
  have heven : Even (u * 2 ^ 52) := ⟨u * 2 ^ 51, by omega⟩
  have hround := (roundsTo_roundQuotient (a := a) hb).scale hunit heven
  rw [sub_mul, sub_mul, ← hlow, ← hhigh] at hround
  refine isNearest_of_between ?_ ?_ hround
  · rw [hlow]
    gcongr
  · rw [hhigh]
    gcongr

/-- The bit pattern of a quotient is the one of the nearest number. -/
theorem isNearest_nearestBits (n : Nat) {d : Nat} (hd : 0 < d) :
    IsNearest (nearestBits n d) ((n : ℚ) / d) := by
  rcases eq_or_ne n 0 with rfl | hn
  · have hone : 0 < rung 1 := rung_zero ▸ rung_lt_succ 0
    rw [nearestBits, if_pos rfl, Nat.cast_zero, zero_div]
    exact isNearest_zero le_rfl (by rwa [sub_zero])
  obtain ⟨hleast, hwidth, hfull⟩ := exponentFor_spec hn hd
  obtain ⟨hpos, hscaled⟩ := scaled_eq (n := n) hd (exponentFor n d)
  obtain ⟨u, hu⟩ : ∃ u : Nat, exponentFor n d = (u : Int) - 1074 := by
    refine ⟨(exponentFor n d + 1074).toNat, ?_⟩
    unfold leastExponent at hleast
    omega
  have hunit : (2 : ℚ) ^ exponentFor n d ≠ 0 := by positivity
  have hvalue :
      (n : ℚ) / d =
        (scaled n d (exponentFor n d)).1 / (scaled n d (exponentFor n d)).2 *
          2 ^ exponentFor n d := by
    rw [hscaled, div_mul_cancel₀ _ hunit]
  rw [← hscaled] at hwidth hfull
  have hnearest := isNearest_of_significand (u := u) hpos hwidth
    (hfull.imp_left fun heq => by unfold leastExponent at heq; omega)
  rw [← hu, ← hvalue] at hnearest
  have hoffset : (exponentFor n d - leastExponent).toNat = u := by
    unfold leastExponent
    omega
  unfold nearestBits
  rw [if_neg hn]
  dsimp only
  rw [hoffset]
  exact hnearest

/-! ## Integers -/

/-- The integer part of a finite number: its size without the fraction, with its
sign. -/
structure IsIntegerPart (x : Float) (n : Int) : Prop where
  finite : size x < 2 ^ 1024
  natAbs : n.natAbs = ⌊size x⌋₊
  sign : if isNegative x then n ≤ 0 else 0 ≤ n

theorem floor_scaled (m : Nat) (q : Int) :
    ⌊(m : ℚ) * 2 ^ q⌋₊ = if q < 0 then m / 2 ^ (-q).toNat
      else m * 2 ^ q.toNat := by
  split
  next hneg =>
    obtain ⟨k, rfl⟩ : ∃ k : Nat, q = -k := ⟨(-q).toNat, by omega⟩
    rw [neg_neg, Int.toNat_natCast, zpow_neg, zpow_natCast, ← div_eq_mul_inv]
    have hfloor := Nat.floor_div_eq_div (K := ℚ) m (2 ^ k)
    rwa [Nat.cast_pow, Nat.cast_ofNat] at hfloor
  next hpos =>
    obtain ⟨k, rfl⟩ : ∃ k : Nat, q = k := ⟨q.toNat, by omega⟩
    rw [Int.toNat_natCast, zpow_natCast]
    exact_mod_cast Nat.floor_natCast (R := ℚ) (m * 2 ^ k)

theorem size_lt_of_magnitude?
    {x : Float} {m : Nat} {q : Int} (hmagnitude : magnitude? x = some (m, q)) :
    (m : ℚ) * 2 ^ q < 2 ^ 1024 := by
  obtain ⟨hm, hq⟩ := magnitude?_bounds hmagnitude
  have hm : (m : ℚ) < 2 ^ 53 := by
    have : m < 2 ^ 53 := by omega
    exact_mod_cast this
  calc
    (m : ℚ) * 2 ^ q < 2 ^ 53 * 2 ^ q := by gcongr
    _ ≤ 2 ^ 53 * 2 ^ (971 : Int) := by gcongr; norm_num
    _ = 2 ^ 53 * 2 ^ 971 := congrArg _ (zpow_natCast 2 971)
    _ = 2 ^ 1024 := by rw [← pow_add]

/-- Truncating a number gives its integer part, if it has one. -/
theorem truncate?_eq_some_iff (x : Float) (n : Int) :
    truncate? x = some n ↔ IsIntegerPart x n := by
  unfold truncate?
  cases hmagnitude : magnitude? x with
  | none =>
      have hsize : size x = 2 ^ 1024 := by rw [size, hmagnitude]
      constructor
      · intro hnone
        cases hnone
      · intro hpart
        exact absurd hpart.finite (by rw [hsize]; exact lt_irrefl _)
  | some pair =>
      obtain ⟨m, q⟩ := pair
      have hsize : size x = m * 2 ^ q := by rw [size, hmagnitude]
      have hfloor := floor_scaled m q
      rw [← hsize] at hfloor
      simp only [Option.map_some, Nat.pow_eq, ← hfloor, Option.some.injEq]
      constructor
      · rintro rfl
        refine ⟨hsize ▸ size_lt_of_magnitude? hmagnitude, ?_, ?_⟩
        · split <;> simp
        · split <;> simp
      · rintro ⟨-, hnatAbs, hsign⟩
        rw [← hnatAbs]
        split at hsign
        · rw [if_pos ‹_›]
          omega
        · rw [if_neg ‹_›]
          omega

/-- An integer has a number in double precision if the nearest one is finite. -/
theorem ofInt?_eq_some_iff (n : Int) (x : Float) :
    ofInt? n = some x ↔
      ∃ bits < infinityBits, IsNearest bits n.natAbs ∧
        x = withSign (n < 0) (ofPattern bits) := by
  have hnearest := isNearest_nearestBits n.natAbs one_pos
  rw [Nat.cast_one, div_one] at hnearest
  unfold ofInt?
  constructor
  · intro hsome
    split at hsome
    next hfinite =>
      cases hsome
      exact ⟨_, hfinite, hnearest, rfl⟩
    next => cases hsome
  · rintro ⟨bits, hfinite, hbits, rfl⟩
    obtain rfl := hbits.unique hnearest
    rw [if_pos hfinite]
    rfl

end Logo.Binary64
