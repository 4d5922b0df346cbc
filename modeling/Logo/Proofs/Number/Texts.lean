import Logo.Proofs.Number.Denoted
import Logo.Proofs.Text.Folding

/-!
# The numbers that texts denote

A host may turn any text into a number.  Around the number there may be blanks,
in front of it a sign, and between its digits, which may be of any script,
single underscores.  In double precision it may also have a point, an exponent
or a name.  The functions that read such texts go through them from left to
right and take as much as they can; here the texts are described as a whole.
-/

namespace Logo

open Binary64

/-! ## Characters -/

namespace Text

/-- What holds of the codes of all digits holds of a digit. -/
theorem of_digit?
    {P : Nat → Prop} (hcodes : ∀ first ∈ zeros, ∀ k < 10, P (first + k))
    {c : Char} {d : Nat} (hdigit : digit? c = some d) : P c.toNat := by
  obtain ⟨first, hfind, -⟩ := Option.map_eq_some_iff.mp hdigit
  have hwithin := List.find?_some hfind
  simp only [Bool.and_eq_true, decide_eq_true_eq] at hwithin
  have hcode :=
    hcodes first (List.mem_of_find?_eq_some hfind) (c.toNat - first) (by omega)
  rwa [Nat.add_sub_cancel' hwithin.1] at hcode

theorem isNumberPadding_of_digit?
    {c : Char} {d : Nat} (hdigit : digit? c = some d) :
    isNumberPadding c = false := by
  have hcode := of_digit?
    (P := fun n => ¬ ((0x09 ≤ n ∧ n ≤ 0x0D) ∨ (0x1C ≤ n ∧ n ≤ 0x20) ∨
      n = 0x85 ∨ n = 0xA0 ∨
      n = 0x1680 ∨ (0x2000 ≤ n ∧ n ≤ 0x200A) ∨ n = 0x2028 ∨ n = 0x2029 ∨
        n = 0x202F ∨ n = 0x205F ∨
      n = 0x3000)) (by decide) hdigit
  simp only [isNumberPadding, isBlank, Bool.and_eq_false_imp, Bool.or_eq_true,
    Bool.and_eq_true, decide_eq_true_eq, beq_iff_eq, Bool.not_eq_false']
  omega

theorem toLower_of_digit? {c : Char} {d : Nat} (hdigit : digit? c = some d) :
    c.toLower = c :=
  toLower_of_not_capital
    (of_digit? (P := fun n => ¬ (65 ≤ n ∧ n < 91)) (by decide) hdigit)

/-- A blank is no form of a letter. -/
theorem isNumberPadding_of_toLower
    {c : Char} (hlower : isNumberPadding c.toLower = false) :
    isNumberPadding c = false := by
  by_cases hcapital : 65 ≤ c.toNat ∧ c.toNat < 91
  · simp only [isNumberPadding, isBlank, Bool.and_eq_false_imp, Bool.or_eq_true,
      Bool.and_eq_true, decide_eq_true_eq, beq_iff_eq, Bool.not_eq_false']
    omega
  · rwa [toLower_of_not_capital hcapital] at hlower

section Trim

variable {p : Char → Bool} {left core right : List Char}

theorem trim_padded
    (hleft : ∀ c ∈ left, p c = true) (hcore : ∀ c ∈ core, p c = false)
    (hright : ∀ c ∈ right, p c = true) :
    trim p (left ++ (core ++ right)) = core := by
  have hdrop (letters : List Char) (hletters : ∀ c ∈ letters, p c = false) :
      letters.dropWhile p = letters := by
    cases letters with
    | nil => rfl
    | cons c rest =>
        exact List.dropWhile_cons_of_neg
          (by simp [hletters c List.mem_cons_self])
  have hback : dropEndWhile p (core ++ right) = core := by
    unfold dropEndWhile
    rw [List.reverse_append,
      List.dropWhile_append_of_pos (by simpa using hright),
      hdrop _ (by simpa using hcore), List.reverse_reverse]
  unfold trim
  rw [List.dropWhile_append_of_pos hleft]
  cases core with
  | nil =>
      rw [List.nil_append, List.dropWhile_eq_nil_iff.mpr hright]
      rfl
  | cons c rest =>
      rw [List.cons_append,
        List.dropWhile_cons_of_neg (by simp [hcore c List.mem_cons_self])]
      exact hback

theorem exists_eq_append_trim (p : Char → Bool) (text : List Char) :
    ∃ left right, text = left ++ (trim p text ++ right) ∧
      (∀ c ∈ left, p c = true) ∧
      ∀ c ∈ right, p c = true := by
  have hback (letters : List Char) :
      letters = dropEndWhile p letters ++
        (letters.reverse.takeWhile p).reverse := by
    unfold dropEndWhile
    rw [← List.reverse_append, List.takeWhile_append_dropWhile,
      List.reverse_reverse]
  refine ⟨text.takeWhile p,
    ((text.dropWhile p).reverse.takeWhile p).reverse, ?_, ?_, ?_⟩
  · rw [trim, ← hback, List.takeWhile_append_dropWhile]
  · intro c hc
    exact List.mem_takeWhile_imp hc
  · intro c hc
    exact List.mem_takeWhile_imp (List.mem_reverse.mp hc)

end Trim

end Text

namespace Decimal

open Text

/-! ## Numerals -/

/-- Digits with single underscores between some of them, and the values of the
digits. -/
inductive Numeral : List Char → List Nat → Prop where
  | last {c : Char} {d : Nat} (hdigit : digit? c = some d) : Numeral [c] [d]
  | next {c : Char} {d : Nat} {rest : List Char} {ds : List Nat}
      (hdigit : digit? c = some d) (hrest : Numeral rest ds) :
      Numeral (c :: rest) (d :: ds)
  | spaced {c : Char} {d : Nat} {rest : List Char} {ds : List Nat}
      (hdigit : digit? c = some d) (hrest : Numeral rest ds) :
      Numeral (c :: '_' :: rest) (d :: ds)

theorem Numeral.exists_cons
    {text : List Char} {ds : List Nat} (hnumeral : Numeral text ds) :
    ∃ c rest d, text = c :: rest ∧ digit? c = some d := by
  cases hnumeral with
  | last hdigit => exact ⟨_, _, _, rfl, hdigit⟩
  | next hdigit => exact ⟨_, _, _, rfl, hdigit⟩
  | spaced hdigit => exact ⟨_, _, _, rfl, hdigit⟩

theorem numeral_of_digit?
    {c : Char} {d : Nat} (hdigit : digit? c = some d) (afterDigit : Bool)
    (rest : List Char) :
    numeral afterDigit (c :: rest) =
      (d :: (numeral true rest).1, (numeral true rest).2) := by
  simp only [numeral, hdigit]

/-- A numeral is read up to where it stops. -/
theorem Numeral.numeral_append
    {text : List Char} {ds : List Nat} (hnumeral : Numeral text ds)
    {rest : List Char}
    (hrest : ∀ afterDigit, numeral afterDigit rest = ([], rest))
    (afterDigit : Bool) :
    numeral afterDigit (text ++ rest) = (ds, rest) := by
  induction hnumeral generalizing afterDigit with
  | last hdigit =>
      rw [List.singleton_append, numeral_of_digit? hdigit, hrest]
  | next hdigit _ ih =>
      rw [List.cons_append, numeral_of_digit? hdigit, ih]
  | spaced hdigit hmore ih =>
      obtain ⟨c, others, d, rfl, hnext⟩ := hmore.exists_cons
      have hunderscore : digit? '_' = none := by decide
      rw [List.cons_append, List.cons_append, numeral_of_digit? hdigit]
      have hskip :
          numeral true ('_' :: (c :: others ++ rest)) = numeral false
            (c :: others ++ rest) := by
        rw [numeral, hunderscore]
        simp [hnext]
      rw [hskip, ih]

/-- What is read are digits, if any, and between them underscores. -/
theorem numeral_cases (afterDigit : Bool) (text : List Char) :
    numeral afterDigit text = ([], text) ∨
      ∃ front ds rest, numeral afterDigit text = (ds, rest) ∧
        text = front ++ rest ∧ (Numeral front ds ∨
          afterDigit = true ∧ ∃ others, front = '_' :: others ∧
            Numeral others ds) := by
  induction text generalizing afterDigit with
  | nil => exact .inl rfl
  | cons c text ih =>
      cases hdigit : digit? c with
      | some d =>
          refine .inr ?_
          rw [numeral_of_digit? hdigit]
          rcases ih true with hnone | ⟨front, ds, rest, hread, rfl, hfront⟩
          · exact ⟨[c], [d], text, by rw [hnone], rfl, .inl (.last hdigit)⟩
          · refine ⟨c :: front, d :: ds, rest, by rw [hread], rfl, .inl ?_⟩
            rcases hfront with hfront | ⟨-, others, rfl, hothers⟩
            · exact .next hdigit hfront
            · exact .spaced hdigit hothers
      | none =>
          rw [numeral, hdigit]
          dsimp only
          split
          next hskips =>
            simp only [Bool.and_eq_true, decide_eq_true_eq] at hskips
            obtain ⟨⟨hafter, rfl⟩, hnext⟩ := hskips
            obtain ⟨d, hd⟩ := Option.isSome_iff_exists.mp hnext
            obtain ⟨next, hhead, hd⟩ := Option.bind_eq_some_iff.mp hd
            obtain ⟨others, rfl⟩ := List.head?_eq_some_iff.mp hhead
            rcases ih false with hnone | ⟨front, ds, rest, hread, htext, hfront⟩
            · rw [numeral_of_digit? hd, Prod.mk.injEq] at hnone
              simp at hnone
            · refine .inr ⟨'_' :: front, ds, rest, hread,
                by rw [htext, List.cons_append], .inr ?_⟩
              exact ⟨hafter, front, rfl, hfront.resolve_right (by simp)⟩
          next => exact .inl rfl

theorem value_eq_ofDigits (ds : List Nat) :
    value ds = Nat.ofDigits 10 ds.reverse := by
  rw [value, Nat.ofDigits_eq_foldr, List.foldr_reverse]
  congr
  funext n d
  exact Nat.add_comm _ _

/-! ## Signs and blanks -/

/-- A sign as it is written, true for minus. -/
inductive IsSign : List Char → Bool → Prop where
  | none : IsSign [] false
  | plus : IsSign ['+'] false
  | minus : IsSign ['-'] true

/-- A text is a body behind a sign, with blanks around both. -/
def Signed (text : List Char) (negative : Bool) (body : List Char) : Prop :=
  ∃ left front right, text = left ++ (front ++ body ++ right) ∧
    IsSign front negative ∧
    (∀ c ∈ left, isNumberPadding c = true) ∧
      ∀ c ∈ right, isNumberPadding c = true

/-- A body has no blanks and does not start with a sign. -/
structure IsBody (text : List Char) : Prop where
  solid : ∀ c ∈ text, isNumberPadding c = false
  unsigned : ∀ rest, text ≠ '-' :: rest ∧ text ≠ '+' :: rest

theorem sign_append
    {front body : List Char} {negative : Bool} (hfront : IsSign front negative)
    (hbody : ∀ rest, body ≠ '-' :: rest ∧ body ≠ '+' :: rest) :
    sign (front ++ body) = (negative, body) := by
  cases hfront with
  | none =>
      rw [List.nil_append]
      unfold sign
      split
      next rest => exact absurd rfl (hbody rest).1
      next rest => exact absurd rfl (hbody rest).2
      next => rfl
  | plus => rfl
  | minus => rfl

theorem exists_sign (text : List Char) :
    ∃ front, text = front ++ (sign text).2 ∧ IsSign front (sign text).1 := by
  unfold sign
  split
  · exact ⟨['-'], rfl, .minus⟩
  · exact ⟨['+'], rfl, .plus⟩
  · exact ⟨[], rfl, .none⟩

theorem IsSign.solid
    {front : List Char} {negative : Bool} (hsign : IsSign front negative) :
    ∀ c ∈ front, isNumberPadding c = false := by
  cases hsign with
  | none => exact List.forall_mem_nil _
  | plus => exact List.forall_mem_singleton.mpr (by decide)
  | minus => exact List.forall_mem_singleton.mpr (by decide)

/-- The sign and the body of a text are found by dropping the blanks. -/
theorem signed_iff
    {text body : List Char} {negative : Bool} (hbody : IsBody body) :
    Signed text negative body ↔ sign (trim isNumberPadding text) =
      (negative, body) := by
  constructor
  · rintro ⟨left, front, right, rfl, hfront, hleft, hright⟩
    have hsolid := List.forall_mem_append.mpr ⟨hfront.solid, hbody.solid⟩
    rw [trim_padded hleft hsolid hright]
    exact sign_append hfront hbody.unsigned
  · intro hsign
    obtain ⟨left, right, htext, hleft, hright⟩ :=
      exists_eq_append_trim isNumberPadding text
    obtain ⟨front, htrimmed, hfront⟩ := exists_sign (trim isNumberPadding text)
    rw [hsign] at htrimmed hfront
    exact ⟨left, front, right,
      by rw [← htrimmed]; exact htext, hfront, hleft, hright⟩

theorem Numeral.solid
    {text : List Char} {ds : List Nat} (hnumeral : Numeral text ds) :
    ∀ c ∈ text, isNumberPadding c = false := by
  induction hnumeral with
  | last hdigit =>
      exact List.forall_mem_singleton.mpr (isNumberPadding_of_digit? hdigit)
  | next hdigit _ ih =>
      exact List.forall_mem_cons.mpr ⟨isNumberPadding_of_digit? hdigit, ih⟩
  | spaced hdigit _ ih =>
      exact List.forall_mem_cons.mpr
        ⟨isNumberPadding_of_digit? hdigit,
          List.forall_mem_cons.mpr ⟨by decide, ih⟩⟩

theorem Numeral.isBody
    {text : List Char} {ds : List Nat} (hnumeral : Numeral text ds) :
    IsBody text where
  solid := hnumeral.solid
  unsigned := by
    obtain ⟨c, rest, d, rfl, hdigit⟩ := hnumeral.exists_cons
    have hminus : digit? '-' = none := by decide
    have hplus : digit? '+' = none := by decide
    intro others
    constructor
    · rintro ⟨⟩
      simp [hminus] at hdigit
    · rintro ⟨⟩
      simp [hplus] at hdigit

/-! ## Integers -/

def signedValue (negative : Bool) (ds : List Nat) : Int :=
  let size : Nat := Nat.ofDigits 10 ds.reverse
  if negative then -(size : Int) else size

/-- An integer as a text: a numeral of not too many digits behind a sign. -/
def DenotesInteger (text : String) (n : Int) : Prop :=
  ∃ negative body ds, Signed text.toList negative body ∧ Numeral body ds ∧
    ds.length ≤ digitLimit ∧ n = signedValue negative ds

/-- A numeral that is read to the end of a text is the text. -/
theorem numeral_eq_iff
    {text : List Char} {ds : List Nat} (hsome : ds ≠ []) :
    numeral false text = (ds, []) ↔ Numeral text ds := by
  constructor
  · intro hread
    rcases numeral_cases false text with
      hnone | ⟨front, ds', rest, hread', rfl, hfront⟩
    · rw [hread, Prod.mk.injEq] at hnone
      exact absurd hnone.1 hsome
    · rw [hread, Prod.mk.injEq] at hread'
      obtain ⟨rfl, rfl⟩ := hread'
      rw [List.append_nil]
      exact hfront.resolve_right (by simp)
  · intro hnumeral
    have hstops (afterDigit : Bool) : numeral afterDigit [] = ([], []) := rfl
    have hread := hnumeral.numeral_append hstops false
    rwa [List.append_nil] at hread

theorem Numeral.ne_nil
    {text : List Char} {ds : List Nat}
    (hnumeral : Numeral text ds) : ds ≠ [] := by
  cases hnumeral <;> simp

theorem integer?_eq_some_iff (text : String) (n : Int) :
    integer? text = some n ↔ DenotesInteger text n := by
  constructor
  · intro hread
    rcases hsign : sign (trim isNumberPadding text.toList) with ⟨negative, body⟩
    unfold integer? at hread
    rw [hsign] at hread
    dsimp only at hread
    split at hread
    next => cases hread
    next ds hsome hnumeral =>
      split at hread
      next => cases hread
      next hlimit =>
        have hbody := (numeral_eq_iff hsome).mp hnumeral
        refine ⟨negative, body, ds, (signed_iff hbody.isBody).mpr hsign, hbody,
          Nat.le_of_not_lt hlimit, ?_⟩
        rw [← Option.some.inj hread, signedValue, value_eq_ofDigits]
    next => cases hread
  · rintro ⟨negative, body, ds, hsigned, hbody, hlimit, rfl⟩
    have hsign := (signed_iff hbody.isBody).mp hsigned
    have hnumeral := (numeral_eq_iff hbody.ne_nil).mpr hbody
    unfold integer?
    dsimp only
    rw [hsign]
    dsimp only
    rw [hnumeral]
    obtain ⟨d, others, rfl⟩ := List.exists_cons_of_ne_nil hbody.ne_nil
    simp only
    rw [if_neg (Nat.not_lt.mpr hlimit), signedValue, value_eq_ofDigits]

/-! ## Double precision -/

/-- Digits with perhaps a point among them, the values of the digits, and how
many of them stand behind the point. -/
inductive Mantissa : List Char → List Nat → Nat → Prop where
  | whole {text : List Char} {ds : List Nat} (hwhole : Numeral text ds) :
      Mantissa text ds 0
  | point {text : List Char} {ds : List Nat} (hwhole : Numeral text ds) :
      Mantissa (text ++ ['.']) ds 0
  | fraction {text more : List Char} {ds es : List Nat}
      (hwhole : Numeral text ds) (hfraction : Numeral more es) :
      Mantissa (text ++ '.' :: more) (ds ++ es) es.length
  | bare {more : List Char} {es : List Nat} (hfraction : Numeral more es) :
      Mantissa ('.' :: more) es es.length

/-- The power of ten at the end of a number, if there is one. -/
inductive Exponent : List Char → Int → Prop where
  | none : Exponent [] 0
  | some {mark : Char} {front digits : List Char} {negative : Bool}
      {ds : List Nat} (hmark : mark.toLower = 'e')
      (hsign : IsSign front negative) (hdigits : Numeral digits ds) :
      Exponent (mark :: (front ++ digits)) (signedValue negative ds)

/-- What a body denotes in double precision: infinity and what is not a number
by their names, and otherwise the number nearest to a decimal. -/
inductive Magnitude : List Char → Float → Prop where
  | infinity {text : List Char}
      (hname : text.map Char.toLower = "inf".toList ∨
        text.map Char.toLower = "infinity".toList) :
      Magnitude text (ofPattern infinityBits)
  | notANumber {text : List Char}
      (hname : text.map Char.toLower = "nan".toList) :
      Magnitude text Binary64.notANumber
  | decimal {front back : List Char} {ds : List Nat}
      {places bits : Nat} {power : Int} (hfront : Mantissa front ds places)
      (hback : Exponent back power)
      (hnearest : IsNearest bits
        ((Nat.ofDigits 10 ds.reverse : Nat) * 10 ^ (power - places))) :
      Magnitude (front ++ back) (ofPattern bits)

def DenotesReal (text : String) (x : Float) : Prop :=
  ∃ negative body y, Signed text.toList negative body ∧ Magnitude body y ∧
    x = withSign negative y

section Exponents

variable {mark : Char} (hmark : mark.toLower = 'e')

include hmark

theorem digit?_of_toLower_eq : digit? mark = none := by
  cases hdigit : digit? mark with
  | none => rfl
  | some d =>
      have hletter : digit? 'e' = none := by decide
      rw [toLower_of_digit? hdigit] at hmark
      rw [hmark, hletter] at hdigit
      cases hdigit

theorem ne_of_toLower_eq {c : Char} (hc : c.toLower ≠ 'e') : mark ≠ c := by
  rintro rfl
  exact hc hmark

end Exponents

/-- A numeral stops at an exponent. -/
theorem Exponent.numeral_eq
    {text : List Char} {power : Int} (hexponent : Exponent text power)
    (afterDigit : Bool) :
    numeral afterDigit text = ([], text) := by
  cases hexponent with
  | none => rfl
  | some hmark =>
      rw [numeral, digit?_of_toLower_eq hmark]
      simp [ne_of_toLower_eq hmark (c := '_') (by decide)]

theorem Exponent.ne_point
    {text : List Char} {power : Int} (hexponent : Exponent text power)
    (rest : List Char) :
    text ≠ '.' :: rest := by
  cases hexponent with
  | none => simp
  | some hmark => simp [ne_of_toLower_eq hmark (c := '.') (by decide)]

theorem exponent?_eq_some_iff {text : List Char} {power : Int} :
    exponent? text = some power ↔ Exponent text power := by
  constructor
  · intro hread
    cases text with
    | nil =>
        cases hread
        exact .none
    | cons mark rest =>
        simp only [exponent?] at hread
        split at hread
        next hmark =>
          obtain ⟨front, hrest, hfront⟩ := exists_sign rest
          split at hread
          next => cases hread
          next ds hsome hnumeral =>
            have hdigits := (numeral_eq_iff hsome).mp hnumeral
            rw [hrest, ← Option.some.inj hread, value_eq_ofDigits]
            exact .some hmark hfront hdigits
          next => cases hread
        next => cases hread
  · intro hexponent
    cases hexponent with
    | none => rfl
    | @some mark front digits negative ds hmark hsign hdigits =>
        have hnumeral := (numeral_eq_iff hdigits.ne_nil).mpr hdigits
        rw [exponent?, if_pos hmark, sign_append hsign hdigits.isBody.unsigned]
        dsimp only
        rw [hnumeral]
        obtain ⟨d, others, rfl⟩ := List.exists_cons_of_ne_nil hdigits.ne_nil
        simp only
        rw [signedValue, value_eq_ofDigits]

theorem numeral_point (afterDigit : Bool) (rest : List Char) :
    numeral afterDigit ('.' :: rest) = ([], '.' :: rest) := by
  have hpoint : digit? '.' = none := by decide
  rw [numeral, hpoint]
  simp

/-- A mantissa starts with a digit or with the point. -/
theorem Mantissa.exists_cons
    {text : List Char} {ds : List Nat} {places : Nat}
    (hmantissa : Mantissa text ds places) :
    ∃ c rest, text = c :: rest ∧ (c = '.' ∨ (digit? c).isSome = true) := by
  cases hmantissa with
  | whole hwhole =>
      obtain ⟨c, rest, d, rfl, hdigit⟩ := hwhole.exists_cons
      exact ⟨c, rest, rfl, .inr (by rw [hdigit]; rfl)⟩
  | point hwhole =>
      obtain ⟨c, rest, d, rfl, hdigit⟩ := hwhole.exists_cons
      exact ⟨c, _, rfl, .inr (by rw [hdigit]; rfl)⟩
  | fraction hwhole =>
      obtain ⟨c, rest, d, rfl, hdigit⟩ := hwhole.exists_cons
      exact ⟨c, _, rfl, .inr (by rw [hdigit]; rfl)⟩
  | bare => exact ⟨_, _, rfl, .inl rfl⟩

/-- So it does not start with a letter or a sign. -/
theorem toLower_ne_of_leads
    {c : Char} (hleads : c = '.' ∨ (digit? c).isSome = true) (other : Char)
    (hother : digit? other = none) (hpoint : other ≠ '.') :
    c.toLower ≠ other := by
  rintro rfl
  rcases hleads with rfl | hdigit
  · exact hpoint rfl
  · obtain ⟨d, hd⟩ := Option.isSome_iff_exists.mp hdigit
    rw [toLower_of_digit? hd, hd] at hother
    cases hother

def behindPoint : List Char → List Nat × List Char
  | '.' :: rest => numeral false rest
  | rest => ([], rest)

/-- A body that is no name is a decimal. -/
theorem magnitude?_of_not_name
    {text : List Char}
    (hinfinity : ¬ (text.map Char.toLower = "inf".toList ∨
      text.map Char.toLower = "infinity".toList))
    (hnan : text.map Char.toLower ≠ "nan".toList) {whole fraction : List Nat}
    {rest back : List Char} (hwhole : numeral false text = (whole, rest))
    (hfraction : behindPoint rest = (fraction, back)) :
    magnitude? text =
      if whole.isEmpty && fraction.isEmpty then none
      else (exponent? back).map fun power =>
        nearestDecimal (value (whole ++ fraction))
          (power - fraction.length) := by
  have hread : magnitude? text =
      if whole.isEmpty && (behindPoint rest).1.isEmpty then none
      else (exponent? (behindPoint rest).2).map fun power =>
        nearestDecimal (value (whole ++ (behindPoint rest).1))
          (power - (behindPoint rest).1.length) := by
    unfold magnitude?
    dsimp only
    rw [if_neg hinfinity, if_neg hnan, hwhole]
    rfl
  rw [hread, hfraction]

theorem magnitude?_decimal
    {front back : List Char} {ds : List Nat} {places : Nat} {power : Int}
    (hfront : Mantissa front ds places) (hback : Exponent back power) :
    magnitude? (front ++ back) =
      some (nearestDecimal (value ds) (power - places)) := by
  obtain ⟨c, rest, hcons, hleads⟩ := hfront.exists_cons
  have hi := toLower_ne_of_leads hleads 'i' (by decide) (by decide)
  have hn := toLower_ne_of_leads hleads 'n' (by decide) (by decide)
  have hinfinity :
      ¬ ((front ++ back).map Char.toLower = "inf".toList ∨
        (front ++ back).map Char.toLower = "infinity".toList) := by
    rw [hcons]
    simp [hi]
  have hnan : (front ++ back).map Char.toLower ≠ "nan".toList := by
    rw [hcons]
    simp [hn]
  have hexponent := exponent?_eq_some_iff.mpr hback
  have hstops := hback.numeral_eq
  have hpoint (more : List Char) (afterDigit : Bool) :=
    numeral_point afterDigit more
  cases hfront with
  | whole hwhole =>
      have hfraction : behindPoint back = ([], back) := by
        unfold behindPoint
        split
        next others => exact absurd rfl (hback.ne_point others)
        next => rfl
      rw [magnitude?_of_not_name hinfinity hnan
        (hwhole.numeral_append hstops false) hfraction, hexponent]
      simp [hwhole.ne_nil]
  | @point text _ hwhole =>
      rw [List.append_assoc, List.singleton_append] at hinfinity hnan ⊢
      rw [magnitude?_of_not_name hinfinity hnan
        (hwhole.numeral_append (hpoint back) false) (hstops false), hexponent]
      simp [hwhole.ne_nil]
  | fraction hwhole hfraction =>
      rw [List.append_assoc, List.cons_append] at hinfinity hnan ⊢
      rw [magnitude?_of_not_name hinfinity hnan
        (hwhole.numeral_append (hpoint _) false)
        (hfraction.numeral_append hstops false), hexponent]
      simp [hwhole.ne_nil]
  | bare hfraction =>
      rw [List.cons_append] at hinfinity hnan ⊢
      rw [magnitude?_of_not_name hinfinity hnan (hpoint _ false)
        (hfraction.numeral_append hstops false), hexponent]
      simp [hfraction.ne_nil]

/-- What is read is a mantissa in front of an exponent. -/
theorem exists_mantissa
    {text rest back : List Char} {whole fraction : List Nat}
    (hwhole : numeral false text = (whole, rest))
    (hfraction : behindPoint rest = (fraction, back))
    (hsome : ¬ (whole = [] ∧ fraction = [])) :
    ∃ front, text = front ++ back ∧
      Mantissa front (whole ++ fraction) fraction.length := by
  have hwholes :
      whole = [] ∧ text = rest ∨ ∃ front, text = front ++ rest ∧
        Numeral front whole := by
    rcases numeral_cases false text with
      hnone | ⟨front, ds, others, hread, htext, hfront⟩
    · rw [hwhole, Prod.mk.injEq] at hnone
      exact .inl ⟨hnone.1, hnone.2.symm⟩
    · rw [hwhole, Prod.mk.injEq] at hread
      obtain ⟨rfl, rfl⟩ := hread
      exact .inr ⟨front, htext, hfront.resolve_right (by simp)⟩
  unfold behindPoint at hfraction
  split at hfraction
  next more =>
    rcases numeral_cases false more with
      hnone | ⟨digits, es, others, hread, rfl, hdigits⟩
    · rw [hfraction, Prod.mk.injEq] at hnone
      obtain ⟨rfl, rfl⟩ := hnone
      rcases hwholes with ⟨rfl, -⟩ | ⟨front, rfl, hfront⟩
      · exact absurd ⟨rfl, rfl⟩ hsome
      · refine ⟨front ++ ['.'], by simp, ?_⟩
        rw [List.append_nil]
        exact .point hfront
    · rw [hfraction, Prod.mk.injEq] at hread
      obtain ⟨rfl, rfl⟩ := hread
      have hdigits := hdigits.resolve_right (by simp)
      rcases hwholes with ⟨rfl, rfl⟩ | ⟨front, rfl, hfront⟩
      · exact ⟨'.' :: digits, rfl, .bare hdigits⟩
      · exact ⟨front ++ '.' :: digits, by simp, .fraction hfront hdigits⟩
  next =>
    cases hfraction
    rcases hwholes with ⟨rfl, -⟩ | ⟨front, rfl, hfront⟩
    · exact absurd ⟨rfl, rfl⟩ hsome
    · refine ⟨front, rfl, ?_⟩
      rw [List.append_nil]
      exact .whole hfront

theorem magnitude?_eq_some_iff {text : List Char} {x : Float} :
    magnitude? text = some x ↔ Magnitude text x := by
  constructor
  · intro hread
    by_cases hinfinity :
        text.map Char.toLower = "inf".toList ∨
          text.map Char.toLower = "infinity".toList
    · unfold magnitude? at hread
      dsimp only at hread
      rw [if_pos hinfinity] at hread
      cases hread
      exact .infinity hinfinity
    by_cases hnan : text.map Char.toLower = "nan".toList
    · unfold magnitude? at hread
      dsimp only at hread
      rw [if_neg hinfinity, if_pos hnan] at hread
      cases hread
      exact .notANumber hnan
    rcases hwhole : numeral false text with ⟨whole, rest⟩
    rcases hfraction : behindPoint rest with ⟨fraction, back⟩
    rw [magnitude?_of_not_name hinfinity hnan hwhole hfraction] at hread
    split at hread
    next => cases hread
    next hsome =>
      obtain ⟨power, hpower, rfl⟩ := Option.map_eq_some_iff.mp hread
      obtain ⟨front, rfl, hfront⟩ :=
        exists_mantissa hwhole hfraction (by simpa using hsome)
      obtain ⟨bits, hbits, hnearest⟩ :=
        exists_nearestDecimal (value (whole ++ fraction))
          (power - fraction.length)
      rw [hbits]
      rw [value_eq_ofDigits] at hnearest
      exact .decimal hfront (exponent?_eq_some_iff.mp hpower) hnearest
  · intro hmagnitude
    cases hmagnitude with
    | infinity hname =>
        unfold magnitude?
        dsimp only
        rw [if_pos hname]
        rfl
    | notANumber hname =>
        have hnot :
            ¬ (text.map Char.toLower = "inf".toList ∨
              text.map Char.toLower = "infinity".toList) := by
          rw [hname]
          decide
        unfold magnitude?
        dsimp only
        rw [if_neg hnot, if_pos hname]
    | @decimal front back ds places bits power hfront hback hnearest =>
        obtain ⟨bits', hbits', hnearest'⟩ :=
          exists_nearestDecimal (value ds) (power - places)
        rw [value_eq_ofDigits] at hnearest'
        rw [magnitude?_decimal hfront hback, hbits', hnearest'.unique hnearest]

theorem Mantissa.solid
    {text : List Char} {ds : List Nat} {places : Nat}
    (hmantissa : Mantissa text ds places) :
    ∀ c ∈ text, isNumberPadding c = false := by
  have hpoint : isNumberPadding '.' = false := by decide
  cases hmantissa with
  | whole hwhole => exact hwhole.solid
  | point hwhole =>
      exact List.forall_mem_append.mpr
        ⟨hwhole.solid, List.forall_mem_singleton.mpr hpoint⟩
  | fraction hwhole hfraction =>
      exact List.forall_mem_append.mpr
        ⟨hwhole.solid, List.forall_mem_cons.mpr ⟨hpoint, hfraction.solid⟩⟩
  | bare hfraction => exact List.forall_mem_cons.mpr ⟨hpoint, hfraction.solid⟩

theorem Exponent.solid
    {text : List Char} {power : Int} (hexponent : Exponent text power) :
    ∀ c ∈ text, isNumberPadding c = false := by
  cases hexponent with
  | none => exact List.forall_mem_nil _
  | some hmark hsign hdigits =>
      refine List.forall_mem_cons.mpr
        ⟨isNumberPadding_of_toLower ?_,
          List.forall_mem_append.mpr ⟨hsign.solid, hdigits.solid⟩⟩
      rw [hmark]
      decide

/-- The name of a number is a body, however it is capitalized. -/
theorem isBody_of_name
    {text name : List Char} (hname : text.map Char.toLower = name)
    (hsolid : name.all (!isNumberPadding ·) = true)
    (hunsigned : ∀ rest, name ≠ '-' :: rest ∧ name ≠ '+' :: rest) :
    IsBody text where
  solid := by
    intro c hc
    have hmem : c.toLower ∈ name := hname ▸ List.mem_map_of_mem hc
    exact isNumberPadding_of_toLower
      (by simpa using List.all_eq_true.mp hsolid _ hmem)
  unsigned := by
    intro rest
    constructor
    · rintro rfl
      exact (hunsigned _).1 hname.symm
    · rintro rfl
      exact (hunsigned _).2 hname.symm

theorem Magnitude.isBody
    {text : List Char} {x : Float} (hmagnitude : Magnitude text x) :
    IsBody text := by
  cases hmagnitude with
  | infinity hname =>
      rcases hname with hname | hname
      · exact isBody_of_name hname (by decide) (by simp)
      · exact isBody_of_name hname (by decide) (by simp)
  | notANumber hname => exact isBody_of_name hname (by decide) (by simp)
  | decimal hfront hback =>
      refine ⟨List.forall_mem_append.mpr ⟨hfront.solid, hback.solid⟩, ?_⟩
      obtain ⟨c, rest, rfl, hleads⟩ := hfront.exists_cons
      intro others
      constructor
      · rintro ⟨⟩
        exact toLower_ne_of_leads hleads '-' (by decide) (by decide) rfl
      · rintro ⟨⟩
        exact toLower_ne_of_leads hleads '+' (by decide) (by decide) rfl

theorem real?_eq_some_iff (text : String) (x : Float) :
    real? text = some x ↔ DenotesReal text x := by
  constructor
  · intro hread
    rcases hsign : sign (trim isNumberPadding text.toList) with ⟨negative, body⟩
    unfold real? at hread
    rw [hsign] at hread
    obtain ⟨y, hy, rfl⟩ := Option.map_eq_some_iff.mp hread
    have hbody := magnitude?_eq_some_iff.mp hy
    exact ⟨negative, body, y, (signed_iff hbody.isBody).mpr hsign, hbody, rfl⟩
  · rintro ⟨negative, body, y, hsigned, hbody, rfl⟩
    unfold real?
    rw [(signed_iff hbody.isBody).mp hsigned]
    exact Option.map_eq_some_iff.mpr ⟨y, magnitude?_eq_some_iff.mpr hbody, rfl⟩

end Decimal

end Logo
