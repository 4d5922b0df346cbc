import Logo.Number.Text
import Logo.Proofs.Vocabulary.Spelling

/-!
# Constants that can be read

A constant with a point always denotes a number in double precision, the one
nearest to the decimal that is written.  One without a point denotes the integer
that is written, unless it has too many digits, and then the digits are counted.
These are also the numbers that a host would read from the same texts.
-/

namespace Logo

open Decimal

def Decimal.digitValue (c : Char) : Nat := c.toNat - '0'.toNat

namespace Text

theorem digit?_of_isDigit {c : Char} (hdigit : c.isDigit = true) :
    digit? c = some (digitValue c) :=
  of_isDigit (P := fun c => digit? c = some (digitValue c)) (by decide) hdigit

theorem isNumberPadding_of_isDigit {c : Char} (hdigit : c.isDigit = true) :
    isNumberPadding c = false :=
  of_isDigit (P := fun c => isNumberPadding c = false) (by decide) hdigit

theorem trim_eq_self
    {p : Char → Bool} {text : List Char} (htext : ∀ c ∈ text, p c = false) :
    trim p text = text := by
  have hdrop (letters : List Char) (hletters : ∀ c ∈ letters, p c = false) :
      letters.dropWhile p = letters := by
    cases letters with
    | nil => rfl
    | cons c rest =>
        have hfirst := hletters c List.mem_cons_self
        simp [hfirst]
  have hreverse : text.reverse.dropWhile p = text.reverse :=
    hdrop text.reverse fun c hc => htext c (List.mem_reverse.mp hc)
  rw [trim, dropEndWhile, hdrop text htext, hreverse, List.reverse_reverse]

end Text

theorem Decimal.sign_of_isDigit
    {c : Char} (hdigit : c.isDigit = true) (rest : List Char) :
    sign (c :: rest) = (false, c :: rest) := by
  unfold sign
  split
  next heq =>
    cases heq
    cases hdigit
  next heq =>
    cases heq
    cases hdigit
  next => rfl

/-- Digits are read up to the first character that is neither a digit nor an
underscore. -/
theorem Decimal.numeral_digits_append
    {digits rest : List Char} (hdigits : ∀ c ∈ digits, c.isDigit = true)
    (hrest : ∀ afterDigit, numeral afterDigit rest = ([], rest))
    (afterDigit : Bool) :
    numeral afterDigit (digits ++ rest) = (digits.map digitValue, rest) := by
  induction digits generalizing afterDigit with
  | nil => exact hrest afterDigit
  | cons c digits ih =>
      rw [List.forall_mem_cons] at hdigits
      simp only [List.cons_append, numeral, Text.digit?_of_isDigit hdigits.1,
        ih hdigits.2 true, List.map_cons]

theorem Decimal.numeral_digits
    {digits : List Char} (hdigits : ∀ c ∈ digits, c.isDigit = true) :
    numeral false digits = (digits.map digitValue, []) := by
  have hend (afterDigit : Bool) : numeral afterDigit [] = ([], []) := rfl
  have hnumeral := numeral_digits_append hdigits hend false
  rwa [List.append_nil] at hnumeral

/-- The magnitude of digits with a point among or behind them. -/
theorem Decimal.magnitude?_point
    {whole fraction : List Char} (hsome : whole ≠ [])
    (hwhole : ∀ c ∈ whole, c.isDigit = true)
    (hfraction : ∀ c ∈ fraction, c.isDigit = true) :
    magnitude? (whole ++ '.' :: fraction) =
      some (nearestDecimal (value ((whole ++ fraction).map digitValue))
        (-fraction.length)) := by
  have hstop (afterDigit : Bool) :
      numeral afterDigit ('.' :: fraction) = ([], '.' :: fraction) := by
    have hdot : Text.digit? '.' = none := by decide
    simp [numeral, hdot]
  have hname (name : String) (hplain : '.' ∉ name.toList) :
      (whole ++ '.' :: fraction).map Char.toLower ≠ name.toList := by
    intro heq
    apply hplain
    rw [← heq]
    exact List.mem_map.mpr ⟨'.', by simp, rfl⟩
  have hinfinite :
      ¬ ((whole ++ '.' :: fraction).map Char.toLower = "inf".toList ∨
        (whole ++ '.' :: fraction).map Char.toLower = "infinity".toList) := by
    simp only [not_or]
    exact ⟨hname "inf" (by decide), hname "infinity" (by decide)⟩
  simp only [magnitude?, if_neg hinfinite, if_neg (hname "nan" (by decide)),
    numeral_digits_append hwhole hstop, numeral_digits hfraction]
  simp [hsome, exponent?]

/-- A sign is recognised, and digits have none. -/
theorem Decimal.sign_signed
    (negative : Bool) {whole : List Char} (hsome : whole ≠ [])
    (hwhole : ∀ c ∈ whole, c.isDigit = true) (rest : List Char) :
    sign ((if negative then ['-'] else []) ++ (whole ++ rest)) =
      (negative, whole ++ rest) := by
  obtain ⟨c, digits, rfl⟩ := List.exists_cons_of_ne_nil hsome
  cases negative with
  | true => rfl
  | false => exact sign_of_isDigit (hwhole c List.mem_cons_self) _

theorem IsConstant.not_padding
    {letters : List Char} (hconstant : IsConstant letters) :
    ∀ c ∈ letters, Text.isNumberPadding c = false := by
  intro c hc
  have hdot : Text.isNumberPadding '.' = false := by decide
  have hsign (negative : Bool) (hmem : c ∈ if negative then ['-'] else []) :
      Text.isNumberPadding c = false := by
    cases negative with
    | true =>
        rw [List.mem_singleton.mp hmem]
        decide
    | false => cases hmem
  cases hconstant with
  | integer negative hsome hwhole =>
      rcases List.mem_append.mp hc with hmem | hmem
      · exact hsign negative hmem
      · exact Text.isNumberPadding_of_isDigit (hwhole c hmem)
  | point negative hsome hwhole hfraction =>
      rcases List.mem_append.mp hc with hmem | hmem
      · exact hsign negative hmem
      · rcases List.mem_append.mp hmem with hmem | hmem
        · exact Text.isNumberPadding_of_isDigit (hwhole c hmem)
        · rcases List.mem_cons.mp hmem with rfl | hmem
          · exact hdot
          · exact Text.isNumberPadding_of_isDigit (hfraction c hmem)

section Written

variable
  {text : String} {negative : Bool} {whole fraction : List Char}
  (hsome : whole ≠ []) (hwhole : ∀ c ∈ whole, c.isDigit = true)

include hsome hwhole

/-- The integer that is written by a sign and digits. -/
theorem Decimal.integer?_signed
    (htext : text.toList = (if negative then ['-'] else []) ++ whole) :
    integer? text =
      if digitLimit < whole.length then none
      else some (if negative then -(value (whole.map digitValue) : Int)
        else value (whole.map digitValue)) := by
  have hconstant : IsConstant text.toList :=
    htext ▸ .integer negative hsome hwhole
  have hsign := sign_signed negative hsome hwhole []
  rw [List.append_nil, ← htext] at hsign
  unfold integer?
  rw [Text.trim_eq_self hconstant.not_padding, hsign]
  dsimp only
  rw [numeral_digits hwhole]
  obtain ⟨c, digits, rfl⟩ := List.exists_cons_of_ne_nil hsome
  simp only [List.map_cons, List.length_cons, List.length_map]

theorem Number.constant_signed
    (htext : text.toList = (if negative then ['-'] else []) ++ whole) :
    Number.constant text =
      if digitLimit < whole.length then
        .error (.tooManyDigits (some whole.length))
      else .ok (.integer (if negative then -(value (whole.map digitValue) : Int)
        else value (whole.map digitValue))) := by
  have hsign := sign_signed negative hsome hwhole []
  have hall : whole.all Char.isDigit = true := List.all_eq_true.mpr hwhole
  have hvalues : whole.filterMap Text.digit? = whole.map digitValue := by
    rw [← List.filterMap_eq_map]
    exact List.filterMap_congr fun c hc => Text.digit?_of_isDigit (hwhole c hc)
  rw [List.append_nil, ← htext] at hsign
  unfold Number.constant
  simp only [hsign, hall, hvalues, List.isEmpty_eq_false_iff.mpr hsome,
    Bool.not_false, Bool.and_true, if_true]

variable (hfraction : ∀ c ∈ fraction, c.isDigit = true)
include hfraction

/-- The decimal that is written by a sign, digits, a point and perhaps more
digits. -/
theorem Decimal.real?_point
    (htext : text.toList = (if negative then ['-'] else []) ++
      (whole ++ '.' :: fraction)) :
    real? text =
      some (Binary64.withSign negative
        (nearestDecimal (value ((whole ++ fraction).map digitValue))
          (-fraction.length))) := by
  have hconstant : IsConstant text.toList :=
    htext ▸ .point negative hsome hwhole hfraction
  unfold real?
  rw [Text.trim_eq_self hconstant.not_padding, htext,
    sign_signed negative hsome hwhole]
  dsimp only
  rw [magnitude?_point hsome hwhole hfraction, Option.map_some]

theorem Number.constant_point
    (htext : text.toList = (if negative then ['-'] else []) ++
      (whole ++ '.' :: fraction)) :
    Number.constant text =
      .ok (.real (Binary64.withSign negative
        (nearestDecimal (value ((whole ++ fraction).map digitValue))
          (-fraction.length)))) := by
  have hall : (whole ++ '.' :: fraction).all Char.isDigit = false := by
    simp [Char.isDigit]
  unfold Number.constant
  rw [real?_point hsome hwhole hfraction htext, htext,
    sign_signed negative hsome hwhole]
  simp only [hall, Bool.and_false, Bool.false_eq_true, if_false]

end Written

/-- A constant can be read unless it is an integer of too many digits. -/
theorem Number.constant_eq_error
    {text : String} (hconstant : IsConstant text.toList)
    {fault : ArithmeticFault} (herror : Number.constant text = .error fault) :
    digitLimit < text.toList.countP Char.isDigit ∧
      fault = .tooManyDigits (some (text.toList.countP Char.isDigit)) := by
  generalize hletters : text.toList = letters at hconstant ⊢
  cases hconstant with
  | @integer negative whole hsome hwhole =>
      have hsign :
          ((if negative then ['-'] else []) : List Char).countP
            Char.isDigit = 0 := by
        cases negative <;> rfl
      rw [List.countP_append, hsign,
        List.countP_eq_length.mpr hwhole, Nat.zero_add]
      rw [constant_signed hsome hwhole hletters] at herror
      split at herror
      next hlimit =>
        cases herror
        exact ⟨hlimit, rfl⟩
      next => cases herror
  | point negative hsome hwhole hfraction =>
      rw [constant_point hsome hwhole hfraction hletters] at herror
      cases herror

end Logo
