import Logo.Bindings
import Logo.Proofs.Number.Texts

/-!
# What values are kept as

The table keeps a value under a type, and turns it into an entry of this type
first.  A number becomes an integer by losing its fraction, and an integer
becomes the nearest number in double precision unless it is too large.  Texts
are read, and anything can be written as a text or kept as a function.  Whatever
cannot be turned into an entry is refused, and the complaint shows it.
-/

namespace Logo

open Binary64 Decimal

/-- The entry that a value becomes under a type. -/
inductive Value.KeptAs : Value → ValueType → Entry → Prop where
  | integer (n : Int) : KeptAs (.number (.integer n)) .integer (.integer n)
  | integerPart {x : Float} {n : Int} (hpart : IsIntegerPart x n) :
      KeptAs (.number (.real x)) .integer (.integer n)
  | readInteger {text : String} {n : Int} (hdenotes : DenotesInteger text n) :
      KeptAs (.text text) .integer (.integer n)
  | truthInteger (truth : Bool) :
      KeptAs (.truth truth) .integer (.integer (if truth then 1 else 0))
  | nearest {n : Int} {bits : Nat} (hfinite : bits < infinityBits)
      (hnearest : IsNearest bits n.natAbs) :
      KeptAs (.number (.integer n)) .double
        (.double (withSign (n < 0) (ofPattern bits)))
  | real (x : Float) : KeptAs (.number (.real x)) .double (.double x)
  | marked (mark : Mark) :
      KeptAs (.number (.marked mark)) .double (.marked mark)
  | readDouble {text : String} {x : Float} (hdenotes : DenotesReal text x) :
      KeptAs (.text text) .double (.double x)
  | truthDouble (truth : Bool) :
      KeptAs (.truth truth) .double (.double (if truth then 1.0 else 0.0))
  | written {value : Value} {text : String}
      (hwritten : value.text? = .ok text) :
      KeptAs value .string (.string text)
  | function (value : Value) : KeptAs value .function (.function value)

/-- The fault of a value that has no entry under a type.  An integer of too many
digits cannot even be shown. -/
inductive Value.RefusedAs (name : String) (value : Value) (type : ValueType) :
    Fault → Prop where
  | illTyped {shown : String} (hnone : ∀ entry, ¬ value.KeptAs type entry)
      (hshown : value.shown = .ok shown) :
      RefusedAs name value type (.complaint (.illTyped name shown type))
  | unwritable {n : Int} (hnone : ∀ entry, ¬ value.KeptAs type entry)
      (hvalue : value = .number (.integer n))
      (hlong : Nat.pow 10 digitLimit ≤ n.natAbs) :
      RefusedAs name value type (.arithmetic (.tooManyDigits none))

namespace Value

theorem integer?_eq_some_iff {value : Value} {n : Int} :
    value.integer? = some n ↔ value.KeptAs .integer (.integer n) := by
  constructor
  · intro hsome
    cases value with
    | number number =>
        cases number with
        | integer m =>
            cases hsome
            exact .integer n
        | real x => exact .integerPart ((truncate?_eq_some_iff x n).mp hsome)
        | marked mark => cases hsome
    | text text =>
        exact .readInteger ((Decimal.integer?_eq_some_iff text n).mp hsome)
    | truth truth =>
        cases hsome
        exact .truthInteger truth
    | nothing => cases hsome
    | procedure procedure => cases hsome
  · intro hkept
    cases hkept with
    | integer => rfl
    | integerPart hpart => exact (truncate?_eq_some_iff _ n).mpr hpart
    | readInteger hdenotes =>
        exact (Decimal.integer?_eq_some_iff _ n).mpr hdenotes
    | truthInteger => rfl

theorem double?_integer (n : Int) :
    double? (.number (.integer n)) = ofInt? n := by
  simp only [double?, Number.toReal]
  cases ofInt? n <;> rfl

theorem doubleEntry?_eq_some_iff {value : Value} {entry : Entry} :
    value.doubleEntry? = some entry ↔ value.KeptAs .double entry := by
  constructor
  · intro hsome
    cases value with
    | number number =>
        cases number with
        | integer n =>
            obtain ⟨x, hx, rfl⟩ := Option.map_eq_some_iff.mp hsome
            obtain ⟨bits, hfinite, hnearest, rfl⟩ :=
              (ofInt?_eq_some_iff n x).mp ((double?_integer n).symm.trans hx)
            exact .nearest hfinite hnearest
        | real x =>
            cases hsome
            exact .real x
        | marked mark =>
            cases hsome
            exact .marked mark
    | text text =>
        obtain ⟨x, hx, rfl⟩ := Option.map_eq_some_iff.mp hsome
        exact .readDouble ((Decimal.real?_eq_some_iff text x).mp hx)
    | truth truth =>
        cases hsome
        exact .truthDouble truth
    | nothing => cases hsome
    | procedure procedure => cases hsome
  · intro hkept
    cases hkept with
    | @nearest n bits hfinite hnearest =>
        have hx := (ofInt?_eq_some_iff n _).mpr ⟨bits, hfinite, hnearest, rfl⟩
        exact Option.map_eq_some_iff.mpr ⟨_, (double?_integer n).trans hx, rfl⟩
    | real => rfl
    | marked => rfl
    | readDouble hdenotes =>
        exact Option.map_eq_some_iff.mpr
          ⟨_, (Decimal.real?_eq_some_iff _ _).mpr hdenotes, rfl⟩
    | truthDouble => rfl

theorem coerce?_eq_some_iff {value : Value} {type : ValueType} {entry : Entry} :
    value.coerce? type = some entry ↔ value.KeptAs type entry := by
  cases type with
  | integer =>
      constructor
      · intro hsome
        obtain ⟨n, hn, rfl⟩ := Option.map_eq_some_iff.mp hsome
        exact integer?_eq_some_iff.mp hn
      · intro hkept
        have hinteger : ∃ n, entry = .integer n := by
          cases hkept <;> exact ⟨_, rfl⟩
        obtain ⟨n, rfl⟩ := hinteger
        exact Option.map_eq_some_iff.mpr
          ⟨n, integer?_eq_some_iff.mpr hkept, rfl⟩
  | double => exact doubleEntry?_eq_some_iff
  | string =>
      constructor
      · intro hsome
        obtain ⟨text, htext, rfl⟩ := Option.map_eq_some_iff.mp hsome
        cases hwritten : value.text? with
        | error fault =>
            rw [hwritten] at htext
            cases htext
        | ok found =>
            rw [hwritten] at htext
            cases htext
            exact .written hwritten
      · intro hkept
        cases hkept with
        | written hwritten => rw [coerce?, hwritten]; rfl
  | function =>
      constructor
      · intro hsome
        cases hsome
        exact .function value
      · intro hkept
        cases hkept
        rfl

/-- Only an integer can be too long to be written. -/
theorem shown_eq_error_iff {value : Value} {fault : ArithmeticFault} :
    value.shown = .error fault ↔
      fault = .tooManyDigits none ∧
        ∃ n : Int, value = .number (.integer n) ∧
          Nat.pow 10 digitLimit ≤ n.natAbs := by
  cases value with
  | number number =>
      cases number with
      | integer n =>
          change Number.integerText n = .error fault ↔ _
          unfold Number.integerText
          split
          next hlong =>
            simp only [Except.error.injEq, Value.number.injEq,
              Number.integer.injEq]
            constructor
            · rintro rfl
              exact ⟨rfl, n, rfl, hlong⟩
            · rintro ⟨rfl, -⟩
              rfl
          next hshort =>
            simp only [reduceCtorEq, Value.number.injEq,
              Number.integer.injEq, false_iff]
            rintro ⟨-, m, rfl, hlong⟩
            exact hshort hlong
      | real x => simp [shown, text?, Number.text]
      | marked mark => simp [shown, text?, Number.text]
  | text text => simp [shown]
  | truth truth => cases truth <;> simp [shown, text?]
  | nothing => simp [shown, text?]
  | procedure procedure => simp [shown, text?]

end Value

theorem Bindings.entryOf_eq_ok_iff
    (name : String) (value : Value) (type : ValueType) (entry : Entry) :
    entryOf name value type = .ok entry ↔ value.KeptAs type entry := by
  rw [← Value.coerce?_eq_some_iff]
  unfold entryOf
  cases value.coerce? type with
  | some found => simp
  | none =>
      dsimp only
      split <;> simp

theorem Bindings.entryOf_eq_error_iff
    (name : String) (value : Value) (type : ValueType) (fault : Fault) :
    entryOf name value type = .error fault ↔
      value.RefusedAs name type fault := by
  have hnone_iff : (∀ entry, ¬ value.KeptAs type entry) ↔
      value.coerce? type = none := by
    rw [Option.eq_none_iff_forall_ne_some]
    exact forall_congr' fun entry => not_congr Value.coerce?_eq_some_iff.symm
  unfold entryOf
  constructor
  · intro herror
    split at herror
    next => cases herror
    next hnone =>
      have hnone := hnone_iff.mpr hnone
      split at herror
      next shown hshown =>
        cases herror
        exact .illTyped hnone hshown
      next trouble hshown =>
        cases herror
        obtain ⟨rfl, n, hvalue, hlong⟩ := Value.shown_eq_error_iff.mp hshown
        exact .unwritable hnone hvalue hlong
  · intro hrefused
    cases hrefused with
    | illTyped hnone hshown => rw [hnone_iff.mp hnone, hshown]
    | @unwritable n hnone hvalue hlong =>
        have hshown : value.shown = .error (.tooManyDigits none) :=
          Value.shown_eq_error_iff.mpr ⟨rfl, n, hvalue, hlong⟩
        rw [hnone_iff.mp hnone, hshown]

theorem Bindings.kept_or_refused (name : String) (value : Value)
    (type : ValueType) :
    (∃ entry, value.KeptAs type entry) ∨
      ∃ fault, value.RefusedAs name type fault := by
  cases hentry : entryOf name value type with
  | ok entry =>
      exact .inl ⟨entry, (entryOf_eq_ok_iff name value type entry).mp hentry⟩
  | error fault =>
      exact .inr ⟨fault, (entryOf_eq_error_iff name value type fault).mp hentry⟩

end Logo
