import Logo.Marks
import Mathlib.Tactic

/-!
# Laws of marks

Marks are counted under each number apart.  Giving one out under a number does
not change what is given out next under another number, and marks under two
numbers may be given out in either order.
-/

namespace Logo.Marks

def given (marks : Marks) (listener : Nat) : Nat :=
  (marks.next listener).1.serial

def advanced (listener : Nat) : Nat → Marks → Marks
  | 0, marks => marks
  | count + 1, marks => (advanced listener count marks).next listener |>.2

theorem next_fst (marks : Marks) (listener : Nat) :
    (marks.next listener).1 = ⟨listener, marks.given listener⟩ := by
  induction marks with
  | nil => rfl
  | cons pair rest ih =>
      obtain ⟨other, count⟩ := pair
      unfold given
      rw [next]
      split
      · rfl
      · split
        · rfl
        · exact ih

theorem given_next_self (marks : Marks) (listener : Nat) :
    (marks.next listener).2.given listener = marks.given listener + 1 := by
  induction marks with
  | nil => simp [next, given]
  | cons pair rest ih =>
      obtain ⟨other, count⟩ := pair
      unfold given at ih ⊢
      rcases lt_trichotomy listener other with hlt | heq | hgt
      · simp [next, hlt]
      · simp [next, heq]
      · simp [next, hgt.not_gt, hgt.ne', ih]

theorem given_next_of_ne
    {listener other : Nat} (hne : other ≠ listener) (marks : Marks) :
    (marks.next listener).2.given other = marks.given other := by
  induction marks with
  | nil =>
      simp only [next, given]
      split <;> simp_all
  | cons pair rest ih =>
      obtain ⟨key, count⟩ := pair
      unfold given at ih ⊢
      rcases lt_trichotomy listener key with hlt | heq | hgt
      · simp only [next, hlt, if_true]
        split
        · split
          · rfl
          · omega
        · simp
      · subst key
        simp only [next, lt_irrefl, if_false, if_true, if_neg hne]
        split <;> rfl
      · simp only [next, hgt.not_gt, hgt.ne', if_false]
        split
        · rfl
        · split
          · rfl
          · exact ih

theorem next_comm {listener other : Nat} (hne : other ≠ listener)
    (marks : Marks) :
    ((marks.next listener).2.next other).2 =
      ((marks.next other).2.next listener).2 := by
  induction marks with
  | nil => grind [next]
  | cons pair rest ih => grind [next]

theorem given_advanced_self (listener count : Nat) (marks : Marks) :
    (advanced listener count marks).given listener =
      marks.given listener + count := by
  induction count with
  | zero => rfl
  | succ count ih =>
      rw [advanced, given_next_self, ih]
      omega

theorem given_advanced_of_ne
    {listener other : Nat} (hne : other ≠ listener) (count : Nat)
    (marks : Marks) :
    (advanced listener count marks).given other = marks.given other := by
  induction count with
  | zero => rfl
  | succ count ih => rw [advanced, given_next_of_ne hne, ih]

theorem advanced_advanced (listener early late : Nat) (marks : Marks) :
    advanced listener late (advanced listener early marks) =
      advanced listener (early + late) marks := by
  induction late with
  | zero => rfl
  | succ late ih => rw [advanced, ih, ← Nat.add_assoc, advanced]

theorem next_advanced
    {listener other : Nat} (hne : other ≠ listener) (count : Nat)
    (marks : Marks) :
    ((advanced listener count marks).next other).2 =
      advanced listener count (marks.next other).2 := by
  induction count with
  | zero => rfl
  | succ count ih => rw [advanced, next_comm hne, ih, advanced]

theorem advanced_comm
    {listener other : Nat} (hne : other ≠ listener) (count number : Nat)
    (marks : Marks) :
    advanced other number (advanced listener count marks) =
      advanced listener count (advanced other number marks) := by
  induction number with
  | zero => rfl
  | succ number ih => rw [advanced, ih, next_advanced hne, advanced]

/-- What a number is kept as under a listener depends on nothing but the marks
under it. -/
theorem keep_agree
    {marks marks' : Marks} {listener : Nat}
    (hgiven : marks.given listener = marks'.given listener) (number : Number) :
    (marks.keep listener number).1 = (marks'.keep listener number).1 ∧
      ∃ count,
        (marks.keep listener number).2 = advanced listener count marks ∧
          (marks'.keep listener number).2 = advanced listener count marks' := by
  cases number with
  | integer n => exact ⟨rfl, 0, rfl, rfl⟩
  | marked mark => exact ⟨rfl, 0, rfl, rfl⟩
  | real x =>
      by_cases hnan : x.isNaN = true
      · simp only [keep, hnan, if_true, next_fst, hgiven]
        exact ⟨trivial, 1, rfl, rfl⟩
      · simp only [keep, hnan, if_false, Bool.false_eq_true]
        exact ⟨trivial, 0, rfl, rfl⟩

end Logo.Marks
