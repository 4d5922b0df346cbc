import Logo.Program.Need
import Logo.Proofs.Program.Parts

/-!
# Groups

A group stands for one call of its instruction with all operands, or for a block
of calls with as many operands each as the instruction takes.  The operands of
these calls, one after the other, are those of the group.
-/

namespace Logo

section Pieces

variable {α : Type} {size : Nat}

/-- The pieces of a list make up the list. -/
theorem flatten_pieces
    (hsize : 0 < size) (count : Nat) (items : List α)
    (hcount : items.length ≤ count) :
    (pieces size count items).flatten = items := by
  induction count generalizing items with
  | zero =>
      obtain rfl : items = [] := by simpa using hcount
      rfl
  | succ count ih =>
      cases items with
      | nil => rfl
      | cons item rest =>
          have hrest : ((item :: rest).drop size).length ≤ count := by
            simp only [List.length_drop, List.length_cons] at hcount ⊢
            omega
          simp only [pieces, List.flatten_cons, ih _ hrest,
            List.take_append_drop]

/-- A list that comes out even is cut into pieces of one length. -/
theorem length_of_mem_pieces
    {count : Nat} {items piece : List α} (heven : size ∣ items.length)
    (hpiece : piece ∈ pieces size count items) :
    piece.length = size := by
  induction count generalizing items with
  | zero => cases hpiece
  | succ count ih =>
      cases items with
      | nil => cases hpiece
      | cons item rest =>
          have hle : size ≤ (item :: rest).length :=
            Nat.le_of_dvd (by simp) heven
          rcases List.mem_cons.mp hpiece with rfl | hlater
          · rw [List.length_take, min_eq_left hle]
          · apply ih _ hlater
            rw [List.length_drop]
            exact Nat.dvd_sub heven (dvd_refl size)

end Pieces

namespace Callee

/-- A call may have so many operands: as many as it takes, or more to be
folded. -/
def Accepts (callee : Callee) (count : Nat) : Prop :=
  count = callee.arity ∨ callee.folds count = true

theorem parts_call (callee : Callee) (head : Token) (args : List Expr) :
    (callee.call head args).parts = args := by
  cases callee <;> rfl

/-- What a group can stand for. -/
theorem group_eq_ok
    {callee : Callee} {brackets : Brackets} {head : Token} {args : List Expr}
    {expr : Expr} (hgroup : callee.group brackets head args = .ok expr) :
    (callee.Accepts args.length ∧ expr = callee.call head args ∧
        ∀ others, callee.folds args.length = true →
          callee.group others head args = .ok expr) ∨
      ∃ runs, runs ≠ [] ∧ runs.flatten = args ∧
        (∀ run ∈ runs, run.length = callee.arity) ∧
        expr = .block brackets (runs.map (callee.call head)) := by
  by_cases hwhole :
    (callee.folds args.length || (callee.arity == 0 && args.isEmpty)) = true
  · have hany (others : Brackets) :
        callee.group others head args = .ok (callee.call head args) :=
      if_pos hwhole
    obtain rfl : callee.call head args = expr := by
      rw [hany brackets] at hgroup
      exact Except.ok.inj hgroup
    refine .inl ⟨?_, rfl, fun others _ => hany others⟩
    simp only [Bool.or_eq_true, Bool.and_eq_true, beq_iff_eq,
      List.isEmpty_iff] at hwhole
    rcases hwhole with hfolds | ⟨harity, hempty⟩
    · exact .inr hfolds
    · exact .inl (by simp [harity, hempty])
  · unfold group at hgroup
    rw [if_neg hwhole] at hgroup
    split at hgroup
    next => cases hgroup
    next heven =>
      simp only [not_or, not_not] at heven
      obtain ⟨harity, hnonempty, hdivides⟩ := heven
      have hsize := Nat.pos_of_ne_zero harity
      have hflatten := flatten_pieces hsize args.length args le_rfl
      have hlengths (run : List Expr)
          (hrun : run ∈ pieces callee.arity args.length args) :=
        length_of_mem_pieces (Nat.dvd_of_mod_eq_zero hdivides) hrun
      split at hgroup
      next single hsingle =>
        obtain rfl := Except.ok.inj hgroup
        obtain ⟨piece, hpieces, rfl⟩ := List.map_eq_singleton_iff.mp hsingle
        obtain rfl : piece = args := by simpa [hpieces] using hflatten
        have hlength := hlengths piece (hpieces ▸ List.mem_singleton_self piece)
        refine .inl ⟨.inl hlength, rfl, fun others hfolds => ?_⟩
        simp [hfolds] at hwhole
      next =>
        obtain rfl := Except.ok.inj hgroup
        refine .inr ⟨_, fun hnone => ?_, hflatten, hlengths, rfl⟩
        rw [hnone] at hflatten
        exact hnonempty (congrArg List.length hflatten.symm)

end Callee

end Logo
