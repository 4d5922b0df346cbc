import Logo.Proofs.Flock.Members
import Logo.Proofs.Number.Faults

/-!
# Turtles that can be called

A turtle hatches when something calls it by its number, and only numbers within
double precision get that far.  So whoever is in the flock can be called again
without running into an integer that is too large.
-/

namespace Logo.Flock

theorem isOversize_of_identOf
    {number : Number} {fault : ArithmeticFault}
    (herror : identOf number = .error (.arithmetic fault)) :
    number.IsOversize := by
  unfold identOf at herror
  cases hfinite : number.isFinite with
  | error trouble => exact (Number.isFinite_eq_error hfinite).1
  | ok finite =>
      obtain ⟨text, htext⟩ := Number.text_of_isFinite hfinite
      have hrefuse :
          (refuse .noSuchTurtle number : Except Trouble Nat) =
            .error (.refused (.noSuchTurtle text)) := by
        unfold refuse
        rw [htext]
        rfl
      rw [hfinite, hrefuse] at herror
      simp only [arithmetically, Except.mapError, bind, Except.bind] at herror
      split at herror
      next =>
        split at herror
        · cases herror
        · cases herror
      next => cases herror

theorem not_isOversize_of_identOf
    {number : Number} {ident : Nat} (hident : identOf number = .ok ident) :
    ¬ number.IsOversize := by
  intro hoversize
  cases number with
  | integer n =>
      have hnone : Binary64.ofInt? n = none := hoversize
      have hfinite : (Number.integer n).isFinite = .error .integerTooLarge := by
        simp [Number.isFinite, Number.toReal, hnone, bind, Except.bind]
      unfold identOf at hident
      rw [hfinite] at hident
      cases hident
  | real x => exact hoversize
  | marked mark => exact hoversize

/-- The integer part of a finite number is within double precision. -/
theorem ofInt?_isSome_of_truncate?
    {number : Number} {finite : Bool}
    (hfinite : arithmetically number.isFinite = .ok finite)
    {n : Int} (hn : number.truncate? = some n) :
    (Binary64.ofInt? n.toNat).isSome := by
  cases number with
  | integer m =>
      obtain rfl : m = n := Option.some.inj hn
      have hsome : (Binary64.ofInt? m).isSome := by
        cases hm : (Number.integer m).isFinite with
        | error trouble =>
            rw [hm] at hfinite
            cases hfinite
        | ok found => exact Number.ofInt?_isSome_of_isFinite hm
      rcases lt_or_ge m 0 with hnegative | hpositive
      · rw [Int.toNat_of_nonpos hnegative.le]
        exact Binary64.ofInt?_isSome_of_le (Nat.zero_le _)
      · rwa [Int.toNat_of_nonneg hpositive]
  | real x =>
      have hle : ((n.toNat : Nat) : Int).natAbs ≤ n.natAbs := by omega
      exact Binary64.ofInt?_isSome_of_le
        (hle.trans (Binary64.natAbs_le_largest_of_truncate? hn))
  | marked mark => cases hn

theorem refuse_ne_ok
    {α : Type} (refusal : String → Refusal) (number : Number) (a : α) :
    (refuse refusal number : Except Trouble α) ≠ .ok a := by
  intro hrefuse
  obtain ⟨text, -, hthrow⟩ := Except.exists_of_bind_eq_ok hrefuse
  cases hthrow

/-- The number of a turtle is within double precision. -/
theorem ofInt?_isSome_of_identOf
    {number : Number} {ident : Nat} (hident : identOf number = .ok ident) :
    (Binary64.ofInt? ident).isSome := by
  obtain ⟨finite, hfinite, hident⟩ := Except.exists_of_bind_eq_ok hident
  split at hident
  next n hn =>
    split at hident
    next =>
      cases hident
      exact ofInt?_isSome_of_truncate? hfinite hn
    next => exact absurd hident (refuse_ne_ok _ _ _)
  next => exact absurd hident (refuse_ne_ok _ _ _)

/-- All turtles have numbers within double precision. -/
def Callable (flock : Flock) : Prop :=
  ∀ turtle ∈ flock.turtles, (Binary64.ofInt? turtle.ident).isSome

theorem callable_fresh : fresh.Callable := by
  have hone : (Binary64.ofInt? ((1 : Nat) : Int)).isSome := by decide
  intro turtle hturtle
  rw [List.mem_singleton.mp hturtle]
  exact hone

theorem Callable.of_idents
    {flock later : Flock} (hcallable : flock.Callable)
    (hidents : later.turtles.map (·.ident) = flock.turtles.map (·.ident)) :
    later.Callable := by
  intro turtle hturtle
  have hmem : turtle.ident ∈ flock.turtles.map (·.ident) := by
    rw [← hidents]
    exact List.mem_map_of_mem hturtle
  obtain ⟨prior, hprior, hident⟩ := List.mem_map.mp hmem
  rw [← hident]
  exact hcallable prior hprior

theorem Callable.put {flock : Flock} (hcallable : flock.Callable)
    (turtle : Turtle) :
    (flock.put turtle).Callable := by
  apply hcallable.of_idents
  unfold Flock.put
  rw [List.map_map]
  apply List.map_congr_left
  intro other _
  simp only [Function.comp_apply]
  split
  next heq => exact heq.symm
  next => rfl

theorem Callable.clearMotion {flock : Flock} (hcallable : flock.Callable) :
    flock.clearMotion.Callable := by
  apply hcallable.of_idents
  simp [Flock.clearMotion, Function.comp_def]

theorem Callable.hatch
    {flock : Flock} (hcallable : flock.Callable) {number : Number} {ident : Nat}
    (hident : identOf number = .ok ident) :
    (flock.hatch ident).Callable := by
  unfold Flock.hatch
  split
  · exact hcallable
  · intro turtle hturtle
    rcases (mem_withTurtle _ _ _).mp hturtle with rfl | hmem
    · exact ofInt?_isSome_of_identOf hident
    · exact hcallable turtle hmem

theorem Callable.summonAll
    {flock : Flock} (hcallable : flock.Callable) (numbers : List Number) :
    (flock.summonAll numbers).2.Callable := by
  induction numbers generalizing flock with
  | nil => exact hcallable
  | cons number rest ih =>
      cases hident : identOf number with
      | error trouble =>
          simp only [Flock.summonAll, summon_of_error hident]
          exact hcallable
      | ok ident =>
          have hrest := ih (hcallable.hatch hident)
          simp only [Flock.summonAll, summon_of_identOf hident]
          split
          next hsummon =>
            rw [hsummon] at hrest
            exact hrest
          next hsummon =>
            rw [hsummon] at hrest
            exact hrest

theorem Callable.tell
    {flock : Flock} (hcallable : flock.Callable) (numbers : List Number) :
    (flock.tell numbers).2.Callable := by
  have hsummoned := hcallable.summonAll numbers
  unfold Flock.tell
  split
  next hsummon =>
    rw [hsummon] at hsummoned
    exact hsummoned
  next hsummon =>
    rw [hsummon] at hsummoned
    exact hsummoned

theorem summonAll_of_identOf
    {numbers : List Number}
    (hnumbers : ∀ number ∈ numbers, ∃ ident, identOf number = .ok ident)
    (flock : Flock) :
    ∃ idents, (flock.summonAll numbers).1 = .ok idents := by
  induction numbers generalizing flock with
  | nil => exact ⟨[], rfl⟩
  | cons number rest ih =>
      rw [List.forall_mem_cons] at hnumbers
      obtain ⟨⟨ident, hident⟩, hnumbers⟩ := hnumbers
      obtain ⟨idents, hrest⟩ := ih hnumbers (flock.hatch ident)
      refine ⟨ident :: idents, ?_⟩
      simp only [summonAll, summon_of_identOf hident]
      split
      next hsummon =>
        rw [hsummon] at hrest
        cases hrest
        rfl
      next hsummon =>
        rw [hsummon] at hrest
        cases hrest

/-- Numbers that have been found to be those of turtles can be told. -/
theorem tell_of_identOf
    {numbers : List Number}
    (hnumbers : ∀ number ∈ numbers, ∃ ident, identOf number = .ok ident)
    (flock : Flock) :
    ∃ idents, (flock.tell numbers).1 = .ok idents := by
  obtain ⟨idents, hidents⟩ := summonAll_of_identOf hnumbers flock
  unfold tell
  split
  next hsummon => exact ⟨_, rfl⟩
  next hsummon =>
    rw [hsummon] at hidents
    cases hidents

end Logo.Flock
