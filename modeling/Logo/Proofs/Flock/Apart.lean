import Logo.Proofs.Flock.Sound

/-!
# One turtle and the others

Writing a turtle back changes the turtles with its number and nobody else.  A
flock is determined by the order of its numbers and, for each number, by the
turtles that have it.
-/

namespace Logo.Flock

/-- The turtles with a number, of which there is at most one unless a flock is
out of order. -/
def numbered (flock : Flock) (ident : Nat) : List Turtle :=
  flock.turtles.filter (·.ident = ident)

def others (flock : Flock) (ident : Nat) : List Turtle :=
  flock.turtles.filter (·.ident ≠ ident)

theorem get?_eq_head? (flock : Flock) (ident : Nat) :
    flock.get? ident = (flock.numbered ident).head? := by
  unfold get? numbered
  rw [List.head?_filter]
  rfl

theorem contains_of_numbered
    {flock flock' : Flock} {ident : Nat}
    (hnumbered : flock.numbered ident = flock'.numbered ident) :
    flock.contains ident = flock'.contains ident := by
  unfold contains
  rw [get?_eq_head?, get?_eq_head?, hnumbered]

theorem numbered_put (flock : Flock) (turtle : Turtle) :
    (flock.put turtle).numbered turtle.ident =
      (flock.numbered turtle.ident).map fun _ => turtle := by
  unfold put numbered
  induction flock.turtles with
  | nil => rfl
  | cons other rest ih =>
      by_cases hident : other.ident = turtle.ident
      · simp [hident, ih]
      · simp [hident, ih]

theorem others_put (flock : Flock) (turtle : Turtle) :
    (flock.put turtle).others turtle.ident = flock.others turtle.ident := by
  unfold put others
  induction flock.turtles with
  | nil => rfl
  | cons other rest ih =>
      by_cases hident : other.ident = turtle.ident
      · simpa [hident] using ih
      · simpa [hident] using ih

theorem numbered_of_others
    {flock flock' : Flock} {ident other : Nat} (hne : other ≠ ident)
    (hothers : flock.others ident = flock'.others ident) :
    flock.numbered other = flock'.numbered other := by
  have hfilter (members : Flock) :
      members.numbered other = (members.others ident).filter
        (·.ident = other) := by
    unfold numbered others
    rw [List.filter_filter]
    apply List.filter_congr
    intro turtle _
    by_cases hother : turtle.ident = other
    · simp [hother, hne]
    · simp [hother]
  rw [hfilter, hfilter, hothers]

theorem turtles_eq
    {flock flock' : Flock}
    (hidents : flock.turtles.map (·.ident) = flock'.turtles.map (·.ident))
    (hnumbered : ∀ ident, flock.numbered ident = flock'.numbered ident) :
    flock.turtles = flock'.turtles := by
  unfold numbered at hnumbered
  generalize flock.turtles = turtles at hidents hnumbered
  generalize flock'.turtles = turtles' at hidents hnumbered
  induction turtles generalizing turtles' with
  | nil => exact (List.map_eq_nil_iff.mp hidents.symm).symm
  | cons turtle rest ih =>
      cases turtles' with
      | nil => cases hidents
      | cons turtle' rest' =>
          rw [List.map_cons, List.map_cons, List.cons.injEq] at hidents
          have hfirst := hnumbered turtle.ident
          simp only [List.filter_cons, decide_true, if_true, hidents.1,
            List.cons.injEq] at hfirst
          rw [hfirst.1, ih rest' hidents.2 fun ident => ?_]
          have hboth := hnumbered ident
          rw [List.filter_cons, List.filter_cons, ← hfirst.1] at hboth
          split at hboth
          · exact (List.cons.inj hboth).2
          · exact hboth

theorem withTurtle_comm
    {turtle other : Turtle} (hne : turtle.ident ≠ other.ident)
    (turtles : List Turtle) :
    withTurtle turtle (withTurtle other turtles) =
      withTurtle other (withTurtle turtle turtles) := by
  induction turtles with
  | nil => grind [withTurtle]
  | cons first rest ih => grind [withTurtle]

theorem contains_hatch_iff (flock : Flock) (hatched ident : Nat) :
    (flock.hatch hatched).contains ident = true ↔
      ident = hatched ∨ flock.contains ident = true := by
  by_cases hthere : flock.contains hatched = true
  · rw [hatch_eq_self hthere]
    constructor
    · exact .inr
    · rintro (rfl | hcontains)
      · exact hthere
      · exact hcontains
  · simp only [hatch, hthere, if_false, contains_iff, mem_withTurtle,
      Bool.false_eq_true]
    constructor
    · rintro ⟨turtle, rfl | hmem, hident⟩
      · exact .inl hident.symm
      · exact .inr ⟨turtle, hmem, hident⟩
    · rintro (rfl | ⟨turtle, hmem, hident⟩)
      · exact ⟨.hatched ident, .inl rfl, rfl⟩
      · exact ⟨turtle, .inr hmem, hident⟩

/-- Turtles may hatch in any order. -/
theorem hatch_comm (flock : Flock) (ident other : Nat) :
    (flock.hatch ident).hatch other = (flock.hatch other).hatch ident := by
  by_cases hsame : ident = other
  · rw [hsame]
  · by_cases hident : flock.contains ident = true
    · rw [hatch_eq_self hident,
        hatch_eq_self ((contains_hatch_iff _ _ _).mpr (.inr hident))]
    · by_cases hother : flock.contains other = true
      · rw [hatch_eq_self hother,
          hatch_eq_self ((contains_hatch_iff _ _ _).mpr (.inr hother))]
      · have hident' : ¬ (flock.hatch other).contains ident = true := by
          rw [contains_hatch_iff]
          exact not_or.mpr ⟨hsame, hident⟩
        have hother' : ¬ (flock.hatch ident).contains other = true := by
          rw [contains_hatch_iff]
          exact not_or.mpr ⟨Ne.symm hsame, hother⟩
        have hhatch {members : Flock} {named : Nat}
            (hmissing : ¬ members.contains named = true) :
            members.hatch named =
              { members with
                turtles := withTurtle (.hatched named) members.turtles } :=
          if_neg hmissing
        have hne :
            (Turtle.hatched other).ident ≠ (Turtle.hatched ident).ident :=
          Ne.symm hsame
        rw [hhatch hother', hhatch hident', hhatch hident, hhatch hother,
          withTurtle_comm hne]

theorem contains_foldl_hatch
    (flock : Flock) {idents : List Nat} {ident : Nat}
    (hident : ident ∈ idents ∨ flock.contains ident = true) :
    (idents.foldl hatch flock).contains ident = true := by
  induction idents generalizing flock with
  | nil => exact hident.resolve_left List.not_mem_nil
  | cons first rest ih =>
      apply ih
      rw [contains_hatch_iff]
      rcases hident with hmem | hthere
      · rcases List.mem_cons.mp hmem with heq | hmem
        · exact .inr (.inl heq)
        · exact .inl hmem
      · exact .inr (.inr hthere)

end Logo.Flock
