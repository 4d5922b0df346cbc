import Logo.Source.Index
import Mathlib.Tactic

/-!
# The index of places only grows

Texts and words are added to the index at its end.  A spot that has a place
keeps it, however many texts are read later.
-/

namespace Logo.Source.Index

@[simp] theorem segmentOf?_natCast (index : Index) (spot : Nat) :
    index.segmentOf? spot = index.segments.find?
      fun segment => segment.start ≤ spot := by
  have hspot : ¬ (spot : Int) < 0 := by omega
  simp [segmentOf?, hspot]

@[simp] theorem slice?_natCast (index : Index) (spot : Nat) :
    index.slice? spot = index.slices[spot]? := by
  have hspot : ¬ (spot : Int) < 0 := by omega
  simp [slice?, hspot]

/-- Every spot of the older index has the same place in the newer one. -/
structure Extends (older newer : Index) : Prop where
  size : older.slices.size ≤ newer.slices.size
  lookup : ∀ spot : Nat, spot < older.slices.size →
    newer.lookup spot = older.lookup spot

namespace Extends

theorem refl (index : Index) : Extends index index :=
  ⟨le_rfl, fun _ _ => rfl⟩

theorem trans {first second third : Index} (hfirst : Extends first second)
    (hsecond : Extends second third) : Extends first third := by
  refine ⟨hfirst.size.trans hsecond.size, fun spot hspot => ?_⟩
  rw [hsecond.lookup spot (hspot.trans_le hfirst.size),
    hfirst.lookup spot hspot]

theorem startSegment (index : Index) (path : Option String) (text : String) :
    Extends index (index.startSegment path text) := by
  refine ⟨le_rfl, fun spot hspot => ?_⟩
  simp [Index.lookup, Index.startSegment, Nat.not_le.mpr hspot]

theorem insert (index : Index) (slice : Slice) :
    Extends index (index.insert slice).2 := by
  refine ⟨by simp [Index.insert], fun spot hspot => ?_⟩
  have hslot : (index.slices.push slice)[spot]? = index.slices[spot]? := by
    rw [Array.getElem?_push, if_neg (by omega)]
  simp [Index.lookup, Index.insert, hslot]

end Extends

/-- A word of the newest text lies in that text. -/
theorem lookup_of_newest
    {index : Index} {segment : Segment} {others : List Segment} {slice : Slice}
    {spot : Nat} (hsegments : index.segments = segment :: others)
    (hstart : segment.start ≤ spot)
    (hslice : index.slices[spot]? = some slice) :
    index.lookup spot = .ok ⟨segment, slice⟩ := by
  simp [lookup, hsegments, hstart, hslice]

theorem lookupSpan_of_lookup
    {index : Index} {segment : Segment} {left right : Slice} {first last : Nat}
    (hfirst : index.lookup first = .ok ⟨segment, left⟩)
    (hlast : index.lookup last = .ok ⟨segment, right⟩) :
    index.lookupSpan first last = .ok ⟨segment, ⟨left.first, right.last⟩⟩ := by
  simp [lookupSpan, hfirst, hlast, bind, Except.bind, pure, Except.pure]

end Logo.Source.Index
