import Logo.Proofs.Source.Places

/-!
# What the index of places remembers

Texts are started and words are added to the newest text, in any order, so a
text may well get no words.  Whatever is added later, a word is found in the
text that was the newest one when it was added, and two words have a span
exactly if that was the same text for both.

Texts are looked for from the newest one backwards.  Their first spots are in
increasing order, where empty texts have the same one as the text behind them,
and so searching by halving finds the same text.
-/

namespace Logo.Source

/-- What can be added to an index: the next text, or a word of the newest
one. -/
inductive Addition where
  | text (path : Option String) (text : String)
  | word (slice : Slice)
deriving Repr, DecidableEq

namespace Addition

def isText : Addition → Bool
  | .text _ _ => true
  | .word _ => false

def texts (additions : List Addition) : Nat := additions.countP isText

/-- The newest text with its path.  Before any text is started it is the
built-in one. -/
def newestText (additions : List Addition) : Option String × String :=
  additions.foldl
    (fun newest addition =>
      match addition with
      | .text path letters => (path, letters)
      | .word _ => newest)
    (none, "")

end Addition

open Addition

namespace Index

def add (index : Index) : Addition → Index
  | .text path letters => index.startSegment path letters
  | .word slice => (index.insert slice).2

def after (additions : List Addition) : Index := additions.foldl add fresh

theorem after_concat (additions : List Addition) (addition : Addition) :
    after (additions ++ [addition]) = (after additions).add addition := by
  simp [after]

theorem Extends.add (index : Index) (addition : Addition) :
    Extends index (index.add addition) := by
  cases addition with
  | text path letters => exact .startSegment index path letters
  | word slice => exact .insert index slice

theorem Extends.foldl (index : Index) (additions : List Addition) :
    Extends index (additions.foldl Index.add index) := by
  induction additions generalizing index with
  | nil => exact .refl index
  | cons addition additions ih =>
      exact (Extends.add index addition).trans (ih _)

structure Newest (index : Index) (additions : List Addition)
    (segment : Segment) : Prop where
  segments : ∃ others, index.segments = segment :: others
  text : (segment.path, segment.text) = newestText additions
  number : segment.number = texts additions
  start : segment.start ≤ index.slices.size

theorem length_segments_after (additions : List Addition) :
    (after additions).segments.length = texts additions + 1 := by
  induction additions using List.reverseRecOn with
  | nil => rfl
  | append_singleton additions addition ih =>
      rw [after_concat, texts, List.countP_append]
      cases addition with
      | text path letters => simp [Index.add, startSegment, ih, texts, isText]
      | word slice => simp [Index.add, Index.insert, ih, texts, isText]

theorem exists_newest (additions : List Addition) :
    ∃ segment, (after additions).Newest additions segment := by
  induction additions using List.reverseRecOn with
  | nil => exact ⟨⟨0, 0, none, ""⟩, ⟨[], rfl⟩, rfl, rfl, Nat.zero_le _⟩
  | append_singleton additions addition ih =>
      obtain ⟨segment, ⟨others, hsegments⟩, htext, hnumber, hstart⟩ := ih
      rw [after_concat]
      cases addition with
      | text path letters =>
          refine ⟨⟨texts additions + 1, (after additions).slices.size,
            path, letters⟩, ⟨(after additions).segments, ?_⟩, ?_, ?_, le_rfl⟩
          · rw [← length_segments_after]
            rfl
          · simp [newestText]
          · simp [texts, isText]
      | word slice =>
          refine ⟨segment, ⟨others, hsegments⟩, ?_, ?_, ?_⟩
          · simpa [newestText] using htext
          · simpa [texts, isText] using hnumber
          · simp only [Index.add, Index.insert, Array.size_push]
            omega

/-- A word is found in the text that was the newest one when it was added. -/
theorem lookup_after
    {additions : List Addition} {i : Nat} {slice : Slice}
    (hword : additions[i]? = some (.word slice)) :
    ∃ segment : Segment,
      (after additions).lookup ((after (additions.take i)).insert slice).1 =
          .ok ⟨segment, slice⟩ ∧
        (segment.path, segment.text) = newestText (additions.take i) ∧
        segment.number = texts (additions.take i) := by
  obtain ⟨segment, ⟨others, hsegments⟩, htext, hnumber, hstart⟩ :=
    exists_newest (additions.take i)
  refine ⟨segment, ?_, htext, hnumber⟩
  obtain ⟨hlt, hget⟩ := List.getElem?_eq_some_iff.mp hword
  have hsplit :
      additions =
        additions.take i ++ .word slice :: additions.drop (i + 1) := by
    rw [← hget, List.cons_getElem_drop_succ, List.take_append_drop]
  have hlater :
      after additions =
        (additions.drop (i + 1)).foldl add
          ((after (additions.take i)).insert slice).2 := by
    conv_lhs => rw [hsplit]
    rw [after, List.foldl_append, List.foldl_cons]
    rfl
  rw [hlater, (Extends.foldl _ _).lookup _ (by simp [Index.insert])]
  refine lookup_of_newest hsegments hstart ?_
  simp [Index.insert]

/-! ## Searching by halving -/

def bounds (index : Index) : Array Nat :=
  (index.segments.reverse.map (·.start)).toArray

/-- How many of the bounds are at or before a spot, given that those before
`low` are and those from `high` on are not. -/
def bisectRight (bounds : Array Nat) (spot low high : Nat) : Nat :=
  if low < high then
    let middle := (low + high) / 2
    if spot < bounds.getD middle 0 then bisectRight bounds spot low middle
    else bisectRight bounds spot (middle + 1) high
  else low
termination_by high - low

theorem bisectRight_spec
    {bounds : Array Nat} (hsorted : bounds.toList.Pairwise (· ≤ ·)) (spot : Nat)
    {low high : Nat} (hle : low ≤ high) (hhigh : high ≤ bounds.size)
    (hbefore : ∀ i < low, bounds.getD i 0 ≤ spot)
    (hbehind : ∀ i, high ≤ i → i < bounds.size → spot < bounds.getD i 0) :
    bisectRight bounds spot low high ≤ bounds.size ∧
      (∀ i < bisectRight bounds spot low high, bounds.getD i 0 ≤ spot) ∧
      ∀ i, bisectRight bounds spot low high ≤ i → i < bounds.size →
        spot < bounds.getD i 0 := by
  have hmono {i j : Nat} (hij : i ≤ j) (hj : j < bounds.size) :
      bounds.getD i 0 ≤ bounds.getD j 0 := by
    rcases hij.eq_or_lt with rfl | hlt
    · exact le_rfl
    · have hi : i < bounds.size := hlt.trans hj
      simpa [Array.getD_eq_getD_getElem?, hi, hj] using
        List.pairwise_iff_getElem.mp hsorted i j hi hj hlt
  fun_induction bisectRight bounds spot low high with
  | case1 low high hlt middle hspot ih =>
      refine ih (by omega) (by omega) hbefore fun i hi hsize => ?_
      exact hspot.trans_le (hmono hi hsize)
  | case2 low high hlt middle hspot ih =>
      refine ih (by omega) hhigh (fun i hi => ?_) hbehind
      exact (hmono (by omega) (by omega)).trans (Nat.not_lt.mp hspot)
  | case3 low high hlt =>
      obtain rfl : low = high := by omega
      exact ⟨hhigh, hbefore, hbehind⟩

/-- The first spots of the texts increase from the oldest text to the newest
one. -/
theorem pairwise_bounds_after (additions : List Addition) :
    (after additions).bounds.toList.Pairwise (· ≤ ·) ∧
      ∀ bound ∈ (after additions).bounds.toList,
        bound ≤ (after additions).slices.size := by
  induction additions using List.reverseRecOn with
  | nil =>
      exact ⟨List.pairwise_singleton _ _,
        by simp [after, fresh, bounds, startSegment, Index.insert]⟩
  | append_singleton additions addition ih =>
      obtain ⟨hsorted, hbound⟩ := ih
      rw [after_concat]
      cases addition with
      | text path letters =>
          have hbounds :
              ((after additions).add (.text path letters)).bounds.toList =
                (after additions).bounds.toList ++
                  [(after additions).slices.size] := by
            simp [bounds, Index.add, startSegment]
          rw [hbounds, List.pairwise_append, List.forall_mem_append]
          refine ⟨⟨hsorted, List.pairwise_singleton _ _, ?_⟩, hbound,
            by simp [Index.add, startSegment]⟩
          simpa using hbound
      | word slice =>
          refine ⟨hsorted, fun bound hmem => (hbound bound hmem).trans ?_⟩
          simp [Index.add, Index.insert]

theorem getD_bounds_after_zero (additions : List Addition) :
    (after additions).bounds.getD 0 0 = 0 := by
  suffices holdest :
      (after additions).segments.getLast?.map (·.start) = some 0 by
    rw [← List.head?_reverse] at holdest
    cases hsegments : (after additions).segments.reverse with
    | nil => simp [hsegments] at holdest
    | cons oldest others => simpa [bounds, hsegments] using holdest
  induction additions using List.reverseRecOn with
  | nil => rfl
  | append_singleton additions addition ih =>
      rw [after_concat]
      cases addition with
      | text path letters =>
          cases hsegments : (after additions).segments with
          | nil => simp [hsegments] at ih
          | cons newest others =>
              simpa [Index.add, startSegment, hsegments] using ih
      | word slice => exact ih

/-- Halving finds the text that is found from the newest one backwards. -/
theorem segmentOf?_eq_bisectRight
    {index : Index} (hsorted : index.bounds.toList.Pairwise (· ≤ ·))
    (hsome : 0 < index.segments.length) (holdest : index.bounds.getD 0 0 = 0)
    (spot : Nat) :
    index.segmentOf? spot =
      index.segments.reverse[bisectRight index.bounds spot 0
        index.bounds.size - 1]? := by
  have hsize : index.bounds.size = index.segments.length := by simp [bounds]
  have hbound (i : Nat) (hi : i < index.segments.length) :
      index.bounds.getD (index.segments.length - 1 - i) 0 =
        index.segments[i].start := by
    have hlast : index.segments.length - 1 - i < index.segments.length := by
      omega
    have hback :
        index.segments.length - 1 - (index.segments.length - 1 - i) = i := by
      omega
    simp [bounds, hlast, hback]
  have hspec :=
    bisectRight_spec hsorted spot (Nat.zero_le index.bounds.size) le_rfl
      (by simp) (by omega)
  generalize bisectRight index.bounds spot 0 index.bounds.size =
    found at hspec ⊢
  obtain ⟨hle, hbefore, hbehind⟩ := hspec
  have hpos : 0 < found := by
    by_contra hzero
    have hnone := hbehind 0 (by omega) (by omega)
    omega
  -- The texts in front of this one in the list are those that start behind the
  -- spot.
  have hfound : index.segments.length - found < index.segments.length := by
    omega
  have hlast : index.segments.length - 1 - (index.segments.length - found) =
      found - 1 := by omega
  have hget :
      index.segments.reverse[found - 1]? =
        some index.segments[index.segments.length - found] := by
    rw [List.getElem?_reverse (by omega), ← hlast, List.getElem?_eq_some_iff]
    refine ⟨by omega, ?_⟩
    congr 1
    omega
  rw [segmentOf?_natCast, hget, List.find?_eq_some_iff_getElem]
  refine ⟨?_, _, hfound, rfl, fun i hi => ?_⟩
  · have hstart := hbefore (found - 1) (by omega)
    rw [← hlast, hbound _ hfound] at hstart
    simpa using hstart
  · have hstart := hbehind (index.segments.length - 1 - i) (by omega) (by omega)
    rw [hbound i (by omega)] at hstart
    simpa using hstart

end Index

open Index

/-- The index never forgets a word and never takes one text for another.  A word
that was added has its slice and the text that was then the newest one; two
words have a span exactly if no text was started between them, from the start of
the first to the end of the last; and texts are found as by halving their first
spots. -/
theorem index_never_forgets_or_confuses_texts (additions : List Addition) :
    (∀ (i : Nat) (slice : Slice), additions[i]? = some (.word slice) →
      ∃ place,
        (after additions).lookup
          ((after (additions.take i)).insert slice).1 = .ok place ∧
          (place.segment.path, place.segment.text) = newestText
            (additions.take i) ∧
          place.slice = slice) ∧
    (∀ (i j : Nat) (left right : Slice),
      additions[i]? = some (.word left) → additions[j]? = some (.word right) →
      let span :=
        (after additions).lookupSpan ((after (additions.take i)).insert left).1
        ((after (additions.take j)).insert right).1
      (texts (additions.take i) = texts (additions.take j) →
        ∃ place, span = .ok place ∧
          (place.segment.path, place.segment.text) = newestText
            (additions.take i) ∧
          place.slice = ⟨left.first, right.last⟩) ∧
      (texts (additions.take i) ≠ texts (additions.take j) →
        span = .error .differentTexts)) ∧
    ∀ spot : Nat,
      (after additions).segmentOf? spot =
        (after additions).segments.reverse[
          bisectRight (after additions).bounds spot 0
            (after additions).bounds.size - 1]? := by
  refine ⟨fun i slice hword => ?_, fun i j left right hleft hright => ?_, ?_⟩
  · obtain ⟨segment, hlookup, htext, -⟩ := lookup_after hword
    exact ⟨_, hlookup, htext, rfl⟩
  · obtain ⟨leftSegment, hleftLookup, htext, hleftNumber⟩ := lookup_after hleft
    obtain ⟨rightSegment, hrightLookup, -, hrightNumber⟩ := lookup_after hright
    rw [lookupSpan, hleftLookup, hrightLookup, ← hleftNumber, ← hrightNumber]
    refine ⟨fun hsame => ?_, fun hother => ?_⟩
    · exact ⟨_, if_pos hsame, htext, rfl⟩
    · exact if_neg hother
  · refine segmentOf?_eq_bisectRight (pairwise_bounds_after additions).1 ?_
      (getD_bounds_after_zero additions)
    rw [length_segments_after]
    exact Nat.succ_pos _

/-- Texts that read the same, one of them without words and an empty one between
the others. -/
def sameTexts : List Addition :=
  [.text none "fd 1", .text none "fd 1", .word ⟨0, 2⟩, .word ⟨3, 4⟩,
    .text none "", .text none "fd 1", .word ⟨0, 2⟩]

theorem same_texts_are_told_apart :
    (∃ place, (after sameTexts).lookupSpan 1 2 = .ok place ∧
      (place.segment.path, place.segment.text) = (none, "fd 1") ∧
        place.slice = ⟨0, 4⟩) ∧
    (after sameTexts).lookupSpan 1 3 = .error .differentTexts := by
  obtain ⟨-, hspans, -⟩ := index_never_forgets_or_confuses_texts sameTexts
  refine ⟨?_, ?_⟩
  · exact (hspans 2 3 ⟨0, 2⟩ ⟨3, 4⟩ rfl rfl).1 rfl
  · exact (hspans 2 6 ⟨0, 2⟩ ⟨0, 2⟩ rfl rfl).2 (by decide)

end Logo.Source
