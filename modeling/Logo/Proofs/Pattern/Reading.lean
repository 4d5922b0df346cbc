import Logo.Proofs.Pattern.Brackets

/-!
# Reading regular expressions

Each constituent of a regular expression, read in the middle of anything else,
leaves the reader where it was but for a part that it has taken in, and this
part has the words of the constituent.  Groups make it necessary to say so of
all constituents together.  The whole text of a regular expression is then read
as a regular pattern with the words of the expression.
-/

namespace Logo.Pattern

open Regex (Atom Piece Sequence Body)

/-! ## What reading comes to -/

/-- A part has those words of a language over whose characters something is
steady, and it is a set if it is a single character. -/
structure Part.Means
    (part : Part) (language : Language Char) (isSteady : List Char → Bool)
    (set? : Option CharSet) : Prop where
  words : ∀ word, isSteady word = true →
    AgreeOn word part.pattern.words language
  regular : part.pattern.isRegular = true
  set : part.set? = set?
  ordinary : part.IsOrdinary

namespace Reader

/-- Parts have been taken in, and otherwise the reader stands as before. -/
structure Adds (reader next : Reader) (parts : List Part) : Prop where
  outer : next.outer = reader.outer
  group : next.group =
    { reader.group with parts := parts.reverse ++ reader.group.parts }
  reading : next.reading = .plain

theorem Adds.append
    {reader between next : Reader} {parts others : List Part}
    (hparts : reader.Adds between parts) (hothers : between.Adds next others) :
    reader.Adds next (parts ++ others) where
  outer := hothers.outer.trans hparts.outer
  group := by
    rw [hothers.group, hparts.group]
    simp
  reading := hothers.reading

theorem adds_addSet (reader : Reader) (position : Nat) (reading : Reading)
    (set : CharSet) :
    reader.Adds
      (addSet { reader with position := position, reading := reading } set)
      [.simple (.one set)] :=
  ⟨rfl, rfl, rfl⟩

end Reader

/-- Signs that can be read in the middle of others, and what then becomes of the
reader. -/
structure Reads
    (signs : List Sign) (endsBefore : Option Sign → Bool)
    (Leads : Reader → Reader → Prop) :
    Prop where
  clean : ∀ sign ∈ signs, sign.IsClean
  run : ∀ (reader : Reader) (rest : List Sign), reader.reading = .plain →
    (∀ sign ∈ rest, sign.IsClean) → endsBefore rest.head? = true →
      ∃ next : Reader, reader.takeIn (signs ++ rest) = next.takeIn rest ∧
        Leads reader next

/-- An atom is read as one part, which can be repeated. -/
def IsReadAtom (atom : Atom) : Prop :=
  atom.isProper = true →
    Reads atom.signs (fun next => atom.endsBefore next) fun reader next =>
      next.treatment = .none ∧
        ∃ part : Part, reader.Adds next [part] ∧
          part.Means atom.language (fun word => atom.isSteady word)
            (Piece.once atom).set?

def IsReadPiece (piece : Piece) : Prop :=
  piece.isProper = true →
    Reads piece.signs (fun next => piece.endsBefore next) fun reader next =>
      ∃ part : Part, reader.Adds next [part] ∧
        part.Means piece.language (fun word => piece.isSteady word) piece.set?

def isEnd : Option Sign → Bool
  | none => true
  | some sign => sign == .plain ')' || sign == .plain '|'

def IsReadSequence (sequence : Sequence) : Prop :=
  sequence.isProper = true →
    Reads sequence.signs isEnd fun reader next =>
      ∃ parts : List Part, reader.Adds next parts ∧
        (∀ word, sequence.isSteady word = true →
          AgreeOn word (wordsOf parts) sequence.language) ∧
        parts.map Part.set? = sequence.sets ∧
        ∀ part ∈ parts, part.pattern.isRegular = true ∧ part.IsOrdinary

/-- Alternatives have the words of a body. -/
structure Means (alternatives : List (List Part)) (body : Body) : Prop where
  words : ∀ word, body.isEachSteady word = true →
    AgreeOn word (alternatives.map wordsOf).sum body.language
  sets : alternatives.map (·.map Part.set?) = body.sets
  parts : ∀ parts ∈ alternatives, ∀ part ∈ parts,
    part.pattern.isRegular = true ∧ part.IsOrdinary

/-- A body is read as the alternatives of a group, the last of which is still
open. -/
def IsReadBody (body : Body) : Prop :=
  body.isProper = true →
    Reads body.signs isEnd fun reader next =>
      reader.group.parts = [] → next.outer = reader.outer ∧
        next.reading = .plain ∧
        ∃ alternatives : List (List Part),
          next.group.next =
            { reader.group with
              alternatives := reader.group.alternatives ++ alternatives } ∧
          Means alternatives body

/-! ## Atoms -/

namespace Reader

variable {reader next : Reader} {rest : List Sign}

theorem takeIn_plainStep
    (hreading : reader.reading = .plain) (hclean : ∀ sign ∈ rest, sign.IsClean)
    {c : Char}
    (hstep : (reader.moved (reader.position + 1)).plainStep c = .ok next) :
    reader.takeIn (.plain c :: rest) = next.takeIn rest := by
  have hplace : reader.reading = place none := hreading
  rw [← step_plain hreading] at hstep
  exact takeIn_step (isIdle_of_place hplace) hclean hstep

theorem plainStep_of_not_reserved {c : Char}
    (hreserved : Regex.reserved.contains c = false) :
    reader.plainStep c = .ok (reader.addSet (.literal c)) := by
  unfold plainStep
  dsimp only
  split
  all_goals first
    | exact absurd hreserved (by decide)
    | rfl

end Reader

theorem isOrdinary_one (set : CharSet) : (Part.simple (.one set)).IsOrdinary :=
  fun _ _ => rfl

theorem isOrdinary_compound (p : Pattern) :
    (Part.compound p).IsOrdinary := nofun

theorem means_one_singleton (member : Member) (isSteady : List Char → Bool) :
    (Part.simple (.one ⟨false, [member]⟩)).Means
      (Regex.oneOf fun c => member.meets c) isSteady
      (some ⟨false, [member]⟩) where
  words := by
    intro word _
    change AgreeOn word (words (.one ⟨false, [member]⟩)) _
    rw [words_one]
    refine .oneOf fun c _ => ?_
    have hone : [member].length ≤ 1 := Nat.le_refl 1
    rw [CharSet.has_of_length_le_one hone, Bool.false_bne,
      List.any_cons, List.any_nil, Bool.or_false]
  regular := rfl
  set := rfl
  ordinary := isOrdinary_one _

theorem isReadAtom_letter (letter : Regex.Letter) :
    IsReadAtom (.letter letter) := by
  intro hletter
  refine ⟨isClean_letter hletter, fun reader rest hreading hclean hends => ?_⟩
  by_cases hplain : ∃ c, letter = .plain c
  · obtain ⟨c, rfl⟩ := hplain
    have hreserved : Regex.reserved.contains c = false := by
      simpa [Atom.isProper, Regex.Letter.isProper] using hletter
    exact ⟨_, Reader.takeIn_plainStep hreading hclean
      (Reader.plainStep_of_not_reserved hreserved),
      rfl, _, reader.adds_addSet _ _ _, means_one_singleton _ _⟩
  · have hplace : reader.reading = Reader.place none := hreading
    obtain ⟨position, reading, text, hrun⟩ :=
      Reader.takeIn_letter hplace hletter
        (fun c hc => hplain ⟨c, hc⟩) hclean hends
    exact ⟨_, hrun _ rfl, rfl, _, reader.adds_addSet _ _ _,
      means_one_singleton _ _⟩

theorem isReadAtom_anyCharacter : IsReadAtom .anyCharacter := by
  intro _
  refine ⟨List.forall_mem_singleton.mpr (Sign.isClean_plain (by decide)), ?_⟩
  intro reader rest hreading hclean _
  refine ⟨_, Reader.takeIn_plainStep hreading hclean rfl, rfl, _,
    reader.adds_addSet _ _ _, ?_⟩
  refine ⟨fun word _ => ?_, rfl, rfl, isOrdinary_one _⟩
  change AgreeOn word (words (.one .anyCharacter)) _
  rw [words_one]
  exact .oneOf fun c _ => CharSet.has_anyCharacter_eq c

theorem isReadAtom_kind (cls : CharClass) : IsReadAtom (.kind cls) := by
  intro _
  refine ⟨List.forall_mem_singleton.mpr trivial,
    fun reader rest hreading hclean _ => ?_⟩
  have hplace : reader.reading = Reader.place none := hreading
  have hstep :
      (reader.moved (reader.position + 2)).escapeStep none (Regex.nameOf cls) =
      .ok ((reader.moved (reader.position + 2)).addSet
        ⟨false, [.named cls]⟩) := by
    unfold Reader.escapeStep
    simp only [escapeMeaning_nameOf]
    rfl
  exact ⟨_, Reader.takeIn_escaped hplace hclean hstep, rfl, _,
    reader.adds_addSet _ _ _, means_one_singleton _ _⟩

/-- The beginning of a set, up to its first item. -/
theorem Reader.takeIn_opening
    {reader : Reader} (hreading : reader.reading = .plain) (negated : Bool)
    {rest : List Sign} (hclean : ∀ sign ∈ rest, sign.IsClean) :
    ∃ position start, reader.takeIn
        (.plain '[' :: ((if negated then [.plain '^'] else []) ++ rest)) =
      takeIn { reader with
        position := position,
        reading := .set ⟨start, negated, true, [], none, false⟩ } rest := by
  cases negated with
  | false => exact ⟨_, _, takeIn_plainStep hreading hclean rfl⟩
  | true =>
      have hcaret : ∀ sign ∈ Sign.plain '^' :: rest, sign.IsClean :=
        List.forall_mem_cons.mpr ⟨Sign.isClean_plain (by decide), hclean⟩
      exact ⟨_, _, (takeIn_plainStep hreading hcaret rfl).trans
        (takeIn_setStep rfl hclean rfl)⟩

theorem means_set (negated : Bool) (items : List Regex.Item) :
    (Part.simple (.one ⟨negated, Regex.membersOf items⟩)).Means
      (Atom.set negated items).language
        (fun word => (Atom.set negated items).isSteady word)
      (some ⟨negated, Regex.membersOf items⟩) where
  words := by
    intro word hsteady
    rw [Atom.isSteady, Bool.or_eq_true, decide_eq_true_eq,
      List.all_eq_true] at hsteady
    change AgreeOn word (words (.one _)) _
    rw [words_one]
    refine .oneOf fun c hc => ?_
    have hhas : CharSet.has ⟨negated, Regex.membersOf items⟩ c =
        (negated != (Regex.membersOf items).any (·.meets c)) := by
      rcases hsteady with hfew | hsteady
      · exact CharSet.has_of_length_le_one hfew negated c
      · exact CharSet.has_of_isSteady hsteady negated hc
    rw [hhas, Regex.membersOf, CharSet.any_eraseDups, List.any_map]
    simp only [Function.comp_def, meets_member]
  regular := rfl
  set := rfl
  ordinary := isOrdinary_one _

theorem isReadAtom_set (negated : Bool) (items : List Regex.Item) :
    IsReadAtom (.set negated items) := by
  intro hproper
  simp only [Atom.isProper, Bool.and_eq_true, Bool.not_eq_true',
    List.isEmpty_eq_false_iff]
    at hproper
  obtain ⟨hsome, hitems⟩ := hproper
  have hclosing := isClean_closing hitems
  refine ⟨?_, fun reader rest hreading hclean _ => ?_⟩
  · refine List.forall_mem_cons.mpr ⟨Sign.isClean_plain (by decide), ?_⟩
    refine List.forall_mem_append.mpr ⟨?_, hclosing⟩
    cases negated
    · exact List.forall_mem_nil _
    · exact List.forall_mem_singleton.mpr (Sign.isClean_plain (by decide))
  · obtain ⟨openPosition, start, hopen⟩ :=
      Reader.takeIn_opening hreading negated
        (List.forall_mem_append.mpr ⟨hclosing, hclean⟩)
    have hset :
        ({ reader with
            position := openPosition,
            reading := .set ⟨start, negated, true, [], none, false⟩ } :
          Reader).reading = .set ⟨start, negated, true, [], none, false⟩ := rfl
    obtain ⟨position, hrun⟩ :=
      Reader.takeIn_closing hset rfl
        (fun h => absurd h (by simp [hsome])) hitems hclean
    refine ⟨_, ?_, rfl, _, reader.adds_addSet position .plain _,
      means_set negated items⟩
    rw [Atom.signs, List.cons_append, List.append_assoc, hopen]
    exact hrun

theorem Reader.plainStep_closing
    {reader : Reader} {group : OpenGroup} {outer : List OpenGroup}
    {number : Nat} (houter : reader.outer = group :: outer)
    (hnumber : reader.group.number = some number) :
    reader.plainStep ')' =
      .ok { reader with
        outer := outer,
        group := group.add (.compound (.group number reader.group.finish))
        treatment := .none } := by
  unfold plainStep
  simp only [houter, hnumber]
  rfl

theorem Means.words_finish
    {group : OpenGroup} {body : Body}
    (hmeans : Means group.next.alternatives body)
    {word : List Char} (hsteady : body.isSteady word = true) :
    AgreeOn word group.finish.words body.language := by
  rw [Body.isSteady, Bool.and_eq_true, ← hmeans.sets] at hsteady
  have hordinary :=
    fun parts hparts part hpart => (hmeans.parts parts hparts part hpart).2
  exact (OpenGroup.words_finish hordinary hsteady.2).trans
    (hmeans.words word hsteady.1)

theorem Means.isRegular_finish
    {group : OpenGroup} {body : Body}
    (hmeans : Means group.next.alternatives body) :
    group.finish.isRegular = true :=
  OpenGroup.isRegular_finish fun parts hparts part hpart =>
    (hmeans.parts parts hparts part hpart).1

theorem isReadAtom_group {body : Body} (hbody : IsReadBody body) :
    IsReadAtom (.group body) := by
  intro hproper
  obtain ⟨hsigns, hrun⟩ := hbody hproper
  have hmark : (Sign.plain ')').IsClean := Sign.isClean_plain (by decide)
  refine ⟨?_, fun reader rest hreading hclean _ => ?_⟩
  · refine List.forall_mem_cons.mpr ⟨Sign.isClean_plain (by decide), ?_⟩
    exact List.forall_mem_append.mpr
      ⟨hsigns, List.forall_mem_singleton.mpr hmark⟩
  · have hclosing : ∀ sign ∈ Sign.plain ')' :: rest, sign.IsClean :=
      List.forall_mem_cons.mpr ⟨hmark, hclean⟩
    -- The body is read into a group of its own, on top of the one that was
    -- open.
    let inner : Reader :=
      { reader with
        position := reader.position + 1, opened := reader.opened + 1
        outer := reader.group :: reader.outer,
        group := ⟨some reader.opened, reader.position, [], []⟩
        treatment := .none }
    obtain ⟨last, hbodyRun, hlast⟩ :=
      hrun inner (.plain ')' :: rest) hreading hclosing rfl
    obtain ⟨houter, hplain, alternatives, hgroup, hmeans⟩ := hlast rfl
    have hnumber : last.group.number = some reader.opened :=
      congrArg OpenGroup.number hgroup
    have halternatives : last.group.next.alternatives = alternatives :=
      congrArg OpenGroup.alternatives hgroup
    rw [← halternatives] at hmeans
    let part : Part := .compound (.group reader.opened last.group.finish)
    let closed : Reader :=
      { last.moved (last.position + 1) with
        outer := reader.outer, group := reader.group.add part,
        treatment := .none }
    have hadds : reader.Adds closed [part] := ⟨rfl, rfl, hplain⟩
    refine ⟨closed, ?_, rfl, part, hadds,
      fun word hsteady => ?_, hmeans.isRegular_finish, rfl,
      isOrdinary_compound _⟩
    · calc
        reader.takeIn (.plain '(' :: (body.signs ++ [.plain ')']) ++ rest)
          = reader.takeIn
            (.plain '(' :: (body.signs ++ .plain ')' :: rest)) := by simp
        _ = inner.takeIn (body.signs ++ .plain ')' :: rest) :=
            Reader.takeIn_plainStep hreading
              (List.forall_mem_append.mpr ⟨hsigns, hclosing⟩) rfl
        _ = last.takeIn (.plain ')' :: rest) := hbodyRun
        _ = closed.takeIn rest :=
            Reader.takeIn_plainStep hplain hclean
              (Reader.plainStep_closing houter hnumber)
    · change AgreeOn word (words (.group _ _)) _
      rw [words_group]
      exact hmeans.words_finish hsteady

/-! ## Repetitions -/

theorem isReadPiece_once {atom : Atom} (hatom : IsReadAtom atom) :
    IsReadPiece (.once atom) := by
  intro hproper
  obtain ⟨hsigns, hrun⟩ := hatom hproper
  refine ⟨hsigns, fun reader rest hreading hclean hends => ?_⟩
  obtain ⟨next, htakeIn, -, hpart⟩ := hrun reader rest hreading hclean hends
  exact ⟨next, htakeIn, hpart⟩

theorem isOctal_countMark (count : Count) :
    isOctal (Regex.countMark count) = false := by
  cases count <;> rfl

theorem isClean_countMark (count : Count) :
    (Sign.plain (Regex.countMark count)).IsClean := by
  cases count <;> exact Sign.isClean_plain (by decide)

theorem endsBefore_countMark (count : Count) (atom : Atom) :
    atom.endsBefore (some (.plain (Regex.countMark count))) = true := by
  cases atom with
  | letter letter =>
      exact endsBefore_of_not_isOctal (isOctal_countMark count) letter
  | _ => rfl

namespace Reader

variable {reader next : Reader} {part : Part} {parts : List Part}

theorem plainStep_countMark
    (hparts : reader.group.parts = part :: parts)
    (hregular : part.pattern.isRegular = true)
    (htreatment : reader.treatment = .none) (count : Count) :
    reader.plainStep (Regex.countMark count) =
      .ok (reader.replaceLast (.repeated count part.pattern)
        (.repeated count .eager part.pattern)) := by
  have hrepeat : reader.repeatLast count =
      .ok (reader.replaceLast (.repeated count part.pattern)
        (.repeated count .eager part.pattern)) := by
    unfold repeatLast
    rw [hparts, htreatment]
    cases part with
    | compound p => rfl
    | simple p =>
        cases p with
        | edge place => cases hregular
        | _ => rfl
  rw [← hrepeat]
  cases count with
  | anyNumber => rfl
  | oneOrMore =>
      unfold plainStep
      simp only [Regex.countMark, htreatment]
  | atMostOne =>
      unfold plainStep
      simp only [Regex.countMark, htreatment]

theorem plainStep_lazy
    {count : Count} {p : Pattern}
    (htreatment : reader.treatment = .repeated count p) :
    reader.plainStep '?' =
      .ok (reader.replaceLast .finished (.repeated count .lazy p)) := by
  unfold plainStep
  simp only [htreatment]
  rfl

theorem Adds.replaceLast
    (hadds : reader.Adds next [part]) (treatment : Treatment) (p : Pattern)
    (position : Nat) :
    reader.Adds ((next.moved position).replaceLast treatment p)
      [.compound p] where
  outer := hadds.outer
  group := by
    change ({ next.group with parts := .compound p :: next.group.parts.tail } :
      OpenGroup) = _
    rw [hadds.group]
    rfl
  reading := hadds.reading

end Reader

theorem means_repeated
    {part : Part} {language : Language Char} {isSteady : List Char → Bool}
    {set? : Option CharSet} (hmeans : part.Means language isSteady set?)
    (count : Count) {manner : Manner} (hmanner : manner ≠ .held) :
    (Part.compound (.repeated count manner part.pattern)).Means
      (Regex.times language count) isSteady none where
  words := by
    intro word hsteady
    change AgreeOn word (words (.repeated count manner part.pattern)) _
    rw [words_repeated]
    exact (hmeans.words word hsteady).times count
  regular := by
    change (manner != .held && part.pattern.isRegular) = true
    simp [hmanner, hmeans.regular]
  set := rfl
  ordinary := isOrdinary_compound _

theorem isReadPiece_repeated {atom : Atom} (hatom : IsReadAtom atom)
    (count : Count) (lazy : Bool) :
    IsReadPiece (.repeated count lazy atom) := by
  intro hproper
  obtain ⟨hsigns, hrun⟩ := hatom hproper
  have hlazy : ∀ sign ∈ (if lazy then [Sign.plain '?'] else []),
      sign.IsClean := by
    cases lazy
    · exact List.forall_mem_nil _
    · exact List.forall_mem_singleton.mpr (Sign.isClean_plain (by decide))
  refine ⟨?_, fun reader rest hreading hclean _ => ?_⟩
  · exact List.forall_mem_append.mpr
      ⟨hsigns, List.forall_mem_cons.mpr ⟨isClean_countMark count, hlazy⟩⟩
  · have hbehind := List.forall_mem_append.mpr ⟨hlazy, hclean⟩
    obtain ⟨next, htakeIn, htreatment, part, hadds, hmeans⟩ :=
      hrun reader
        (.plain (Regex.countMark count) ::
          ((if lazy then [.plain '?'] else []) ++ rest))
        hreading (List.forall_mem_cons.mpr ⟨isClean_countMark count, hbehind⟩)
        (endsBefore_countMark count atom)
    let marked : Reader := next.moved (next.position + 1)
    have hparts : marked.group.parts = part :: reader.group.parts := by
      change next.group.parts = _
      rw [hadds.group]
      rfl
    have hmark := Reader.takeIn_plainStep hadds.reading hbehind
      (Reader.plainStep_countMark hparts hmeans.regular htreatment count)
    have hsame : (Piece.repeated count lazy atom).signs ++ rest =
        atom.signs ++ .plain (Regex.countMark count) ::
          ((if lazy then [.plain '?'] else []) ++ rest) := by
      simp [Piece.signs]
    rw [hsame, htakeIn, hmark]
    -- The repetition is eager at first, and a question mark behind it makes it
    -- lazy.
    have hrepeated := hadds.replaceLast (.repeated count part.pattern)
      (.repeated count .eager part.pattern) (next.position + 1)
    cases lazy with
    | false =>
        exact ⟨_, rfl, _, hrepeated, means_repeated hmeans count (by decide)⟩
    | true =>
        refine ⟨_, Reader.takeIn_plainStep hrepeated.reading hclean
          (Reader.plainStep_lazy rfl), _, hrepeated.replaceLast .finished
            (.repeated count .lazy part.pattern) _,
          means_repeated hmeans count (by decide)⟩

/-! ## Sequences and alternatives -/

theorem endsBefore_of_isEnd {next : Option Sign} (hend : isEnd next = true)
    (piece : Piece) :
    piece.endsBefore next = true := by
  cases piece with
  | repeated count lazy atom => rfl
  | once atom =>
      cases atom with
      | letter letter =>
          cases next with
          | none =>
              cases letter <;> simp [Piece.endsBefore, Atom.endsBefore,
                Regex.Letter.endsBefore]
          | some sign =>
              simp only [isEnd, Bool.or_eq_true, beq_iff_eq] at hend
              rcases hend with rfl | rfl
              · exact endsBefore_of_not_isOctal (by decide) letter
              · exact endsBefore_of_not_isOctal (by decide) letter
      | _ => rfl

theorem isReadSequence_nothing : IsReadSequence .nothing := by
  intro _
  refine ⟨List.forall_mem_nil _, fun reader rest hreading _ _ => ?_⟩
  exact ⟨reader, rfl, [], ⟨rfl, rfl, hreading⟩,
    fun word _ => .refl 1, rfl, List.forall_mem_nil _⟩

theorem isReadSequence_next
    {piece : Piece} {others : Sequence} (hpiece : IsReadPiece piece)
    (hothers : IsReadSequence others) :
    IsReadSequence (.next piece others) := by
  intro hproper
  simp only [Sequence.isProper, Bool.and_eq_true] at hproper
  obtain ⟨⟨⟨hpieceProper, hends⟩, -⟩, hothersProper⟩ := hproper
  obtain ⟨hpieceSigns, hpieceRun⟩ := hpiece hpieceProper
  obtain ⟨hothersSigns, hothersRun⟩ := hothers hothersProper
  refine ⟨List.forall_mem_append.mpr ⟨hpieceSigns, hothersSigns⟩, ?_⟩
  intro reader rest hreading hclean hend
  -- The last piece of all is followed by what ends the sequence.
  have hpieceEnds : piece.endsBefore (others.signs ++ rest).head? = true := by
    by_cases hempty : others.signs = []
    · rw [hempty, List.nil_append]
      exact endsBefore_of_isEnd hend piece
    · rwa [List.head?_append_of_ne_nil _ hempty]
  obtain ⟨between, hfirst, part, hpart, hmeans⟩ :=
    hpieceRun reader (others.signs ++ rest) hreading
      (List.forall_mem_append.mpr ⟨hothersSigns, hclean⟩) hpieceEnds
  obtain ⟨next, hsecond, parts, hparts, hwords, hsets, hall⟩ :=
    hothersRun between rest hpart.reading hclean hend
  refine ⟨next, ?_, part :: parts, hpart.append hparts,
    fun word hsteady => ?_, ?_, ?_⟩
  · rw [Sequence.signs, List.append_assoc, hfirst, hsecond]
  · rw [Sequence.isSteady, Bool.and_eq_true] at hsteady
    rw [wordsOf_cons]
    exact (hmeans.words word hsteady.1).mul (hwords word hsteady.2)
  · rw [List.map_cons, Sequence.sets, hmeans.set, hsets]
  · exact List.forall_mem_cons.mpr ⟨⟨hmeans.regular, hmeans.ordinary⟩, hall⟩

/-- The group with a further alternative, when all its parts have been read. -/
theorem Reader.Adds.group_next
    {reader next : Reader} {parts : List Part} (hadds : reader.Adds next parts)
    (hnone : reader.group.parts = []) :
    next.group.next =
      { reader.group with
        alternatives := reader.group.alternatives ++ [parts] } := by
  rw [hadds.group]
  simp [OpenGroup.next, hnone]

theorem isReadBody_last {alternative : Sequence}
    (halternative : IsReadSequence alternative) :
    IsReadBody (.last alternative) := by
  intro hproper
  obtain ⟨hsigns, hrun⟩ := halternative hproper
  refine ⟨hsigns, fun reader rest hreading hclean hend => ?_⟩
  obtain ⟨next, htakeIn, parts, hadds, hwords, hsets, hall⟩ :=
    hrun reader rest hreading hclean hend
  refine ⟨next, htakeIn, fun hnone =>
    ⟨hadds.outer, hadds.reading, [parts], hadds.group_next hnone,
      fun word hsteady => ?_, ?_, List.forall_mem_singleton.mpr hall⟩⟩
  · rw [List.map_singleton, List.sum_singleton]
    exact hwords word hsteady
  · rw [List.map_singleton, Body.sets, hsets]

theorem isReadBody_or
    {alternative : Sequence} {others : Body}
    (halternative : IsReadSequence alternative)
    (hothers : IsReadBody others) : IsReadBody (.or alternative others) := by
  intro hproper
  rw [Body.isProper, Bool.and_eq_true] at hproper
  obtain ⟨hfirstSigns, hfirstRun⟩ := halternative hproper.1
  obtain ⟨hothersSigns, hothersRun⟩ := hothers hproper.2
  have hbar : ∀ sign ∈ Sign.plain '|' :: others.signs, sign.IsClean :=
    List.forall_mem_cons.mpr ⟨Sign.isClean_plain (by decide), hothersSigns⟩
  refine ⟨List.forall_mem_append.mpr ⟨hfirstSigns, hbar⟩, ?_⟩
  intro reader rest hreading hclean hend
  have hothersClean := List.forall_mem_append.mpr ⟨hothersSigns, hclean⟩
  obtain ⟨between, hfirst, parts, hadds, hwords, hsets, hall⟩ :=
    hfirstRun reader (.plain '|' :: (others.signs ++ rest)) hreading
      (List.forall_mem_append.mpr ⟨hbar, hclean⟩) rfl
  -- The bar closes the first alternative, so that the others start without
  -- parts.
  let behind : Reader :=
    { between.moved (between.position + 1) with
      group := between.group.next, treatment := .none }
  obtain ⟨next, hsecond, hnext⟩ :=
    hothersRun behind rest hadds.reading hclean hend
  obtain ⟨houter, hplain, alternatives, hgroup, hmeans⟩ := hnext rfl
  refine ⟨next, ?_,
    fun hnone => ⟨houter.trans hadds.outer, hplain,
      parts :: alternatives, ?_, ?_⟩⟩
  · calc
      reader.takeIn (alternative.signs ++ .plain '|' :: others.signs ++ rest)
        = reader.takeIn
          (alternative.signs ++ .plain '|' :: (others.signs ++ rest)) := by simp
      _ = between.takeIn (.plain '|' :: (others.signs ++ rest)) := hfirst
      _ = behind.takeIn (others.signs ++ rest) :=
          Reader.takeIn_plainStep hadds.reading hothersClean rfl
      _ = next.takeIn rest := hsecond
  · rw [hgroup]
    change ({ between.group.next with
      alternatives :=
        between.group.next.alternatives ++ alternatives } : OpenGroup) = _
    rw [hadds.group_next hnone]
    simp
  · refine ⟨fun word hsteady => ?_, ?_, List.forall_mem_cons.mpr ⟨hall,
      hmeans.parts⟩⟩
    · rw [Body.isEachSteady, Bool.and_eq_true] at hsteady
      rw [List.map_cons, List.sum_cons]
      exact (hwords word hsteady.1).add (hmeans.words word hsteady.2)
    · rw [List.map_cons, Body.sets, hsets, hmeans.sets]

/-! ## Whole expressions -/

theorem isReadBody (body : Body) : IsReadBody body :=
  -- One case for each constructor, in the order of the declarations.
  @Body.rec IsReadAtom IsReadPiece IsReadSequence IsReadBody
    isReadAtom_letter
    isReadAtom_anyCharacter
    isReadAtom_kind
    isReadAtom_set
    (fun _ hbody => isReadAtom_group hbody)
    (fun _ hatom => isReadPiece_once hatom)
    (fun count lazy _ hatom => isReadPiece_repeated hatom count lazy)
    isReadSequence_nothing
    (fun _ _ hpiece hothers => isReadSequence_next hpiece hothers)
    (fun _ halternative => isReadBody_last halternative)
    (fun _ _ halternative hothers => isReadBody_or halternative hothers)
    body

/-- The text of a regular expression is read as a pattern with its words. -/
theorem read_text (regex : Regex) :
    ∃ pattern, read regex.text = .ok pattern ∧ pattern.isRegular = true ∧
      ∀ word, regex.body.isSteady word = true →
        (pattern.Matches word ↔ word ∈ regex.language) := by
  obtain ⟨hclean, hrun⟩ := isReadBody regex.body regex.proper
  obtain ⟨next, htakeIn, hnext⟩ :=
    hrun .start [] rfl (List.forall_mem_nil _) rfl
  obtain ⟨houter, hplain, alternatives, hgroup, hmeans⟩ := hnext rfl
  have halternatives : next.group.next.alternatives = alternatives :=
    congrArg OpenGroup.alternatives hgroup
  rw [← halternatives] at hmeans
  have hsettled : next.takeIn [] = .ok next := by
    rw [Reader.takeIn, Reader.settled, hplain]
    rfl
  have hfinish : next.finish = .ok next.group.finish := by
    rw [Reader.finish, hplain, houter]
    rfl
  refine ⟨next.group.finish, ?_, hmeans.isRegular_finish, fun word hsteady =>
    hmeans.words_finish hsteady word (List.Subset.refl word)⟩
  rw [read, Regex.text, String.toList_ofList,
    signs_text hclean, ← List.append_nil regex.body.signs, htakeIn, hsettled]
  exact hfinish

end Logo.Pattern
