import Logo.Proofs.Pattern.Letters

/-!
# Reading sets

The items between brackets are read one after the other, and each becomes a
member of the set.  A caret, a closing bracket and a hyphen mean themselves
wherever they can mean nothing else.
-/

namespace Logo.Pattern

open Regex (Letter Item)

theorem endsBefore_of_not_isOctal {c : Char} (hc : isOctal c = false)
    (letter : Letter) :
    letter.endsBefore (some (.plain c)) = true := by
  cases letter with
  | octal first more => simp [Letter.endsBefore, hc]
  | _ => rfl

theorem meets_member (c : Char) (item : Item) :
    item.member.meets c = item.meets c := by
  cases item <;> rfl

namespace OpenSet

variable {set : OpenSet}

theorem add_of_not_hyphen
    (hhyphen : set.hyphen = false) (member : Member) (text : List Char)
    (position : Nat) :
    set.add member text position =
      .ok { set with
        members := set.flushed, last := some (member, text),
        fresh := false } := by
  unfold add
  rw [hhyphen]
  cases set.last <;> rfl

/-- The high end of a range. -/
theorem add_of_hyphen
    {low high : Nat} {lowText : List Char}
    (hlast : set.last = some (.single low, lowText))
    (hhyphen : set.hyphen = true) (hle : low ≤ high) (text : List Char)
    (position : Nat) :
    set.add (.single high) text position =
      .ok { set with
        members := set.members ++ [.range low high], last := none,
        hyphen := false } := by
  unfold add
  rw [hlast, hhyphen]
  exact if_neg (Nat.not_lt.mpr hle)

/-- A character means itself at this place of a set. -/
def Accepts (set : OpenSet) (c : Char) : Prop :=
  ¬ (c = '^' ∧ set.fresh = true ∧ ¬ set.negated = true) ∧
    ¬ (c = ']' ∧ ¬ set.fresh = true) ∧
    ¬ (c = '-' ∧ set.last.isSome = true ∧ ¬ set.hyphen = true)

/-- A set has got one more member. -/
structure Gains (set larger : OpenSet) (item : Item) : Prop where
  negated : larger.negated = set.negated
  fresh : larger.fresh = false
  hyphen : larger.hyphen = false
  last : larger.last.isSome = item.isOpen
  flushed : larger.flushed = set.flushed ++ [item.member]

end OpenSet

namespace Reader

variable {reader : Reader} {set larger : OpenSet} {rest : List Sign}

theorem addMember_some
    {member : Member} {text : List Char}
    (hlarger : set.add member text reader.position = .ok larger) :
    reader.addMember (some set) member text =
      .ok { reader with reading := .set larger } := by
  unfold addMember
  dsimp only
  rw [hlarger]
  rfl

theorem takeIn_setStep
    (hreading : reader.reading = .set set)
    (hclean : ∀ sign ∈ rest, sign.IsClean) {c : Char}
    {next : Reader}
    (hstep : (reader.moved (reader.position + 1)).setStep set c = .ok next) :
    reader.takeIn (.plain c :: rest) = next.takeIn rest := by
  have hplace : reader.reading = place (some set) := hreading
  rw [← step_set hreading] at hstep
  exact takeIn_step (isIdle_of_place hplace) hclean hstep

theorem setStep_hyphen (hlast : set.last.isSome = true)
    (hhyphen : set.hyphen = false) :
    reader.setStep set '-' =
      .ok { reader with reading := .set { set with hyphen := true } } := by
  simp [setStep, hlast, hhyphen]
  rfl

theorem setStep_bracket (hfresh : set.fresh = false) :
    reader.setStep set ']' = .ok (reader.addSet set.finish) := by
  simp [setStep, hfresh]
  rfl

theorem takeIn_letter_of_accepts
    (hreading : reader.reading = .set set) {letter : Letter}
    (hproper : letter.isProper true = true)
    (haccepts : ∀ c, letter = .plain c → set.Accepts c)
    (hclean : ∀ sign ∈ rest, sign.IsClean)
    (hends : letter.endsBefore rest.head? = true) :
    ∃ position text, ∀ larger,
      set.add (.single letter.code) text position = .ok larger →
        reader.takeIn (letter.signs ++ rest) =
          takeIn
            { reader with
              position := position, reading := .set larger } rest := by
  by_cases hplain : ∃ c, letter = .plain c
  · obtain ⟨c, rfl⟩ := hplain
    obtain ⟨hcaret, hbracket, hhyphen⟩ := haccepts c rfl
    refine ⟨reader.position + 1, [c],
      fun larger hlarger => takeIn_setStep hreading hclean ?_⟩
    unfold setStep
    rw [if_neg hcaret, if_neg hbracket, if_neg hhyphen]
    exact addMember_some hlarger
  · have hplace : reader.reading = place (some set) := hreading
    obtain ⟨position, reading, text, hrun⟩ :=
      takeIn_letter hplace hproper (fun c hc => hplain ⟨c, hc⟩) hclean hends
    exact ⟨position, text,
      fun larger hlarger => hrun _ (addMember_some hlarger)⟩

theorem takeIn_item
    (hreading : reader.reading = .set set) (hhyphen : set.hyphen = false)
    {item : Item} (hproper : item.isProper = true)
    (haccepts : ∀ c ∈ item.start?, set.Accepts c)
    (hclean : ∀ sign ∈ rest, sign.IsClean)
    (hends : item.endsBefore rest.head? = true) :
    ∃ position larger,
      reader.takeIn (item.signs ++ rest) =
        takeIn
          { reader with position := position, reading := .set larger } rest ∧
      set.Gains larger item := by
  cases item with
  | single letter =>
      obtain ⟨position, text, hrun⟩ :=
        takeIn_letter_of_accepts hreading hproper
          (fun c hc => haccepts c (by rw [hc]; rfl)) hclean hends
      exact ⟨position, _, hrun _ (OpenSet.add_of_not_hyphen hhyphen _ _ _), rfl,
        rfl, hhyphen, rfl, rfl⟩
  | range first last =>
      simp only [Item.isProper, Bool.and_eq_true, bne_iff_ne,
        decide_eq_true_eq] at hproper
      obtain ⟨⟨⟨hfirst, hlast⟩, hbracket⟩, hle⟩ := hproper
      have hlastClean : ∀ sign ∈ last.signs ++ rest, sign.IsClean :=
        List.forall_mem_append.mpr ⟨isClean_letter hlast, hclean⟩
      have hhyphenClean :
          ∀ sign ∈ Sign.plain '-' :: (last.signs ++ rest), sign.IsClean :=
        List.forall_mem_cons.mpr ⟨Sign.isClean_plain (by decide), hlastClean⟩
      obtain ⟨lowPosition, lowText, hlow⟩ :=
        takeIn_letter_of_accepts hreading hfirst
          (fun c hc => haccepts c (by rw [hc]; rfl))
          hhyphenClean (endsBefore_of_not_isOctal (by decide) first)
      -- Three readers: behind the low end, behind the hyphen, and behind the
      -- high end.
      let low : OpenSet :=
        { set with
          members := set.flushed, last := some (.single first.code, lowText),
          fresh := false }
      let dashed : OpenSet := { low with hyphen := true }
      let atHyphen : Reader :=
        { reader with position := lowPosition, reading := .set low }
      let atLast : Reader :=
        { reader with position := lowPosition + 1, reading := .set dashed }
      have hdash : atHyphen.takeIn (.plain '-' :: (last.signs ++ rest)) =
          atLast.takeIn (last.signs ++ rest) :=
        takeIn_setStep rfl hlastClean (setStep_hyphen rfl hhyphen)
      obtain ⟨position, text, hhigh⟩ :=
        takeIn_letter_of_accepts
          (show atLast.reading = .set dashed from rfl) hlast (by
            rintro c rfl
            refine ⟨by simp [dashed, low], ?_, by simp [dashed]⟩
            rintro ⟨rfl, -⟩
            exact hbracket rfl)
          hclean hends
      refine ⟨position, { dashed with
        members := dashed.members ++ [.range first.code last.code]
        last := none, hyphen := false }, ?_, rfl, rfl, rfl, rfl, ?_⟩
      · rw [Item.signs, List.append_assoc, List.cons_append,
          hlow low (OpenSet.add_of_not_hyphen hhyphen _ _ _), hdash,
          hhigh _ (OpenSet.add_of_hyphen rfl rfl hle _ _)]
      · simp [OpenSet.flushed, dashed, low, Item.member]
  | kind cls =>
      have hplace : reader.reading = place (some set) := hreading
      refine ⟨reader.position + 2, { set with
        members := set.flushed,
        last := some (.named cls, ['\\', Regex.nameOf cls])
        fresh :=
          false }, takeIn_escaped hplace hclean ?_, rfl, rfl, hhyphen, rfl, rfl⟩
      unfold escapeStep
      simp only [escapeMeaning_nameOf]
      exact addMember_some (OpenSet.add_of_not_hyphen hhyphen _ _ _)

theorem accepts_of_areProper
    {item : Item} {others : List Item}
    (hproper :
      Regex.areProper set.negated set.fresh set.last.isSome
        (item :: others) = true)
    (hlast : ¬ (set.last.isSome = true ∧ item = .single (.plain '-'))) :
    ∀ c ∈ item.start?, set.Accepts c := by
  intro c hc
  have hstart : item.start? = some c := hc
  simp only [Regex.areProper, hstart, Bool.and_eq_true] at hproper
  obtain ⟨⟨-, hplace⟩, -⟩ := hproper
  refine ⟨?_, ?_, ?_⟩
  · rintro ⟨rfl, hfresh, hnegated⟩
    simp [hfresh, hnegated] at hplace
  · rintro ⟨rfl, hfresh⟩
    exact hfresh hplace
  · rintro ⟨rfl, hopen, -⟩
    simp only [hopen, Bool.not_true, Bool.false_or, Bool.and_eq_true,
      beq_iff_eq] at hplace
    exact hlast ⟨hopen, hplace.1⟩

/-- The rest of a set, from any point between its items on. -/
theorem takeIn_closing
    {items : List Item} (hreading : reader.reading = .set set)
    (hhyphen : set.hyphen = false)
    (hfresh : set.last.isSome = true ∨ items = [] → set.fresh = false)
    (hproper : Regex.areProper set.negated set.fresh set.last.isSome items =
      true)
    (hclean : ∀ sign ∈ rest, sign.IsClean) :
    ∃ position, reader.takeIn (Regex.closing items ++ rest) =
      takeIn (addSet { reader with position := position }
        ⟨set.negated,
          (set.flushed ++ items.map Item.member).eraseDups⟩) rest := by
  induction items generalizing reader set with
  | nil =>
      refine ⟨reader.position + 1, ?_⟩
      have hfinish :
          set.finish =
              ⟨set.negated, (set.flushed ++ [].map Item.member).eraseDups⟩ := by
        simp [OpenSet.finish, hhyphen]
      rw [← hfinish]
      exact takeIn_setStep hreading hclean (setStep_bracket (hfresh (.inr rfl)))
  | cons item others ih =>
      by_cases hlast : set.last.isSome = true ∧ item = .single (.plain '-')
      · -- A hyphen that might make a range makes none before the closing
        -- bracket.
        obtain ⟨hopen, rfl⟩ := hlast
        simp only [Regex.areProper, Item.start?, hopen, Bool.and_eq_true,
          Bool.not_true, Bool.false_or, List.isEmpty_iff] at hproper
        obtain ⟨⟨-, -, rfl⟩, -⟩ := hproper
        let dashed : OpenSet := { set with hyphen := true }
        have hdashed :
            ({ reader with
              position := reader.position + 1, reading := .set dashed } :
              Reader).reading = .set dashed := rfl
        let dash : Item := .single (.plain '-')
        have hfinish :
            dashed.finish =
              ⟨set.negated,
                (set.flushed ++ [dash].map Item.member).eraseDups⟩ := rfl
        refine ⟨reader.position + 1 + 1, ?_⟩
        rw [← hfinish]
        calc
          reader.takeIn (.plain '-' :: .plain ']' :: rest)
            = takeIn
              { reader with
                position := reader.position + 1, reading := .set dashed }
                (.plain ']' :: rest) :=
              takeIn_setStep hreading
                (List.forall_mem_cons.mpr
                  ⟨Sign.isClean_plain (by decide), hclean⟩)
                (setStep_hyphen hopen hhyphen)
          _ = _ :=
            takeIn_setStep hdashed hclean
              (setStep_bracket (hfresh (.inl hopen)))
      · have haccepts := accepts_of_areProper hproper hlast
        simp only [Regex.areProper, Bool.and_eq_true] at hproper
        obtain ⟨⟨⟨hitem, hends⟩, -⟩, hothers⟩ := hproper
        have hotherClean :
            ∀ sign ∈ Regex.closing others ++ rest, sign.IsClean :=
          List.forall_mem_append.mpr ⟨isClean_closing hothers, hclean⟩
        have hhead :
            (Regex.closing others ++ rest).head? =
              (Regex.closing others).head? :=
          List.head?_append_of_ne_nil _ (by simp [Regex.closing])
        obtain ⟨itemPosition, larger, hrun, hgains⟩ :=
          takeIn_item hreading hhyphen hitem haccepts hotherClean
            (by rwa [hhead])
        rw [← hgains.negated, ← hgains.fresh, ← hgains.last] at hothers
        have hbetween :
            ({ reader with position := itemPosition, reading := .set larger } :
              Reader).reading = .set larger := rfl
        obtain ⟨position, hrest⟩ :=
          ih hbetween hgains.hyphen (fun _ => hgains.fresh) hothers
        refine ⟨position, ?_⟩
        have hsigns : Regex.closing (item :: others) ++ rest =
            item.signs ++ (Regex.closing others ++ rest) := by
          simp [Regex.closing]
        rw [hsigns, hrun, hrest, hgains.negated, hgains.flushed,
          List.append_assoc]
        rfl

end Reader

end Logo.Pattern
