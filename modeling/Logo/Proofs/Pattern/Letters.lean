import Logo.Proofs.Pattern.Words

/-!
# Reading characters

An expression is read sign by sign.  A character is written in several ways,
some of them as escapes of digits, which only end where the next sign cannot
belong to them.  However it is written, outside of brackets it becomes a part of
the expression and inside a member of the set.
-/

namespace Logo.Pattern

open Regex (Letter Item)

/-! ## Signs -/

/-- Signs that an expression can be put together from: a backslash has something
behind it. -/
def Sign.IsClean : Sign → Prop
  | .plain c => c ≠ '\\'
  | .escaped _ => True
  | .cut => False

theorem Sign.isClean_plain {c : Char} (hc : c ≠ '\\') :
    (Sign.plain c).IsClean := hc

theorem signs_text {list : List Sign} (hclean : ∀ sign ∈ list, sign.IsClean) :
    signs (list.flatMap Sign.text) = list := by
  induction list with
  | nil => rfl
  | cons sign rest ih =>
      rw [List.forall_mem_cons] at hclean
      rw [List.flatMap_cons]
      cases sign with
      | plain c =>
          have hc : c ≠ '\\' := hclean.1
          rw [Sign.text, List.singleton_append, signs, ih hclean.2]
          · exact fun h _ => hc h
          · exact fun _ _ h _ => hc h
      | escaped c =>
          change signs ('\\' :: c :: rest.flatMap Sign.text) = _
          rw [signs, ih hclean.2]
      | cut => exact hclean.1.elim

theorem isClean_of_isOctal {c : Char} (hoctal : isOctal c = true) :
    (Sign.plain c).IsClean := by
  rintro rfl
  exact absurd hoctal (by decide)

theorem isClean_of_hexadecimal? {c : Char}
    (hhex : (hexadecimal? c).isSome = true) :
    (Sign.plain c).IsClean := by
  rintro rfl
  exact absurd hhex (by decide)

theorem isClean_letter {within : Bool} {letter : Letter}
    (hproper : letter.isProper within = true) :
    ∀ sign ∈ letter.signs, sign.IsClean := by
  cases letter with
  | plain c =>
      refine List.forall_mem_singleton.mpr ?_
      rintro rfl
      revert hproper
      cases within <;> decide
  | quoted c => exact List.forall_mem_singleton.mpr trivial
  | control name => exact List.forall_mem_singleton.mpr trivial
  | hexadecimal width digits =>
      simp only [Letter.isProper, Bool.and_eq_true, List.all_eq_true] at hproper
      refine List.forall_mem_cons.mpr
        ⟨trivial, List.forall_mem_map.mpr fun d hd => ?_⟩
      exact isClean_of_hexadecimal? (hproper.1.2 d hd)
  | octal first more =>
      simp only [Letter.isProper, Bool.and_eq_true, List.all_eq_true] at hproper
      refine List.forall_mem_cons.mpr
        ⟨trivial, List.forall_mem_map.mpr fun d hd => ?_⟩
      exact isClean_of_isOctal (hproper.1.1.1 d (List.mem_cons_of_mem _ hd))

theorem isClean_item {item : Item} (hproper : item.isProper = true) :
    ∀ sign ∈ item.signs, sign.IsClean := by
  cases item with
  | single letter => exact isClean_letter hproper
  | range first last =>
      simp only [Item.isProper, Bool.and_eq_true] at hproper
      refine List.forall_mem_append.mpr ⟨isClean_letter hproper.1.1.1, ?_⟩
      exact List.forall_mem_cons.mpr ⟨Sign.isClean_plain (by decide),
        isClean_letter hproper.1.1.2⟩
  | kind cls => exact List.forall_mem_singleton.mpr trivial

theorem isClean_closing
    {negated first afterOpen : Bool} {items : List Item}
    (hproper : Regex.areProper negated first afterOpen items = true) :
    ∀ sign ∈ Regex.closing items, sign.IsClean := by
  refine List.forall_mem_append.mpr ⟨?_, List.forall_mem_singleton.mpr ?_⟩
  · induction items generalizing first afterOpen with
    | nil => simp
    | cons item rest ih =>
        simp only [Regex.areProper, Bool.and_eq_true] at hproper
        rw [List.flatMap_cons, List.forall_mem_append]
        exact ⟨isClean_item hproper.1.1.1, ih hproper.2⟩
  · exact Sign.isClean_plain (by decide)

/-! ## Escapes of digits -/

/-- The eight octal digits. -/
theorem eq_of_isOctal {c : Char} (hoctal : isOctal c = true) :
    c = '0' ∨ c = '1' ∨ c = '2' ∨ c = '3' ∨ c = '4' ∨ c = '5' ∨
      c = '6' ∨ c = '7' := by
  have hall : ∀ code < 56, 48 ≤ code → Char.ofNat code ∈ "01234567".toList := by
    decide
  simp only [isOctal, Bool.and_eq_true, decide_eq_true_eq, Char.le_def,
    UInt32.le_iff_toNat_le]
    at hoctal
  rw [← Char.ofNat_toNat c]
  simpa using hall c.toNat (Nat.lt_succ_of_le hoctal.2) hoctal.1

theorem isDigit_of_isOctal {c : Char} (hoctal : isOctal c = true) :
    c.isDigit = true := by
  rcases eq_of_isOctal hoctal with
    rfl | rfl | rfl | rfl | rfl | rfl | rfl | rfl <;> rfl

namespace OpenEscape

def extended (escape : OpenEscape) (digits : List Char) : OpenEscape :=
  { escape with text := escape.text ++ digits }

/-- The digits can be added one after the other. -/
def Extends (escape : OpenEscape) (digits : List Char) : Prop :=
  ∀ before d after, digits = before ++ d :: after →
    (escape.extended before).extend? (.plain d) =
      some (escape.extended (before ++ [d]))

theorem Extends.tail {escape : OpenEscape} {d : Char} {digits : List Char}
    (hextends : escape.Extends (d :: digits)) :
    (escape.extended [d]).Extends digits := by
  intro before c after hdigits
  have hnext := hextends (d :: before) c after (by rw [hdigits]; rfl)
  simpa [extended] using hnext

/-- Digits of one kind can be added up to a certain length. -/
theorem extends_of_fits
    {escape : OpenEscape} {fits : Char → Bool} {bound : Nat}
    (hfits :
      ∀ before d, fits d = true → (escape.extended before).text.length < bound →
        (escape.extended before).extend? (.plain d) =
          some (escape.extended (before ++ [d])))
    {digits : List Char} (hdigits : ∀ d ∈ digits, fits d = true)
    (hlength : escape.text.length + digits.length ≤ bound) :
    escape.Extends digits := by
  rintro before d after rfl
  refine hfits before d (hdigits d (by simp)) ?_
  rw [List.length_append, List.length_cons] at hlength
  rw [extended, List.length_append]
  omega

theorem extends_hexadecimal
    {escape : OpenEscape} {count : Nat}
    (hnumeral : escape.numeral = .hexadecimal count)
    {digits : List Char}
    (hdigits : ∀ d ∈ digits, (hexadecimal? d).isSome = true)
    (hlength : escape.text.length + digits.length ≤ count + 2) :
    escape.Extends digits := by
  refine extends_of_fits (fun before d hd hlt => ?_) hdigits hlength
  simp [extend?, extended, hnumeral, hd] at hlt ⊢
  exact hlt

theorem extends_octal
    {escape : OpenEscape} (hnumeral : escape.numeral = .octal)
    {digits : List Char} (hdigits : ∀ d ∈ digits, isOctal d = true)
    (hlength : escape.text.length + digits.length ≤ 4) :
    escape.Extends digits := by
  refine extends_of_fits (fun before d hd hlt => ?_) hdigits hlength
  simp [extend?, extended, hnumeral, hd] at hlt ⊢
  exact hlt

theorem extends_reference
    {escape : OpenEscape} (hnumeral : escape.numeral = .reference)
    {first second third : Char} (htext : escape.text = ['\\', first])
    (hfirst : isOctal first = true) (hsecond : isOctal second = true)
    (hthird : isOctal third = true) :
    escape.Extends [second, third] := by
  intro before d after hdigits
  rcases before with _ | ⟨_, _ | ⟨_, before⟩⟩
  · obtain ⟨rfl, -⟩ := List.cons_eq_cons.mp hdigits
    simp [extend?, extended, hnumeral, htext, isDigit_of_isOctal hsecond]
  · obtain ⟨rfl, hrest⟩ := List.cons_eq_cons.mp hdigits
    obtain ⟨rfl, -⟩ := List.cons_eq_cons.mp hrest
    simp [extend?, extended, hnumeral, htext, hfirst, hsecond, hthird]
  · simp at hdigits

theorem extend?_octal_eq_none
    {within : Option OpenSet} {start : Nat} {first : Char} {more : List Char}
    {sign : Sign}
    (hends : (Letter.octal first more).endsBefore (some sign) = true) :
    extend? ⟨within, .octal, start, '\\' :: first :: more⟩ sign = none := by
  cases sign with
  | plain d =>
      have hcases : more.length = 2 ∨ isOctal d = false := by
        simpa [Letter.endsBefore] using hends
      rcases hcases with hfull | hother
      · simp [extend?, hfull]
      · simp [extend?, hother]
  | escaped d => rfl
  | cut => rfl

end OpenEscape

namespace Reader

/-! ## Steps -/

/-- No escape of digits is being read. -/
def IsIdle (reader : Reader) : Prop := ∀ escape, reader.reading ≠ .escape escape

/-- What a constituent is read in the middle of: a set, or nothing special. -/
def place : Option OpenSet → Reading
  | none => .plain
  | some set => .set set

theorem isIdle_of_place {reader : Reader} {within : Option OpenSet}
    (hreading : reader.reading = place within) : reader.IsIdle := by
  intro escape hescape
  rw [hescape] at hreading
  cases within <;> cases hreading

def moved (reader : Reader) (position : Nat) : Reader :=
  { reader with position := position }

theorem step_plain {reader : Reader} (hreading : reader.reading = .plain)
    (c : Char) :
    reader.step (.plain c) =
      (reader.moved (reader.position + 1)).plainStep c := by
  obtain ⟨position, opened, outer, group, reading, treatment⟩ := reader
  cases hreading
  rfl

theorem step_set {reader : Reader} {set : OpenSet}
    (hreading : reader.reading = .set set) (c : Char) :
    reader.step (.plain c) =
      (reader.moved (reader.position + 1)).setStep set c := by
  obtain ⟨position, opened, outer, group, reading, treatment⟩ := reader
  cases hreading
  rfl

theorem step_escaped
    {reader : Reader} {within : Option OpenSet}
    (hreading : reader.reading = place within) (c : Char) :
    reader.step (.escaped c) =
      (reader.moved (reader.position + 2)).escapeStep within c := by
  obtain ⟨position, opened, outer, group, reading, treatment⟩ := reader
  cases within <;> cases hreading <;> rfl

theorem step_digit
    {reader : Reader} {escape longer : OpenEscape}
    (hreading : reader.reading = .escape escape)
    {d : Char} (hextend : escape.extend? (.plain d) = some longer) :
    reader.step (.plain d) =
      .ok { reader with
        position := reader.position + 1, reading := .escape longer } := by
  obtain ⟨position, opened, outer, group, reading, treatment⟩ := reader
  cases hreading
  change Except.ok _ = _
  rw [hextend]
  rfl

theorem takeIn_cons
    {reader settled : Reader} {sign : Sign}
    (hsettled : reader.settledBefore sign = .ok settled)
    {rest : List Sign} (hclean : ∀ sign ∈ rest, sign.IsClean) :
    reader.takeIn (sign :: rest) = settled.step sign >>= fun next =>
      next.takeIn rest := by
  have hcut : ¬ (rest.head? = some .cut ∧ ¬ settled.isStray sign = true) := by
    rintro ⟨hhead, -⟩
    exact hclean .cut (List.mem_of_head? hhead)
  rw [takeIn, hsettled]
  exact if_neg hcut

theorem settledBefore_of_isIdle {reader : Reader} (hidle : reader.IsIdle)
    (sign : Sign) :
    reader.settledBefore sign = .ok reader := by
  unfold settledBefore
  split
  next escape hescape => exact absurd hescape (hidle escape)
  next => rfl

theorem takeIn_step
    {reader next : Reader} (hidle : reader.IsIdle) {sign : Sign}
    {rest : List Sign} (hclean : ∀ sign ∈ rest, sign.IsClean)
    (hstep : reader.step sign = .ok next) :
    reader.takeIn (sign :: rest) = next.takeIn rest := by
  rw [takeIn_cons (settledBefore_of_isIdle hidle sign) hclean, hstep]
  rfl

theorem takeIn_digits
    {reader : Reader} {escape : OpenEscape}
    (hreading : reader.reading = .escape escape)
    {digits : List Char} (hextends : escape.Extends digits) {rest : List Sign}
    (hclean : ∀ sign ∈ digits.map Sign.plain ++ rest, sign.IsClean) :
    ∃ position, reader.takeIn (digits.map .plain ++ rest) =
      takeIn
        { reader with
          position := position, reading := .escape (escape.extended digits) }
        rest := by
  induction digits generalizing reader escape with
  | nil =>
      refine ⟨reader.position, ?_⟩
      have hsame : escape.extended [] = escape := by simp [OpenEscape.extended]
      rw [hsame, ← hreading]
      rfl
  | cons d digits ih =>
      have hfirst : escape.extend? (.plain d) = some (escape.extended [d]) := by
        simpa [OpenEscape.extended] using hextends [] d digits rfl
      have hsettled : reader.settledBefore (.plain d) = .ok reader := by
        unfold settledBefore
        rw [hreading]
        simp [hfirst]
        rfl
      rw [List.map_cons, List.cons_append, List.forall_mem_cons] at hclean
      rw [List.map_cons, List.cons_append, takeIn_cons hsettled hclean.2,
        step_digit hreading hfirst]
      have hmoved :
          ({ reader with
              position := reader.position + 1,
              reading := .escape (escape.extended [d]) } :
            Reader).reading = .escape (escape.extended [d]) := rfl
      obtain ⟨position, hrest⟩ := ih hmoved hextends.tail hclean.2
      refine ⟨position, hrest.trans ?_⟩
      simp [OpenEscape.extended]

/-- An escape ends where the next sign does not belong to it. -/
theorem takeIn_settled
    {reader next : Reader} {escape : OpenEscape}
    (hreading : reader.reading = .escape escape)
    {rest : List Sign} (hends : ∀ sign ∈ rest.head?, escape.extend? sign = none)
    (hsettled : reader.settled = .ok next) (hidle : next.IsIdle)
    (hclean : ∀ sign ∈ rest, sign.IsClean) :
    reader.takeIn rest = next.takeIn rest := by
  cases rest with
  | nil =>
      have hnext : next.settled = .ok next := by
        unfold settled
        split
        next escape hescape => exact absurd hescape (hidle escape)
        next => rfl
      rw [takeIn, takeIn, hsettled, hnext]
  | cons sign rest =>
      have hbefore : reader.settledBefore sign = .ok next := by
        unfold settledBefore
        rw [hreading]
        simp [hends sign rfl, hsettled]
      rw [List.forall_mem_cons] at hclean
      rw [takeIn_cons hbefore hclean.2,
        takeIn_cons (settledBefore_of_isIdle hidle sign) hclean.2]

end Reader

/-! ## Characters behind a backslash -/

theorem escapeMeaning_of_not_isAlphanum {c : Char} (hc : c.isAlphanum = false)
    (within : Bool) :
    escapeMeaning c within = .character c := by
  have hparts : c.isAlpha = false ∧ c.isDigit = false := by
    simpa [Char.isAlphanum] using hc
  unfold escapeMeaning
  split
  all_goals first
    | exact absurd hc (by decide)
    | simp [hparts]

theorem escapeMeaning_nameOf (cls : CharClass) (within : Bool) :
    escapeMeaning (Regex.nameOf cls) within = .named cls := by
  obtain ⟨negated, kind⟩ := cls
  cases negated <;> cases kind <;> rfl

theorem escapeMeaning_mark (width : Regex.Width) (within : Bool) :
    escapeMeaning width.mark within = .numeral (.hexadecimal width.count) := by
  cases width <;> rfl

theorem escapeMeaning_control
    {within : Bool} {name : Char}
    (hproper : (Letter.control name).isProper within = true) :
    ∃ c : Char, escapeMeaning name within = .character c ∧
      c.toNat = (Letter.control name).code := by
  obtain ⟨c, hlookup⟩ := Option.isSome_iff_exists.mp hproper
  obtain ⟨before, after, hcontrols, -⟩ := List.lookup_eq_some_iff.mp hlookup
  have hmem : (name, c) ∈ Regex.controls within := by simp [hcontrols]
  cases within
  · simp only [Regex.controls, Bool.false_eq_true, if_false, List.append_nil,
      List.mem_cons, Prod.mk.injEq, List.not_mem_nil, or_false] at hmem
    rcases hmem with
      h | h | h | h | h | h <;> (obtain ⟨rfl, -⟩ := h; exact ⟨_, rfl, rfl⟩)
  · simp only [Regex.controls, if_true, List.cons_append, List.nil_append,
      List.mem_cons, Prod.mk.injEq, List.not_mem_nil, or_false] at hmem
    rcases hmem with
      h | h | h | h | h | h | h <;> (obtain ⟨rfl, -⟩ := h; exact ⟨_, rfl, rfl⟩)

theorem escapeMeaning_of_isOctal {c : Char} (hoctal : isOctal c = true)
    (within : Bool) :
    escapeMeaning c within =
      .numeral (if within = true ∨ c = '0' then .octal else .reference) := by
  rcases eq_of_isOctal hoctal with
    rfl | rfl | rfl | rfl | rfl | rfl | rfl | rfl <;>
    cases within <;> rfl

namespace Reader

section Letters

variable {reader next : Reader} {within : Option OpenSet}

theorem isIdle_of_addMember
    {member : Member} {text : List Char}
    (hnext : reader.addMember within member text = .ok next) : next.IsIdle := by
  intro escape hescape
  unfold addMember at hnext
  cases within with
  | none =>
      cases hnext
      cases hescape
  | some set =>
      dsimp only at hnext
      cases hadd : set.add member text reader.position with
      | error flaw =>
          rw [hadd] at hnext
          cases hnext
      | ok larger =>
          rw [hadd] at hnext
          cases hnext
          cases hescape

theorem takeIn_escaped
    (hreading : reader.reading = place within) {c : Char} {rest : List Sign}
    (hclean : ∀ sign ∈ rest, sign.IsClean)
    (hstep : (reader.moved (reader.position + 2)).escapeStep within
      c = .ok next) :
    reader.takeIn (.escaped c :: rest) = next.takeIn rest := by
  rw [← step_escaped hreading] at hstep
  exact takeIn_step (isIdle_of_place hreading) hclean hstep

/-- An escape of digits from its backslash to its end. -/
theorem takeIn_numeral
    (hreading : reader.reading = place within) {c : Char} {numeral : Numeral}
    (hmeaning : escapeMeaning c within.isSome = .numeral numeral)
    {digits : List Char} {rest : List Sign}
    (hclean : ∀ sign ∈ digits.map Sign.plain ++ rest, sign.IsClean)
    (hextends : OpenEscape.Extends ⟨within, numeral, reader.position,
      ['\\', c]⟩ digits)
    (hends :
      ∀ sign ∈ rest.head?,
        OpenEscape.extend? ⟨within, numeral, reader.position,
          '\\' :: c :: digits⟩ sign = none) :
    ∃ position, ∀ next,
      settled { reader with
        position := position
        reading :=
          .escape ⟨within, numeral, reader.position,
            '\\' :: c :: digits⟩ } = .ok next →
      next.IsIdle →
        reader.takeIn (.escaped c :: (digits.map .plain ++ rest)) =
          next.takeIn rest := by
  let escape : OpenEscape := ⟨within, numeral, reader.position, ['\\', c]⟩
  let opened : Reader :=
    { reader with position := reader.position + 2, reading := .escape escape }
  have hstep : (reader.moved (reader.position + 2)).escapeStep within c =
      .ok opened := by
    unfold escapeStep
    simp only [hmeaning]
    rfl
  have hopened : opened.reading = .escape escape := rfl
  obtain ⟨position, hdigits⟩ := takeIn_digits hopened hextends hclean
  refine ⟨position, fun next hsettled hidle => ?_⟩
  rw [takeIn_escaped hreading hclean hstep, hdigits]
  exact takeIn_settled rfl hends hsettled hidle
    (List.forall_mem_append.mp hclean).2

theorem settled_hexadecimal
    {count start : Nat} {c : Char} {digits : List Char}
    (hreading : reader.reading = .escape ⟨within, .hexadecimal count, start,
      '\\' :: c :: digits⟩)
    (hcount : digits.length = count)
    (hvalue : numeralValue 16 digits ≤ 0x10FFFF) :
    reader.settled =
      reader.addMember within (.single (numeralValue 16 digits)) ['\\', c] := by
  unfold settled
  rw [hreading]
  simp [hcount, Nat.not_lt.mpr hvalue]

theorem settled_octal
    {numeral : Numeral} {start : Nat} {digits : List Char}
    (hreading : reader.reading =
      .escape ⟨within, numeral, start, '\\' :: digits⟩)
    (hnumeral : numeral = .octal ∨ numeral = .reference ∧ digits.length = 3)
    (hvalue : numeralValue 8 digits ≤ 0xFF) :
    reader.settled =
      reader.addMember within (.single (numeralValue 8 digits))
        ('\\' :: digits.take 1) := by
  unfold settled
  rw [hreading]
  rcases hnumeral with rfl | ⟨rfl, hlength⟩
  · simp [Nat.not_lt.mpr hvalue]
  · simp [Nat.not_lt.mpr hvalue, hlength]

/-- A character that is not written as itself becomes a member or a part. -/
theorem takeIn_letter
    (hreading : reader.reading = place within) {letter : Letter}
    (hproper : letter.isProper within.isSome = true)
    (hescaped : ∀ c, letter ≠ .plain c) {rest : List Sign}
    (hclean : ∀ sign ∈ rest, sign.IsClean)
    (hends : letter.endsBefore rest.head? = true) :
    ∃ position reading text, ∀ next,
      addMember { reader with position := position, reading := reading } within
          (.single letter.code) text = .ok next →
        reader.takeIn (letter.signs ++ rest) = next.takeIn rest := by
  have hsigns : ∀ sign ∈ letter.signs ++ rest, sign.IsClean :=
    List.forall_mem_append.mpr ⟨isClean_letter hproper, hclean⟩
  cases letter with
  | plain c => exact absurd rfl (hescaped c)
  | quoted c =>
      refine ⟨reader.position + 2, reader.reading, ['\\', c],
        fun next hnext => ?_⟩
      have hc : c.isAlphanum = false := by simpa [Letter.isProper] using hproper
      refine takeIn_escaped hreading hclean ?_
      unfold escapeStep
      simp only [escapeMeaning_of_not_isAlphanum hc]
      exact hnext
  | control name =>
      refine ⟨reader.position + 2, reader.reading, ['\\', name],
        fun next hnext => ?_⟩
      obtain ⟨c, hmeaning, hcode⟩ := escapeMeaning_control hproper
      refine takeIn_escaped hreading hclean ?_
      unfold escapeStep
      simp only [hmeaning, hcode]
      exact hnext
  | hexadecimal width digits =>
      simp only [Letter.isProper, Bool.and_eq_true, beq_iff_eq,
        List.all_eq_true, decide_eq_true_eq] at hproper
      obtain ⟨⟨hcount, hdigits⟩, hvalue⟩ := hproper
      obtain ⟨position, hrun⟩ :=
        takeIn_numeral hreading (escapeMeaning_mark width _)
        (List.forall_mem_cons.mp hsigns).2
        (OpenEscape.extends_hexadecimal rfl hdigits
          (by simp [hcount, Nat.add_comm]))
        (by
          intro sign _
          cases sign <;> simp [OpenEscape.extend?, hcount])
      exact ⟨position, _, _, fun next hnext =>
        hrun next (Eq.trans (settled_hexadecimal rfl hcount hvalue) hnext)
          (isIdle_of_addMember hnext)⟩
  | octal first more =>
      simp only [Letter.isProper, Bool.and_eq_true, Bool.or_eq_true, beq_iff_eq,
        decide_eq_true_eq, List.all_cons, List.all_eq_true] at hproper
      obtain ⟨⟨⟨⟨hfirst, hmore⟩, hlength⟩, hplace⟩, hvalue⟩ := hproper
      -- Outside of sets, digits that do not begin with zero only count if there
      -- are three of them.
      have hmeaning := escapeMeaning_of_isOctal hfirst within.isSome
      by_cases hnumeral : within.isSome = true ∨ first = '0'
      · rw [if_pos hnumeral] at hmeaning
        obtain ⟨position, hrun⟩ := takeIn_numeral hreading hmeaning
          (List.forall_mem_cons.mp hsigns).2
          (OpenEscape.extends_octal rfl hmore
            (by simpa [Nat.add_comm] using hlength))
          (fun sign hsign =>
            OpenEscape.extend?_octal_eq_none (by rwa [← hsign]))
        exact ⟨position, _, _, fun next hnext =>
          hrun next (Eq.trans (settled_octal rfl (.inl rfl) hvalue) hnext)
            (isIdle_of_addMember hnext)⟩
      · rw [if_neg hnumeral] at hmeaning
        have htwo : more.length = 2 := hplace.resolve_left hnumeral
        obtain ⟨second, third, rfl⟩ := List.length_eq_two.mp htwo
        obtain ⟨position, hrun⟩ := takeIn_numeral hreading hmeaning
          (List.forall_mem_cons.mp hsigns).2
          (OpenEscape.extends_reference rfl rfl hfirst (hmore second (by simp))
            (hmore third (by simp)))
          (by
            intro sign _
            cases sign <;> simp [OpenEscape.extend?])
        exact ⟨position, _, _, fun next hnext =>
          hrun next
            (Eq.trans (settled_octal rfl (.inr ⟨rfl, rfl⟩) hvalue) hnext)
            (isIdle_of_addMember hnext)⟩

end Letters

end Reader

end Logo.Pattern
