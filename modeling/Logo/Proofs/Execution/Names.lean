import Logo.Proofs.Execution.Invariant
import Logo.Proofs.Program.Nesting
import Logo.Proofs.Text.AsciiKin
import Logo.Proofs.Token.Cover

/-!
# Names stay on one line

Names of variables, parameters and procedures are made from words of the
program, and no word goes over the end of a line.  Whatever is executed, the
table is only ever given such names, so each of its entries can be written on a
line of its own.
-/

namespace Logo

open Logo.Action Execution Vocabulary

/-! ## Texts without a line feed -/

def Text.IsUnbroken (text : String) : Prop := '\n' ∉ text.toList

instance (text : String) : Decidable (Text.IsUnbroken text) :=
  inferInstanceAs (Decidable ('\n' ∉ text.toList))

namespace Text

@[simp] theorem isUnbroken_append {text more : String} :
    IsUnbroken (text ++ more) ↔ IsUnbroken text ∧ IsUnbroken more := by
  simp [IsUnbroken]

theorem eq_of_lower_eq_feed {c : Char} (hlower : lower c = '\n') :
    c = '\n' := by
  by_cases hascii : c.toNat < 128
  · have hall : ∀ code < 128, lower (Char.ofNat code) = '\n' →
        Char.ofNat code = '\n' := by
      decide +kernel
    have hcode := hall c.toNat hascii
    rw [Char.ofNat_toNat] at hcode
    exact hcode hlower
  · have hkin := mem_asciiKin_of_lower hascii (.inl (by rw [hlower]; decide))
    have hall : asciiKin.all (fun c => lower c != '\n') = true := by
      decide +kernel
    have hother := List.all_eq_true.mp hall c hkin
    simp [hlower] at hother

theorem IsUnbroken.lowered {text : String} (htext : IsUnbroken text) :
    IsUnbroken (lowered text) := by
  intro hfeed
  rw [Text.lowered, String.toList_ofList, List.mem_flatMap] at hfeed
  obtain ⟨c, hc, hfeed⟩ := hfeed
  split at hfeed
  · exact absurd hfeed (by decide)
  · have hsame := eq_of_lower_eq_feed (List.mem_singleton.mp hfeed).symm
    rw [hsame] at hc
    exact htext hc

end Text

/-- No word of a text goes over the end of a line. -/
theorem Token.isUnbroken_of_scan
    {index after : Source.Index} {path : Option String} {text : String}
    {tokens : List Token}
    (hscan : Token.scan index path text = (.ok tokens, after)) :
    ∀ token ∈ tokens, Text.IsUnbroken token.text := by
  intro token htoken hfeed
  have hcovers := covers_scan index path text
  rw [hscan] at hcovers
  have hword : token.word ∈ heeded 0 text.toList := by
    rw [← hcovers.1]
    exact List.mem_map_of_mem htoken
  have hsolid := (mem_heeded_iff.mp hword).1.solid.2 '\n' hfeed
  exact absurd hsolid (by decide)

/-! ## What a program is read from -/

theorem Phrase.OccursIn.trans
    {node middle whole : Phrase} (hnode : node.OccursIn middle)
    (hmiddle : middle.OccursIn whole) :
    node.OccursIn whole := by
  induction hmiddle with
  | self => exact hnode
  | inside hchild _ ih => exact .inside hchild ih

/-- A part of an expression is one of its children, or stands in a list that is
one. -/
theorem Expr.mem_children_of_mem_parts {expr part : Expr}
    (hpart : part ∈ expr.parts) :
    .expr part ∈ expr.children ∨
      ∃ brackets body, .expr (.block brackets body) ∈ expr.children ∧
        part ∈ body := by
  cases expr <;> simp [Expr.parts, Expr.children] at hpart ⊢ <;> grind

theorem Phrase.occursIn_of_mem_parts {expr part : Expr}
    (hpart : part ∈ expr.parts) :
    (Phrase.expr part).OccursIn (.expr expr) := by
  rcases Expr.mem_children_of_mem_parts hpart with
    hchild | ⟨brackets, body, hblock, hbody⟩
  · exact .inside hchild .self
  · refine .inside hblock (.inside ?_ .self)
    simpa [Phrase.children, Expr.children] using hbody

theorem Expr.ReadFrom.part
    {text : List Token} {expr part : Expr} (hexpr : expr.ReadFrom text)
    (hpart : part ∈ expr.parts) :
    part.ReadFrom text where
  sublist :=
    ((Phrase.occursIn_of_mem_parts hpart).tokens_sublist
      hexpr.shaped).trans hexpr.sublist
  shaped :=
    fun _ hnode =>
      hexpr.shaped _ (hnode.trans (Phrase.occursIn_of_mem_parts hpart))

/-- An expression is read from words none of which goes over the end of a
line. -/
def Expr.IsUnbroken (expr : Expr) : Prop :=
  ∃ text, expr.ReadFrom text ∧ ∀ token ∈ text, Text.IsUnbroken token.text

namespace Expr.IsUnbroken

variable {expr : Expr}

theorem part (hexpr : expr.IsUnbroken) {part : Expr}
    (hpart : part ∈ expr.parts) :
    part.IsUnbroken := by
  obtain ⟨text, hread, htext⟩ := hexpr
  exact ⟨text, hread.part hpart, htext⟩

theorem token (hexpr : expr.IsUnbroken) {token : Token}
    (htoken : token ∈ expr.tokens) :
    Text.IsUnbroken token.text := by
  obtain ⟨text, hread, htext⟩ := hexpr
  exact htext token (hread.sublist.subset htoken)

theorem variableName (hexpr : expr.IsUnbroken) {token : Token}
    (htoken : token ∈ expr.tokens) :
    Text.IsUnbroken token.variableName := by
  intro hfeed
  rw [Token.variableName, String.toList_ofList] at hfeed
  exact hexpr.token htoken (List.mem_of_mem_drop hfeed)

theorem boundNames (hexpr : expr.IsUnbroken) :
    ∀ name ∈ expr.boundNames, Text.IsUnbroken name := by
  cases expr with
  | make | countTo | countBy =>
      refine List.forall_mem_singleton.mpr (hexpr.variableName ?_)
      simp [Expr.tokens]
  | repeatTimes => exact List.forall_mem_singleton.mpr (by decide)
  | define head name params brackets body =>
      refine List.forall_mem_map.mpr fun param hparam => hexpr.variableName ?_
      simp [Expr.tokens, hparam]
  | _ => exact fun _ hname => absurd hname List.not_mem_nil

end Expr.IsUnbroken

/-- What a program is read from stays on one line, word by word. -/
theorem Reader.isUnbroken_read
    {lexicon : Lexicon} {nesting : Nat} {arities : NameMap Nat}
    {tokens : List Token} {reader : Reader}
    (hread : Reader.read lexicon nesting arities tokens = .ok reader)
    (htokens : ∀ token ∈ tokens, Text.IsUnbroken token.text) :
    ∀ expr ∈ reader.body, expr.IsUnbroken := by
  intro expr hexpr
  obtain ⟨-, -, hreads⟩ := read_eq_ok_iff_reads.mp hread
  obtain ⟨hsublist, hshaped⟩ := hreads.remembers
  refine ⟨tokens, ⟨?_, hshaped expr hexpr⟩, htokens⟩
  obtain ⟨before, after, hsplit⟩ := List.append_of_mem hexpr
  rw [hsplit, Expr.tokensAll_append, Expr.tokensAll] at hsublist
  exact (List.sublist_append_of_sublist_right
    (List.sublist_append_left _ _)).trans hsublist

/-! ## What an execution keeps -/

def Entry.IsUnbroken : Entry → Prop
  | .string text => Text.IsUnbroken text
  | .function (.text text) => Text.IsUnbroken text
  | .function (.procedure procedure) =>
    Text.IsUnbroken procedure.name ∧
      (∀ param ∈ procedure.params, Text.IsUnbroken param) ∧
      ∀ expr ∈ procedure.body, expr.IsUnbroken
  | _ => True

/-- The names of the table and all that is written behind them stay on one
line. -/
def World.IsUnbroken (world : World) : Prop :=
  world.bindings.entries.AllNamed fun name entry => Text.IsUnbroken name ∧
    entry.IsUnbroken

theorem Entry.isUnbroken_ofNumber (number : Number) :
    (Entry.ofNumber number).IsUnbroken := by
  cases number <;> trivial

namespace World.IsUnbroken

variable {world : World}

theorem insert
    (hworld : world.IsUnbroken) {name : String} (hname : Text.IsUnbroken name)
    {entry : Entry} (hentry : entry.IsUnbroken) :
    (NameMap.insert name entry world.bindings.entries).AllNamed
      fun name entry => Text.IsUnbroken name ∧ entry.IsUnbroken :=
  NameMap.AllNamed.insert hworld ⟨hname, hentry⟩

theorem invariant :
    Invariant World.IsUnbroken
      (fun _ => True) Expr.IsUnbroken Expr.IsUnbroken Text.IsUnbroken where
  fault _ _ := trivial
  names _ hexpr := hexpr.boundNames
  marks _ _ hworld := hworld
  draws _ _ hworld := hworld
  select _ _ hworld := hworld
  hatch _ _ hworld := hworld
  bind _ _ number hworld hname :=
    hworld.insert hname (Entry.isUnbroken_ofNumber number)
  opened _ _ number hworld hname :=
    hworld.insert hname (Entry.isUnbroken_ofNumber number)
  left _ _ _ hworld hinner _ :=
    NameMap.AllNamed.assign hinner
      fun _ hentry => NameMap.AllNamed.get? hworld hentry
  define world head name params brackets body hnode hbody hworld := by
    have hname : Text.IsUnbroken name.procedureName :=
      (hnode.token (by simp [Expr.tokens])).lowered
    exact hworld.insert hname ⟨hname, hnode.boundNames, hbody⟩
  found world head args _ hworld := by
    rcases procedure_observes
        (.call head args) head.procedureName args.length world with
      ⟨found, hfound⟩ | ⟨fault, -, hfound⟩
    · obtain ⟨-, -, hparams, hbody⟩ :=
        NameMap.AllNamed.get? hworld (get?_of_procedure_eq_ok hfound)
      exact .inl ⟨found, hfound, hparams, hbody⟩
    · exact .inr ⟨fault, trivial, hfound⟩
  command world _ _ _ _ _ _ hworld := by
    unfold World.IsUnbroken
    rwa [bindings_commandOne]
  flock world _ _ _ _ _ hworld := by
    unfold World.IsUnbroken
    rwa [bindings_flockCommand]

/-- A program keeps the table unbroken, however it ends. -/
theorem program
    (hworld : world.IsUnbroken) (limits : Limits) (mode : Mode)
    {body : List Expr} (hbody : ∀ expr ∈ body, expr.IsUnbroken) :
    (finalState (program limits mode body world)).IsUnbroken := by
  rw [finalState_program]
  have hexecute (expr : Expr) (hexpr : expr ∈ body) :=
    invariant.regime.execute (fun _ => id)
      (fun _ hgood _ hpart => hgood.part hpart) limits.turns
      limits.depth mode (hbody expr hexpr) ()
  exact (Abreast.inOrder hexecute 0 world world ⟨rfl, hworld⟩).finalState.2

end World.IsUnbroken

end Logo
