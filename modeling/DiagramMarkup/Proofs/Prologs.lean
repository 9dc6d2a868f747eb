import DiagramMarkup.Proofs.Recognition

/-!
# Prologs

In front of its root an XML document may have white space, comments, instructions and a document type with declarations
of its own. The grammar here lets more pass than XML does: names and the order of keywords are left open.

1. A piece is skipped as a whole if the mark that is looked for stands at its end only (`Item.skipped_append`). A comment
   must not start as if it ended, and an instruction or a document type must not hold a closing bracket.
2. So a tag behind such pieces is recognised for what it is, and behind any text this holds exactly if the loop skips
   that text (`recognised_behind_prolog`).
3. A document type with an entity hides a drawing behind it, or shows one that is not there
   (`exists_prolog_mistaken`).
-/

namespace DiagramMarkup.Files

open Text (breakOn trimStart)

/-! ## The grammar -/

/-- The white space of XML. -/
def gaps : List Char := [' ', '\t', '\r', '\n']

/-- Two hyphens in a row end a comment. -/
structure Comment where
  body : List Char
  single : Text.occurs "--".toList (body ++ ['-']) = false

def Comment.text (c : Comment) : List Char := "<!--".toList ++ c.body ++ "-->".toList

/-- A processing instruction goes on to its end mark. -/
structure Instruction where
  body : List Char
  unclosed : Text.occurs "?>".toList body = false

def Instruction.text (i : Instruction) : List Char := "<?".toList ++ i.body ++ "?>".toList

/-- The characters that stand in declarations for their structure only, or quoted. -/
def marks : List Char := ['<', '>', '[', ']', '"', '\'']

/-- A part of a declaration. -/
inductive Piece
  | plain (cs : List Char) (h : ∀ c ∈ cs, c ∉ marks)
  | quoted (quote : Char) (body : List Char) (hquote : quote = '"' ∨ quote = '\'') (h : quote ∉ body)

def Piece.text : Piece → List Char
  | .plain cs _ => cs
  | .quoted quote body _ _ => quote :: body ++ [quote]

/-- What stands between the square brackets of a document type. White space and references to parameters are plain. -/
inductive Declaration
  | plain (cs : List Char) (h : ∀ c ∈ cs, c ∉ marks)
  | markup (keyword : String) (pieces : List Piece) (h : keyword ∈ ["ELEMENT", "ATTLIST", "ENTITY", "NOTATION"])
  | comment (c : Comment)
  | instruction (i : Instruction)

def Declaration.text : Declaration → List Char
  | .plain cs _ => cs
  | .markup keyword pieces _ => "<!".toList ++ keyword.toList ++ pieces.flatMap Piece.text ++ ['>']
  | .comment c => c.text
  | .instruction i => i.text

/-- A document type: a name with an external identifier, and declarations between square brackets. -/
structure Doctype where
  head : List Piece
  subset : Option (List Declaration)
  gap : List Char
  blank : ∀ c ∈ gap, c ∈ gaps

namespace Doctype

/-- What stands between the angle brackets. -/
def body (d : Doctype) : List Char :=
  "DOCTYPE".toList ++ d.head.flatMap Piece.text ++
    (match d.subset with
      | some ds => '[' :: ds.flatMap Declaration.text ++ [']']
      | none => []) ++ d.gap

def text (d : Doctype) : List Char := "<!".toList ++ d.body ++ ['>']

end Doctype

/-- A piece of a prolog. -/
inductive Item
  | gap (c : Char) (h : c ∈ gaps)
  | comment (c : Comment)
  | instruction (i : Instruction)
  | doctype (d : Doctype)

namespace Item

def text : Item → List Char
  | .gap c _ => [c]
  | .comment c => c.text
  | .instruction i => i.text
  | .doctype d => d.text

/-- Nothing in the piece looks like its end. -/
def Plain : Item → Prop
  | .gap _ _ => True
  | .comment c => ¬ ['>'] <+: c.body ∧ ¬ ['-', '>'] <+: c.body
  | .instruction i => '>' ∉ i.body
  | .doctype d => '>' ∉ d.body

instance : DecidablePred Plain
  | .gap _ _ => inferInstanceAs (Decidable True)
  | .comment _ => inferInstanceAs (Decidable (_ ∧ _))
  | .instruction _ => inferInstanceAs (Decidable (¬ _))
  | .doctype _ => inferInstanceAs (Decidable (¬ _))

end Item

/-! ## Pieces that are skipped -/

theorem not_infix_hyphens {body : List Char} (h : ¬ ['-', '-'] <:+: body ++ ['-']) :
    ¬ ['-', '-', '>'] <:+: body ++ ['-', '-'] := by
  induction body with
  | nil => decide
  | cons c body ih =>
    rw [List.cons_append, List.infix_cons_iff, not_or] at h ⊢
    refine ⟨fun hp => h.1 ?_, ih h.2⟩
    rw [List.cons_prefix_cons] at hp ⊢
    refine ⟨hp.1, ?_⟩
    cases body with
    | nil => simp
    | cons d body => simpa using (List.cons_prefix_cons.1 hp.2).1

/-- The end of a comment is found where it is, unless the comment starts with what ends one behind two hyphens. -/
theorem Comment.breakOn_text (c : Comment) (h : (Item.comment c).Plain) (rest : List Char) :
    breakOn "-->".toList (c.text ++ rest) = some ("<!--".toList ++ c.body, rest) := by
  refine Text.breakOn_first (by simp) ?_ rest
  have inner := not_infix_hyphens (Text.not_infix_of_occurs (by simp) c.single)
  obtain ⟨hbracket, harrow⟩ := h
  have bracket : ¬ ['>'] <+: c.body ++ ['-', '-'] := by
    cases hb : c.body with
    | nil => simp
    | cons a body => simpa [hb] using hbracket
  have arrow : ¬ ['-', '>'] <+: c.body ++ ['-', '-'] := by
    rcases hb : c.body with _ | ⟨a, _ | ⟨b, body⟩⟩
    · simp
    · simp
    · simpa [hb] using harrow
  show ¬ ['-', '-', '>'] <:+: '<' :: '!' :: '-' :: '-' :: (c.body ++ ['-', '-'])
  simp [List.infix_cons_iff, inner, bracket, arrow]

theorem skipped_of_breakOn {cs mark before rest : List Char} (hblank : trimStart cs = cs)
    (hmark : closer? cs = some mark) (hbreak : breakOn mark cs = some (before, rest)) (hrest : Skipped rest) :
    Skipped cs := .skip (hblank.symm ▸ hmark) (hblank.symm ▸ hbreak) hrest

theorem breakOn_bracket {cs : List Char} (h : '>' ∉ cs) (rest : List Char) :
    breakOn ['>'] (cs ++ ['>'] ++ rest) = some (cs, rest) := by
  rw [List.append_assoc]
  exact Text.breakOn_singleton h rest

/-- A piece in which nothing looks like its end is skipped. -/
theorem Item.skipped_append {i : Item} (h : i.Plain) {rest : List Char} (hrest : Skipped rest) :
    Skipped (i.text ++ rest) := by
  cases i with
  | gap c hc =>
    have blank : ∀ c ∈ gaps, Text.isBlank c = true := by simp [gaps, Text.isBlank]
    refine (skipped_congr ?_).2 hrest
    exact List.dropWhile_cons_of_pos (blank c hc)
  | comment c => exact skipped_of_breakOn rfl rfl (c.breakOn_text h rest) hrest
  | instruction i =>
    have plain : '>' ∉ "<?".toList ++ i.body ++ ['?'] := by
      have := h
      simp_all [Plain]
    have htext : i.text = "<?".toList ++ i.body ++ ['?'] ++ ['>'] := by simp [Instruction.text]
    show Skipped (i.text ++ rest)
    rw [htext]
    exact skipped_of_breakOn rfl rfl (breakOn_bracket plain rest) hrest
  | doctype d =>
    have plain : '>' ∉ "<!".toList ++ d.body := by
      have := h
      simp_all [Plain]
    refine skipped_of_breakOn rfl rfl (breakOn_bracket plain rest) hrest

/-! ## Drawings behind a prolog -/

/-- The text of a prolog. -/
def prolog (items : List Item) : List Char := items.flatMap Item.text

theorem skipped_prolog {items : List Item} (h : ∀ i ∈ items, i.Plain) : Skipped (prolog items) := by
  induction items with
  | nil => exact .blank rfl
  | cons i items ih =>
    obtain ⟨hi, hrest⟩ := List.forall_mem_cons.1 h
    exact Item.skipped_append hi (ih hrest)

/-- The loop ends on all bytes. Behind a prolog every tag is recognised for what it is exactly if the loop skips the
prolog, and it does if nothing in the pieces looks like their end. -/
theorem recognised_behind_prolog {p : List UInt8} {items : List Item} (hp : Text.ofBytes p = prolog items) :
    ((∀ i ∈ items, i.Plain) → Skipped (prolog items)) ∧
      (Skipped (prolog items) ↔
        ∀ t, StartsTag (Text.ofBytes t) → (matchesBytes (p ++ 0x3C :: t) = true ↔ NamesDrawing (Text.ofBytes t))) ∧
      ∀ bs, ∃ n ≤ (Text.ofBytes bs).length, Reads n (Text.trimChars (Text.ofBytes bs)) (matchesBytes bs) :=
  ⟨skipped_prolog, hp ▸ skipped_iff, reads_matchesBytes⟩

/-- A declaration, a comment and a document type without declarations. -/
def plainItems : List Item :=
  [.instruction ⟨"xml version=\"1.0\"".toList, by decide⟩, .gap '\n' (by decide), .comment ⟨" a > b ".toList, by decide⟩,
    .doctype ⟨[.plain " svg".toList (by simp [marks])], none, [], by simp⟩]

theorem recognised_behind_prolog_plain :
    let p := Text.toBytes "<?xml version=\"1.0\"?>\n<!-- a > b --><!DOCTYPE svg>".toList
    Text.ofBytes p = prolog plainItems ∧ (∀ i ∈ plainItems, i.Plain) ∧
      ∀ t, StartsTag (Text.ofBytes t) → (matchesBytes (p ++ 0x3C :: t) = true ↔ NamesDrawing (Text.ofBytes t)) := by
  intro p
  have hp : Text.ofBytes p = prolog plainItems := by decide +kernel
  have plain : ∀ i ∈ plainItems, i.Plain := by decide +kernel
  obtain ⟨hskip, hiff, -⟩ := recognised_behind_prolog hp
  exact ⟨hp, plain, hiff.1 (hskip plain)⟩

/-- A document type that declares an entity with this value. -/
def entityType (value : List Char) (h : '"' ∉ value) : Doctype where
  head := [.plain " x ".toList (by simp [marks])]
  subset := some [.markup "ENTITY" [.plain " a ".toList (by simp [marks]), .quoted '"' value (.inl rfl) h] (by decide)]
  gap := []
  blank := by simp

/-- The closing bracket of the declaration is taken for the end of the document type: a drawing behind it is not seen, and
one in the value of the entity is seen instead of what stands behind. -/
theorem exists_prolog_mistaken :
    (∃ d : Doctype, d.text = "<!DOCTYPE x [<!ENTITY a \"b\">]>".toList ∧
        matchesBytes (Text.toBytes (d.text ++ "<svg/>".toList)) = false) ∧
      ∃ d : Doctype, d.text = "<!DOCTYPE x [<!ENTITY a \"><svg>\">]>".toList ∧
        matchesBytes (Text.toBytes (d.text ++ "<x/>".toList)) = true :=
  ⟨⟨entityType "b".toList (by decide), rfl, by decide +kernel⟩,
    entityType "><svg>".toList (by decide), rfl, by decide +kernel⟩

end DiagramMarkup.Files
