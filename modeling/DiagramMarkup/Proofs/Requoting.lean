import DiagramMarkup.Css.Parser
import DiagramMarkup.Proofs.Words

/-!
# Texts in quotes

A style sheet writes font families and the addresses of imports in double quotes, with a backslash in front of each
backslash and quote. Reading takes the quotes off and leaves the backslashes where they are (`unquote_quoted`).

1. The written form of a text without line ends is one token, whatever follows (`token_string`, `token_address`), and
   so the tokens of a written sheet are known (`scans_text`).
2. The lines of the sheet are taken for its items again, one after the other (`parts_text`, `collect_parts`).
3. So each text comes back as it stood between the quotes, which is the text itself exactly if it holds neither quotes
   nor backslashes (`unquote_quoted_eq_iff`).
-/

namespace DiagramMarkup.Css

open Sheet

/-- The text with a backslash in front of each backslash and double quote. -/
def escaped (s : String) : String := String.ofList (quoteChars s.toList)

theorem toList_quoted (s : String) : (quoted s).toList = '"' :: quoteChars s.toList ++ ['"'] := by
  simp [quoted]

/-! ## Quotes and backslashes -/

/-- Is a backslash put in front of the character? -/
def isEscaped (c : Char) : Bool := c == '\\' || c == '"'

theorem quoteChars_cons (c : Char) (cs : List Char) :
    quoteChars (c :: cs) = (if isEscaped c then ['\\', c] else [c]) ++ quoteChars cs := rfl

theorem length_quoteChars (cs : List Char) : (quoteChars cs).length = cs.length + cs.countP isEscaped := by
  induction cs with
  | nil => rfl
  | cons c cs ih =>
    rw [quoteChars_cons, List.length_append, ih, List.countP_cons, List.length_cons]
    split <;> simp <;> omega

theorem quoteChars_eq_iff (cs : List Char) : quoteChars cs = cs ↔ ∀ c ∈ cs, isEscaped c = false := by
  constructor
  · intro h
    have same := congrArg List.length h
    rw [length_quoteChars] at same
    have none : cs.countP isEscaped = 0 := by omega
    simpa using List.countP_eq_zero.1 none
  · intro h
    induction cs with
    | nil => rfl
    | cons c cs ih =>
      rw [quoteChars_cons, h c List.mem_cons_self, ih fun d hd => h d (List.mem_cons_of_mem c hd)]
      rfl

theorem count_quoteChars (cs : List Char) :
    (quoteChars cs).count '\\' = 2 * cs.count '\\' + cs.count '"' := by
  induction cs with
  | nil => rfl
  | cons c cs ih =>
    rw [quoteChars_cons, List.count_append, ih, List.count_cons, List.count_cons]
    by_cases hback : c = '\\'
    · subst hback
      simp [isEscaped]
      omega
    by_cases hquote : c = '"'
    · subst hquote
      simp [isEscaped]
      omega
    · simp [isEscaped, hback, hquote]

theorem tight_quoted (s : String) : Text.Tight (quoted s).toList := by
  have quote : Text.isBlank '"' = false := by decide
  rw [toList_quoted]
  refine ⟨fun c hc => ?_, fun c hc => ?_⟩
  · simp only [List.cons_append, List.head?_cons, Option.mem_some_iff] at hc
    exact hc ▸ quote
  · rw [List.getLast?_concat, Option.mem_some_iff] at hc
    exact hc ▸ quote

/-- Taking the quotes off does not undo the backslashes. -/
theorem unquote_quoted (s : String) : unquote (quoted s) = escaped s := by
  unfold unquote
  simp only [(tight_quoted s).trim_eq, toList_quoted]
  simp [escaped]

/-! ## Tokens -/

/-- The tokens of a text, whatever is left to spend. -/
def Scans (cs : List Char) (ts : List Token) : Prop := ∀ fuel, cs.length ≤ fuel → scan fuel cs = ts

theorem Scans.nil : Scans [] [] := by
  intro fuel _
  cases fuel <;> rfl

theorem Scans.cons {c : Char} {cs rest : List Char} {t : Token} {ts : List Token} (h : token c cs = (t, rest))
    (hlen : rest.length ≤ cs.length) (hts : Scans rest ts) : Scans (c :: cs) (t :: ts) := by
  intro fuel hfuel
  cases fuel with
  | zero => simp at hfuel
  | succ n =>
    rw [List.length_cons] at hfuel
    simp only [scan, h, hts n (by omega)]

/-- A character at which a name ends. -/
structure EndsName (d : Char) : Prop where
  not_name : isNameChar d = false
  not_escape : d ≠ '\\'

theorem nameTail_append {name : List Char} (h : ∀ c ∈ name, isNameChar c = true) {d : Char} (hd : EndsName d)
    (rest : List Char) : ∀ fuel, name.length ≤ fuel → nameTail fuel (name ++ d :: rest) = (name, d :: rest) := by
  induction name with
  | nil =>
    intro fuel _
    cases fuel with
    | zero => rfl
    | succ n =>
      have none : escape? (d :: rest) = none := by
        unfold escape?
        split
        · next heq => exact absurd (List.cons.inj heq).1 hd.not_escape
        · rfl
      simp [nameTail, hd.not_name, none]
  | cons c name ih =>
    intro fuel hfuel
    cases fuel with
    | zero => simp at hfuel
    | succ n =>
      rw [List.length_cons] at hfuel
      have rest := ih (fun e he => h e (List.mem_cons_of_mem c he)) n (by omega)
      simp [nameTail, h c List.mem_cons_self, rest]

theorem ident?_append {c : Char} (hc : isNameStart c = true) (name : List Char) (h : name.all isNameChar = true)
    {d : Char} (hd : EndsName d) (rest : List Char) :
    ident? (c :: name ++ d :: rest) = some (c :: name, d :: rest) := by
  have hyphen : c ≠ '-' := by
    rintro rfl
    exact absurd hc (by decide)
  have tail := nameTail_append (List.all_eq_true.1 h) hd rest (name.length + (rest.length + 1)) (by omega)
  unfold ident?
  split
  · next heq => exact absurd (List.cons.inj heq).1 hyphen
  · simp [name?, nameHead?, hc, tail]

/-- The quoted form is read up to its closing quote, unless a line ends in it. -/
theorem stringTail_quoteChars {cs : List Char} (h : ∀ c ∈ cs, isNewline c = false) (rest : List Char) :
    ∀ fuel, cs.length < fuel →
      stringTail '"' fuel (quoteChars cs ++ '"' :: rest) = (true, quoteChars cs ++ ['"'], rest) := by
  induction cs with
  | nil =>
    intro fuel hfuel
    cases fuel with
    | zero => simp at hfuel
    | succ n =>
      have line : isNewline '"' = false := by decide
      simp [quoteChars, stringTail, line]
  | cons c cs ih =>
    intro fuel hfuel
    cases fuel with
    | zero => simp at hfuel
    | succ n =>
      rw [List.length_cons] at hfuel
      have tail := ih (fun e he => h e (List.mem_cons_of_mem c he)) n (by omega)
      have hc := h c List.mem_cons_self
      rw [quoteChars_cons]
      by_cases he : isEscaped c = true
      · have hex : Number.isHexDigit c = false := by
          simp only [isEscaped, Bool.or_eq_true, beq_iff_eq] at he
          rcases he with rfl | rfl <;> decide
        have line : isNewline '\\' = false := by decide
        simp [he, stringTail, escape?, hc, hex, line, tail]
      · simp only [isEscaped, Bool.or_eq_true, beq_iff_eq, not_or] at he
        simp [isEscaped, he.1, he.2, stringTail, hc, tail]

theorem stringToken_quoteChars {cs : List Char} (h : ∀ c ∈ cs, isNewline c = false) (rest : List Char) :
    stringToken '"' (quoteChars cs ++ '"' :: rest) = (true, '"' :: quoteChars cs ++ ['"'], rest) := by
  have enough : cs.length < (quoteChars cs ++ '"' :: rest).length + 1 := by
    have := length_quoteChars cs
    simp only [List.length_append, List.length_cons]
    omega
  simp only [stringToken, stringTail_quoteChars h rest _ enough]
  rfl

/-- A single blank in front of a text that does not start with one. -/
theorem token_blank {b : Char} (hb : isBlank b = true) {rest : List Char} (h : Text.Ends isBlank rest) :
    token b rest = (⟨.blank, [b]⟩, rest) := by
  have none := h.takeWhile (u := []) (by simp)
  have all := h.dropWhile (u := []) (by simp)
  rw [List.nil_append] at none all
  simp [token, hb, blanks, none, all]

theorem token_mark {c : Char} {k : TokenKind} (hb : isBlank c = false) (hk : punctuation? c = some k)
    (rest : List Char) : token c rest = (⟨k, [c]⟩, rest) := by
  simp [token, hb, hk]

theorem token_keyword {c : Char} (hc : isNameStart c = true) {name : List Char}
    (h : name.all isNameChar = true) {d : Char} (hd : EndsName d) (rest : List Char) :
    token '@' (c :: name ++ d :: rest) = (⟨.atKeyword, '@' :: c :: name⟩, d :: rest) := by
  have read := ident?_append hc _ h hd rest
  rw [List.cons_append] at read ⊢
  simp [token, isBlank, punctuation?, longToken?, read]

/-- The token of an address in quotes. -/
def addressToken (s : String) : Token := ⟨.url, "url(".toList ++ (quoted s).toList ++ [')']⟩

/-- The token of a text in quotes. -/
def stringOf (s : String) : Token := ⟨.string, (quoted s).toList⟩

theorem token_address {s : String} (h : ∀ c ∈ s.toList, isNewline c = false) (rest : List Char) :
    token 'u' ('r' :: 'l' :: '(' :: '"' :: (quoteChars s.toList ++ '"' :: ')' :: rest)) = (addressToken s, rest) := by
  have name := ident?_append (c := 'u') (by decide) ['r', 'l'] (by decide) (d := '(') ⟨by decide, by decide⟩
    ('"' :: (quoteChars s.toList ++ '"' :: ')' :: rest))
  have body := stringToken_quoteChars h (')' :: rest)
  have plain : Number.lowerAscii 'u' = 'u' ∧ Number.lowerAscii 'r' = 'r' ∧ Number.lowerAscii 'l' = 'l' := by decide
  simp only [List.cons_append, List.nil_append] at name
  have address : urlToken ['u', 'r', 'l', '('] ('"' :: (quoteChars s.toList ++ '"' :: ')' :: rest)) =
      (addressToken s, rest) := by
    have blank : isBlank '"' = false := by decide
    have close : isBlank ')' = false := by decide
    simp [urlToken, blanks, blank, close, body, addressToken, toList_quoted]
  simp [token, isBlank, punctuation?, longToken?, unicodeRange?, identlike?, name, plain, address]

theorem token_string {s : String} (h : ∀ c ∈ s.toList, isNewline c = false) (rest : List Char) :
    token '"' (quoteChars s.toList ++ '"' :: rest) = (stringOf s, rest) := by
  simp [token, isBlank, punctuation?, longToken?, stringToken_quoteChars h, stringOf, toList_quoted]

theorem token_fontFamily (rest : List Char) :
    token 'f' ("ont-family".toList ++ ':' :: rest) = (⟨.ident, "font-family".toList⟩, ':' :: rest) := by
  have name := ident?_append (c := 'f') (by decide) "ont-family".toList (by decide) (d := ':')
    ⟨by decide, by decide⟩ rest
  have whole : "font-family".toList = 'f' :: "ont-family".toList := rfl
  rw [List.cons_append] at name
  rw [whole]
  simp [token, isBlank, punctuation?, longToken?, identlike?, Number.isDigit, -String.reduceToList, name]

/-! ## Items -/

/-- A text that can stand in a line. -/
structure Inline (s : String) : Prop where
  ne_empty : s ≠ ""
  no_newline : ∀ c ∈ s.toList, isNewline c = false

/-- An import, or a font of which only the family is given, with a text that can stand in a line. -/
def Quotable : Item → Prop
  | .importUrl url => Inline url
  | .fontFace f => Inline f.family ∧ f = { family := f.family }
  | _ => False

/-- The blank between two lines. -/
def lineEnd : Token := ⟨.blank, ['\n']⟩

/-- The tokens of an import. -/
def importTokens (url : String) : List Token :=
  [⟨.atKeyword, "@import".toList⟩, blankToken, addressToken url, ⟨.semicolon, [';']⟩]

/-- The tokens of a font with a family. -/
def familyTokens (family : String) : List Token :=
  [⟨.atKeyword, "@font-face".toList⟩, blankToken, ⟨.leftBrace, ['{']⟩, blankToken, ⟨.ident, "font-family".toList⟩,
    ⟨.colon, [':']⟩, blankToken, stringOf family, ⟨.semicolon, [';']⟩, blankToken, ⟨.rightBrace, ['}']⟩]

/-- The tokens of an item in its line. -/
def itemTokens : Item → List Token
  | .importUrl url => importTokens url
  | .fontFace f => familyTokens f.family
  | _ => []

theorem ends_cons {c : Char} (h : isBlank c = false) (rest : List Char) : Text.Ends isBlank (c :: rest) := by
  intro d hd
  rw [List.head?_cons, Option.mem_some_iff] at hd
  exact hd ▸ h

theorem toList_import (url : String) : (itemText (.importUrl url)).toList =
    '@' :: ('i' :: "mport".toList ++ ' ' :: 'u' :: 'r' :: 'l' :: '(' :: '"' ::
      (quoteChars url.toList ++ '"' :: ')' :: ';' :: ['\n'])) := by
  have shown : itemText (.importUrl url) = "@import url(" ++ quoted url ++ ");\n" := rfl
  have front : "@import url(".toList = '@' :: 'i' :: "mport".toList ++ [' ', 'u', 'r', 'l', '('] := rfl
  have back : ");\n".toList = [')', ';', '\n'] := rfl
  simp only [shown, String.toList_append, toList_quoted, front, back, List.append_assoc, List.cons_append,
    List.nil_append]

theorem toList_family {family : String} (h : family ≠ "") : (itemText (.fontFace { family := family })).toList =
    '@' :: ('f' :: "ont-face".toList ++ ' ' :: '{' :: ' ' :: 'f' :: ("ont-family".toList ++ ':' :: ' ' :: '"' ::
      (quoteChars family.toList ++ '"' :: ';' :: ' ' :: '}' :: ['\n']))) := by
  have shown : itemText (.fontFace { family := family }) =
      "@font-face \x7b" ++ (if family == "" then "" else declarationText "font-family" (quoted family)) ++
        "" ++ "" ++ "" ++ " \x7d\n" := rfl
  simp [shown, h, declarationText, toList_quoted]

theorem scans_import {url : String} (h : Inline url) {rest : List Char} {ts : List Token}
    (hrest : Text.Ends isBlank rest) (hts : Scans rest ts) :
    Scans ((itemText (.importUrl url)).toList ++ rest) (importTokens url ++ lineEnd :: ts) := by
  rw [toList_import]
  simp only [List.cons_append, List.append_assoc, List.nil_append]
  refine .cons (token_keyword (c := 'i') (by decide) (by decide) ⟨by decide, by decide⟩ _) (by simp) ?_
  refine .cons (token_blank (by decide) (ends_cons (by decide) _)) (by simp) ?_
  refine .cons (token_address h.no_newline _) (by simp; omega) ?_
  refine .cons (token_mark (by decide) rfl _) (by simp) ?_
  exact .cons (token_blank (by decide) hrest) (by simp) hts

theorem scans_family {family : String} (h : Inline family) {rest : List Char} {ts : List Token}
    (hrest : Text.Ends isBlank rest) (hts : Scans rest ts) :
    Scans ((itemText (.fontFace { family := family })).toList ++ rest) (familyTokens family ++ lineEnd :: ts) := by
  rw [toList_family h.ne_empty]
  simp only [List.cons_append, List.append_assoc, List.nil_append]
  refine .cons (token_keyword (c := 'f') (by decide) (by decide) ⟨by decide, by decide⟩ _) (by simp) ?_
  refine .cons (token_blank (by decide) (ends_cons (by decide) _)) (by simp) ?_
  refine .cons (token_mark (by decide) rfl _) (by simp) ?_
  refine .cons (token_blank (by decide) (ends_cons (by decide) _)) (by simp) ?_
  refine .cons (token_fontFamily _) (by simp) ?_
  refine .cons (token_mark (by decide) rfl _) (by simp) ?_
  refine .cons (token_blank (by decide) (ends_cons (by decide) _)) (by simp) ?_
  refine .cons (token_string h.no_newline _) (by simp; omega) ?_
  refine .cons (token_mark (by decide) rfl _) (by simp) ?_
  refine .cons (token_blank (by decide) (ends_cons (by decide) _)) (by simp) ?_
  refine .cons (token_mark (by decide) rfl _) (by simp) ?_
  exact .cons (token_blank (by decide) hrest) (by simp) hts

/-- The items of the lines are put one behind the other. -/
def lineTokens (items : List Item) : List Token := items.flatMap fun i => itemTokens i ++ [lineEnd]

theorem toList_text_cons (i : Item) (items : List Item) :
    (text { items := i :: items }).toList = (itemText i).toList ++ (text { items := items }).toList := by
  simp [text]

theorem ends_text {items : List Item} (h : ∀ i ∈ items, Quotable i) :
    Text.Ends isBlank (text { items := items }).toList := by
  have keyword : isBlank '@' = false := by decide
  cases items with
  | nil => intro c hc; cases hc
  | cons i items =>
    have hi := h i List.mem_cons_self
    rw [toList_text_cons]
    cases i with
    | importUrl url =>
      rw [toList_import]
      exact ends_cons keyword _
    | fontFace f =>
      obtain ⟨hinline, heq⟩ := hi
      rw [heq, toList_family hinline.ne_empty]
      exact ends_cons keyword _
    | rule r => exact hi.elim
    | media q rs => exact hi.elim

theorem scans_text {items : List Item} (h : ∀ i ∈ items, Quotable i) :
    Scans (text { items := items }).toList (lineTokens items) := by
  induction items with
  | nil => exact .nil
  | cons i items ih =>
    obtain ⟨hi, hitems⟩ := List.forall_mem_cons.1 h
    have tokens : lineTokens (i :: items) = itemTokens i ++ lineEnd :: lineTokens items := by
      simp [lineTokens]
    rw [toList_text_cons, tokens]
    have hrest := ends_text hitems
    cases i with
    | importUrl url => exact scans_import hi hrest (ih hitems)
    | fontFace f =>
      obtain ⟨hinline, heq⟩ := hi
      rw [heq] at hinline ⊢
      exact scans_family hinline hrest (ih hitems)
    | rule r => exact hi.elim
    | media q rs => exact hi.elim

/-! ## Parts -/

/-- The blank in front of a line, of which the first has none. -/
def IsLead (lead : List Token) : Prop := lead = [] ∨ lead = [lineEnd]

theorem next_end {lead : List Token} (h : IsLead lead) : (next { rest := lead }).1 = .finished := by
  rcases h with rfl | rfl <;> rfl

theorem next_import {lead : List Token} (h : IsLead lead) (url : String) (more : List Token) :
    next { rest := lead ++ (importTokens url ++ more) } =
      (.atRule "@import" [blankToken, addressToken url], { rest := more }) := by
  rcases h with rfl | rfl <;> rfl

/-- Where the reading of the block of a font stands. -/
def inFont (rest : List Token) : Cursor := { rest := rest, blocks := [.atDeclarations] }

theorem next_fontFace {lead : List Token} (h : IsLead lead) (family : String) (more : List Token) :
    next { rest := lead ++ (familyTokens family ++ more) } =
      (.beginAt "@font-face" [], inFont ((familyTokens family).drop 3 ++ more)) := by
  rcases h with rfl | rfl <;> rfl

theorem isMark_stringOf (s : String) (marks : List Char) : (stringOf s).isMark marks = false := by
  unfold Token.isMark stringOf
  rw [toList_quoted]
  cases quoteChars s.toList <;> rfl

theorem place_stringOf (s : String) (p : Popped) :
    place valueLayout { skip := true } p (stringOf s) = ([stringOf s], { skip := false, first := false }) := by
  have tight : (stringOf s).isMark valueLayout.tight = false := isMark_stringOf s _
  simp only [place, tight]
  simp [stringOf, valueLayout]

theorem next_family (family : String) (more : List Token) :
    next (inFont ((familyTokens family).drop 3 ++ more)) =
      (.declaration "font-family" [stringOf family], inFont ((familyTokens family).drop 9 ++ more)) := by
  have value : ∀ fuel, runFrom valueLayout false (fuel + 2) { skip := true } 0
      ⟨some (stringOf family), true, false, (familyTokens family).drop 8 ++ more⟩ =
        ⟨[stringOf family], .semicolon, 0, (familyTokens family).drop 9 ++ more⟩ := by
    intro fuel
    conv_lhs => unfold runFrom
    simp only [place_stringOf]
    rfl
  have part : next (inFont ((familyTokens family).drop 3 ++ more)) =
      declarationPart (inFont ((familyTokens family).drop 5 ++ more)) "font-family".toList := rfl
  have colon : popFrom false false false false ((familyTokens family).drop 5 ++ more) =
      ⟨some ⟨.colon, [':']⟩, false, false, (familyTokens family).drop 6 ++ more⟩ := rfl
  have first : popFrom false false false false ((familyTokens family).drop 6 ++ more) =
      ⟨some (stringOf family), true, false, (familyTokens family).drop 8 ++ more⟩ := rfl
  have enough : ((familyTokens family).drop 6 ++ more).length + 1 = more.length + 4 + 2 := by simp [familyTokens]
  rw [part]
  simp only [declarationPart, inFont, colon, first, enough, value]
  rfl

theorem next_fontEnd (family : String) (more : List Token) :
    next (inFont ((familyTokens family).drop 9 ++ more)) = (.endAt, { rest := more }) := by
  rfl

/-- The parts of an item. -/
def itemParts : Item → List Part
  | .importUrl url => [.atRule "@import" [blankToken, addressToken url]]
  | .fontFace f => [.beginAt "@font-face" [], .declaration "font-family" [stringOf f.family], .endAt]
  | _ => []

theorem partsFrom_step {cur cur' : Cursor} {part : Part} (h : next cur = (part, cur')) (hp : part ≠ .finished)
    (fuel : Nat) : partsFrom (fuel + 1) cur = part :: partsFrom fuel cur' := by
  rw [partsFrom, h]
  cases part <;> first | rfl | exact absurd rfl hp

theorem partsFrom_finished {cur : Cursor} (h : (next cur).1 = .finished) (fuel : Nat) :
    partsFrom (fuel + 1) cur = [.finished] := by
  have pair : next cur = (.finished, (next cur).2) := by rw [← h]
  rw [partsFrom, pair]

theorem partsFrom_lines {items : List Item} (h : ∀ i ∈ items, Quotable i) :
    ∀ (lead : List Token) (fuel : Nat), IsLead lead → (lineTokens items).length ≤ fuel →
      partsFrom (fuel + 1) { rest := lead ++ lineTokens items } = items.flatMap itemParts ++ [.finished] := by
  induction items with
  | nil =>
    intro lead fuel hlead _
    have last := partsFrom_finished (next_end hlead) fuel
    simpa [lineTokens] using last
  | cons i items ih =>
    intro lead fuel hlead hfuel
    obtain ⟨hi, hitems⟩ := List.forall_mem_cons.1 h
    have tokens : lineTokens (i :: items) = itemTokens i ++ ([lineEnd] ++ lineTokens items) := by
      simp [lineTokens]
    rw [tokens] at hfuel ⊢
    simp only [List.length_append] at hfuel
    cases i with
    | importUrl url =>
      have four : (itemTokens (.importUrl url)).length = 4 := rfl
      obtain ⟨n, rfl⟩ := Nat.exists_eq_add_of_le' (show 1 ≤ fuel by omega)
      have rest := ih hitems [lineEnd] n (.inr rfl) (by omega)
      rw [itemTokens, partsFrom_step (next_import hlead url _) (by simp), rest]
      rfl
    | fontFace f =>
      have eleven : (itemTokens (.fontFace f)).length = 11 := rfl
      obtain ⟨n, rfl⟩ := Nat.exists_eq_add_of_le' (show 3 ≤ fuel by omega)
      have rest := ih hitems [lineEnd] n (.inr rfl) (by omega)
      rw [itemTokens, partsFrom_step (next_fontFace hlead f.family _) (by simp),
        partsFrom_step (next_family f.family _) (by simp), partsFrom_step (next_fontEnd f.family _) (by simp), rest]
      rfl
    | rule r => exact hi.elim
    | media q rs => exact hi.elim

theorem parts_text {items : List Item} (h : ∀ i ∈ items, Quotable i) :
    parts (text { items := items }) = items.flatMap itemParts ++ [.finished] := by
  have tokens : tokenize (text { items := items }) = lineTokens items :=
    scans_text h _ (by rw [String.length_toList])
  have enough : (lineTokens items).length ≤ 4 * (lineTokens items).length + 3 := by omega
  simp only [parts, tokens]
  exact partsFrom_lines h [] _ (.inl rfl) enough

/-! ## Reading back -/

/-- The item with its text as it stood between the quotes. -/
def requoted : Item → Item
  | .importUrl url => .importUrl (escaped url)
  | .fontFace f => .fontFace { f with family := escaped f.family }
  | i => i

theorem importUrl?_address (url : String) : importUrl? [blankToken, addressToken url] = some (escaped url) := by
  have shown : (addressToken url).text = "url(" ++ (quoted url ++ ")") := by
    rw [← String.toList_inj]
    simp [Token.text, addressToken]
  have read : importUrl? [blankToken, addressToken url] =
      some (unquote (Text.trim (Text.dropEnd ")" (Text.dropStart "url(" (addressToken url).text)))) := rfl
  rw [read, shown, Text.dropStart_append, Text.dropEnd_append, (tight_quoted url).trim_eq, unquote_quoted]

theorem declare_family (family : String) :
    FontFace.declare {} "font-family" [stringOf family] = { family := escaped family } := by
  have shown : " ".intercalate (([stringOf family].filter (·.kind != .blank)).map Token.text) = quoted family := by
    simp [stringOf, Token.text]
  unfold FontFace.declare
  rw [shown]
  simp [unquote_quoted]

theorem escaped_ne_empty {s : String} (h : s ≠ "") : escaped s ≠ "" := by
  intro he
  have nil : quoteChars s.toList = [] := by simpa [escaped] using he
  have len := length_quoteChars s.toList
  rw [nil, List.length_nil] at len
  exact h (String.toList_eq_nil_iff.1 (List.length_eq_zero_iff.1 (by omega)))

theorem collect_parts {items : List Item} (h : ∀ i ∈ items, Quotable i) :
    ∀ s : Sheet, collect s .items (items.flatMap itemParts ++ [.finished]) =
      ({ s with items := s.items ++ items.map requoted }, true) := by
  induction items with
  | nil =>
    intro s
    simp [collect]
  | cons i items ih =>
    intro s
    obtain ⟨hi, hitems⟩ := List.forall_mem_cons.1 h
    cases i with
    | importUrl url =>
      have ne : (escaped url == "") = false := by simpa using escaped_ne_empty hi.ne_empty
      have read := ih hitems (s.addItem (.importUrl (escaped url)))
      rw [List.flatMap_cons, itemParts, List.append_assoc, List.singleton_append, collect, importUrl?_address]
      simp only [ne]
      rw [if_neg (by simp), read]
      simp [Sheet.addItem, requoted]
    | fontFace f =>
      obtain ⟨hinline, heq⟩ := hi
      have read := ih hitems (s.addItem (.fontFace { family := escaped f.family }))
      have parts : (Item.fontFace f :: items).flatMap itemParts ++ [Part.finished] =
          .beginAt "@font-face" [] :: .declaration "font-family" [stringOf f.family] :: .endAt ::
            (items.flatMap itemParts ++ [.finished]) := rfl
      rw [parts]
      simp only [collect, declare_family, read]
      rw [heq]
      simp [Sheet.addItem, requoted]
    | rule r => exact hi.elim
    | media q rs => exact hi.elim

/-- Taking the quotes off a written text gives the text back exactly if nothing in it had to be escaped, and leaves a
backslash for each quote and each backslash otherwise. So a sheet of imports and font families is read back with the
backslashes that writing has put in, and written again it has them twice. -/
theorem unquote_quoted_eq_iff (s : String) :
    unquote (quoted s) = escaped s ∧ (unquote (quoted s) = s ↔ '\\' ∉ s.toList ∧ '"' ∉ s.toList) ∧
      (escaped s).toList.count '\\' = 2 * s.toList.count '\\' + s.toList.count '"' ∧
      ∀ items, (∀ i ∈ items, Quotable i) →
        Sheet.parse (text { items := items }) = ({ items := items.map requoted }, true) := by
  refine ⟨unquote_quoted s, ?_, ?_, fun items h => ?_⟩
  · rw [unquote_quoted, escaped, ← String.toList_inj, String.toList_ofList, quoteChars_eq_iff]
    simp only [isEscaped, Bool.or_eq_false_iff, beq_eq_false_iff_ne]
    exact ⟨fun h => ⟨fun hc => (h _ hc).1 rfl, fun hc => (h _ hc).2 rfl⟩,
      fun h c hc => ⟨fun heq => h.1 (heq ▸ hc), fun heq => h.2 (heq ▸ hc)⟩⟩
  · rw [escaped, String.toList_ofList, count_quoteChars]
  · rw [Sheet.parse, parts_text h, collect_parts h]
    rfl

/-- An address with a quote in it, and a family without. -/
theorem unquote_quoted_eq_iff_twoItems :
    let items := [.importUrl "a\"b.css", .fontFace { family := "Serif" }]
    (∀ i ∈ items, Quotable i) ∧ Sheet.parse (text { items := items }) =
      ({ items := [.importUrl "a\\\"b.css", .fontFace { family := "Serif" }] }, true) := by
  intro items
  have quotable : ∀ i ∈ items, Quotable i := by
    intro i hi
    simp only [items, List.mem_cons, List.not_mem_nil, or_false] at hi
    rcases hi with rfl | rfl
    · exact ⟨by decide, by simp [isNewline]⟩
    · exact ⟨⟨by decide, by simp [isNewline]⟩, rfl⟩
  refine ⟨quotable, ?_⟩
  rw [(unquote_quoted_eq_iff "Serif").2.2.2 items quotable]
  have address : escaped "a\"b.css" = "a\\\"b.css" := by decide +kernel
  have family : escaped "Serif" = "Serif" := by decide +kernel
  simp [items, requoted, address, family]

/-- A quote in the name of a font gets a backslash each time that the sheet is read and written. -/
theorem unquote_quote_growing :
    unquote (quoted "\"") = "\\\"" ∧ unquote (quoted (unquote (quoted "\""))) = "\\\\\\\"" ∧
      ¬ ∀ s, unquote (quoted s) = s := by
  have once : unquote (quoted "\"") = "\\\"" := by decide +kernel
  refine ⟨once, by decide +kernel, fun h => ?_⟩
  rw [h] at once
  exact absurd once (by decide)

end DiagramMarkup.Css
