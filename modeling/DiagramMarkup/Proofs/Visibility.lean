import DiagramMarkup.Proofs.Evaluations
import DiagramMarkup.Proofs.Grammar
import DiagramMarkup.Proofs.Substitutions
import DiagramMarkup.Proofs.Tokens

/-!
# What a text can read

An expansion asks for variables by name: those that the text refers to, those of the expressions in it, and those of the
expressions that variables hold.

1. A term reads the names in it, and its names are variables among the tokens that spell it (`exists_token_of_parse`).
2. All names that are read stand behind dollar signs of a text (`dollarNames`), so environments that agree on these and
   on those of the values expand the text to the same (`expand_congr`).
3. The names behind dollar signs are those that are listed for the text, but for two kinds that are passed over: an
   expression takes a word for a name also if it starts with a digit, and an opening brace behind a dollar sign hides
   what follows up to the next closing brace (`mem_varRefs_or_passedOver`).
-/

namespace DiagramMarkup.Expr

/-! ## The names in a term -/

mutual

/-- The variables of a term. -/
def Term.names : Term → List String
  | .number _ | .string _ => []
  | .var name => [name]
  | .neg x => x.names
  | .binary _ l r => l.names ++ r.names
  | .call _ args => Term.namesAll args
  | .list items => Term.namesAll items

/-- The variables of several terms. -/
def Term.namesAll : List Term → List String
  | [] => []
  | t :: ts => t.names ++ Term.namesAll ts

end

theorem Term.names_ofItems (xs : List Term) : (Term.ofItems xs).names = Term.namesAll xs := by
  match xs with
  | [] => rfl
  | [x] => exact (List.append_nil _).symm
  | _ :: _ :: _ => rfl

section Terms

variable {f g : String → EvalM Value}

mutual

/-- The value of a term depends on the values of its variables only. -/
theorem evalTerm_congr : ∀ t : Term, (∀ n ∈ t.names, f n = g n) → evalTerm f t = evalTerm g t
  | .number _, _ | .string _, _ => rfl
  | .var name, h => h name (List.mem_singleton_self name)
  | .neg x, h => by rw [evalTerm, evalTerm, evalTerm_congr x h]
  | .binary _ l r, h => by
    have hl := evalTerm_congr l fun n hn => h n (List.mem_append_left _ hn)
    have hr := evalTerm_congr r fun n hn => h n (List.mem_append_right _ hn)
    rw [evalTerm, evalTerm, hl, hr]
  | .call _ args, h => by rw [evalTerm, evalTerm, evalTerms_congr args h]
  | .list items, h => by rw [evalTerm, evalTerm, evalTerms_congr items h]

theorem evalTerms_congr : ∀ ts : List Term, (∀ n ∈ Term.namesAll ts, f n = g n) → evalTerms f ts = evalTerms g ts
  | [], _ => rfl
  | t :: ts, h => by
    have ht := evalTerm_congr t fun n hn => h n (List.mem_append_left _ hn)
    have hts := evalTerms_congr ts fun n hn => h n (List.mem_append_right _ hn)
    rw [evalTerms, evalTerms, ht, hts]

end

end Terms

/-! ## The names in the tokens -/

/-- The names in a tree are variables among the tokens that spell it, for words up to a length. -/
def Gathers (n : Nat) (D : List Lexeme → Term → Prop) : Prop :=
  ∀ w x, w.length < n → D w x → ∀ m ∈ x.names, Lexeme.var m ∈ w

section Words

variable {n : Nat} {D : List Lexeme → Term → Prop}

theorem Gathers.chain (level : Op → Bool) (hD : Gathers n D) : Gathers n (Chain level D) := by
  intro w x hw h
  induction h with
  | operand h => exact hD _ _ hw h
  | join _ _ hy ih =>
    rw [List.length_append, List.length_cons] at hw
    intro m hm
    rcases List.mem_append.1 hm with hm | hm
    · exact List.mem_append_left _ (ih (by omega) m hm)
    · exact List.mem_append_right _ (List.mem_cons_of_mem _ (hD _ _ (by omega) hy m hm))

theorem Gathers.listing (hD : Gathers n D) {w : List Lexeme} {xs : List Term} (hw : w.length < n)
    (h : Listing D w xs) : ∀ m ∈ Term.namesAll xs, Lexeme.var m ∈ w := by
  induction h with
  | one h =>
    intro m hm
    exact hD _ _ hw h m (by simpa [Term.namesAll] using hm)
  | more h _ ih =>
    rw [List.length_append, List.length_cons] at hw
    intro m hm
    rcases List.mem_append.1 hm with hm | hm
    · exact List.mem_append_left _ (hD _ _ (by omega) h m hm)
    · exact List.mem_append_right _ (List.mem_cons_of_mem _ (ih (by omega) m hm))

theorem Gathers.logic (h : Gathers n Unary) : Gathers n Logic :=
  (((h.chain Op.isProduct).chain Op.isSum).chain Op.isCompare).chain Op.isLogic

end Words

/-- Over the length of the word, since what stands in parentheses is shorter. -/
theorem gathers_unary (n : Nat) : Gathers n Unary := by
  induction n with
  | zero => exact fun _ _ hw => absurd hw (Nat.not_lt_zero _)
  | succ n ih =>
    intro w x hw h m hm
    cases h with
    | neg h => exact List.mem_cons_of_mem _ (ih _ _ (Nat.lt_of_succ_lt_succ hw) h m hm)
    | primary h =>
      cases h with
      | number | string | bareCall => cases hm
      | var name => exact List.mem_singleton.1 hm ▸ List.mem_singleton_self _
      | @parens w xs h =>
        rw [Term.names_ofItems] at hm
        have := ih.logic.listing (by simp at hw; omega) h m hm
        simp [this]
      | @call name w xs h =>
        have := ih.logic.listing (by simp at hw; omega) h m hm
        simp [this]

theorem exists_token_of_parse {s : String} {t : Term} (h : parse s = .ok t) :
    ∃ toks, tokenize s = .ok toks ∧ ∀ n ∈ t.names, ∃ tok ∈ toks, tok.lexeme = .var n := by
  unfold parse at h
  split at h
  · cases h
  · next toks htoks =>
    obtain ⟨xs, hxs, rfl⟩ := (parseLexemes_eq_ok_iff _ _).1 h
    refine ⟨toks, htoks, fun n hn => ?_⟩
    rw [Term.names_ofItems] at hn
    exact List.mem_map.1 ((gathers_unary _).logic.listing (Nat.lt_succ_self _) hxs n hn)

/-! ## The names behind dollar signs -/

/-- The name that an expression reads behind a dollar sign. -/
def nameBehind? (cs : List Char) : Option String :=
  match scanVariable 0 cs with
  | .ok (.var name, _) => some name
  | _ => none

/-- The names that an expression reads behind the dollar signs of a text, wherever they stand. -/
def dollarNames : List Char → List String
  | [] => []
  | c :: cs => if c = '$' then (nameBehind? cs).toList ++ dollarNames cs else dollarNames cs

section Dollars

variable {name : String} {c : Char} {cs rest : List Char}

theorem written_of_nameBehind? (h : nameBehind? cs = some name) :
    ∃ span rest, '$' :: cs = span ++ rest ∧ Written .text (.var name) span rest := by
  unfold nameBehind? at h
  split at h
  · next rest hscan =>
    cases h
    obtain ⟨span, hspan, hwritten⟩ := written_of_scanVariable hscan
    exact ⟨span, rest, hspan, hwritten⟩
  · cases h

theorem Written.nameBehind?_eq {span : List Char} (h : Written .text (.var name) span rest) :
    ∃ cs, span ++ rest = '$' :: cs ∧ nameBehind? cs = some name := by
  cases h with
  | named hne hname hend =>
    refine ⟨_, rfl, ?_⟩
    unfold nameBehind?
    rw [List.append_eq, scanVariable_word 0 hne hname hend]
  | @braced content _ hne hclose =>
    refine ⟨'{' :: content ++ '}' :: rest, by simp, ?_⟩
    unfold nameBehind?
    rw [scanVariable_braced 0 hne hclose]

theorem nameBehind?_of_ne (hc : c ≠ '{') (cs : List Char) : nameBehind? (c :: cs) =
    if ((c :: cs).takeWhile isWordChar).isEmpty then none
    else some (String.ofList ((c :: cs).takeWhile isWordChar)) := by
  have hbrace : ∀ r, c :: cs ≠ '{' :: r := by
    rintro r ⟨⟩
    exact hc rfl
  rw [nameBehind?, scanVariable.eq_2 _ _ hbrace]
  by_cases hempty : ((c :: cs).takeWhile isWordChar).isEmpty
  · simp only [hempty, if_true]
  · simp only [hempty, if_false, Bool.false_eq_true]

/-- The name does not depend on what stands behind its closing brace, or behind one that ends a word. -/
theorem nameBehind?_close {x : List Char} (hx : '}' ∉ x) (rest : List Char) :
    nameBehind? (x ++ '}' :: rest) = nameBehind? (x ++ ['}']) := by
  cases x with
  | nil => rfl
  | cons c x =>
    by_cases hc : c = '{'
    · have closes := fun rest => Text.breakOn_singleton (List.not_mem_of_not_mem_cons hx) rest
      subst hc
      simp only [nameBehind?, List.cons_append, scanVariable, closes]
      cases x <;> rfl
    · rw [List.cons_append, List.cons_append, nameBehind?_of_ne hc, nameBehind?_of_ne hc]
      simp only [← List.cons_append, Text.takeWhile_stop (show isWordChar '}' = false from rfl)]

theorem mem_dollarNames_cons :
    name ∈ dollarNames (c :: cs) ↔ (c = '$' ∧ nameBehind? cs = some name) ∨ name ∈ dollarNames cs := by
  rw [dollarNames]
  split
  · next hc => simp [hc]
  · next hc => simp [hc]

/-- The names behind dollar signs are those of the variables that are written somewhere. -/
theorem mem_dollarNames_iff : name ∈ dollarNames cs ↔
    ∃ before span rest, cs = before ++ span ++ rest ∧ Written .text (.var name) span rest := by
  induction cs with
  | nil =>
    constructor
    · intro h
      cases h
    · rintro ⟨before, span, rest, hcs, h⟩
      have hnil : before = [] ∧ span = [] ∧ rest = [] := by simpa using hcs
      exact absurd hnil.2.1 h.span_ne_nil
  | cons c cs ih =>
    rw [mem_dollarNames_cons, ih]
    constructor
    · rintro (⟨rfl, h⟩ | ⟨before, span, rest, rfl, h⟩)
      · obtain ⟨span, rest, hcs, h⟩ := written_of_nameBehind? h
        exact ⟨[], span, rest, hcs, h⟩
      · exact ⟨c :: before, span, rest, rfl, h⟩
    · rintro ⟨_ | ⟨d, before⟩, span, rest, hcs, h⟩
      · obtain ⟨w, hw, hname⟩ := h.nameBehind?_eq
        rw [List.nil_append, hw] at hcs
        cases hcs
        exact .inl ⟨rfl, hname⟩
      · cases hcs
        exact .inr ⟨before, span, rest, rfl, h⟩

/-- The names of a part are names of the whole text, if no word goes on behind the part. -/
theorem mem_dollarNames_append {u v : List Char} (hv : Text.Ends isWordChar v) (h : name ∈ dollarNames cs) :
    name ∈ dollarNames (u ++ cs ++ v) := by
  obtain ⟨before, span, rest, rfl, hwritten⟩ := mem_dollarNames_iff.1 h
  refine mem_dollarNames_iff.2 ⟨u ++ before, span, rest ++ v, by simp, ?_⟩
  cases hwritten with
  | named hne hname hend => exact .named hne hname (hend.append hv)
  | braced hne hclose => exact .braced hne hclose

theorem mem_dollarNames_append_left (u : List Char) (h : name ∈ dollarNames cs) : name ∈ dollarNames (u ++ cs) := by
  simpa using mem_dollarNames_append (u := u) (v := []) (fun _ hd => nomatch hd) h

/-- What behind a closing brace is no part of a name in front of it. -/
theorem mem_dollarNames_close {x : List Char} (hx : '}' ∉ x) {rest : List Char}
    (h : name ∈ dollarNames (x ++ '}' :: rest)) : name ∈ dollarNames (x ++ ['}']) ∨ name ∈ dollarNames rest := by
  induction x with
  | nil => exact .inr ((mem_dollarNames_cons.1 h).resolve_left fun hc => by cases hc.1)
  | cons c x ih =>
    have hx' : '}' ∉ x := List.not_mem_of_not_mem_cons hx
    rcases mem_dollarNames_cons.1 h with ⟨hc, hname⟩ | h
    · rw [List.append_eq, nameBehind?_close hx'] at hname
      exact .inl (mem_dollarNames_cons.2 (.inl ⟨hc, hname⟩))
    · exact (ih hx' h).imp_left fun h => mem_dollarNames_cons.2 (.inr h)

theorem mem_dollarNames_of_word {w : List Char} (hw : ∀ c ∈ w, isWordChar c)
    (h : name ∈ dollarNames (w ++ cs)) : name ∈ dollarNames cs := by
  induction w with
  | nil => exact h
  | cons c w ih =>
    refine ih (fun d hd => hw d (List.mem_cons_of_mem _ hd)) ((mem_dollarNames_cons.1 h).resolve_left ?_)
    rintro ⟨rfl, -⟩
    cases hw '$' List.mem_cons_self

theorem Refers.exists_name {p : Piece} (h : Refers cs p rest) : ∃ n, p.name? = some n := by
  cases h <;> exact ⟨_, rfl⟩

/-- A reference has the name that an expression would read in its place. -/
theorem Refers.nameBehind?_eq {p : Piece} (h : Refers cs p rest) : nameBehind? cs = p.name? := by
  unfold nameBehind?
  cases h with
  | @word c w rest hc hw hend =>
    rw [scanVariable_word 0 (List.cons_ne_nil c w) (forall_isWordChar hc hw) hend]
    rfl
  | braced hne hclose =>
    rw [scanVariable_braced 0 hne hclose]
    rfl

/-- The names that a text refers to stand behind its dollar signs. -/
theorem Split.mem_dollarNames {ps : List Piece} (h : Split cs ps) (hname : name ∈ ps.filterMap Piece.name?) :
    name ∈ dollarNames cs := by
  induction h with
  | nil => cases hname
  | literal _ _ ih =>
    rw [List.filterMap_cons_none rfl] at hname
    exact mem_dollarNames_cons.2 (.inr (ih hname))
  | @reference cs rest p ps hp _ ih =>
    obtain ⟨n, hn⟩ := hp.exists_name
    rw [List.filterMap_cons_some hn, List.mem_cons] at hname
    rcases hname with rfl | hname
    · exact mem_dollarNames_cons.2 (.inl ⟨rfl, hp.nameBehind?_eq.trans hn⟩)
    · rw [hp.source]
      exact mem_dollarNames_append_left _ (ih hname)

end Dollars

/-! ## What an evaluation can read -/

theorem names_of_parse {s : String} {t : Term} (h : parse s = .ok t) :
    ∀ n ∈ t.names, n ∈ dollarNames s.toList := by
  obtain ⟨toks, htoks, hnames⟩ := exists_token_of_parse h
  intro n hn
  obtain ⟨tok, htok, hvar⟩ := hnames n hn
  obtain ⟨before, span, rest, hs, -, hwritten⟩ := (tokenizeChars_eq_ok_iff.1 htoks).exists_span tok htok
  exact mem_dollarNames_iff.2 ⟨before, span, rest, hs, hvar ▸ hwritten⟩

theorem mem_dollarNames_of_trim {n : String} {cs : List Char} (h : n ∈ dollarNames (Text.trimChars cs)) :
    n ∈ dollarNames cs := by
  obtain ⟨u, v, hcs, hv⟩ := Text.exists_trimChars cs
  have ends : Text.Ends isWordChar v := fun c hc => (outside_of_isBlank (hv c (List.mem_of_mem_head? hc))).isWordChar
  rw [hcs]
  exact mem_dollarNames_append ends h

theorem names_of_meaning {raw : String} {t : Term} (h : meaning raw = .term t) :
    ∀ n ∈ t.names, n ∈ dollarNames raw.toList := by
  unfold meaning at h
  dsimp only at h
  split at h
  · cases h
  split at h
  · cases h
  split at h
  · next u hu =>
    cases h
    intro n hn
    have := names_of_parse hu n hn
    rw [Text.trim, String.toList_ofList] at this
    exact mem_dollarNames_of_trim this
  · cases h

/-- Two environments agree on names, and the names are closed under reading. -/
structure Agree (R : Set String) (e₁ e₂ : Env) : Prop where
  limit : e₁.limit = e₂.limit
  var : ∀ n ∈ R, e₁.var? n = e₂.var? n
  closed : ∀ n ∈ R, ∀ raw, e₁.var? n = some raw → ∀ m ∈ dollarNames raw.toList, m ∈ R

section Agreement

variable {R : Set String} {e₁ e₂ : Env}

theorem Agree.evalLevel_eq (h : Agree R e₁ e₂) (levels : Nat) : ∀ t : Term, (∀ n ∈ t.names, n ∈ R) →
    evalLevel e₁ levels t = evalLevel e₂ levels t := by
  induction levels with
  | zero =>
    intro t ht
    rw [Expr.evalLevel_eq, Expr.evalLevel_eq]
    refine evalTerm_congr t fun n hn => ?_
    have agree := h.var n (ht n hn)
    cases hvar : e₁.var? n with
    | none => rw [deref_unknown hvar, deref_unknown (agree ▸ hvar)]
    | some raw => rw [deref_zero hvar, deref_zero (agree ▸ hvar), h.limit]
  | succ levels ih =>
    intro t ht
    rw [Expr.evalLevel_eq, Expr.evalLevel_eq]
    refine evalTerm_congr t fun n hn => ?_
    have agree := h.var n (ht n hn)
    cases hvar : e₁.var? n with
    | none => rw [deref_unknown hvar, deref_unknown (agree ▸ hvar)]
    | some raw =>
      rw [deref_succ hvar, deref_succ (agree ▸ hvar)]
      cases hraw : meaning raw with
      | number | text => rfl
      | term u => exact ih u fun m hm => h.closed n (ht n hn) raw hvar m (names_of_meaning hraw m hm)

theorem Agree.eval_eq (h : Agree R e₁ e₂) {s : String} (hs : ∀ n ∈ dollarNames s.toList, n ∈ R) :
    eval e₁ s = eval e₂ s := by
  unfold eval
  cases ht : parse s with
  | error c => rfl
  | ok t =>
    simp only [h.evalLevel_eq e₁.limit t fun n hn => hs n (names_of_parse ht n hn), ← h.limit]

theorem Agree.substituteChars_eq (h : Agree R e₁ e₂) {cs : List Char} (hcs : ∀ n ∈ dollarNames cs, n ∈ R) :
    substituteChars e₁.var? cs = substituteChars e₂.var? cs := by
  obtain ⟨ps, hsplit⟩ := exists_split cs
  rw [hsplit.substituteChars_eq, hsplit.substituteChars_eq]
  refine List.flatMap_congr fun p hp => ?_
  cases hname : p.name? with
  | none => simp only [Piece.substitute, hname, Option.bind_none]
  | some n =>
    have agree := h.var n (hcs n (hsplit.mem_dollarNames (List.mem_filterMap.2 ⟨p, hp, hname⟩)))
    simp only [Piece.substitute, hname, Option.bind_some, agree]

/-- The names in the parts of a text around and in a region are names of the text. -/
theorem dollarNames_parts {cs before after inner rest : List Char}
    (hopen : Text.breakOn openMark cs = some (before, after))
    (hclose : Text.breakOn closeMark after = some (inner, rest)) :
    (∀ n ∈ dollarNames before, n ∈ dollarNames cs) ∧ (∀ n ∈ dollarNames inner, n ∈ dollarNames cs) ∧
      ∀ n ∈ dollarNames rest, n ∈ dollarNames cs := by
  have ends : ∀ c : Char, isWordChar c = false → ∀ r, Text.Ends isWordChar (c :: r) := by
    rintro c hc r d ⟨⟩
    exact hc
  have hcs : cs = before ++ openMark ++ (inner ++ closeMark ++ rest) := by
    rw [Text.eq_of_breakOn hopen, Text.eq_of_breakOn hclose]
  refine ⟨fun n hn => ?_, fun n hn => ?_, fun n hn => ?_⟩
  · have := mem_dollarNames_append (u := []) (v := openMark ++ (inner ++ closeMark ++ rest)) (ends '{' rfl _) hn
    rw [hcs]
    simpa using this
  · have := mem_dollarNames_append (u := before ++ openMark) (v := closeMark ++ rest) (ends '}' rfl _) hn
    rw [hcs]
    simpa using this
  · rw [hcs]
    exact mem_dollarNames_append_left _ (mem_dollarNames_append_left _ hn)

theorem Agree.expandFuel_eq (h : Agree R e₁ e₂) (source : String) (fuel : Nat) : ∀ cs : List Char,
    (∀ n ∈ dollarNames cs, n ∈ R) → expandFuel e₁ source fuel cs = expandFuel e₂ source fuel cs := by
  induction fuel with
  | zero =>
    intro cs hcs
    rw [expandFuel, expandFuel, h.substituteChars_eq hcs]
  | succ fuel ih =>
    intro cs hcs
    unfold expandFuel
    cases hopen : Text.breakOn openMark cs with
    | none => simp only [h.substituteChars_eq hcs]
    | some parts =>
      obtain ⟨before, after⟩ := parts
      cases hclose : Text.breakOn closeMark after with
      | none => simp only [hclose]
      | some parts =>
        obtain ⟨inner, rest⟩ := parts
        obtain ⟨hbefore, hinner, hrest⟩ := dollarNames_parts hopen hclose
        have outside : substituteChars e₁.var? before = substituteChars e₂.var? before :=
          h.substituteChars_eq fun n hn => hcs n (hbefore n hn)
        have inside : eval e₁ (String.ofList (Text.trimChars inner)) =
            eval e₂ (String.ofList (Text.trimChars inner)) := by
          refine h.eval_eq fun n hn => hcs n (hinner n (mem_dollarNames_of_trim ?_))
          rwa [String.toList_ofList] at hn
        have behind := ih rest fun n hn => hcs n (hrest n hn)
        simp only [hclose, outside, inside, behind]

end Agreement

/-! ## What is listed -/

/-- Does a name start with a digit? -/
def startsWithDigit (name : String) : Bool := name.toList.head?.any Number.isDigit

/-- The names that an expression may read and the list of references passes over: words that start with a digit, and
names that stand within the braces of another one. -/
def passedOver (s : String) : List String :=
  (dollarNames s.toList).filter startsWithDigit ++ (varRefs s).flatMap fun name => dollarNames (name.toList ++ ['}'])

section Listed

variable {n : String} {cs rest : List Char} {p : Piece} {ps : List Piece}

/-- Where an expression reads a name and a text has no reference, the name starts with a digit. -/
theorem startsWithDigit_of_not_refers (hcs : ∀ p rest, ¬ Refers cs p rest) (hn : nameBehind? cs = some n) :
    startsWithDigit n := by
  obtain ⟨span, rest, hspan, hwritten⟩ := written_of_nameBehind? hn
  cases hwritten with
  | @named w _ hne hword hend =>
    obtain ⟨d, w, rfl⟩ := List.exists_cons_of_ne_nil hne
    obtain rfl : cs = d :: w ++ rest := (List.cons.inj hspan).2
    have hd : isWordStart d = true ∨ Number.isDigit d = true := by
      simpa [isWordChar] using hword d List.mem_cons_self
    rcases hd with hd | hd
    · exact absurd (.word hd (fun e he => hword e (List.mem_cons_of_mem _ he)) hend) (hcs _ _)
    · simpa [startsWithDigit] using hd
  | @braced w _ hne hclose =>
    obtain rfl : cs = '{' :: w ++ '}' :: rest := by simpa using hspan
    exact absurd (.braced hne hclose) (hcs _ _)

/-- The names from a reference on are its own, those within its braces and those behind it. -/
theorem Refers.dollarNames_cases (h : Refers cs p rest) (hn : n ∈ dollarNames ('$' :: cs)) :
    p.name? = some n ∨ (∃ m, p.name? = some m ∧ n ∈ dollarNames (m.toList ++ ['}'])) ∨ n ∈ dollarNames rest := by
  rcases mem_dollarNames_cons.1 hn with ⟨-, hname⟩ | hn
  · exact .inl (h.nameBehind?_eq.symm.trans hname)
  cases h with
  | word hc hw hend => exact .inr (.inr (mem_dollarNames_of_word (forall_isWordChar hc hw) hn))
  | @braced w _ hne hclose =>
    have inside := (mem_dollarNames_cons.1 hn).resolve_left fun h => by cases h.1
    refine .inr ((mem_dollarNames_close hclose inside).imp_left fun inside => ⟨_, rfl, ?_⟩)
    rwa [String.toList_ofList]

theorem Split.dollarNames_cases (h : Split cs ps) (hn : n ∈ dollarNames cs) :
    n ∈ ps.filterMap Piece.name? ∨ startsWithDigit n ∨
      ∃ m ∈ ps.filterMap Piece.name?, n ∈ dollarNames (m.toList ++ ['}']) := by
  induction h with
  | nil => cases hn
  | @literal c cs ps hc _ ih =>
    rw [List.filterMap_cons_none rfl]
    rcases mem_dollarNames_cons.1 hn with ⟨rfl, hname⟩ | hn
    · exact .inr (.inl (startsWithDigit_of_not_refers (hc rfl) hname))
    · exact ih hn
  | @reference cs rest p ps hp _ ih =>
    obtain ⟨m, hm⟩ := hp.exists_name
    have hcases := hp.dollarNames_cases hn
    simp only [hm, Option.some.injEq, exists_eq_left'] at hcases
    rw [List.filterMap_cons_some hm]
    rcases hcases with rfl | hinside | hrest
    · exact .inl List.mem_cons_self
    · exact .inr (.inr ⟨m, List.mem_cons_self, hinside⟩)
    rcases ih hrest with h | h | ⟨k, hk, h⟩
    · exact .inl (List.mem_cons_of_mem _ h)
    · exact .inr (.inl h)
    · exact .inr (.inr ⟨k, List.mem_cons_of_mem _ hk, h⟩)

end Listed

/-- All names behind dollar signs are listed or passed over. -/
theorem mem_varRefs_or_passedOver {s n : String} (hn : n ∈ dollarNames s.toList) : n ∈ varRefs s ++ passedOver s := by
  obtain ⟨ps, h⟩ := exists_split s.toList
  unfold passedOver
  rw [h.varRefs_eq]
  rcases h.dollarNames_cases hn with hlist | hdigit | ⟨m, hm, hinside⟩
  · exact List.mem_append_left _ hlist
  · exact List.mem_append_right _ (List.mem_append_left _ (List.mem_filter.2 ⟨hn, hdigit⟩))
  · exact List.mem_append_right _ (List.mem_append_right _ (List.mem_flatMap.2 ⟨m, hm, hinside⟩))

/-- Environments with one depth limit that agree on a set of names expand a text to the same, with the same draws and
the same errors, if the set holds the names that are listed for the text or passed over there and, with every name,
those of its value. Where none are passed over, the lists of references alone say what is read. -/
theorem expand_congr {s : String} {R : Set String} {e₁ e₂ : Env} (hlimit : e₁.limit = e₂.limit)
    (hagree : ∀ n ∈ R, e₁.var? n = e₂.var? n) (hs : ∀ n ∈ varRefs s ++ passedOver s, n ∈ R)
    (hclosed : ∀ n ∈ R, ∀ raw, e₁.var? n = some raw → ∀ m ∈ varRefs raw ++ passedOver raw, m ∈ R) :
    expand e₁ s = expand e₂ s := by
  have agree : Agree R e₁ e₂ := ⟨hlimit, hagree,
    fun n hn raw hraw m hm => hclosed n hn raw hraw m (mem_varRefs_or_passedOver hm)⟩
  have chars : expandFuel e₁ s s.toList.length s.toList = expandFuel e₂ s s.toList.length s.toList :=
    agree.expandFuel_eq s _ s.toList fun n hn => hs n (mem_varRefs_or_passedOver hn)
  unfold expand
  rw [chars]

/-- A text with one region. -/
theorem expand_oneRegion (env : Env) {s e : String} {before rest inner after : List Char}
    (hopen : Text.breakOn openMark s.toList = some (before, rest))
    (hclose : Text.breakOn closeMark rest = some (inner, after)) (hafter : Text.breakOn openMark after = none)
    (he : String.ofList (Text.trimChars inner) = e) :
    expand env s = (do
      let v ← eval env e
      return String.ofList (substituteChars env.var? before ++ v.render.toList ++ substituteChars env.var? after)) := by
  have htemplate : hasTemplate s = true := by
    rw [hasTemplate, Text.occurs, hopen]
    simp
  obtain ⟨fuel, hfuel⟩ : ∃ f, s.toList.length = f + 1 := by
    refine ⟨s.toList.length - 1, ?_⟩
    have := congrArg List.length (Text.eq_of_breakOn hopen)
    simp [openMark] at this
    omega
  have behind : ∀ fuel, expandFuel env s fuel after = pure (substituteChars env.var? after) := by
    intro fuel
    cases fuel <;> simp [expandFuel, hafter]
  rw [expand, if_pos htemplate, hfuel, expandFuel, hopen]
  simp only [hclose, behind, he, pure_bind, bind_assoc]

/-- Where a variable leads to another one, further variables do not matter. -/
theorem expand_congr_detour :
    let known : String → Option String := fun n => if n = "a" then some "$b" else if n = "b" then some "red" else none
    let e₁ : Env := { var? := known }
    let e₂ : Env := { var? := fun n => known n <|> some "blue" }
    expand e₁ "$a \x7b\x7b$a\x7d\x7d" = pure "$b red" ∧
      expand e₁ "$a \x7b\x7b$a\x7d\x7d" = expand e₂ "$a \x7b\x7b$a\x7d\x7d" := by
  intro known e₁ e₂
  have hopen : Text.breakOn openMark "$a \x7b\x7b$a\x7d\x7d".toList = some ("$a ".toList, "$a\x7d\x7d".toList) := rfl
  have hclose : Text.breakOn closeMark "$a\x7d\x7d".toList = some ("$a".toList, []) := rfl
  have hred : eval e₁ "$a" = pure (.string "red") := rfl
  have within : ∀ s ∈ ["$a \x7b\x7b$a\x7d\x7d", "$b", "red"], ∀ n ∈ varRefs s ++ passedOver s, n = "a" ∨ n = "b" := by
    decide
  refine ⟨?_, expand_congr (R := { n | n = "a" ∨ n = "b" }) rfl ?_ (within _ (by simp)) ?_⟩
  · rw [expand_oneRegion e₁ (e := "$a") hopen hclose rfl rfl, hred, pure_bind]
    exact congrArg pure rfl
  · rintro n (rfl | rfl) <;> rfl
  · rintro n (rfl | rfl) raw hraw
    · obtain rfl : "$b" = raw := Option.some.inj hraw
      exact within _ (by simp)
    · obtain rfl : "red" = raw := Option.some.inj hraw
      exact within _ (by simp)

/-- A dollar sign and an opening brace in front of a region hide the variable that is read there: without that variable
the expansion fails, though neither environment knows the one name that is listed. -/
theorem expand_hidden_name :
    let e₁ : Env := { var? := fun n => if n = "a" then some "red" else none }
    let e₂ : Env := { var? := fun _ => none }
    e₁.limit = e₂.limit ∧ varRefs "$\x7b \x7b\x7b$a\x7d\x7d" = [" \x7b\x7b$a"] ∧
      e₁.var? " \x7b\x7b$a" = none ∧ e₂.var? " \x7b\x7b$a" = none ∧
      expand e₁ "$\x7b \x7b\x7b$a\x7d\x7d" = pure "$\x7b red" ∧
      expand e₂ "$\x7b \x7b\x7b$a\x7d\x7d" = throw ⟨.unknownVariable "a", "$a"⟩ := by
  intro e₁ e₂
  have hopen : Text.breakOn openMark "$\x7b \x7b\x7b$a\x7d\x7d".toList = some ("$\x7b ".toList, "$a\x7d\x7d".toList) :=
    rfl
  have hclose : Text.breakOn closeMark "$a\x7d\x7d".toList = some ("$a".toList, []) := rfl
  have hred : eval e₁ "$a" = pure (.string "red") := rfl
  have hunknown : eval e₂ "$a" = throw ⟨.unknownVariable "a", "$a"⟩ := rfl
  refine ⟨rfl, rfl, rfl, rfl, ?_, ?_⟩
  · rw [expand_oneRegion e₁ (e := "$a") hopen hclose rfl rfl, hred, pure_bind]
    exact congrArg pure rfl
  · rw [expand_oneRegion e₂ (e := "$a") hopen hclose rfl rfl, hunknown]
    rfl

end DiagramMarkup.Expr
