import DiagramMarkup.Proofs.Evaluations
import DiagramMarkup.Proofs.Tokens

/-!
# Quoted texts

Any text can be written in an expression between single quotes. The function for literal text undoes escapes once more.

1. The quoted form of a text is one token, and its value is the text (`written_literal`).
2. Undoing escapes leaves a text as it is exactly if it holds no escape (`unescapeChars_eq_iff`), and gives the text
   back whose backslashes were doubled (`unescapeChars_doubled`).
-/

namespace DiagramMarkup.Expr

/-! ## Literals -/

/-- A character within single quotes. -/
def quotedChar (c : Char) : List Char := if c = '\\' ∨ c = '\'' then ['\\', c] else [c]

/-- The text between single quotes, with a backslash in front of each backslash and single quote. -/
def literal (s : String) : String := "'" ++ String.ofList (s.toList.flatMap quotedChar) ++ "'"

/-- The text with every backslash doubled. -/
def doubled (s : String) : String := String.ofList (s.toList.flatMap fun c => if c = '\\' then ['\\', c] else [c])

theorem quoted_flatMap (cs : List Char) : Quoted '\'' (cs.flatMap quotedChar) cs := by
  induction cs with
  | nil => exact .nil
  | cons c cs ih =>
    rw [List.flatMap_cons, quotedChar]
    split
    · exact .escaped c ih
    · next hc =>
      obtain ⟨hback, hquote⟩ := not_or.1 hc
      exact .plain hback hquote ih

theorem toList_literal (s : String) : (literal s).toList = '\'' :: s.toList.flatMap quotedChar ++ ['\''] := by
  simp [literal]

/-- The quoted text is a token, whatever follows. -/
theorem written_literal (s : String) (rest : List Char) : Written .text (.string s) (literal s).toList rest := by
  have h : Written .text (.string (String.ofList s.toList)) ('\'' :: s.toList.flatMap quotedChar ++ ['\'']) rest :=
    .string (.inr rfl) (quoted_flatMap s.toList)
  rwa [String.ofList_toList, ← toList_literal] at h

/-! ## Escapes -/

/-- The text holds a backslash and behind it a quote, another backslash or the letter that stands for a line feed. -/
def HasEscape (cs : List Char) : Prop := ∃ c ∈ ['\'', '"', '\\', 'n'], ['\\', c] <:+: cs

theorem length_unescapeChars_le (cs : List Char) : (Builtin.unescapeChars cs).length ≤ cs.length := by
  fun_induction Builtin.unescapeChars cs <;> simp only [List.length_cons, List.length_nil] <;> omega

/-- Undoing an escape makes a text shorter. -/
theorem length_unescapeChars_lt {cs : List Char} (h : HasEscape cs) :
    (Builtin.unescapeChars cs).length < cs.length := by
  have shorter := length_unescapeChars_le
  fun_induction Builtin.unescapeChars cs with
  | case1 rest | case2 rest | case3 rest | case4 rest =>
    have := shorter rest
    simp only [List.length_cons]
    omega
  | case5 c rest hsingle hdouble hback hfeed ih =>
    obtain ⟨d, hd, hin⟩ := h
    rcases List.infix_cons_iff.1 hin with hp | hin
    · obtain ⟨rfl, r, rfl⟩ : '\\' = c ∧ ∃ r, rest = d :: r := by
        obtain ⟨r, hr⟩ := hp
        exact ⟨(List.cons.inj hr).1, r, (List.cons.inj hr).2.symm⟩
      simp only [List.mem_cons, List.not_mem_nil, or_false] at hd
      rcases hd with rfl | rfl | rfl | rfl
      · exact absurd rfl (hsingle r rfl)
      · exact absurd rfl (hdouble r rfl)
      · exact absurd rfl (hback r rfl)
      · exact absurd rfl (hfeed r rfl)
    · exact Nat.succ_lt_succ (ih ⟨d, hd, hin⟩)
  | case6 =>
    obtain ⟨d, -, hin⟩ := h
    cases List.infix_nil.1 hin

/-- Exactly a text without escapes stays as it is. -/
theorem unescapeChars_eq_iff (cs : List Char) : Builtin.unescapeChars cs = cs ↔ ¬ HasEscape cs := by
  constructor
  · intro h hescape
    have := length_unescapeChars_lt hescape
    rw [h] at this
    exact Nat.lt_irrefl _ this
  · intro h
    have starts : ∀ {c : Char} {rest : List Char}, c ∈ ['\'', '"', '\\', 'n'] → HasEscape ('\\' :: c :: rest) :=
      fun {c rest} hc => ⟨c, hc, [], rest, rfl⟩
    fun_induction Builtin.unescapeChars cs with
    | case1 | case2 | case3 | case4 => exact absurd (starts (by decide)) h
    | case5 c rest _ _ _ _ ih =>
      rw [ih fun ⟨d, hd, hin⟩ => h ⟨d, hd, List.infix_cons hin⟩]
    | case6 => rfl

theorem unescapeChars_doubled (cs : List Char) :
    Builtin.unescapeChars (cs.flatMap fun c => if c = '\\' then ['\\', c] else [c]) = cs := by
  induction cs with
  | nil => rfl
  | cons c cs ih =>
    rw [List.flatMap_cons]
    split
    · next hc =>
      subst hc
      exact congrArg ('\\' :: ·) ih
    · next hc =>
      rw [List.singleton_append, Builtin.unescapeChars.eq_5, ih]
      all_goals exact fun _ h => absurd h hc

/-! ## Evaluation -/

theorem eval_eq_pure {env : Env} {s : String} {t : Term} {v : Value} (hs : parse s = .ok t)
    (ht : ∀ deref, evalTerm deref t = pure v) : eval env s = pure v := by
  funext d
  unfold eval
  simp only [hs, evalLevel_eq, ht]
  rfl

theorem parse_literal (s : String) : parse (literal s) = .ok (.string s) := by
  have htokens : tokenize (literal s) = .ok [⟨.string s, 0⟩] := by
    refine tokenizeChars_eq_ok_iff.2 ?_
    rw [← List.append_nil (literal s).toList]
    exact .token (written_literal s []) .nil
  rw [parse, htokens]
  rfl

theorem parse_asText_literal (s : String) : parse ("_(" ++ literal s ++ ")") = .ok (.call "_" [.string s]) := by
  have htokens : tokenize ("_(" ++ literal s ++ ")") = .ok [⟨.symbol "_", 0⟩, ⟨.lparen, 1⟩, ⟨.string s, 2⟩,
      ⟨.rparen, 2 + Text.byteLength (literal s).toList⟩] := by
    have hchars : ("_(" ++ literal s ++ ")").toList = ['_'] ++ (['('] ++ ((literal s).toList ++ ([')'] ++ []))) := by
      simp
    refine tokenizeChars_eq_ok_iff.2 ?_
    rw [hchars]
    have behind : Tiles .text 2 ((literal s).toList ++ ([')'] ++ [])) _ := .token (written_literal s _) (.token .rparen .nil)
    refine .token (.symbol rfl nofun ?_ (.inl rfl)) (.token .lparen behind)
    rintro d ⟨⟩
    rfl
  rw [parse, htokens]
  rfl

theorem evalTerm_asText (deref : String → EvalM Value) (s : String) :
    evalTerm deref (.call "_" [.string s]) = pure (.text (Builtin.unescape s)) := by
  have hjoin : Builtin.asText [.string s] = .text (Builtin.unescape s) := by
    simp [Builtin.asText, Value.items, Value.render, String.join]
  rw [← hjoin]
  rfl

theorem eval_asText_literal (env : Env) (s : String) :
    eval env ("_(" ++ literal s ++ ")") = pure (.text (Builtin.unescape s)) :=
  eval_eq_pure (parse_asText_literal s) fun deref => evalTerm_asText deref s

/-- The quoted text has the text as its value. As literal text it comes out with its escapes undone once more, so it is
what it was exactly if it holds no escape, or if its backslashes were doubled first. -/
theorem eval_literal (env : Env) (s : String) :
    eval env (literal s) = pure (.string s) ∧
      (∃ v, eval env ("_(" ++ literal s ++ ")") = pure v ∧ v.render = Builtin.unescape s ∧
        (v.render = s ↔ ¬ HasEscape s.toList)) ∧
      ∃ v, eval env ("_(" ++ literal (doubled s) ++ ")") = pure v ∧ v.render = s := by
  refine ⟨eval_eq_pure (parse_literal s) fun _ => rfl, ⟨_, eval_asText_literal env s, rfl, ?_⟩, _,
    eval_asText_literal env (doubled s), ?_⟩
  · rw [← unescapeChars_eq_iff, Value.render, Builtin.unescape, ← String.toList_inj, String.toList_ofList]
  · rw [Value.render, Builtin.unescape, doubled, String.toList_ofList, unescapeChars_doubled, String.ofList_toList]

/-- A backslash and the letter behind it become a line feed. -/
theorem asText_line_feed :
    let env : Env := { var? := fun _ => none }
    literal "\\n" = "'\\\\n'" ∧ eval env (literal "\\n") = pure (.string "\\n") ∧
      eval env ("_(" ++ literal "\\n" ++ ")") = pure (.text "\n") ∧ (Value.text "\n").render ≠ "\\n" :=
  ⟨by decide, eval_eq_pure (parse_literal _) fun _ => rfl, eval_asText_literal _ _, by decide⟩

end DiagramMarkup.Expr
