import DiagramMarkup.Proofs.Lookups
import DiagramMarkup.Proofs.Shorthands

/-!
# Attributes of a prepared element

An element is prepared before it is drawn: its attributes are expanded, and what it does not set is filled in from the
defaults.

1. A text without regions in double braces expands to itself with variables replaced, so it has only one expansion
   (`Expands.eq_substitute`).
2. Definitions fill what is missing, the latest first (`Scope.get?_applyDefaults`).
3. Preparing changes neither variables nor defaults, so all attributes are expanded in the scope that the element finds
   (`Compile.beside_prepare`).
-/

namespace DiagramMarkup

/-! ## Expansions -/

namespace Expr

/-- The text comes to the value when it is expanded, with some state of the dice. -/
def Expands (env : Env) (s v : String) : Prop := ∃ dice dice', exec (expand env s) dice = (.ok v, dice')

variable {env : Env} {s v : String}

/-- A text without regions is expanded to itself with variables replaced, and the dice rest. -/
theorem exec_expand_of_plain (hs : Text.occurs openMark s.toList = false) (dice : Dice) :
    exec (expand env s) dice = (.ok (substitute env.var? s), dice) := by
  have hbreak : Text.breakOn openMark s.toList = none := by
    unfold Text.occurs at hs
    exact Option.isSome_eq_false_iff.1 hs |> Option.isNone_iff_eq_none.1
  have hfuel : ∀ fuel, expandFuel env s fuel s.toList = pure (substituteChars env.var? s.toList) := by
    intro fuel
    cases fuel with
    | zero => rfl
    | succ fuel =>
      unfold expandFuel
      rw [hbreak]
  unfold expand
  split
  · rw [hfuel, exec_bind_ok (exec_pure _ _)]
    rfl
  · next hplain =>
    have hdollar : s.toList.contains '$' = false := by
      unfold hasTemplate at hplain
      rw [hs, Bool.or_false] at hplain
      exact Bool.eq_false_iff.2 hplain
    unfold substitute substituteChars
    rw [hdollar]
    simp

/-- A text that holds nothing to replace is expanded to itself, and the dice rest. -/
theorem exec_expand_of_bare (hs : hasTemplate s = false) (dice : Dice) :
    exec (expand env s) dice = (.ok s, dice) := by
  unfold expand
  rw [hs]
  rfl

theorem Expands.eq_substitute (h : Expands env s v) (hs : Text.occurs openMark s.toList = false) :
    v = substitute env.var? s := by
  obtain ⟨dice, dice', h⟩ := h
  rw [exec_expand_of_plain hs] at h
  cases h
  rfl

theorem Expands.eq_self (h : Expands env s v) (hs : hasTemplate s = false) : v = s := by
  obtain ⟨dice, dice', h⟩ := h
  rw [exec_expand_of_bare hs] at h
  cases h
  rfl

end Expr

open DiagramMarkup.Expr

/-- The value of an attribute: the expansion of what is written, or the default. -/
inductive Filled (env : Env) : (written default? value : Option String) → Prop where
  | written {s v : String} (h : Expands env s v) (d : Option String) : Filled env (some s) d (some v)
  | default (d : Option String) : Filled env none d d

/-- An attribute that is written has an expansion of its text. -/
theorem Filled.of_written {env : Env} {s : String} {d value : Option String} (h : Filled env (some s) d value) :
    ∃ v, value = some v ∧ Expands env s v := by
  cases h with
  | written h => exact ⟨_, rfl, h⟩

/-! ## Defaults -/

theorem Attrs.get?_setDefault (a : Attrs) (name value n : String) :
    (a.setDefault name value).get? n = (a.get? n).or (if n = name then some value else none) := by
  unfold setDefault
  rw [Attrs.has_eq_isSome]
  split
  · next h =>
    split
    · next heq =>
      obtain ⟨v, hv⟩ := Option.isSome_iff_exists.1 h
      rw [heq, hv, Option.some_or]
    · rw [Option.or_none]
  · next h =>
    split
    · next heq =>
      rw [heq, Option.not_isSome_iff_eq_none.1 h, Option.none_or]
      exact lookup_put_self a.entries
    · next hne => rw [Option.or_none, get?_set_of_ne hne]

theorem Attrs.get?_setDefaults (n : String) : ∀ (ps : List (String × String)) (a : Attrs),
    (ps.foldl (fun (a : Attrs) p => a.setDefault p.1 p.2) a).get? n = (a.get? n).or (ps.lookup n)
  | [], a => by rw [List.foldl_nil, List.lookup_nil, Option.or_none]
  | (m, v) :: ps, a => by
    rw [List.foldl_cons, get?_setDefaults n ps, get?_setDefault, Option.or_assoc, List.lookup_cons]
    by_cases h : n = m
    · rw [if_pos h, h, beq_self_eq_true, Option.some_or]
    · rw [if_neg h, Option.none_or, beq_false_of_ne h]

theorem Element.get?_addClasses (el : Element) (cs : List String) (a : String) :
    (el.addClasses cs).get? a = el.get? a := by
  have hone : ∀ (el : Element) (c : String), (el.addClass c).get? a = el.get? a := by
    intro el c
    unfold Element.addClass
    split <;> rfl
  unfold Element.addClasses
  induction cs generalizing el with
  | nil => rfl
  | cons c cs ih => exact (ih _).trans (hone el c)

namespace Scope

/-- What a definition gives to elements with a name. -/
def given? (d : Element) (name a : String) : Option String :=
  if d.name != name && d.name != "_" then none else d.get? a

/-- The default of an attribute for elements with a name: that of the latest definition that has one. -/
def default? (s : Scope) (name a : String) : Option String := s.defaults.reverse.findSome? (given? · name a)

theorem get?_fillFrom (el d : Element) (a : String) : (fillFrom el d).get? a = (el.get? a).or (given? d el.name a) := by
  unfold fillFrom given?
  split
  · rw [Option.or_none]
  · rw [Element.get?_addClasses]
    exact Attrs.get?_setDefaults a _ _

theorem name_fillFrom (el d : Element) : (fillFrom el d).name = el.name := by
  unfold fillFrom
  split
  · rfl
  · exact Element.name_addClasses _ _

/-- What an element sets stays, and the rest is filled in from the latest definition that has it. -/
theorem get?_applyDefaults (s : Scope) (el : Element) (a : String) :
    (s.applyDefaults el).get? a = (el.get? a).or (s.default? el.name a) := by
  unfold applyDefaults default?
  induction s.defaults.reverse generalizing el with
  | nil => rw [List.foldl_nil, List.findSome?_nil, Option.or_none]
  | cons d ds ih =>
    rw [List.foldl_cons, ih, get?_fillFrom, name_fillFrom, Option.or_assoc, List.findSome?_cons]
    cases given? d el.name a <;> rfl

end Scope

/-! ## Contexts -/

/-- A step that has run kept the invariant, and its result has the property. -/
theorem Ensures.of_exec {ε σ α : Type} {I : σ → Prop} {m : ExceptT ε (StateM σ) α} {Q : α → Prop} {s t : σ} {a : α}
    (hm : Ensures I m Q) (hs : I s) (h : exec m s = (.ok a, t)) : I t ∧ Q a := by
  obtain ⟨ht, ha⟩ := hm s hs
  rw [h] at ht ha
  exact ⟨ht, ha a rfl⟩

/-- The context has the scope, the options and the templates of another. -/
structure Context.Beside (c d : Context) : Prop where
  scope : d.scope = c.scope
  options : d.options = c.options
  templates : d.templates = c.templates
  written : d.written = c.written

namespace Context.Beside

variable {c d e : Context}

theorem refl (c : Context) : c.Beside c := ⟨rfl, rfl, rfl, rfl⟩

theorem trans (h : c.Beside d) (k : d.Beside e) : c.Beside e :=
  ⟨k.scope.trans h.scope, k.options.trans h.options, k.templates.trans h.templates, k.written.trans h.written⟩

theorem markSeen (h : c.Beside d) (id : String) (current : Option Element) :
    c.Beside { d.markSeen id with current := current } := by
  unfold Context.markSeen
  split
  · exact ⟨h.scope, h.options, h.templates, h.written⟩
  · exact ⟨h.scope, h.options, h.templates, h.written⟩

theorem env (h : c.Beside d) : d.env = c.env := by
  unfold Context.env
  rw [h.scope, h.options]

theorem template? (h : c.Beside d) (id : String) : d.template? id = c.template? id := by
  unfold Context.template?
  rw [h.templates, h.written]

end Context.Beside

/-! ## Preparing -/

theorem Attrs.get?_of_mem (a : Attrs) : ∀ p ∈ a.entries, a.get? p.1 = some p.2 := by
  have hlookup : ∀ {es : List (String × String)}, (es.map Prod.fst).Nodup → ∀ p ∈ es, es.lookup p.1 = some p.2 := by
    intro es
    induction es with
    | nil => exact fun _ p hp => absurd hp List.not_mem_nil
    | cons q es ih =>
      intro hdistinct
      obtain ⟨hnot, hdistinct⟩ := List.nodup_cons.1 hdistinct
      refine List.forall_mem_cons.2 ⟨?_, fun p hp => ?_⟩
      · rw [List.lookup_cons, beq_self_eq_true]
      · have hne : p.1 ≠ q.1 := fun heq => hnot (heq ▸ List.mem_map_of_mem hp)
        rw [List.lookup_cons, beq_false_of_ne hne]
        exact ih hdistinct p hp
  exact hlookup a.distinct

theorem Attrs.get?_eq_none_of_not_mem {a : Attrs} {name : String} (h : name ∉ a.entries.map Prod.fst) :
    a.get? name = none := by
  refine List.lookup_eq_none_iff.2 fun p hp => ?_
  have hne : name ≠ p.1 := fun heq => h (heq ▸ List.mem_map_of_mem hp)
  simpa using hne

namespace Compile

open Context Element

variable {c : Context}

theorem beside_setCurrent (el : Element) : Ensures c.Beside (setCurrent el) fun _ => True :=
  .modify fun _ h => ⟨h.scope, h.options, h.templates, h.written⟩

theorem beside_expand (el : Element) (attr s : String) : Ensures c.Beside (expand el attr s) (Expands c.env s) := by
  intro d hd
  have hrun : d.expand s = d.runExpr (Expr.expand c.env s) := by
    unfold Context.expand
    rw [hd.env]
  unfold expand
  rw [exec_evaluating, hrun]
  unfold Context.runExpr
  rcases hexpand : (Expr.expand c.env s).run d.dice with ⟨_ | v, dice⟩
  · exact ⟨⟨hd.scope, hd.options, hd.templates, hd.written⟩, fun _ h => nomatch h⟩
  · refine ⟨⟨hd.scope, hd.options, hd.templates, hd.written⟩, fun w hw => ?_⟩
    cases hw
    exact ⟨d.dice, dice, hexpand⟩

/-- Expanding one attribute settles it, and leaves the others. -/
theorem beside_expandAttr {el : Element} {p : String × String} (hp : el.get? p.1 = some p.2) :
    Ensures c.Beside (expandAttr el p) fun fl =>
      (∃ v, Expands c.env p.2 v ∧ fl.get? p.1 = some v) ∧ ∀ a, a ≠ p.1 → fl.get? a = el.get? a := by
  unfold expandAttr
  refine .bind (beside_expand el _ _) fun v hv => .pure ?_
  split
  · next heq => exact ⟨⟨v, hv, by rw [hp, eq_of_beq heq]⟩, fun _ _ => rfl⟩
  · refine ⟨⟨v, hv, ?_⟩, fun a ha => ?_⟩
    · rw [get?_set, if_pos rfl]
    · rw [get?_set, if_neg ha]

/-- Attributes are expanded one by one, each from the text that is written. -/
theorem beside_expandAttrs : ∀ {ps : List (String × String)} {el : Element}, (ps.map Prod.fst).Nodup →
    (∀ p ∈ ps, el.get? p.1 = some p.2) → Ensures c.Beside (ps.foldlM expandAttr el) fun fl =>
      ∀ a, (a ∈ ps.map Prod.fst → Filled c.env (el.get? a) none (fl.get? a)) ∧
        (a ∉ ps.map Prod.fst → fl.get? a = el.get? a)
  | [], el, _, _ => .pure fun a => ⟨fun h => absurd h List.not_mem_nil, fun _ => rfl⟩
  | p :: ps, el, hdistinct, hps => by
    obtain ⟨hnot, hdistinct⟩ := List.nodup_cons.1 hdistinct
    obtain ⟨hp, hps⟩ := List.forall_mem_cons.1 hps
    rw [List.foldlM_cons]
    refine .bind (beside_expandAttr hp) fun fl hfl => ?_
    obtain ⟨⟨v, hv, hget⟩, hrest⟩ := hfl
    have hne : ∀ q ∈ ps, q.1 ≠ p.1 := fun q hq heq => hnot (heq ▸ List.mem_map_of_mem hq)
    refine (beside_expandAttrs hdistinct fun q hq => by rw [hrest _ (hne q hq), hps q hq]).mono fun gl hgl a => ?_
    rw [List.map_cons, List.mem_cons]
    by_cases ha : a = p.1
    · subst ha
      rw [(hgl p.1).2 hnot, hget, hp]
      exact ⟨fun _ => .written hv _, fun h => absurd (.inl rfl) h⟩
    · rw [← hrest a ha]
      exact ⟨fun h => (hgl a).1 (h.resolve_left ha), fun h => (hgl a).2 fun hmem => h (.inr hmem)⟩

theorem beside_expandElement (el : Element) : Ensures c.Beside (expandElement el) fun fl =>
    fl.name = el.name ∧ ∀ a, Filled c.env (el.get? a) none (fl.get? a) := by
  have hfilled : Ensures c.Beside (expandElement el) fun fl => ∀ a, Filled c.env (el.get? a) none (fl.get? a) := by
    unfold expandElement
    refine .bind (beside_expandAttrs el.attrs.distinct el.attrs.get?_of_mem) fun fl hfl => ?_
    refine .bind (.mapM (Q := fun _ => True) fun s _ => .bind (beside_expand _ _ _) fun _ _ => .pure trivial)
      fun cs _ => .pure fun a => ?_
    rw [get?_addClasses]
    by_cases ha : a ∈ el.attrs.entries.map Prod.fst
    · exact (hfl a).1 ha
    · have hnone : el.get? a = none := Attrs.get?_eq_none_of_not_mem ha
      change Filled c.env (el.get? a) none (fl.get? a)
      rw [(hfl a).2 ha, hnone]
      exact .default none
  have hname := name_expandElement el
  exact fun d hd => ⟨(hfilled d hd).1, fun fl hfl => ⟨(hname d trivial).2 fl hfl, (hfilled d hd).2 fl hfl⟩⟩

/-- A prepared element has the expansions of what is written, and defaults for the rest. -/
theorem beside_prepare (el : Element) (order : Order) : Ensures c.Beside (prepare el order) fun fl =>
    ∀ a, Filled c.env (el.get? a) (c.scope.default? el.name a) (fl.get? a) := by
  unfold prepare
  refine .bind (beside_setCurrent _) fun _ _ => .bind (beside_expandElement { el with order := order }) fun fl hfl => ?_
  refine .bind .get fun d hd => .bind (.modify fun e he => he.markSeen _ _) fun _ _ => .pure fun a => ?_
  obtain ⟨hname, hfilled⟩ : fl.name = el.name ∧ ∀ a, Filled c.env (el.get? a) none (fl.get? a) := hfl
  have hfilled := hfilled a
  rw [Scope.get?_applyDefaults, hname, hd.scope]
  generalize el.get? a = written, fl.get? a = value at hfilled
  cases hfilled with
  | written h => exact .written h _
  | default => exact .default _

end Compile

end DiagramMarkup
