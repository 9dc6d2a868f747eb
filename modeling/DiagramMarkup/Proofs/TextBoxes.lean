import DiagramMarkup.Proofs.Fillings
import DiagramMarkup.Proofs.Shuffles

/-!
# Texts of text boxes

A text box is given its text in an attribute or as its content. Both ways are drawn alike, but for one thing: the
attribute is expanded with all others, and the content is taken as it is written.

1. Where the text of the attribute is expanded without the dice, preparing the element with and without it gives the
   same but for this attribute (`matches_prepare`).
2. The content is put where the attribute would be, so the two rectangles are shuffled (`shuffled_textBoxRect`), and
   they are drawn alike, since the attribute is taken off when the position is settled (`matches_shape`).
3. What a text box draws beside its rectangle are the lines of its text (`letters_shape`).
-/

namespace DiagramMarkup

open Element Compile DiagramMarkup.Expr

/-! ## Expansions without the dice -/

/-- The text is expanded to the value, and the dice rest. -/
def Expr.Amounts (env : Env) (s v : String) : Prop := ∀ dice, exec (expand env s) dice = (.ok v, dice)

theorem Expr.Amounts.eq {env : Env} {s v w : String} (h : Amounts env s v) (hw : Expands env s w) : w = v := by
  obtain ⟨dice, dice', hw⟩ := hw
  rw [h dice] at hw
  cases hw
  rfl

/-! ## Elements without an attribute -/

/-- The elements are the same but for an attribute. -/
abbrev Element.SameBut (a : String) (el fl : Element) : Prop := el.erase a = fl.erase a

section Erasing

variable {a : String}

theorem Attrs.erase_setDefault_congr {as bs : Attrs} (h : as.erase a = bs.erase a) (n v : String) :
    (as.setDefault n v).erase a = (bs.setDefault n v).erase a := by
  by_cases hn : n = a
  · have hself : ∀ as : Attrs, (as.setDefault a v).erase a = as.erase a := by
      intro as
      unfold setDefault
      split
      · rfl
      · exact erase_set_self a v as
    rw [hn, hself, hself, h]
  · have hhas : as.has n = bs.has n := by
      rw [has_eq_isSome, has_eq_isSome, ← get?_erase_of_ne hn, h, get?_erase_of_ne hn]
    unfold setDefault
    rw [hhas]
    split
    · exact h
    · rw [erase_set_of_ne hn, erase_set_of_ne hn, h]

theorem Attrs.erase_setDefaults_congr : ∀ (ps : List (String × String)) {as bs : Attrs}, as.erase a = bs.erase a →
    (ps.foldl (fun (as : Attrs) p => as.setDefault p.1 p.2) as).erase a =
      (ps.foldl (fun (as : Attrs) p => as.setDefault p.1 p.2) bs).erase a
  | [], _, _, h => h
  | p :: ps, _, _, h => erase_setDefaults_congr ps (erase_setDefault_congr h p.1 p.2)

theorem Element.erase_addClasses (cs : List String) (el : Element) :
    (el.addClasses cs).erase a = (el.erase a).addClasses cs := by
  have hone : ∀ (el : Element) (c : String), (el.addClass c).erase a = (el.erase a).addClass c := by
    intro el c
    have hhas : (el.erase a).hasClass c = el.hasClass c := rfl
    unfold Element.addClass
    rw [hhas]
    split <;> rfl
  unfold Element.addClasses
  induction cs generalizing el with
  | nil => rfl
  | cons c cs ih => rw [List.foldl_cons, List.foldl_cons, ih, hone]

theorem Scope.erase_fillFrom_congr {el fl : Element} (h : el.SameBut a fl) (d : Element) :
    (fillFrom el d).SameBut a (fillFrom fl d) := by
  have hmatch : (d.name != el.name && d.name != "_") = (d.name != fl.name && d.name != "_") := by
    rw [show el.name = fl.name from congrArg (·.name) h]
  have hfilled : ∀ (el : Element) (as : Attrs), (withAttrs el as).erase a = withAttrs (el.erase a) (as.erase a) :=
    fun _ _ => rfl
  unfold fillFrom
  rw [hmatch]
  split
  · exact h
  · rw [SameBut, erase_addClasses, erase_addClasses]
    refine congrArg (addClasses · d.classes) ((hfilled el _).trans (Eq.trans ?_ (hfilled fl _).symm))
    rw [h, Attrs.erase_setDefaults_congr _ (congrArg (·.attrs) h)]

/-- Defaults fill the same into elements that are the same but for an attribute, apart from this attribute. -/
theorem Scope.erase_applyDefaults_congr {el fl : Element} (h : el.SameBut a fl) (s : Scope) :
    (s.applyDefaults el).SameBut a (s.applyDefaults fl) := by
  unfold applyDefaults
  induction s.defaults.reverse generalizing el fl with
  | nil => exact h
  | cons d ds ih => exact ih (erase_fillFrom_congr h d)

end Erasing

/-! ## Preparing -/

/-- The contexts are the same but for the element at hand. -/
def Context.Facing (c d : Context) : Prop := ∃ current, d = { c with current := current }

/-- The contexts face each other, beside a third. -/
abbrev Context.Abreast (c d e : Context) : Prop := c.Beside d ∧ d.Facing e

theorem Context.Facing.refl (c : Context) : c.Facing c := ⟨c.current, rfl⟩

namespace Compile

variable {c : Context} {a : String} {el fl : Element}

theorem facing_setCurrent (el fl : Element) :
    Matches Failure.Alike Context.Facing Eq (setCurrent el) (setCurrent fl) := by
  refine .modify fun d e h => ?_
  obtain ⟨current, rfl⟩ := h
  exact ⟨_, rfl⟩

/-- Texts are expanded alike for all elements. -/
theorem facing_expand (el fl : Element) (attr s : String) :
    Matches Failure.Alike Context.Facing Eq (expand el attr s) (expand fl attr s) := by
  rintro d _ ⟨current, rfl⟩
  have hrun : ∀ d : Context, d.expand s = d.runExpr (Expr.expand d.env s) := fun _ => rfl
  have henv : Context.env { d with current := current } = d.env := rfl
  unfold expand
  rw [exec_evaluating, exec_evaluating, hrun, hrun, henv]
  unfold Context.runExpr
  rcases (Expr.expand d.env s).run d.dice with ⟨e | v, dice⟩
  · exact .error rfl ⟨_, rfl⟩
  · exact .ok rfl ⟨_, rfl⟩

theorem matches_setCurrent (el fl : Element) :
    Matches Failure.Alike c.Abreast Eq (setCurrent el) (setCurrent fl) :=
  ((facing_setCurrent el fl).ensured (beside_setCurrent el)).mono fun _ _ h => h.1

theorem matches_expand (el fl : Element) (attr s : String) :
    Matches Failure.Alike c.Abreast Eq (expand el attr s) (expand fl attr s) :=
  ((facing_expand el fl attr s).ensured (beside_expand el attr s)).mono fun _ _ h => h.1

/-- A text that is expanded without the dice leaves the context as it was. -/
theorem exec_expand_of_amounts {d : Context} {s v : String} (hd : c.Beside d) (h : Amounts c.env s v) (el : Element)
    (attr : String) : exec (expand el attr s) d = (.ok v, d) := by
  have hrun : d.expand s = d.runExpr (Expr.expand c.env s) := by
    unfold Context.expand
    rw [hd.env]
  have hexpand : (Expr.expand c.env s).run d.dice = (.ok v, d.dice) := h d.dice
  unfold expand
  rw [exec_evaluating, hrun]
  unfold Context.runExpr
  rw [hexpand]

/-- An attribute that is expanded without the dice may be left out. -/
theorem matches_expandAttrs : ∀ (ps : List (String × String)) {el fl : Element}, el.SameBut a fl →
    (∀ p ∈ ps, p.1 = a → ∃ v, Amounts c.env p.2 v) →
    Matches Failure.Alike c.Abreast (SameBut a) (ps.foldlM expandAttr el) ((ps.filter (·.1 != a)).foldlM expandAttr fl)
  | [], _, _, h, _ => .pure h
  | p :: ps, el, fl, h, hps => by
    obtain ⟨hp, hps⟩ := List.forall_mem_cons.1 hps
    have hset : ∀ (el : Element) (v : String), (if v == p.2 then el else el.set p.1 v).erase a =
        if v == p.2 then el.erase a else (el.set p.1 v).erase a := fun el v => apply_ite (Element.erase · a) _ _ _
    rw [List.foldlM_cons]
    by_cases ha : p.1 = a
    · -- the attribute itself, for which the second run has no step
      obtain ⟨v, hv⟩ := hp ha
      rw [List.filter_cons_of_neg (by simpa using ha)]
      intro d e hde
      have hstep : exec (expandAttr el p) d = (.ok (if v == p.2 then el else el.set p.1 v), d) := by
        unfold expandAttr
        rw [exec_bind_ok (exec_expand_of_amounts hde.1 hv el p.1)]
        rfl
      rw [exec_bind_ok hstep]
      refine matches_expandAttrs ps ?_ hps d e hde
      rw [SameBut, hset, ha, erase_set_self, ite_self, h]
    · rw [List.filter_cons_of_pos (by simpa using ha), List.foldlM_cons]
      have hstep : Matches Failure.Alike c.Abreast (SameBut a) (expandAttr el p) (expandAttr fl p) := by
        refine .after (matches_expand el fl p.1 p.2) fun v => .pure ?_
        rw [SameBut, hset, hset, erase_set_of_ne ha, erase_set_of_ne ha, h]
      exact hstep.bind fun el fl h => matches_expandAttrs ps h hps

theorem matches_expandElement (el : Element) (h : ∀ s, el.get? a = some s → ∃ v, Amounts c.env s v) :
    Matches Failure.Alike c.Abreast (SameBut a) (expandElement el) (expandElement (el.erase a)) := by
  have hwritten : ∀ p ∈ el.attrs.entries, p.1 = a → ∃ v, Amounts c.env p.2 v := fun p hp ha =>
    h p.2 (ha ▸ el.attrs.get?_of_mem p hp)
  have hgone : (el.erase a).get? a = none := (get?_erase el a a).trans (if_pos rfl)
  have hself : el.SameBut a (el.erase a) := (erase_eq_self hgone).symm
  unfold expandElement
  refine (matches_expandAttrs _ hself hwritten).bind fun fl gl h => ?_
  have hclasses : fl.classes = gl.classes := congrArg (·.classes) h
  rw [hclasses]
  refine .after (.mapM (fun s => .after (matches_expand fl gl "class" s) fun v => .pure rfl) _) fun cs => .pure ?_
  rw [SameBut, erase_addClasses, erase_addClasses]
  exact congrArg (fun el => addClasses { el with classes := [] } _) h

/-- An element is prepared alike with and without an attribute that is expanded without the dice. -/
theorem matches_prepare (ha : a ≠ "id") (el : Element) (order : Order)
    (h : ∀ s, el.get? a = some s → ∃ v, Amounts c.env s v) :
    Matches Failure.Alike c.Abreast (SameBut a) (prepare el order) (prepare (el.erase a) order) := by
  unfold prepare
  refine .after (matches_setCurrent _ _) fun _ => ?_
  refine (matches_expandElement { el with order := order } h).bind fun fl gl h => .read fun d e hde => ?_
  obtain ⟨-, current, rfl⟩ := hde
  have hfilled := Scope.erase_applyDefaults_congr h d.scope
  have hid : (d.scope.applyDefaults fl).id = (d.scope.applyDefaults gl).id := by
    have hget := congrArg (Element.get? · "id") hfilled
    simp only [get?_erase, if_neg ha.symm] at hget
    exact congrArg (Option.getD · "") hget
  refine .after (.modify fun d e hde => ?_) fun _ => .pure hfilled
  obtain ⟨hbeside, current, rfl⟩ := hde
  refine ⟨hbeside.markSeen _ _, ?_⟩
  rw [hid]
  unfold Context.markSeen
  split
  · exact ⟨_, rfl⟩
  · exact ⟨_, rfl⟩

end Compile

/-! ## Drawing -/

namespace Figure

variable {el fl : Element} {children : List Node} {t : String}

/-- The text of a text box: that of its attribute, or else its content. -/
def textOf (el : Element) (children : List Node) : String :=
  (el.get? "text").getD ("\n".intercalate (Label.linesOf (Node.eventsAll children)))

/-- The rectangle of a text box with its text in the attribute. -/
def lettered (el : Element) (children : List Node) : Element :=
  let el' : Element := { el with name := "rect" }
  match el.get? "text" with
  | some _ => el'
  | none => el'.set "text" (textOf el children)

/-- A rectangle that is given a size for its text, unless it has one. -/
def fitted (o : Options) (t : String) (el : Element) : Element :=
  if el.has "wh" || el.has "width" || el.has "height" then el
  else
    let wh := Label.size (Label.splitLines t) (Label.fontSize o el)
    (el.setNumber "width" (wh.x + 2 * padding)).setNumber "height" (wh.y + 2 * padding)

theorem textBoxRect_eq (o : Options) (el : Element) (children : List Node) :
    textBoxRect o el children = fitted o (textOf el children) (lettered el children) := by
  have hget : Element.get? { el with name := "rect" } "text" = el.get? "text" := rfl
  unfold textBoxRect fitted lettered textOf
  cases h : el.get? "text" with
  | none => simp only [hget, h, Option.getD_none]
  | some t => simp only [hget, h, Option.getD_some]

theorem get?_lettered (el : Element) (children : List Node) :
    (lettered el children).get? "text" = some (textOf el children) := by
  unfold lettered
  cases h : el.get? "text" with
  | none => exact (get?_set _ _ _ _).trans (if_pos rfl)
  | some t =>
    unfold textOf
    rw [h]
    exact h

theorem erase_lettered (el : Element) (children : List Node) :
    (lettered el children).erase "text" = { el.erase "text" with name := "rect" } := by
  unfold lettered
  cases el.get? "text" with
  | none => exact erase_set_self _ _ _
  | some t => rfl

theorem fontSize_of_shuffled {a : String} (h : Shuffled a el fl) (o : Options) :
    Label.fontSize o el = Label.fontSize o fl := by
  unfold Label.fontSize Element.hasClass
  rw [h.number, h.classes]

theorem shuffled_fitted {a : String} (h : Shuffled a el fl) (o : Options) (t : String) :
    Shuffled a (fitted o t el) (fitted o t fl) := by
  unfold Figure.fitted
  rw [h.has, h.has, h.has, fontSize_of_shuffled h]
  split
  · exact h
  · exact (h.setNumber _ _).setNumber _ _

/-- Text boxes that are the same but for where their text stands become shuffled rectangles. -/
theorem shuffled_textBoxRect (h : el.SameBut "text" fl) {children' : List Node}
    (ht : textOf el children = textOf fl children') (o : Options) :
    Shuffled "text" (textBoxRect o el children) (textBoxRect o fl children') := by
  rw [textBoxRect_eq, textBoxRect_eq, ht]
  refine shuffled_fitted ⟨?_, ?_⟩ o _
  · rw [erase_lettered, erase_lettered, h]
  · rw [get?_lettered, get?_lettered, ht]

/-- The text is taken off shuffled elements alike, and what is left is the same. -/
theorem take_of_shuffled (h : Shuffled "text" el fl) : Label.take el = Label.take fl := by
  have hbare : el.eraseAll Label.attributes = fl.eraseAll Label.attributes :=
    congrArg (Element.eraseAll · ["text-loc", "text-dx", "text-dy", "text-style"]) h.rest
  unfold Label.take
  simp only [h.get?, h.name, h.rest, hbare]

/-- Lookups for different elements differ at most in the element that a failure names. -/
theorem alike_boxOf {c d : Context} (h : c.Facing d) : Position.Alike c.boxOf d.boxOf := by
  obtain ⟨current, rfl⟩ := h
  intro t
  unfold Context.boxOf Context.lookup
  split
  · cases c.prev with
    | none => rfl
    | some o =>
      simp only
      rcases c.registry.byOrder.lookup o with _ | ⟨_, _ | b⟩ <;> rfl
  · split
    · next d rest _ => rcases c.registry.byId.lookup (String.ofList (d :: rest)) with _ | ⟨_, _ | b⟩ <;> rfl
    · rfl

/-- After the element at hand is set, two runs are the same. -/
theorem matches_of_setCurrent {α : Type} (el : Element) (m : Compile α) :
    Matches Failure.Alike Context.Facing Eq (setCurrent el >>= fun _ => m) (setCurrent el >>= fun _ => m) := by
  rintro c _ ⟨current, rfl⟩
  have hset : ∀ c : Context, exec (setCurrent el >>= fun _ => m) c = exec m { c with current := some el } :=
    fun _ => rfl
  rw [hset, hset]
  change Matched _ _ _ (exec m { c with current := some el }) (exec m { c with current := some el })
  rcases exec m { c with current := some el } with ⟨e | a, d⟩
  · exact .error rfl (.refl d)
  · exact .ok rfl (.refl d)

theorem expandPath_rect (hname : el.name = "rect") (o : Options) : expandPath o el = .ok el := by
  unfold expandPath
  rw [hname]
  rfl

theorem connect_rect (hname : el.name = "rect") (refs : Position.Referrer Float) :
    Connector.connect refs el = .ok el := by
  unfold Connector.connect Connector.isConnector
  rw [hname]
  rfl

/-- A rectangle is drawn alike wherever its text stands among its attributes. -/
theorem matches_shape (hname : el.name = "rect") (h : Shuffled "text" el fl) (inside : Inside) :
    Matches Failure.Alike Context.Facing Eq (shape setCurrent inside el []) (shape setCurrent inside fl []) := by
  have hname' : fl.name = "rect" := h.name ▸ hname
  unfold shape
  refine .read fun c d hcd => ?_
  rw [expandPath_rect hname, expandPath_rect hname']
  refine .known <| .after (facing_setCurrent el fl) fun _ => .read fun c d hcd => ?_
  rw [connect_rect hname, connect_rect hname']
  refine .known <| .after (facing_setCurrent el fl) fun _ => .read fun c d hcd => ?_
  refine (Position.matches_resolve (alike_boxOf hcd) h).bind fun el fl h => ?_
  rw [take_of_shuffled h]
  exact .after (.ofExcept Failure.Alike.refl _) fun r => matches_of_setCurrent _ _

end Figure

/-! ## Labels -/

/-- The drawing is a shape with the lines of text as its label. -/
def Drawing.Letters (ls : List String) (d : Drawing) : Prop :=
  ∃ out content l, l.lines = ls ∧ d.events = Event.wrap out content ++ (Figure.attached out (some l) d.box).events

namespace Figure

variable {el : Element} {children : List Node} {t : String}

/-- A rectangle that carries a text. -/
def Carries (t : String) (el : Element) : Prop := el.name = "rect" ∧ el.get? "text" = some t

theorem stable_carries (t : String) : Stable (· ≠ "text") (Carries t) := by
  refine ⟨fun {el n} v hn h => ⟨h.1, ?_⟩, fun {el n} hn h => ⟨h.1, ?_⟩⟩
  · rw [get?_set, if_neg hn.symm, h.2]
  · rw [get?_erase, if_neg hn.symm, h.2]

theorem lines_of_take (h : Carries t el) {r : Option Label × Element} (hr : Label.take el = .ok r) :
    r.2.name = "rect" ∧ ∃ l, r.1 = some l ∧ l.lines = Label.splitLines t := by
  obtain ⟨hname, ht⟩ := h
  have htext : (el.name == "text") = false := by rw [hname]; rfl
  unfold Label.take at hr
  simp only [htext, ht, Bool.false_eq_true, if_false] at hr
  obtain ⟨loc, -, hr⟩ := except_bind_eq_ok hr
  obtain ⟨dx, -, hr⟩ := except_bind_eq_ok hr
  obtain ⟨dy, -, hr⟩ := except_bind_eq_ok hr
  cases hr
  refine ⟨(name_eraseAll el Label.attributes).trans hname, _, rfl, ?_⟩
  simp only

/-- A rectangle with a text is drawn with the lines of the text. -/
theorem letters_shape (h : Carries t el) (inside : Inside) (note : Element → Compile Unit) :
    Yields (shape note inside el children) (Drawing.Letters (Label.splitLines t)) := by
  unfold shape
  refine .after fun c => .bind (R := Carries t) (.ofExcept fun fl hr =>
    (asks_expandPath (stable_carries t) (by decide) h _).result hr) fun el h => ?_
  refine .after fun _ => .after fun c => .bind (R := Carries t) (.ofExcept fun fl hr =>
    ((Connector.asks_connect (stable_carries t) (by decide) el h).ok (fun _ => c.boxOf) fl hr).1) fun el h => ?_
  refine .after fun _ => .after fun c => .bind (R := Carries t) (.ofExcept fun fl hr =>
    ((Position.asks_resolve (stable_carries t) (by decide) el el h).ok (fun _ => c.boxOf) fl hr).1) fun el h => ?_
  refine .bind (R := fun r => r.2.name = "rect" ∧ ∃ l, r.1 = some l ∧ l.lines = Label.splitLines t)
    (.ofExcept fun r hr => lines_of_take h hr) fun r hr => ?_
  obtain ⟨hname, l, hl, hlines⟩ := hr
  refine .after fun _ => .after fun inner => .after fun c => ?_
  refine .bind (R := fun s => Drawing.Letters (Label.splitLines t) ⟨Event.wrap s.element s.content ++ s.beside, s.box⟩)
    (.ofExcept fun s hs => ?_) fun s hs => .after fun _ => .after fun _ => .after fun _ => .pure hs
  have htext : (r.2.name == "text") = false := by rw [hname]; rfl
  unfold measured at hs
  rw [htext] at hs
  obtain ⟨box, -, hs⟩ := except_bind_eq_ok hs
  obtain ⟨fl, -, hs⟩ := except_bind_eq_ok hs
  cases hs
  exact ⟨fl, _, l, hlines, by rw [hl]⟩

theorem carries_textBoxRect (o : Options) (el : Element) (children : List Node) :
    Carries (textOf el children) (textBoxRect o el children) := by
  refine ⟨name_textBoxRect o el children, ?_⟩
  rw [textBoxRect_eq]
  unfold fitted
  split
  · exact get?_lettered el children
  · change ((Element.set _ _ _).set _ _).get? "text" = _
    rw [get?_set, if_neg (by decide), get?_set, if_neg (by decide), get?_lettered]

/-- A text box is drawn with the lines of its text. -/
theorem letters_textBox (inside : Inside) (el : Element) (children : List Node) :
    Yields (textBox inside el children) (Drawing.Letters (Label.splitLines (textOf el children))) := by
  unfold textBox
  exact .after fun c => .after fun _ => letters_shape (carries_textBoxRect _ _ _) inside setCurrent

/-- Text boxes that are the same but for where their text stands are drawn alike. -/
theorem matches_textBox {fl : Element} (h : el.SameBut "text" fl) {children' : List Node}
    (ht : textOf el children = textOf fl children') (inside : Inside) :
    Matches Failure.Alike Context.Facing Eq (textBox inside el children) (textBox inside fl children') := by
  unfold textBox
  refine .read fun c d hcd => ?_
  obtain ⟨current, rfl⟩ := hcd
  exact .after (facing_setCurrent _ _) fun _ =>
    matches_shape (name_textBoxRect _ _ _) (shuffled_textBoxRect h ht _) inside

end Figure

/-! ## Text boxes with content -/

section TextBoxes

variable {turns levels : Nat} {el fl : Element} {order : Order} {c c' : Context} {s t : String}

/-- The text is a single line, which neither starts nor ends with a blank. -/
structure IsLine (t : String) : Prop where
  single : '\n' ∉ t.toList
  trimmed : Text.trim t = t
  filled : t ≠ ""

/-- A text without separators is one piece. -/
theorem Text.splitWhere_of_not_mem {sep : Char → Bool} : ∀ {cs : List Char}, (∀ c ∈ cs, sep c = false) →
    splitWhere sep cs = [cs]
  | [], _ => rfl
  | c :: cs, h => by
    obtain ⟨hc, hcs⟩ := List.forall_mem_cons.1 h
    rw [splitWhere, if_neg (by rw [hc]; decide), splitWhere_of_not_mem hcs]

/-- A line is read off content as it is. -/
theorem IsLine.linesOf (h : IsLine t) : Label.linesOf (Node.eventsAll [.leaf (.text t)]) = [t] := by
  have hnone : ∀ c ∈ t.toList, (c == '\n') = false := fun c hc => beq_false_of_ne fun heq => h.single (heq ▸ hc)
  have hsplit : Text.splitAt '\n' t = [t] := by
    unfold Text.splitAt
    rw [Text.splitWhere_of_not_mem hnone, List.map_singleton, String.ofList_toList]
  change ((Text.splitAt '\n' t).map Text.trim).filter (· != "") ++ [] = [t]
  rw [hsplit, List.map_singleton, h.trimmed, List.filter_cons_of_pos (by simpa using h.filled)]
  rfl

/-- A text box whose attribute is written has the expansion of the attribute as its text. -/
theorem exists_textOf_prepared (hs : el.get? "text" = some s) (h : exec (prepare el order) c = (.ok fl, c')) :
    ∃ v, Expands c.env s v ∧ ∀ children, Figure.textOf fl children = v := by
  have hfilled := ((beside_prepare el order).of_exec (.refl c) h).2 "text"
  rw [hs] at hfilled
  obtain ⟨v, hv, hexpands⟩ := hfilled.of_written
  refine ⟨v, hexpands, fun children => ?_⟩
  unfold Figure.textOf
  rw [hv, Option.getD_some]

/-- A text box with a line as its content has this line as its text, unless there is a default. -/
theorem textOf_prepared (ht : IsLine t) (h : exec (prepare (el.erase "text") order) c = (.ok fl, c')) :
    Figure.textOf fl [.leaf (.text t)] = (c.scope.default? el.name "text").getD t := by
  have hfilled := ((beside_prepare (el.erase "text") order).of_exec (.refl c) h).2 "text"
  have hname : (el.erase "text").name = el.name := rfl
  rw [get?_erase, if_pos rfl, hname] at hfilled
  unfold Figure.textOf
  rw [ht.linesOf]
  generalize fl.get? "text" = value at hfilled
  cases hfilled
  rfl

theorem exec_drawElement_textBox (hrole : Role.ofName el.name = .textBox) (children : List Node) :
    exec (drawElement turns (levels + 1) el children order) c =
      exec (do
        let fl ← prepare el order
        Figure.textBox (Siblings.draw (drawNode (drawElement turns levels))) fl children) c := by
  unfold drawElement
  simp only [hrole]

/-- The text in the attribute is drawn expanded. -/
theorem letters_attribute (hrole : Role.ofName el.name = .textBox) (hs : el.get? "text" = some s) {d : Drawing}
    (h : exec (drawElement turns levels el [] order) c = (.ok d, c')) :
    ∃ v, Expands c.env s v ∧ d.Letters (Label.splitLines v) := by
  cases levels with
  | zero => cases h
  | succ levels =>
    rw [exec_drawElement_textBox hrole] at h
    obtain ⟨fl, c₁, hfl, h⟩ := exec_bind_eq_ok h
    obtain ⟨v, hv, htext⟩ := exists_textOf_prepared hs hfl
    refine ⟨v, hv, ?_⟩
    rw [← htext []]
    exact ((Figure.letters_textBox _ fl []).of_exec trivial h).2

/-- The content is drawn as it is written, unless there is a default for the attribute. -/
theorem letters_content (hrole : Role.ofName el.name = .textBox) (ht : IsLine t) {d : Drawing}
    (h : exec (drawElement turns levels (el.erase "text") [.leaf (.text t)] order) c = (.ok d, c')) :
    d.Letters (Label.splitLines ((c.scope.default? el.name "text").getD t)) := by
  have hrole' : Role.ofName (el.erase "text").name = .textBox := hrole
  cases levels with
  | zero => cases h
  | succ levels =>
    rw [exec_drawElement_textBox hrole'] at h
    obtain ⟨fl, c₁, hfl, h⟩ := exec_bind_eq_ok h
    rw [← textOf_prepared ht hfl]
    exact ((Figure.letters_textBox _ fl _).of_exec trivial h).2

/-- Both ways to give the text are drawn alike if the expansion of the attribute is what is drawn for the content. -/
theorem matched_content (hrole : Role.ofName el.name = .textBox) (hs : el.get? "text" = some s) (ht : IsLine t)
    (hamounts : Amounts c.env s ((c.scope.default? el.name "text").getD t)) :
    Matched Failure.Alike Context.Facing Eq (exec (drawElement turns levels el [] order) c)
      (exec (drawElement turns levels (el.erase "text") [.leaf (.text t)] order) c) := by
  have hrole' : Role.ofName (el.erase "text").name = .textBox := hrole
  cases levels with
  | zero => exact .error rfl (.refl c)
  | succ levels =>
    rw [exec_drawElement_textBox hrole, exec_drawElement_textBox hrole', exec_bind, exec_bind]
    have hwritten : ∀ u, el.get? "text" = some u → ∃ v, Amounts c.env u v := fun u hu => by
      rw [hs] at hu
      cases hu
      exact ⟨_, hamounts⟩
    have hprepare := matches_prepare (a := "text") (by decide) el order hwritten c c ⟨.refl c, .refl c⟩
    rcases hel : exec (prepare el order) c with ⟨r, d⟩
    rcases hfl : exec (prepare (el.erase "text") order) c with ⟨r', d'⟩
    rw [hel, hfl] at hprepare
    cases hprepare with
    | error he hd => exact .error he hd.2
    | ok h hd =>
      obtain ⟨v, hv, htext⟩ := exists_textOf_prepared hs hel
      refine Figure.matches_textBox h ?_ _ d d' hd.2
      rw [htext, hamounts.eq hv, textOf_prepared ht hfl]

/-- A line that holds nothing to replace may be given by the attribute or by content, unless there is a default. -/
theorem matched_bare (hrole : Role.ofName el.name = .textBox) (ht : IsLine t) (hbare : hasTemplate t = false)
    (hs : el.get? "text" = some t) (hdefault : c.scope.default? el.name "text" = none) :
    Matched Failure.Alike Context.Facing Eq (exec (drawElement turns levels el [] order) c)
      (exec (drawElement turns levels (el.erase "text") [.leaf (.text t)] order) c) := by
  refine matched_content hrole hs ht ?_
  rw [hdefault]
  exact exec_expand_of_bare hbare

/-- How text boxes are drawn whose text is given by the attribute, or by a line of content.

The attribute is drawn expanded. The content is drawn as it is written, or not at all if there is a default for the
attribute. So both ways have the same result, or fail alike, where the expansion of the attribute is what is drawn for
the content. -/
theorem textBox_texts (hrole : Role.ofName el.name = .textBox) (hs : el.get? "text" = some s) (ht : IsLine t) :
    (Amounts c.env s ((c.scope.default? el.name "text").getD t) → Matched Failure.Alike Context.Facing Eq
      (exec (drawElement turns levels el [] order) c)
      (exec (drawElement turns levels (el.erase "text") [.leaf (.text t)] order) c)) ∧
    (∀ d c', exec (drawElement turns levels el [] order) c = (.ok d, c') →
      ∃ v, Expands c.env s v ∧ d.Letters (Label.splitLines v)) ∧
    (∀ d c', exec (drawElement turns levels (el.erase "text") [.leaf (.text t)] order) c = (.ok d, c') →
      d.Letters (Label.splitLines ((c.scope.default? el.name "text").getD t))) :=
  ⟨matched_content hrole hs ht, fun _ _ => letters_attribute hrole hs, fun _ _ => letters_content hrole ht⟩

/-- A text box with its text in the attribute. -/
def caption (t : String) : Element := .ofAttrs "tbox" [("text", t), ("x", "0"), ("y", "0")]

/-- A colour as a variable, and a default for text boxes. -/
def slate : Context :=
  { Context.new {} with
    scope := { globals := [("a", "red")], defaults := [.ofAttrs "tbox" [("fill", "none")]] } }

/-- The lines that are drawn for an element on the slate. -/
def onSlate (el : Element) (children : List Node) : Option (List String) :=
  (exec (drawElement 0 1 el children ⟨[0]⟩) slate).1.toOption.map fun d => Label.linesOf d.events

theorem textBox_texts_oneVariable :
    ∃ d c' v, exec (drawElement 0 1 (caption "$a") [] ⟨[0]⟩) slate = (.ok d, c') ∧ Expands slate.env "$a" v ∧
      d.Letters (Label.splitLines v) ∧ Matched Failure.Alike Context.Facing Eq
        (exec (drawElement 0 1 (caption "$a") [] ⟨[0]⟩) slate)
        (exec (drawElement 0 1 ((caption "$a").erase "text") [.leaf (.text "red")] ⟨[0]⟩) slate) := by
  have hline : IsLine "red" := ⟨by decide, by decide, by decide⟩
  have hamounts : Amounts slate.env "$a" ((slate.scope.default? (caption "$a").name "text").getD "red") := by
    have hvalue : substitute slate.env.var? "$a" = "red" := by decide +kernel
    intro dice
    rw [exec_expand_of_plain (by decide), hvalue]
    rfl
  have hdrawn : onSlate (caption "$a") [] = some ["red"] := by decide +kernel
  unfold onSlate at hdrawn
  obtain ⟨hmatched, hattribute, -⟩ :=
    @textBox_texts 0 1 (caption "$a") ⟨[0]⟩ slate "$a" "red" (by decide) rfl hline
  rcases hrun : exec (drawElement 0 1 (caption "$a") [] ⟨[0]⟩) slate with ⟨_ | d, c'⟩
  · rw [hrun] at hdrawn
    cases hdrawn
  · obtain ⟨v, hv, hletters⟩ := hattribute d c' hrun
    rw [hrun] at hmatched
    exact ⟨d, c', v, rfl, hv, hletters, hmatched hamounts⟩

/-- A variable in the attribute is replaced, and a variable in the content is not. -/
theorem exists_content_unexpanded :
    onSlate (caption "$a") [] = some ["red"] ∧
      onSlate ((caption "$a").erase "text") [.leaf (.text "$a")] = some ["$a"] := by
  constructor <;> decide +kernel

end TextBoxes

end DiagramMarkup
