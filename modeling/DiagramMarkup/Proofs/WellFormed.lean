import Mathlib.Data.List.Nodup
import DiagramMarkup.Proofs.Cascade
import DiagramMarkup.Proofs.Deferrals
import DiagramMarkup.Proofs.Roles

/-!
# Compiled documents are well formed

1. Styles put onto an element keep the names of tags and give no attribute named `class`.
2. The drawing of the root is sound, so what `assemble?` wraps around it nests.
3. Content is never deferred at the root: what waits in vain is listed, and the list becomes an error.
-/

namespace DiagramMarkup

open Element

/-! ## Automatic styles -/

namespace Css

variable {ok : String → Prop}

theorem names_put {ps : Properties} {name : String} (hn : ok name) (v : Value)
    (h : ∀ p ∈ ps, ok p.1) : ∀ p ∈ ps.put name v, ok p.1 := by
  induction ps with
  | nil => simpa [Properties.put] using hn
  | cons q ps ih =>
    obtain ⟨hq, hps⟩ := List.forall_mem_cons.1 h
    unfold Properties.put
    split
    · exact List.forall_mem_cons.2 ⟨hn, hps⟩
    · exact List.forall_mem_cons.2 ⟨hq, ih hps⟩

theorem names_putAll {β : Type} {f : β → String × Value} {bs : List β}
    (hb : ∀ b ∈ bs, ok (f b).1) : ∀ {ps : Properties}, (∀ p ∈ ps, ok p.1) →
    ∀ p ∈ bs.foldl (fun ps b => Properties.put ps (f b).1 (f b).2) ps, ok p.1 := by
  induction bs with
  | nil => exact fun h => h
  | cons b bs ih =>
    obtain ⟨hb, hbs⟩ := List.forall_mem_cons.1 hb
    exact fun h => ih hbs (names_put hb _ h)

namespace Sheet

/-- The properties of all rules have admitted names. -/
def Named (ok : String → Prop) (s : Sheet) : Prop := ∀ r ∈ s.rules, ∀ p ∈ r.properties, ok p.1

theorem named_empty : Named ok {} := by simp [Named, rules]

theorem Named.add {s : Sheet} (h : s.Named ok) (selector : String) {decls : List (String × String)}
    (hd : ∀ d ∈ decls, ok d.1) : (s.add selector decls).Named ok := by
  have hr : (s.add selector decls).rules = s.rules ++ [⟨(Selector.parse selector).1,
      decls.foldl (fun ps d => Properties.put ps d.1 (.ofText d.2)) []⟩] := by
    simp [Sheet.add, rules]
  intro r hmem
  rw [hr] at hmem
  rcases List.mem_append.1 hmem with hmem | hmem
  · exact h r hmem
  · rw [List.mem_singleton.1 hmem]
    exact names_putAll (f := fun d : String × String => (d.1, Value.ofText d.2)) hd (by simp)

/-- What the rules say about an element is said with admitted names. -/
theorem Named.inline {s : Sheet} (h : s.Named ok) (name : String) (classes : List String) :
    ∀ p ∈ s.inline name classes, ok p.1 := by
  have ranked : ∀ {rs acc : List Rule}, (∀ r ∈ rs, ∀ p ∈ r.properties, ok p.1) →
      (∀ r ∈ acc, ∀ p ∈ r.properties, ok p.1) →
      ∀ r ∈ rs.foldl (fun acc r => insertByRank r acc) acc, ∀ p ∈ r.properties, ok p.1 := by
    intro rs
    induction rs with
    | nil => exact fun _ hacc => hacc
    | cons r rs ih =>
      intro acc hrs hacc
      obtain ⟨hr, hrs⟩ := List.forall_mem_cons.1 hrs
      refine ih hrs fun q hq => ?_
      rcases mem_insertByRank hq with rfl | hq
      · exact hr
      · exact hacc q hq
  have gathered : ∀ {rs : List Rule} {ps : Properties}, (∀ r ∈ rs, ∀ p ∈ r.properties, ok p.1) →
      (∀ p ∈ ps, ok p.1) → ∀ p ∈ rs.foldl
        (fun ps r => r.properties.foldl (fun ps p => Properties.put ps p.1 p.2) ps) ps, ok p.1 := by
    intro rs
    induction rs with
    | nil => exact fun _ hps => hps
    | cons r rs ih =>
      intro ps hrs hps
      obtain ⟨hr, hrs⟩ := List.forall_mem_cons.1 hrs
      exact ih hrs (names_putAll (f := fun p => p) hr hps)
  intro p hp
  obtain ⟨q, hq, rfl⟩ := List.mem_map.1 hp
  refine gathered (ranked (fun r hr => h r (List.mem_filter.1 hr).1) (by simp)) (by simp) q hq

end Sheet

end Css

theorem Theme.names_autoRules (p : Palette) (fontSize : Float) (fontFamily : String) :
    ∀ r ∈ autoRules p fontSize fontFamily, ∀ d ∈ r.decls, d.1 ≠ "class" := by
  have element : ∀ r ∈ elementRules p fontSize fontFamily, ∀ d ∈ r.decls, d.1 ≠ "class" := by
    unfold elementRules
    by_cases h : p.fillOpacity == "" <;> simp [h, or_imp, forall_and]
  have cls : ∀ r ∈ classRules p fontSize, ∀ d ∈ r.decls, d.1 ≠ "class" := by
    simp [classRules, or_imp, forall_and]
  have color : ∀ r ∈ colorRules, ∀ d ∈ r.decls, d.1 ≠ "class" := by
    unfold colorRules
    simp only [List.forall_mem_flatMap]
    simp
  unfold autoRules
  rw [List.forall_mem_append, List.forall_mem_append]
  exact ⟨⟨element, cls⟩, color⟩

namespace Styles

variable {ok : String → Prop}

/-- The automatic rules give no attribute named `class`, and the definitions have admitted names. -/
structure Sound (ok : String → Prop) (s : Styles) : Prop where
  auto : s.auto.Named (· ≠ "class")
  defs : ∀ n ∈ s.defs, n.Fits (Named ok)

theorem named_automatic (o : Options) (mode : StyleMode) (names classes : List String) :
    (automatic o mode names classes).1.Named (· ≠ "class") := by
  have fold : ∀ {rs : List Theme.AutoRule} {s : Css.Sheet}, (∀ r ∈ rs, ∀ d ∈ r.decls, d.1 ≠ "class") →
      s.Named (· ≠ "class") → (rs.foldl (fun (s : Css.Sheet) r => s.add r.selector r.decls) s).Named
        (· ≠ "class") := by
    intro rs
    induction rs with
    | nil => exact fun _ hs => hs
    | cons r rs ih =>
      intro s hrs hs
      obtain ⟨hr, hrs⟩ := List.forall_mem_cons.1 hrs
      exact ih hrs (hs.add _ hr)
  unfold automatic
  refine fold (fun r hr => Theme.names_autoRules _ _ _ r (List.mem_filter.1 hr).1) ?_
  split
  · exact Css.Sheet.named_empty.add _ (by simp)
  · exact Css.Sheet.named_empty

theorem fits_arrowMarker (hok : ∀ n, n ≠ "class" → ok n) (p : Theme.Palette) (mode : StyleMode) :
    (arrowMarker p mode).Fits (Named ok) := by
  refine Node.fits_element.2 ⟨named_ofAttrs _ fun _ _ h => hok _ h, fun n hn => ?_⟩
  rw [List.mem_singleton.1 hn]
  refine Node.fits_element.2 ⟨?_, by simp⟩
  have head : Named ok (Element.ofAttrs "polygon"
      [("class", "d-arrow-head"), ("points", "0 1, 10 5, 0 9")]) :=
    named_ofAttrs _ fun _ _ h => hok _ h
  split
  · exact (head.set (hok _ (by decide)) _).set (hok _ (by decide)) _
  · exact head

theorem sound_build (hok : ∀ n, n ≠ "class" → ok n) {o : Options} {names classes : List String}
    {s : Styles} (h : build? o names classes = some s) : s.Sound ok := by
  unfold build? at h
  generalize (if o.addAutoStyles then o.styleMode else .none) = mode at h
  simp only at h
  split at h
  · cases h
  split at h
  · cases h
    exact ⟨Css.Sheet.named_empty, by simp⟩
  · cases h
    refine ⟨named_automatic o mode names classes, ?_⟩
    unfold automatic
    simp only
    split
    · simpa using fits_arrowMarker hok _ mode
    · simp

theorem name_apply (s : Styles) (el : Element) : (s.apply el).name = el.name := by
  unfold apply
  split
  · rfl
  · simp only
    split <;> rfl

theorem Sound.named_apply (hok : ∀ n, n ≠ "class" → ok n) {s : Styles} (h : s.Sound ok)
    {el : Element} (hel : Named ok el) : Named ok (s.apply el) := by
  unfold apply
  split
  · exact hel
  have props : ∀ p ∈ Css.Sheet.sortNames (s.auto.inline el.name el.classes), ok p.1 := fun p hp =>
    hok _ (h.auto.inline _ _ p (List.mem_mergeSort.1 hp))
  simp only [List.partition_eq_filter_filter]
  have plain := fun q => hel.setDefaults
    fun p (hp : p ∈ (Css.Sheet.sortNames (s.auto.inline el.name el.classes)).filter q) =>
      props p (List.mem_filter.1 hp).1
  split
  · exact plain _
  · exact (plain _).set (hok _ (by decide)) _

theorem Sound.sound_events {s : Styles} (h : s.Sound ok) : Event.Sound ok s.events := by
  unfold events
  refine .append ?_ ?_
  · split
    · exact Event.sound_nil
    · exact (Event.sound_leaf _).wrap (named_bare "style")
  · split
    · exact Event.sound_nil
    · exact ⟨⟨_, Node.nests_events _⟩, Node.fits_element.2 ⟨named_bare "defs", h.defs⟩⟩

end Styles

/-! ## The root -/

theorem Element.keeps_addClasses (el : Element) (cs : List String) :
    (el.addClasses cs).name = el.name ∧ (el.addClasses cs).order = el.order := by
  induction cs generalizing el with
  | nil => exact ⟨rfl, rfl⟩
  | cons c cs ih =>
    obtain ⟨hname, horder⟩ := ih (el.addClass c)
    have hc : (el.addClass c).name = el.name ∧ (el.addClass c).order = el.order := by
      unfold addClass
      split <;> exact ⟨rfl, rfl⟩
    exact ⟨hname.trans hc.1, horder.trans hc.2⟩

theorem Element.name_addClasses (el : Element) (cs : List String) : (el.addClasses cs).name = el.name :=
  (keeps_addClasses el cs).1

/-- The name and the place of an element are not expanded. -/
theorem Compile.keeps_expandElement (el : Element) :
    Ensures (fun _ => True) (expandElement el) fun fl => fl.name = el.name ∧ fl.order = el.order := by
  have free : ∀ {β : Type} (m : Compile β), Ensures (fun _ => True) m fun _ => True :=
    fun _ _ _ => ⟨trivial, fun _ _ => trivial⟩
  unfold expandElement
  refine .bind (R := fun fl => fl.name = el.name ∧ fl.order = el.order) (.foldlM (fun fl hfl p _ => ?_) ⟨rfl, rfl⟩)
    fun fl hfl => ?_
  · refine .bind (free _) fun v _ => .pure ?_
    split
    · exact hfl
    · exact hfl
  · refine .bind (free _) fun cs _ => .pure ?_
    obtain ⟨hname, horder⟩ := Element.keeps_addClasses { fl with classes := [] } cs.flatten
    exact ⟨hname.trans hfl.1, horder.trans hfl.2⟩

theorem Compile.name_expandElement (el : Element) :
    Ensures (fun _ => True) (expandElement el) fun fl => fl.name = el.name :=
  (keeps_expandElement el).mono fun _ h => h.1

namespace Root

variable {ok : String → Prop} (hok : ∀ n, n ≠ "class" → ok n)

include hok

theorem named_finished {el : Element} (h : Named ok el) (o : Options) (box : Option (Box Float)) :
    Named ok (finished o el box) := by
  have styled : ∀ {fl : Element}, Named ok fl → Named ok (styled o fl) := by
    intro fl hfl
    unfold styled
    split
    · exact hfl
    · exact hfl.set (hok _ (by decide)) _
  have sized : ∀ {fl : Element} (b : Box Float), Named ok fl → Named ok (sized o fl b) :=
    fun b hfl => ((hfl.setDefault (hok _ (by decide)) _).setDefault (hok _ (by decide)) _).setDefault
      (hok _ (by decide)) _
  have spaced : Named ok (if el.has "xmlns" then el
      else { el with attrs := .ofList (("xmlns", svgNamespace) :: el.attrs.entries) }) := by
    split
    · exact h
    · intro n hn
      obtain ⟨p, hp, rfl⟩ := List.mem_map.1 (Attrs.mem_names_ofList hn)
      rcases List.mem_cons.1 hp with rfl | hp
      · exact hok "xmlns" (by decide)
      · exact h.entries p hp
  unfold finished
  refine styled ?_
  split
  · exact sized _ spaced
  · exact spaced

omit hok in
/-- The name and the classes of the root stay. -/
theorem name_finished (o : Options) (el : Element) (box : Option (Box Float)) :
    (finished o el box).name = el.name ∧ (finished o el box).classes = el.classes := by
  have styled : ∀ fl : Element, (styled o fl).name = fl.name ∧ (styled o fl).classes = fl.classes := by
    intro fl
    unfold styled
    split <;> exact ⟨rfl, rfl⟩
  unfold finished
  simp only [styled]
  split
  · simp only [sized, fill]
    split <;> exact ⟨rfl, rfl⟩
  · split <;> exact ⟨rfl, rfl⟩

/-- What is made of a sound drawing is one element with the name of the root. -/
theorem sound_assemble {c : Context} {el : Element} {d : Drawing} {evs : List Event}
    (hel : Named ok el) (hd : d.Sound ok) (h : assemble? c el d = some evs) :
    ∃ root kids, Node.Nests evs [.element root kids] ∧ root.name = el.name ∧
      ∀ e ∈ evs, e.Fits (Named ok) := by
  obtain ⟨styles, hs, h⟩ := Option.bind_eq_some_iff.1 h
  simp only [pure, Option.some.injEq] at h
  have sound := Styles.sound_build hok hs
  have named := sound.named_apply hok (named_finished hok hel c.options d.box)
  have content : Event.Sound ok (styles.events ++ d.events.map (Event.mapElement styles.apply)) := by
    obtain ⟨ns, hn⟩ := hd.stream.nests
    refine sound.sound_events.append ⟨hn.alike (Event.alike_map styles.name_apply _), ?_⟩
    intro e he
    obtain ⟨f, hf, rfl⟩ := List.mem_map.1 he
    exact (hd.stream.fits f hf).mapElement fun el hel => sound.named_apply hok hel
  generalize styles.events ++ d.events.map (Event.mapElement styles.apply) = kids at h content
  obtain ⟨ns, hn⟩ := content.nests
  have name : (styles.apply (finished c.options el d.box)).name = el.name := by
    rw [Styles.name_apply, (name_finished _ _ _).1]
  rw [← h]
  split
  · refine ⟨_, ns, hn.wrap _, name, Event.fits_wrap.2 ⟨?_, content.fits⟩⟩
    exact named.setDefault (hok _ (by decide)) _
  · exact ⟨_, ns, hn.wrap _, name, Event.fits_wrap.2 ⟨named, content.fits⟩⟩

theorem ensures_draw (b : Bounds) {el : Element} (hel : Named ok el) {content : List Node}
    (hc : ∀ n ∈ content, n.Fits (Named ok)) :
    Ensures (Context.Sound ok) (draw b el content)
      fun r => Named ok r.1 ∧ r.2.1.Sound ok := by
  unfold draw
  refine .bind (Compile.ensures_setCurrent _) fun _ _ => ?_
  refine .bind (Compile.ensures_expandElement (hel.withOrder ⟨[0]⟩)) fun el hel => ?_
  refine .bind (Compile.ensures_setCurrent _) fun _ _ => ?_
  exact .bind (sound_drawInside hok b _ _ hc) fun r hr => .pure ⟨hel, hr⟩

omit hok in
/-- The root keeps its name. -/
theorem name_draw (b : Bounds) (el : Element) (content : List Node) :
    Ensures (fun _ => True) (draw b el content) fun r => r.1.name = el.name := by
  unfold draw
  refine .bind (.modify fun _ _ => trivial) fun _ _ => .bind (Compile.name_expandElement _) fun fl hfl => ?_
  refine .bind (.modify fun _ _ => trivial) fun _ _ => ?_
  exact .bind (R := fun _ => True) (fun _ _ => ⟨trivial, fun _ _ => trivial⟩) fun _ _ => .pure hfl

end Root

/-! ## Nothing is deferred at the root -/

namespace Compile

variable {β : Type}

theorem fails_attempt (m : Compile β) : Fails Failure.Final (attempt m) := by
  intro c e he d hd
  rw [exec_attempt] at he
  rcases h : exec m c with ⟨(_ | _ | _) | a, c'⟩ <;> rw [h] at he <;> cases he <;> cases hd

theorem fails_bracket {E : Failure → Prop} {m : Compile β} (h : Fails E m) (f : Context → Context) :
    Fails E (bracket m f) := fun c e he => h c e he

theorem fails_evaluating (el : Option Element) (attr : String)
    (f : Context → Except Expr.Error β × Context) : Fails Failure.Final (evaluating el attr f) := by
  intro c e he d hd
  rw [exec_evaluating] at he
  rcases h : f c with ⟨_ | a, c'⟩ <;> rw [h] at he <;> cases he
  cases hd

theorem fails_expandElement (el : Element) : Fails Failure.Final (expandElement el) := by
  unfold expandElement
  refine .bind (.foldlM (fun fl p => ?_) _ _) fun fl => .bind (.mapM (fun c => ?_) _) fun _ => .pure
  · exact .bind (fails_evaluating _ _ _) fun _ => .pure
  · exact .bind (fails_evaluating _ _ _) fun _ => .pure

end Compile

/-- Siblings are never deferred as a whole: those that wait are listed. -/
theorem Siblings.fails_draw (step : Step) (nodes : List Node) (base : Order) :
    Fails Failure.Final (draw step nodes base) := by
  have retry : ∀ p, Fails Failure.Final (retry step p) := by
    intro p
    unfold Siblings.retry
    exact .bind .get fun _ => .bind .modify fun _ =>
      .bind (Compile.fails_bracket (Compile.fails_attempt _) _) fun _ => .pure
  have passes : ∀ n chunks queue, Fails Failure.Final (passes step n chunks queue) := by
    intro n
    induction n with
    | zero => exact fun _ _ => .pure
    | succ n ih =>
      intro chunks queue
      unfold Siblings.passes
      split
      · exact .pure
      refine .bind (.mapM retry queue) fun tried => ?_
      simp only
      split
      · exact .pure
      · exact ih _ _
  unfold draw
  refine .bind (.mapM (fun p => ?_) _) fun tried => .bind (passes _ _ _) fun _ => .pure
  unfold first
  exact .bind .get fun _ => .bind (Compile.fails_attempt _) fun _ => .bind .modify fun _ => .pure

theorem Root.fails_draw (b : Bounds) (el : Element) (content : List Node) :
    Fails Failure.Final (draw b el content) := by
  unfold draw
  refine .bind .modify fun _ => .bind (Compile.fails_expandElement _) fun _ => ?_
  exact .bind .modify fun _ => .bind (Siblings.fails_draw _ _ _) fun _ => .pure

/-! ## Documents -/

namespace Element

/-- What is written are the names of the attributes, and `class` if there are classes. -/
theorem perm_outputAttrs (el : Element) :
    (el.outputAttrs.map Prod.fst).Perm ((if el.classes.isEmpty then [] else ["class"]) ++ el.attrs.names) := by
  unfold outputAttrs Attrs.names
  split
  · exact .refl _
  simp only
  split
  · next heq => rw [heq]; exact .refl _
  · next p rest heq =>
    rw [heq]
    split
    · exact .swap _ _ _
    · exact .refl _

/-- Names are written once, but for `class`. -/
theorem count_outputAttrs (el : Element) {n : String} (hn : n ≠ "class") :
    (el.outputAttrs.map Prod.fst).count n ≤ 1 := by
  have class' : (if el.classes.isEmpty then [] else ["class"]).count n = 0 :=
    List.count_eq_zero.2 fun h => by split at h <;> simp_all
  rw [el.perm_outputAttrs.count_eq, List.count_append, class', Nat.zero_add]
  exact List.nodup_iff_count_le_one.1 el.attrs.distinct n

theorem nodup_outputAttrs {el : Element} (h : "class" ∉ el.attrs.names) :
    (el.outputAttrs.map Prod.fst).Nodup := by
  refine el.perm_outputAttrs.nodup_iff.2 ?_
  split
  · exact el.attrs.distinct
  · exact List.nodup_cons.2 ⟨h, el.attrs.distinct⟩

end Element

namespace Outermost

theorem behind_only {ns : List Node} {r : Node} (h : ns.filter Node.isElement = [r]) :
    ∀ n ∈ (ns.dropWhile (!·.isElement)).drop 1, n.isElement = false := by
  induction ns with
  | nil => simp
  | cons m ns ih =>
    cases hm : m.isElement with
    | true =>
      rw [List.filter_cons_of_pos hm, List.cons.injEq, List.filter_eq_nil_iff] at h
      simpa [hm] using h.2
    | false =>
      rw [List.filter_cons_of_neg (by simp [hm])] at h
      simpa [hm] using ih h

/-- What stands around the root are leaves. -/
theorem around_ofNodes {ns : List Node} {out : Outermost} (h : ofNodes? ns = some out) :
    out.root.name = "svg" ∧ ∀ n ∈ out.before ++ out.behind, n.isElement = false := by
  unfold ofNodes? at h
  split at h
  · cases h
  · next el children heq =>
    have before : ∀ n ∈ (ns.takeWhile (!·.isElement)).filter fun n => !n.isBlank,
        n.isElement = false := by
      intro n hn
      simpa using List.all_eq_true.1 List.all_takeWhile n (List.mem_filter.1 hn).1
    have behind : ∀ n ∈ ((ns.dropWhile (!·.isElement)).drop 1).filter fun n => !n.isBlank,
        n.isElement = false := fun n hn => behind_only heq n (List.mem_filter.1 hn).1
    simp only at h
    split at h
    · next hname =>
      cases h
      exact ⟨by simpa using hname, List.forall_mem_append.2 ⟨before, behind⟩⟩
    · cases h
      exact ⟨rfl, List.forall_mem_append.2 ⟨before, behind⟩⟩
  · cases h
    exact ⟨rfl, by simp⟩

theorem fits_ofNodes {P : Element → Prop} (hbare : P bare) {ns : List Node}
    (hns : ∀ n ∈ ns, n.Fits P) {out : Outermost} (h : ofNodes? ns = some out) :
    P out.root ∧ ∀ n ∈ out.content, n.Fits P := by
  unfold ofNodes? at h
  split at h
  · cases h
  · next el children heq =>
    have hel : (.element el children : Node).Fits P :=
      hns _ (List.mem_filter.1 (heq ▸ List.mem_singleton_self _)).1
    simp only at h
    split at h
    · cases h
      exact Node.fits_element.1 hel
    · cases h
      exact ⟨hbare, by simpa using hel⟩
  · cases h
    exact ⟨hbare, hns⟩

end Outermost

/-- What a document that compiles is made of. -/
theorem compileNodes_eq_ok {o : Options} {chance : Chance} {ns : List Node} {out : List Event} :
    compileNodes o ns chance = .ok out ↔ ∃ outer el d c evs, Outermost.ofNodes? ns = some outer ∧
      exec (Root.draw (.ofDocument o ns) outer.root outer.content) (.new o chance) = (.ok (el, d, []), c) ∧
      Root.assemble? c el d = some evs ∧
      out = Node.eventsAll outer.before ++ evs ++ Node.eventsAll outer.behind := by
  constructor
  · intro h
    unfold compileNodes at h
    split at h
    · cases h
    next outer houter =>
    rcases hr : exec (Root.draw (.ofDocument o ns) outer.root outer.content) (.new o chance) with ⟨r, c⟩
    have hrun := hr
    unfold exec at hrun
    rw [hrun] at h
    simp only at h
    have stalled : ∀ ds, compileNodes.stalledError c ds ≠ .ok out := by
      intro ds hs
      unfold compileNodes.stalledError at hs
      split at hs <;> cases hs
    split at h
    · cases h
    · cases h
    · exact absurd h (stalled _)
    · next el d =>
      split at h
      · next evs hevs =>
        cases h
        exact ⟨outer, el, d, c, evs, houter, hr, hevs, rfl⟩
      · cases h
    · exact absurd h (stalled _)
  · rintro ⟨outer, el, d, c, evs, houter, hr, hevs, rfl⟩
    unfold compileNodes
    unfold exec at hr
    rw [houter]
    simp only
    rw [hr]
    simp only [hevs]

theorem compile_eq_ok {o : Options} {chance : Chance} {evs out : List Event} :
    compile o evs chance = .ok out ↔
      o.validate = .ok () ∧ ∃ ns, Node.ofEvents evs = .ok ns ∧ compileNodes o ns chance = .ok out := by
  unfold compile
  cases o.validate with
  | error f =>
    constructor
    · intro h
      cases h
    · rintro ⟨h, -⟩
      cases h
  | ok u =>
    cases Node.ofEvents evs with
    | error t =>
      constructor
      · intro h
        cases h
      · rintro ⟨-, ns, h, -⟩
        cases h
    | ok ns =>
      constructor
      · exact fun h => ⟨rfl, ns, rfl, h⟩
      · rintro ⟨-, ns, heq, h⟩
        cases heq
        exact h

/-- A document of which something waits in vain has an error for it. -/
theorem compileNodes_of_stalled {o : Options} {chance : Chance} {ns : List Node} {outer : Outermost}
    {el : Element} {d : Drawing} {stalled : List Deferral} {c : Context} (ho : Outermost.ofNodes? ns = some outer)
    (h : exec (Root.draw (.ofDocument o ns) outer.root outer.content) (.new o chance) =
      (.ok (el, d, stalled), c)) (hs : stalled ≠ []) :
    ∃ e es, c.unresolved stalled = e :: es ∧ compileNodes o ns chance = .error (.document e es) := by
  obtain ⟨e, es, he⟩ := List.exists_cons_of_ne_nil (mt (Context.unresolved_eq_nil (c := c)).1 hs)
  obtain ⟨w, ws, rfl⟩ := List.exists_cons_of_ne_nil hs
  refine ⟨e, es, he, ?_⟩
  unfold compileNodes
  unfold exec at h
  rw [ho]
  simp only
  rw [h]
  simp only [compileNodes.stalledError, he]

/-- Classes are kept apart from the attributes. -/
def Element.KeepsApart (el : Element) : Prop := "class" ∉ el.attrs.names

/-- The reader keeps classes apart. -/
theorem Xml.keepsApart_toEvents (ts : List Token) : ∀ e ∈ toEvents ts, e.Fits KeepsApart := by
  have element : ∀ name attrs, KeepsApart (elementOf name attrs) := fun name attrs h =>
    have names : Named (· ≠ "class") (elementOf name attrs) := named_ofAttrs name fun _ _ h => h
    names "class" h rfl
  fun_induction toEvents ts with
  | case1 => simp
  | case2 name attrs stop ts ih => simpa using ⟨element name attrs, ih⟩
  | case3 name attrs ts _ ih => simpa using ⟨element name attrs, ih⟩
  | case4 name ts ih => simpa using ih
  | case5 l ts ih => simpa using ih
  | case6 ts ih => exact ih

/-- A document that compiles is well formed. The names of attributes are written once, but for `class`, and so is
`class` unless an element of the input has an attribute of that name. -/
theorem compile_wellFormed (o : Options) (chance : Chance) (evs : List Event) :
    (∀ out, compile o evs chance = .ok out →
      (∃ before root kids behind,
        Node.ofEvents out = .ok (before ++ .element root kids :: behind) ∧ root.name = "svg" ∧
        ∀ n ∈ before ++ behind, n.isElement = false) ∧
      (∀ e ∈ out, e.Fits fun el => ∀ n ≠ "class", (el.outputAttrs.map Prod.fst).count n ≤ 1) ∧
      ((∀ e ∈ evs, e.Fits KeepsApart) →
        ∀ e ∈ out, e.Fits fun el => (el.outputAttrs.map Prod.fst).Nodup)) ∧
    ∀ ns outer, Node.ofEvents evs = .ok ns → Outermost.ofNodes? ns = some outer →
      ∀ r c, exec (Root.draw (.ofDocument o ns) outer.root outer.content) (.new o chance) = (r, c) →
        (∀ d, r ≠ .error (.deferred d)) ∧
        ∀ el d stalled, r = .ok (el, d, stalled) → stalled ≠ [] →
          ∃ e es, c.unresolved stalled = e :: es ∧ compileNodes o ns chance = .error (.document e es) := by
  refine ⟨fun out h => ?_, fun ns outer _ ho r c hr => ⟨fun d hd => ?_, fun el d stalled hs hne => ?_⟩⟩
  · -- Names other than `class` are admitted, and `class` where the input mixes it with the attributes.
    let ok : String → Prop := fun n => (∀ e ∈ evs, e.Fits KeepsApart) → n ≠ "class"
    have hok : ∀ n, n ≠ "class" → ok n := fun _ hn _ => hn
    obtain ⟨-, ns, hns, h⟩ := compile_eq_ok.1 h
    obtain ⟨outer, el, d, c, evs', houter, hdraw, hass, rfl⟩ := compileNodes_eq_ok.1 h
    have hfits : ∀ n ∈ ns, n.Fits (Named ok) := by
      refine Node.fits_of_ofEvents hns fun e he el hel n hn hall => ?_
      rintro rfl
      exact hall e he el hel hn
    obtain ⟨hroot, hcontent⟩ := Outermost.fits_ofNodes (named_bare "svg") hfits houter
    obtain ⟨hname, haround⟩ := Outermost.around_ofNodes houter
    have hsound := Root.ensures_draw hok (.ofDocument o ns) hroot hcontent (.new o chance)
      ⟨by simp [Context.new], by simp [Context.new], by simp [Context.new]⟩
    rw [hdraw] at hsound
    obtain ⟨hel, hd⟩ := hsound.2 _ rfl
    have hkeep := (Root.name_draw (.ofDocument o ns) outer.root outer.content (.new o chance) trivial).2
    rw [hdraw] at hkeep
    obtain ⟨root, kids, hnests, hrootName, hfit⟩ := Root.sound_assemble hok hel hd hass
    have hleaves : ∀ ms : List Node, (∀ n ∈ ms, n.isElement = false) →
        ∀ e ∈ Node.eventsAll ms, e.Fits (Named ok) := by
      refine fun ms hms => Node.fits_eventsAll.2 fun n hn => ?_
      cases n with
      | leaf l => exact Node.fits_leaf
      | element el cs => cases hms _ hn
    have hout : ∀ e ∈ Node.eventsAll outer.before ++ evs' ++ Node.eventsAll outer.behind,
        e.Fits (Named ok) := by
      obtain ⟨hbefore, hbehind⟩ := List.forall_mem_append.1 haround
      rw [List.forall_mem_append, List.forall_mem_append]
      exact ⟨⟨hleaves _ hbefore, hfit⟩, hleaves _ hbehind⟩
    refine ⟨⟨outer.before, root, kids, outer.behind, ?_, ?_, haround⟩,
      fun e _ fl _ n hn => fl.count_outputAttrs hn, fun hall e he fl hfl => ?_⟩
    · have := ((Node.nests_eventsAll outer.before).append hnests).append
        (Node.nests_eventsAll outer.behind)
      simpa using this.ofEvents_eq
    · rw [hrootName, hkeep _ rfl, hname]
    · exact Element.nodup_outputAttrs fun hcls => hout e he fl hfl _ hcls hall rfl
  · exact Root.fails_draw _ _ _ _ _ (by rw [hr]; exact hd) d rfl
  · subst hs
    exact compileNodes_of_stalled ho hr hne

/-- A document with one circle. -/
def oneCircle (place : String) : List Node :=
  [.element { name := "svg" } [.element
    (.ofAttrs "circle" [("id", "a"), ("class", "d-red"), ("xy", place), ("r", "2")]) []]]

/-- A circle at a point is drawn, and one at its own place waits in vain. -/
theorem compile_wellFormed_oneCircle :
    (∃ out, compile {} (Node.eventsAll (oneCircle "1 2")) = .ok out ∧
      (∃ before root kids behind,
        Node.ofEvents out = .ok (before ++ .element root kids :: behind) ∧ root.name = "svg" ∧
        ∀ n ∈ before ++ behind, n.isElement = false) ∧
      ∀ e ∈ out, e.Fits fun el => (el.outputAttrs.map Prod.fst).Nodup) ∧
    ∃ e es, compileNodes {} (oneCircle "#a") = .error (.document e es) := by
  constructor
  · obtain ⟨out, hout⟩ : ∃ out, compile {} (Node.eventsAll (oneCircle "1 2")) = .ok out := by
      have : (compile {} (Node.eventsAll (oneCircle "1 2"))).isOk = true := by decide +kernel
      cases h : compile {} (Node.eventsAll (oneCircle "1 2")) with
      | error e => rw [h] at this; cases this
      | ok out => exact ⟨out, rfl⟩
    have apart : ∀ e ∈ Node.eventsAll (oneCircle "1 2"), e.Fits KeepsApart := by
      have all : ((Node.eventsAll (oneCircle "1 2")).all fun e =>
          e.element?.all fun el => !el.attrs.names.contains "class") = true := by decide +kernel
      intro e he el hel
      have := List.all_eq_true.1 all e he
      rw [hel] at this
      simpa [KeepsApart] using this
    obtain ⟨hdoc, -, hattrs⟩ := (compile_wellFormed {} {} _).1 out hout
    exact ⟨out, hout, hdoc, hattrs apart⟩
  · let outer : Outermost := ⟨[], { name := "svg" }, (oneCircle "#a").flatMap Node.children, []⟩
    have houter : Outermost.ofNodes? (oneCircle "#a") = some outer := rfl
    have stalls : (exec (Root.draw (.ofDocument {} (oneCircle "#a")) outer.root outer.content)
        (.new {})).1.toOption.map (fun r => r.2.2.isEmpty) = some false := by decide +kernel
    rcases h : exec (Root.draw (.ofDocument {} (oneCircle "#a")) outer.root outer.content)
      (.new {}) with ⟨r, c⟩
    rw [h] at stalls
    obtain ⟨-, hall⟩ := (compile_wellFormed {} {} _).2 (oneCircle "#a") outer
      (Node.nests_eventsAll _).ofEvents_eq houter r c h
    rcases r with f | ⟨el, d, _ | ⟨w, ws⟩⟩
    · cases stalls
    · cases stalls
    · obtain ⟨e, es, -, he⟩ := hall el d (w :: ws) rfl (by simp)
      exact ⟨e, es, he⟩

/-- A group with a class, and with an attribute of that name beside it. -/
def mixedGroup : List Node :=
  [.element { name := "svg" } [.element
    { name := "g", attrs := .ofList [("class", "d-blue")], classes := ["d-red"] } []]]

/-- The group is written with both. -/
theorem compile_mixedGroup :
    ∃ out, compile { addAutoStyles := false } (Node.eventsAll mixedGroup) = .ok out ∧
      ¬ ∀ e ∈ out, e.Fits fun el => (el.outputAttrs.map Prod.fst).Nodup := by
  have twice : (compile { addAutoStyles := false } (Node.eventsAll mixedGroup)).toOption.map (fun out =>
      out.all fun e => e.element?.all fun el => decide (el.outputAttrs.map Prod.fst).Nodup) = some false := by
    decide +kernel
  cases h : compile { addAutoStyles := false } (Node.eventsAll mixedGroup) with
  | error e => rw [h] at twice; cases twice
  | ok out =>
    rw [h] at twice
    refine ⟨out, rfl, fun hall => ?_⟩
    have once : (out.all fun e => e.element?.all fun el => decide (el.outputAttrs.map Prod.fst).Nodup) = true := by
      refine List.all_eq_true.2 fun e he => ?_
      cases hel : e.element? with
      | none => rfl
      | some el => exact decide_eq_true (hall e he el hel)
    exact Bool.false_ne_true ((Option.some.inj twice).symm.trans once)

end DiagramMarkup
