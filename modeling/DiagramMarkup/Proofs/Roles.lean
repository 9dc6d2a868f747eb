import DiagramMarkup.Proofs.Drawings
import DiagramMarkup.Proofs.Shapes

/-!
# Every role draws soundly

Each role of elements is sound if the content of its element is drawn soundly. By induction over the levels, so is
every element (`ensures_drawElement`), and with it every list of siblings (`ensures_drawInside`).
-/

namespace DiagramMarkup

open Element Compile

variable {ok : String → Prop} {inside : Inside}

/-! ## Control elements -/

namespace Control

theorem ensures_body (hi : inside.Sound ok) (el : Element) {children : List Node}
    (hc : ∀ n ∈ children, n.Fits (Named ok)) (order : Order) (vars : Frame) :
    Ensures (Context.Sound ok) (body inside el children order vars) (Drawing.Sound ok) :=
  ensures_withFrame vars (hi.ensures_of el hc order)

/-- What holds of the drawing of every turn holds of all that are drawn. -/
theorem ensures_turns {I : Context → Prop} {Q : Drawing → Prop} {turn : Nat → Compile Turn} (count : Option Nat)
    (h : ∀ k, Ensures I (turn k) fun t => ∀ d last, t = .drawn d last → Q d) :
    ∀ (fuel k : Nat) {acc : List Drawing}, (∀ d ∈ acc, Q d) →
      Ensures I (turns turn count fuel k acc) fun ds => ∀ d ∈ ds, Q d := by
  intro fuel
  induction fuel with
  | zero =>
    intro k acc hacc
    unfold turns
    split
    · exact .pure (by simpa using hacc)
    · exact .throw
  | succ fuel ih =>
    intro k acc hacc
    unfold turns
    split
    · exact .pure (by simpa using hacc)
    refine .bind (h k) fun t ht => ?_
    split
    · exact .pure (by simpa using hacc)
    · next d => exact .pure (by simpa [or_imp, forall_and] using ⟨hacc, ht d true rfl⟩)
    · next d => exact ih _ (List.forall_mem_cons.2 ⟨ht d false rfl, hacc⟩)

theorem ensures_loopCount (el : Element) :
    Ensures (Context.Sound ok) (loopCount el) fun _ => True := by
  unfold loopCount
  split
  · exact .pure trivial
  refine .bind (ensures_eval _ _ _) fun v _ => ?_
  split
  · exact ensures_raise _ _ _ _
  split
  · exact ensures_raise _ _ _ _
  · exact .bind .get fun c _ => .bind (.ofExcept fun _ _ => trivial) fun _ (_ : True) => .pure trivial

theorem ensures_loopNumber (el : Element) (attr : String) (default : Float) :
    Ensures (Context.Sound ok) (loopNumber el attr default) fun _ => True := by
  unfold loopNumber
  split
  · exact .pure trivial
  · exact ensures_readNumber _ _ _

theorem ensures_testHolds (el : Element) (attr : String) (default : Bool) (test : Option String) :
    Ensures (Context.Sound ok) (testHolds el attr default test) fun _ => True := by
  unfold testHolds
  split
  · exact .pure trivial
  · exact ensures_condition _ _ _

theorem ensures_loopTurn (hi : inside.Sound ok) (el : Element) {children : List Node}
    (hc : ∀ n ∈ children, n.Fits (Named ok)) (while? until? : Option String) (start step : Float)
    (k : Nat) :
    Ensures (Context.Sound ok) (loopTurn inside el children while? until? start step k)
      fun t => ∀ d last, t = .drawn d last → d.Sound ok := by
  unfold loopTurn
  refine .bind (ensures_testHolds _ _ _ _) fun b _ => ?_
  split
  · refine .bind .get fun c _ => .bind (.ofExcept fun _ _ => trivial) fun _ (_ : True) => ?_
    refine .bind (ensures_body hi el hc _ _) fun d hd => ?_
    refine .bind (ensures_testHolds _ _ _ _) fun last _ => .pure ?_
    rintro d' last' h
    cases h
    exact hd
  · exact .pure fun _ _ h => nomatch h

theorem ensures_loop (hi : inside.Sound ok) (bound : Nat) {el : Element} (hel : Named ok el)
    {children : List Node} (hc : ∀ n ∈ children, n.Fits (Named ok)) (order : Order) :
    Ensures (Context.Sound ok) (loop bound inside el children order) (Drawing.Sound ok) := by
  unfold loop
  refine .bind (ensures_setCurrent _) fun _ _ => ?_
  refine .bind (ensures_expandElement ((hel.eraseAll _).withOrder order)) fun el _ => ?_
  refine .bind (ensures_setCurrent _) fun _ _ => .bind (ensures_loopCount el) fun count _ => ?_
  refine .bind (R := fun _ => True) ?_ fun _ _ => ?_
  · unfold checkForm
    split
    · exact .pure trivial
    · exact ensures_raise _ _ _ _
  refine .bind (ensures_loopNumber _ _ _) fun start _ => ?_
  refine .bind (ensures_loopNumber _ _ _) fun step _ => ?_
  refine .bind (ensures_turns _ (ensures_loopTurn hi el hc _ _ _ _) _ _ (by simp)) fun ds hds => ?_
  exact .pure (Drawing.sound_concat hds)

theorem ensures_items (el : Element) (data : String) :
    Ensures (Context.Sound ok) (items el data) fun _ => True := by
  unfold items
  split
  · exact .pure trivial
  refine .bind .get fun c hc => ?_
  simp only
  refine .bind (.set ⟨hc.written, hc.templates, hc.defaults⟩) fun _ _ => ?_
  split
  · exact .pure trivial
  · split
    · exact .pure trivial
    · exact .pure trivial
    · exact .throw

theorem ensures_each (hi : inside.Sound ok) {el : Element} (hel : Named ok el)
    {children : List Node} (hc : ∀ n ∈ children, n.Fits (Named ok)) (order : Order) :
    Ensures (Context.Sound ok) (each inside el children order) (Drawing.Sound ok) := by
  unfold each
  refine .bind (ensures_setCurrent _) fun _ _ => ?_
  refine .bind (ensures_expandElement (hel.withOrder order)) fun el _ => ?_
  refine .bind (ensures_setCurrent _) fun _ _ => ?_
  split
  · exact ensures_raise _ _ _ _
  refine .bind (ensures_items _ _) fun xs _ => ?_
  refine .bind .get fun c _ => .bind (.ofExcept fun _ _ => trivial) fun _ (_ : True) => ?_
  refine .bind (.mapM fun p _ => ensures_body hi el hc _ _) fun ds hds => ?_
  exact .pure (Drawing.sound_concat hds)

theorem ensures_branch (hi : inside.Sound ok) {el : Element} (hel : Named ok el)
    {children : List Node} (hc : ∀ n ∈ children, n.Fits (Named ok)) (order : Order) :
    Ensures (Context.Sound ok) (branch inside el children order) (Drawing.Sound ok) := by
  unfold branch
  refine .bind (ensures_setCurrent _) fun _ _ => ?_
  split
  · exact ensures_raise _ _ _ _
  refine .bind (ensures_expandElement ((hel.erase _).withOrder order)) fun el _ => ?_
  refine .bind (ensures_setCurrent _) fun _ _ => .bind (ensures_condition _ _ _) fun b _ => ?_
  split
  · exact ensures_body hi el hc _ _
  · exact .pure Drawing.sound_nil

theorem ensures_assign (el : Element) (order : Order) :
    Ensures (Context.Sound ok) (assign el order) (Drawing.Sound ok) := by
  unfold assign
  refine .bind (ensures_setCurrent _) fun _ _ => ?_
  refine .bind (.forM fun p _ => ?_) fun _ _ => .pure Drawing.sound_nil
  refine .bind (ensures_expand _ _ _) fun v _ => .update fun c d hc hd => ?_
  rw [Context.setVar_eq_ok hd]
  refine ⟨hc.written, hc.templates, ?_⟩
  have : (c.scope.setVar p.1 v).defaults = c.scope.defaults := by
    unfold Scope.setVar
    split
    · rfl
    · split
      · split <;> rfl
      · rfl
  simpa [this] using hc.defaults

theorem ensures_config {el : Element} (hel : Named ok el) (order : Order) :
    Ensures (Context.Sound ok) (config el order) (Drawing.Sound ok) := by
  unfold config
  refine .bind (ensures_prepare hel order) fun el _ => ?_
  refine .bind (.forM fun p _ => ?_) fun _ _ => .pure Drawing.sound_nil
  refine .bind .get fun c hc => .bind (ensures_orFail _ _ _) fun d hd => .set ?_
  obtain ⟨o, dice, rfl⟩ := Context.setOption_eq_ok hd
  exact ⟨hc.written, hc.templates, hc.defaults⟩

theorem ensures_defaults {children : List Node} (hc : ∀ n ∈ children, n.Fits (Named ok))
    (order : Order) :
    Ensures (Context.Sound ok) (defaults children order) (Drawing.Sound ok) := by
  unfold defaults
  refine .bind (.forM fun p hp => ?_) fun _ _ => .pure Drawing.sound_nil
  obtain ⟨n, i⟩ := p
  have hn := hc n (List.fst_mem_of_mem_zipIdx hp)
  cases n with
  | leaf l => exact .pure trivial
  | element d cs =>
    have hd := (Node.fits_element.1 hn).1
    refine .bind (ensures_setCurrent _) fun _ _ => ?_
    refine .bind (ensures_expandElement (hd.withOrder (order.sub i))) fun d hd => ?_
    refine .modify fun c hc => ⟨hc.written, hc.templates, fun e he => ?_⟩
    rcases List.mem_append.1 he with he | he
    · exact hc.defaults e he
    · rw [List.mem_singleton.1 he]
      exact hd

theorem ensures_templates {children : List Node} (hc : ∀ n ∈ children, n.Fits (Named ok)) :
    Ensures (Context.Sound ok) (templates children) (Drawing.Sound ok) := by
  unfold templates
  simp only
  split
  · exact ensures_raise _ _ _ _
  refine .bind (.forM fun n hn => ?_) fun _ _ => .pure Drawing.sound_nil
  unfold addTemplate
  split
  · exact .pure trivial
  split
  · exact ensures_raise _ _ _ _
  · next el _ _ =>
    refine .modify fun c hs => sound_markSeen (c := c.addTemplate el.id n) ?_ _
    exact ⟨hs.written, List.forall_mem_cons.2 ⟨hc n hn, hs.templates⟩, hs.defaults⟩

end Control

/-! ## Texts and shapes -/

namespace Label

variable (hok : ∀ n, n ≠ "class" → ok n)

include hok

theorem named_take {el fl : Element} {label : Option Label} (h : Named ok el)
    (ht : take el = .ok (label, fl)) : Named ok fl :=
  (asks_take (stable_named hok) (by decide) h).result ht

theorem named_span (x : String) (dy : Float) (line : String) : Named ok (span x dy line).1 := by
  refine named_ofAttrs _ fun p hp _ => hok _ ?_
  simp only [List.mem_cons, List.not_mem_nil, or_false] at hp
  rcases hp with rfl | rfl <;> simp

theorem sound_content (el : Element) (lines : List String) :
    Event.Sound ok (content el lines).events := by
  unfold content
  split
  · exact Event.sound_leaf _
  refine Event.sound_flatMap fun s hs => ?_
  obtain ⟨⟨line, i⟩, _, rfl⟩ := List.mem_map.1 hs
  exact (Event.sound_leaf _).wrap (named_span hok _ _ line)

theorem sound_draw (l : Label) (shape : Element) (b : Box Float) :
    Event.Sound ok (l.draw shape b).events := by
  refine (sound_content hok _ _).wrap ?_
  have bare : Named ok { name := "text" } := named_bare "text"
  have base := (((bare.addClasses (l.anchored b.normalized).2).setNumber
    (hok "x" (by decide)) (l.anchored b.normalized).1.x).setNumber (hok "y" (by decide))
    (l.anchored b.normalized).1.y).addClasses (shape.classes.filter (Text.startsWith "d-text-"))
  unfold Label.element
  simp only
  split
  · exact base
  · exact base.set (hok _ (by decide)) _

end Label

theorem Figure.ensures_boxOf (el : Element) (w h : Float) :
    Ensures (Context.Sound ok) (boxOf el w h) fun _ => True := by
  unfold Figure.boxOf
  simp only
  refine .bind .get fun c _ => .bind (.ofExcept fun _ _ => trivial) fun rect (_ : True) => ?_
  refine .bind (ensures_orFail _ _ _) fun b _ => ?_
  split
  · exact .pure trivial
  · exact ensures_raise _ _ _ _

section Closed

variable (hok : ∀ n, n ≠ "class" → ok n)

include hok

theorem Compile.named_rotated {el fl : Element} (h : Named ok el) {box : Option (Box Float)}
    (hr : rotated el box = .ok fl) : Named ok fl :=
  (asks_rotated (stable_named hok) (by decide) geometric_ne_class h box).result hr

theorem Connector.named_connect {refs : Position.Referrer Float} {el fl : Element} (h : Named ok el)
    (hc : connect refs el = .ok fl) : Named ok fl :=
  ((asks_connect (stable_named hok) (by decide) el h).ok (fun _ => refs) fl hc).1

namespace Figure

theorem named_expandPath {o : Options} {el fl : Element} (h : Named ok el)
    (he : expandPath o el = .ok fl) : Named ok fl :=
  (asks_expandPath (stable_named hok) (by decide) h o).result he

/-- The parts of a settled shape are sound. -/
theorem sound_measured {o : Options} {el : Element} (h : Named ok el) {label : Option Label}
    {inner : List Event} (hi : Event.Sound ok inner) {s : Settled}
    (hs : measured o el label inner = .ok s) :
    Named ok s.element ∧ Event.Sound ok s.content ∧ Event.Sound ok s.beside := by
  unfold measured at hs
  split at hs
  · obtain ⟨box, -, hs⟩ := except_bind_eq_ok hs
    cases hs
    refine ⟨h, .append ?_ hi, Event.sound_nil⟩
    unfold labelContent
    split
    · exact Label.sound_content hok _ _
    · exact Event.sound_nil
  · obtain ⟨box, -, hs⟩ := except_bind_eq_ok hs
    obtain ⟨fl, hfl, hs⟩ := except_bind_eq_ok hs
    cases hs
    refine ⟨named_rotated hok h hfl, hi, ?_⟩
    unfold attached
    split
    · exact Label.sound_draw hok _ _ _
    · exact Event.sound_nil

theorem ensures_shape {note : Element → Compile Unit}
    (hnote : ∀ el, Ensures (Context.Sound ok) (note el) fun _ => True) (hi : inside.Sound ok)
    {el : Element} (h : Named ok el) {children : List Node}
    (hc : ∀ n ∈ children, n.Fits (Named ok)) :
    Ensures (Context.Sound ok) (shape note inside el children) (Drawing.Sound ok) := by
  unfold shape
  refine .bind .get fun c _ => ?_
  refine .bind (R := Named ok) (.ofExcept fun fl hr => named_expandPath hok h hr) fun el h => ?_
  refine .bind (hnote _) fun _ _ => .bind .get fun c _ => ?_
  refine .bind (R := Named ok) (.ofExcept fun fl hr => Connector.named_connect hok h hr) fun el h => ?_
  refine .bind (hnote _) fun _ _ => .bind .get fun c _ => ?_
  refine .bind (R := Named ok) (.ofExcept fun fl hr => Position.named_resolve hok h hr) fun el h => ?_
  refine .bind (R := fun r => Named ok r.2) (.ofExcept fun r hr => Label.named_take hok h hr) fun r hr => ?_
  obtain ⟨label, el⟩ := r
  refine .bind (hnote _) fun _ _ => .bind (hi.ensures_of el hc _) fun inner hinner => ?_
  refine .bind .get fun c _ => ?_
  refine .bind (.ofExcept fun s hs => sound_measured hok hr hinner.stream hs) fun s hs => ?_
  refine .bind (.forM fun _ _ => ensures_observe _) fun _ _ => ?_
  refine .bind (ensures_register _ _) fun _ _ => .bind (ensures_observe _) fun _ _ => ?_
  exact .pure (Drawing.sound_wrap_append _ hs.1 hs.2.1 hs.2.2)

theorem ensures_textBox (hi : inside.Sound ok) {el : Element} (h : Named ok el)
    (children : List Node) :
    Ensures (Context.Sound ok) (textBox inside el children) (Drawing.Sound ok) := by
  unfold textBox
  refine .bind .get fun c _ => .bind (ensures_setCurrent _) fun _ _ => ?_
  refine ensures_shape hok ensures_setCurrent hi ?_ (by simp)
  have hrect : Named ok { el with name := "rect" } := h
  have sized : ∀ (fl : Element) (w v : Float), Named ok fl →
      Named ok ((fl.setNumber "width" w).setNumber "height" v) := fun fl w v hfl =>
    (hfl.setNumber (hok _ (by decide)) _).setNumber (hok _ (by decide)) _
  unfold textBoxRect
  simp only
  split
  · split
    · exact hrect
    · exact sized _ _ _ hrect
  · split
    · exact hrect.set (hok _ (by decide)) _
    · exact sized _ _ _ (hrect.set (hok _ (by decide)) _)

theorem named_numeric {name : String} {attrs : List (String × Float)}
    (h : ∀ p ∈ attrs, p.1 ≠ "class") : Named ok (numeric name attrs) := by
  refine named_ofAttrs _ fun p hp _ => hok _ ?_
  obtain ⟨q, hq, rfl⟩ := List.mem_map.1 hp
  exact h q hq

theorem named_personParts (b : Box Float) : ∀ el ∈ personParts b, Named ok el := by
  intro el hel
  simp only [personParts, List.mem_cons, List.not_mem_nil, or_false] at hel
  rcases hel with rfl | rfl | rfl | rfl
  · exact named_numeric hok (by simp)
  · exact named_numeric hok (by simp)
  · exact named_numeric hok (by simp)
  · exact named_ofAttrs _ fun p hp _ => hok _ (by simp at hp; simp [hp])

theorem ensures_person {el : Element} (h : Named ok el) :
    Ensures (Context.Sound ok) (person el) (Drawing.Sound ok) := by
  unfold person
  refine .bind (ensures_boxOf _ _ _) fun b _ => ?_
  refine .bind (.forM fun _ _ => ensures_observe _) fun _ _ => ?_
  have hg : Named ok ((({ el with name := "g" } : Element).eraseAll geometry).addClass "d-person") :=
    ((h.withName "g").eraseAll _).addClass _
  refine .bind (R := Named ok) (.ofExcept fun g hr => named_rotated hok hg hr) fun g hg => ?_
  refine .bind (ensures_register _ _) fun _ _ => .bind (ensures_observe _) fun _ _ => ?_
  exact .pure (Drawing.sound_wrap _ hg (Event.sound_map_empty (named_personParts hok b)))

theorem ensures_pipeline (hi : inside.Sound ok) {el : Element} (h : Named ok el)
    {children : List Node} (hc : ∀ n ∈ children, n.Fits (Named ok)) :
    Ensures (Context.Sound ok) (pipeline inside el children) (Drawing.Sound ok) := by
  unfold pipeline
  refine .bind (ensures_boxOf _ _ _) fun b _ => ?_
  refine ensures_shape hok (fun _ => .pure trivial) hi ?_ hc
  have hpath : Named ok ((({ el with name := "path" } : Element).eraseAll geometry).addClass
      "d-pipeline") :=
    ((h.withName "path").eraseAll _).addClass _
  exact hpath.set (hok _ (by decide)) _

end Figure

/-! ## Gradients and instances -/

namespace Gradient

theorem named_stop (s : Stop) : Named ok s.element := by
  refine named_ofAttrs _ fun p hp _ => hok _ ?_
  simp only [List.mem_cons, List.not_mem_nil, or_false] at hp
  rcases hp with rfl | rfl <;> simp

theorem ensures_shaped {el : Element} (h : Named ok el) (dir length : Option String) :
    Ensures (Context.Sound ok) (shaped el dir length) (Named ok) := by
  unfold shaped
  refine .bind (R := fun _ => True) ?_ fun covered _ => ?_
  · unfold coverage
    split
    · exact .pure trivial
    · exact .map (ensures_orFail _ _ _) fun _ _ => trivial
  split
  · refine .bind (R := fun _ => True) ?_ fun degrees _ => .pure ?_
    · unfold degreesOf
      split
      · exact .pure trivial
      · exact ensures_readNumber _ _ _
    · exact (((h.setNumber (hok _ (by decide)) _).setNumber (hok _ (by decide)) _).setNumber
        (hok _ (by decide)) _).setNumber (hok _ (by decide)) _
  split
  · exact .pure (h.setNumber (hok _ (by decide)) _)
  · exact .pure h

theorem ensures_draw (hi : inside.Sound ok) {el : Element} (h : Named ok el)
    {children : List Node} (hc : ∀ n ∈ children, n.Fits (Named ok)) :
    Ensures (Context.Sound ok) (draw inside el children) (Drawing.Sound ok) := by
  unfold draw
  refine .bind (ensures_shaped hok (h.eraseAll _) _ _) fun el h => ?_
  refine .bind (ensures_setCurrent _) fun _ _ => .bind (.forM fun _ _ => ensures_observe _) fun _ _ => ?_
  refine .bind (hi.ensures_of el hc _) fun inner hinner => ?_
  refine .bind (ensures_register _ _) fun _ _ => .bind (ensures_observe _) fun _ _ => ?_
  refine .pure (Drawing.sound_wrap _ h (.append ?_ hinner.stream))
  exact Event.sound_map_empty fun s _ => named_stop hok s

end Gradient

namespace Reuse

omit hok in
theorem ensures_number (el : Element) (attr v : String) :
    Ensures (Context.Sound ok) (number el attr v) fun _ => True :=
  .bind (ensures_expand _ _ _) fun _ _ => ensures_readNumber _ _ _

theorem ensures_mergeAttr (inst : Element) (used : List String) {s : Element × Placement}
    (hs : Named ok s.1) {a : String × String} (ha : ok a.1) :
    Ensures (Context.Sound ok) (mergeAttr inst used s a) fun r => Named ok r.1 := by
  obtain ⟨t, p⟩ := s
  unfold mergeAttr
  simp only
  split
  · exact .pure hs
  · exact .pure hs
  · exact .bind (ensures_number _ _ _) fun _ _ => .pure hs
  · exact .pure (hs.set (hok _ (by decide)) _)
  · exact .bind (ensures_number _ _ _) fun _ _ => .pure hs
  · exact .bind (ensures_number _ _ _) fun _ _ => .pure hs
  · refine .pure ?_
    split
    · exact hs
    · exact hs.set ha _

theorem ensures_merge {inst t : Element} (hinst : Named ok inst) (ht : Named ok t)
    (used : List String) :
    Ensures (Context.Sound ok) (merge inst t used) fun r => Named ok r.1 := by
  have own : ∀ p ∈ (if inst.id == "" then t.attrs.entries.filter (·.1 != "id")
      else ("id", inst.id) :: t.attrs.entries.filter (·.1 != "id")), ok p.1 := by
    have hf : ∀ p ∈ t.attrs.entries.filter (·.1 != "id"), ok p.1 :=
      fun p hp => ht.entries p (List.mem_filter.1 hp).1
    split
    · exact hf
    · exact List.forall_mem_cons.2 ⟨hok "id" (by decide), hf⟩
  unfold merge
  simp only
  refine .bind (R := fun _ => True) ?_ fun turn _ => ?_
  · unfold ownTurn
    split
    · exact .pure trivial
    · exact ensures_number _ _ _
  refine .bind (R := fun r : Element × Placement => Named ok r.1)
    (.foldlM (fun s hs a ha => ?_) ?_) fun r hr => .pure (hr.addClasses _)
  · exact ensures_mergeAttr hok inst used hs (hinst.entries a ha)
  · intro n hn
    obtain ⟨p, hp, rfl⟩ := List.mem_map.1 (Attrs.mem_names_ofList (Attrs.mem_names_erase hn))
    exact own p hp

theorem named_setGiven {t : Element} (h : Named ok t) {attr : String} (ha : attr ≠ "class")
    (v : Option Float) : Named ok (setGiven t attr v) := by
  unfold setGiven
  split
  · exact h.setNumber (hok _ ha) _
  · exact h

theorem ensures_shift {t : Element} (h : Named ok t) {attr : String} (ha : attr ≠ "class")
    (v : Option Float) : Ensures (Context.Sound ok) (shift t attr v) (Named ok) := by
  unfold shift
  split
  · exact .pure h
  split
  · exact .pure (h.setNumber (hok _ ha) _)
  · exact .bind (ensures_readNumber _ _ _) fun _ _ => .pure (h.setNumber (hok _ ha) _)

theorem ensures_applyShape (p : Placement) {t : Element} (h : Named ok t) :
    Ensures (Context.Sound ok) (p.applyShape t) (Named ok) := by
  have hp : Named ok (if p.transform == "" then t else t.prependTransform p.transform) := by
    split
    · exact h
    · exact h.prependTransform hok _
  unfold Placement.applyShape
  generalize (if p.transform == "" then t else t.prependTransform p.transform) = u at hp
  have hr : Named ok (if p.rotate == 0 then u else u.setNumber "rotate" p.rotate) := by
    split
    · exact hp
    · exact hp.setNumber (hok _ (by decide)) _
  simp only
  generalize (if p.rotate == 0 then u else u.setNumber "rotate" p.rotate) = w at hr
  split
  · exact .pure (named_setGiven hok (named_setGiven hok hr (by decide) _) (by decide) _)
  split
  · exact .pure (named_setGiven hok (named_setGiven hok hr (by decide) _) (by decide) _)
  · exact .bind (ensures_shift hok hr (by decide) _) fun t ht => ensures_shift hok ht (by decide) _

/-- A drawn group stays sound when its first tag takes a transform. -/
theorem ensures_applyGroup (p : Placement) {d : Drawing} (h : d.Sound ok) :
    Ensures (Context.Sound ok) (p.applyGroup d) (Drawing.Sound ok) := by
  obtain ⟨events, box⟩ := d
  unfold Placement.applyGroup
  simp only
  split
  · refine .pure ⟨h.stream, fun hb => h.shown ?_⟩
    rwa [Option.isSome_map] at hb
  next e rest =>
  generalize hplace : (fun el : Element => if (p.steps box).isEmpty then el
    else el.prependTransform (" ".intercalate (p.steps box))) = place
  have named : ∀ el, Named ok el → Named ok (place el) := by
    intro el hel
    subst hplace
    simp only
    split
    · exact hel
    · exact hel.prependTransform hok _
  have name : ∀ el, (place el).name = el.name := by
    intro el
    subst hplace
    simp only
    split
    · rfl
    · unfold prependTransform
      split <;> rfl
  obtain ⟨⟨⟨ns, hns⟩, hfits⟩, hshown⟩ := h
  generalize hbox : box.map _ = box'
  have sound : Drawing.Sound ok ⟨e.mapElement place :: rest, box'⟩ := by
    refine ⟨⟨hns.alike (.cons (Event.alike_mapElement name e) ?_), ?_⟩, fun hb => ?_⟩
    · exact List.forall₂_same.2 fun e _ => .refl e
    · obtain ⟨he, hrest⟩ := List.forall_mem_cons.1 hfits
      exact List.forall_mem_cons.2 ⟨he.mapElement named, hrest⟩
    · rw [← hbox, Option.isSome_map] at hb
      obtain ⟨f, hf, hel⟩ := hshown hb
      rcases List.mem_cons.1 hf with rfl | hf
      · exact ⟨_, List.mem_cons_self, Event.isSome_mapElement.2 hel⟩
      · exact ⟨f, List.mem_cons_of_mem _ hf, hel⟩
  split
  · refine .bind (R := fun _ => True) ?_ fun _ _ => .pure sound
    cases (e.mapElement place).element? with
    | none => exact .pure trivial
    | some el => exact ensures_register _ _
  · exact .pure sound

omit hok in
theorem named_target {inst : Element} (h : Named ok inst) : Named ok (target inst).2 := by
  unfold target
  cases inst.get? "href" with
  | none => simp only; split <;> exact h.erase _
  | some v => simp only; split <;> exact h.erase _

omit hok in
theorem fits_template {c : Context} (h : c.Sound ok) {id : String} {n : Node}
    (hn : c.template? id = some n) : n.Fits (Named ok) := by
  have lookup : ∀ {ps : List (String × Node)}, (∀ p ∈ ps, p.2.Fits (Named ok)) →
      ps.lookup id = some n → n.Fits (Named ok) := by
    intro ps hps hl
    obtain ⟨l₁, l₂, rfl, -⟩ := List.lookup_eq_some_iff.1 hl
    exact hps (id, n) (by simp)
  unfold Context.template? at hn
  rcases Option.or_eq_some_iff.1 hn with hn | ⟨-, hn⟩
  · exact lookup h.templates hn
  · exact lookup h.written hn

theorem ensures_draw {draw group : Element → List Node → Order → Compile Drawing}
    (hd : ∀ el children order, Named ok el → (∀ n ∈ children, n.Fits (Named ok)) →
      Ensures (Context.Sound ok) (draw el children order) (Drawing.Sound ok))
    (hg : ∀ el children order, Named ok el → (∀ n ∈ children, n.Fits (Named ok)) →
      Ensures (Context.Sound ok) (group el children order) (Drawing.Sound ok))
    {el : Element} (h : Named ok el) (order : Order) :
    Ensures (Context.Sound ok) (Reuse.draw draw group el order) (Drawing.Sound ok) := by
  unfold Reuse.draw
  refine .bind (ensures_prepare h order) fun inst hinst => ?_
  have hinst := named_target hinst
  refine .bind (ensures_setCurrent _) fun _ _ => ?_
  split
  · exact ensures_raise _ _ _ _
  refine .bind .get fun c hc => ?_
  split
  · next t children heq =>
    rw [Node.map_copy] at heq
    obtain ⟨ht, hch⟩ := Node.fits_element.1 (fits_template hc heq)
    refine ensures_withDepth _ (ensures_withFrame _ ?_)
    have hrename : Named ok (Reuse.draw.rename t) := by
      unfold Reuse.draw.rename
      split <;> exact ht
    refine .bind (ensures_merge hok hinst hrename _) fun r hr => ?_
    obtain ⟨t', p⟩ := r
    simp only
    split
    · exact .bind (hg _ _ _ hr hch) fun d hd => ensures_applyGroup hok p hd
    · exact .bind (ensures_applyShape hok p hr) fun t ht => hd _ _ _ ht hch
  · exact .throw

end Reuse

/-! ## All elements -/

theorem ensures_drawContainer (hi : inside.Sound ok) (drawn : Bool) {el : Element}
    (h : Named ok el) {children : List Node} (hc : ∀ n ∈ children, n.Fits (Named ok))
    (order : Order) :
    Ensures (Context.Sound ok) (drawContainer inside drawn el children order) (Drawing.Sound ok) := by
  unfold drawContainer
  refine .bind (ensures_prepare h order) fun el h => ensures_withDepth _ ?_
  refine .bind (ensures_withFrame _ (hi.ensures_of el hc _)) fun inner hinner => ?_
  refine .bind (R := Named ok) (.ofExcept fun fl hr => named_rotated hok h hr) fun el h => ?_
  refine .bind (ensures_register _ _) fun _ _ => .bind (ensures_observe _) fun _ _ => ?_
  exact .pure (Drawing.sound_wrap _ h hinner.stream)

omit hok in
theorem ensures_drawVerbatim {el : Element} (h : Named ok el) {children : List Node}
    (hc : ∀ n ∈ children, n.Fits (Named ok)) (order : Order) :
    Ensures (Context.Sound ok) (drawVerbatim el children order) (Drawing.Sound ok) := by
  unfold drawVerbatim
  refine .bind (ensures_prepare h order) fun el h => .bind (ensures_observe _) fun _ _ => ?_
  exact .pure (Drawing.sound_wrap _ h (Event.sound_eventsAll hc))

omit hok in
theorem ensures_drawLeaf (l : Leaf) :
    Ensures (Context.Sound ok) (drawLeaf l) (Drawing.Sound ok) := by
  unfold drawLeaf
  split
  · refine .bind .get fun c _ => ?_
    refine .bind (ensures_evaluating _ _ fun _ h => ⟨h.written, h.templates, h.defaults⟩) fun _ _ => ?_
    exact .pure (Drawing.sound_leaf _)
  · exact .pure (Drawing.sound_leaf _)

omit hok in
theorem Drawing.Sound.comment {d : Drawing} (h : d.Sound ok) (el : Element) :
    Drawing.Sound ok { d with events := debugComment el :: d.events } := by
  refine ⟨(Event.sound_leaf _).append h.stream, fun hb => ?_⟩
  obtain ⟨e, he, hel⟩ := h.shown hb
  exact ⟨e, List.mem_cons_of_mem _ he, hel⟩

omit hok in
theorem stepSound_drawNode {element : Element → List Node → Order → Compile Drawing}
    (he : ∀ el children order, Named ok el → (∀ n ∈ children, n.Fits (Named ok)) →
      Ensures (Context.Sound ok) (element el children order) (Drawing.Sound ok)) :
    Siblings.StepSound ok (drawNode element) := by
  intro n order hn
  cases n with
  | leaf l => exact ensures_drawLeaf l
  | element el children =>
    obtain ⟨hel, hc⟩ := Node.fits_element.1 hn
    have body : Ensures (Context.Sound ok) (withCurrent el do
        let d ← element el children order
        if (← get).options.debug && !d.events.isEmpty then
          return { d with events := debugComment el :: d.events }
        return d) (Drawing.Sound ok) := by
      refine ensures_withCurrent _ (.bind (he _ _ _ hel hc) fun d hd => .bind .get fun c _ => ?_)
      split
      · exact .pure (hd.comment el)
      · exact .pure hd
    unfold drawNode
    simp only
    split
    · refine .bind (.modify fun c h => ?_) fun _ _ => body
      unfold Context.registerWritten
      split
      · exact h
      · exact ⟨List.forall_mem_cons.2 ⟨hn, h.written⟩, h.templates, h.defaults⟩
    · exact body

/-- Every element is drawn soundly, whatever its role. -/
theorem ensures_drawElement (turnBound levels : Nat) : ∀ el children order, Named ok el →
    (∀ n ∈ children, n.Fits (Named ok)) →
    Ensures (Context.Sound ok) (drawElement turnBound levels el children order) (Drawing.Sound ok) := by
  induction levels with
  | zero => exact fun _ _ _ _ _ => .throw
  | succ levels ih =>
    intro el children order hel hc
    have hi : Inside.Sound ok (Siblings.draw (drawNode (drawElement turnBound levels))) :=
      fun nodes order hn => Siblings.ensures_draw (stepSound_drawNode ih) hn order
    have prepared : ∀ {f : Element → Compile Drawing},
        (∀ el, Named ok el → Ensures (Context.Sound ok) (f el) (Drawing.Sound ok)) →
        Ensures (Context.Sound ok) (prepare el order >>= f) (Drawing.Sound ok) :=
      fun hf => .bind (ensures_prepare hel order) hf
    unfold drawElement
    simp only
    cases Role.ofName el.name with
    | loop => exact Control.ensures_loop hi _ hel hc _
    | each => exact Control.ensures_each hi hel hc _
    | branch => exact Control.ensures_branch hi hel hc _
    | assign => exact Control.ensures_assign _ _
    | config => exact Control.ensures_config hel _
    | defaults => exact Control.ensures_defaults hc _
    | templates => exact Control.ensures_templates hc
    | reuse =>
      exact Reuse.ensures_draw hok ih
        (fun _ _ _ hel hc => ensures_drawContainer hok hi true hel hc _) hel _
    | gradient => exact prepared fun el hel => Gradient.ensures_draw hok hi hel hc
    | textBox => exact prepared fun el hel => Figure.ensures_textBox hok hi hel _
    | person => exact prepared fun el hel => Figure.ensures_person hok hel
    | pipeline => exact prepared fun el hel => Figure.ensures_pipeline hok hi hel hc
    | verbatim => exact ensures_drawVerbatim hel hc _
    | container drawn => exact ensures_drawContainer hok hi drawn hel hc _
    | shape => exact prepared fun el hel => Figure.ensures_shape hok ensures_setCurrent hi hel hc

/-- Content is drawn soundly within all bounds. -/
theorem sound_drawInside (b : Bounds) : (drawInside b).Sound ok := fun _ order hn =>
  Siblings.ensures_draw (stepSound_drawNode (ensures_drawElement hok b.turns b.levels)) hn order

end Closed

end DiagramMarkup
