import DiagramMarkup.Proofs.WellFormed

/-!
# Shorthand elements

A shorthand stands for what is drawn in its place, so no element of the output is named like one. Only the content of
some elements is copied without a look at it.

1. Names are settled by the role of an element, and what happens to an element afterwards leaves its name
   (`yields_prepare`, `plain_measured`). So it does not matter what a step finds in the context.
2. Each role puts its drawing together from plain streams if its content is drawn plainly, and by induction over the
   levels all content is (`yields_drawElement`).
3. In a plain stream no tag outside of copied content opens a shorthand (`Event.Plain.of_mem_exposed`).
-/

namespace DiagramMarkup

open Element Compile

/-- The names of elements that stand for something else. -/
def shorthands : List String :=
  ["loop", "for", "if", "var", "config", "defaults", "specs", "reuse", "tbox", "person", "pipeline"]

/-- The names of elements whose content is copied. -/
def copied : List String := ["style", "script", "title", "desc", "metadata"]

theorem not_mem_shorthands_of_copied : ∀ {name : String}, name ∈ copied → name ∉ shorthands := by decide

/-- The element is no shorthand. -/
def Element.Plain (el : Element) : Prop := el.name ∉ shorthands

/-- Is an element with this role drawn under its own name? -/
def Role.keepsName : Role → Bool
  | .gradient | .verbatim | .container _ | .shape => true
  | _ => false

theorem Element.plain_of_role {el : Element} (h : (Role.ofName el.name).keepsName) : el.Plain := by
  have shorthand : ∀ name ∈ shorthands, (Role.ofName name).keepsName = false := by decide
  intro hmem
  rw [shorthand _ hmem] at h
  cases h

theorem Element.plain_of_name {el : Element} {name : String} (h : el.name = name) (hn : name ∉ shorthands) :
    el.Plain := by rwa [Plain, h]

theorem Role.mem_copied {name : String} (h : ofName name = .verbatim) : name ∈ copied := by
  unfold ofName at h
  split at h <;> cases h <;> decide

/-! ## Streams -/

namespace Event

/-- The elements that the tags of a stream open outside of copied content. `above` are the names of the elements around
the stream, the innermost first. -/
def exposed : (above : List String) → List Event → List Element
  | _, [] => []
  | above, .start el :: evs => shown above el ++ exposed (el.name :: above) evs
  | above, .empty el :: evs => shown above el ++ exposed above evs
  | above, .close _ :: evs => exposed above.tail evs
  | above, .leaf _ :: evs => exposed above evs
where
  /-- The element, unless it is part of copied content. -/
  shown (above : List String) (el : Element) : List Element :=
    if above.any copied.contains then [] else [el]

/-- The tags of the stream nest, and those outside of copied content open no shorthands. -/
inductive Plain : List Event → Prop where
  | nil : Plain []
  | leaf (l : Leaf) {evs : List Event} (h : Plain evs) : Plain (.leaf l :: evs)
  | empty {el : Element} (hel : el.Plain) {evs : List Event} (h : Plain evs) : Plain (.empty el :: evs)
  | copy {el : Element} (hel : el.name ∈ copied) {inner evs : List Event} {ns : List Node}
    (hi : Node.Nests inner ns) (h : Plain evs) : Plain (.start el :: (inner ++ .close el.name :: evs))
  | tags {el : Element} (hel : el.Plain) {inner evs : List Event} (hi : Plain inner) (h : Plain evs) :
    Plain (.start el :: (inner ++ .close el.name :: evs))

/-- Whatever stands within a copied element is not exposed. -/
theorem exposed_nests {evs : List Event} {ns : List Node} (h : Node.Nests evs ns) :
    ∀ {above : List String} (rest : List Event), above.any copied.contains = true →
      exposed above (evs ++ rest) = exposed above rest := by
  induction h with
  | nil => exact fun _ _ => rfl
  | leaf l _ ih => exact fun rest ha => ih rest ha
  | empty el _ ih =>
    intro above rest ha
    rw [List.cons_append, exposed, exposed.shown, if_pos ha]
    exact ih rest ha
  | tags el _ _ ihi ih =>
    intro above rest ha
    have hin : (el.name :: above).any copied.contains = true := by simp [ha]
    rw [List.cons_append, List.append_assoc, exposed, exposed.shown, if_pos ha, List.nil_append, ihi _ hin]
    exact ih rest ha

namespace Plain

variable {evs fvs : List Event}

/-- Elements that a plain stream exposes are no shorthands, wherever it stands. -/
theorem exposed_append (h : Plain evs) : ∀ {above : List String} {rest : List Event},
    (∀ el ∈ exposed above rest, el.Plain) → ∀ el ∈ exposed above (evs ++ rest), el.Plain := by
  have shown : ∀ {above : List String} {el : Element}, el.Plain → ∀ fl ∈ exposed.shown above el, fl.Plain := by
    intro above el hel fl hfl
    unfold exposed.shown at hfl
    split at hfl
    · cases hfl
    · rw [List.mem_singleton.1 hfl]
      exact hel
  induction h with
  | nil => exact fun hr => hr
  | leaf l _ ih => exact fun hr => ih hr
  | empty hel _ ih =>
    intro above rest hr
    rw [List.cons_append, exposed]
    exact List.forall_mem_append.2 ⟨shown hel, ih hr⟩
  | @copy el hel inner evs ns hi _ ih =>
    intro above rest hr
    have hin : (el.name :: above).any copied.contains = true := by simp [hel]
    rw [List.cons_append, List.append_assoc, exposed, exposed_nests hi _ hin]
    exact List.forall_mem_append.2 ⟨shown (not_mem_shorthands_of_copied hel), ih hr⟩
  | tags hel _ _ ihi ih =>
    intro above rest hr
    rw [List.cons_append, List.append_assoc, exposed]
    exact List.forall_mem_append.2 ⟨shown hel, ihi (ih hr)⟩

theorem of_mem_exposed (h : Plain evs) : ∀ el ∈ exposed [] evs, el.Plain := by
  have : ∀ el ∈ exposed [] (evs ++ []), el.Plain := h.exposed_append (by simp [exposed])
  rwa [List.append_nil] at this

theorem nests (h : Plain evs) : ∃ ns, Node.Nests evs ns := by
  induction h with
  | nil => exact ⟨_, .nil⟩
  | leaf l _ ih =>
    obtain ⟨ns, hns⟩ := ih
    exact ⟨_, .leaf l hns⟩
  | @empty el _ _ _ ih =>
    obtain ⟨ns, hns⟩ := ih
    exact ⟨_, .empty el hns⟩
  | @copy el _ _ _ _ hi _ ih =>
    obtain ⟨ns, hns⟩ := ih
    exact ⟨_, .tags el hi hns⟩
  | @tags el _ _ _ _ _ ihi ih =>
    obtain ⟨cs, hcs⟩ := ihi
    obtain ⟨ns, hns⟩ := ih
    exact ⟨_, .tags el hcs hns⟩

theorem append (h : Plain evs) (k : Plain fvs) : Plain (evs ++ fvs) := by
  induction h with
  | nil => exact k
  | leaf l _ ih => exact .leaf l ih
  | empty hel _ ih => exact .empty hel ih
  | copy hel hi _ ih =>
    rw [List.cons_append, List.append_assoc, List.cons_append]
    exact .copy hel hi ih
  | tags hel hi _ _ ih =>
    rw [List.cons_append, List.append_assoc, List.cons_append]
    exact .tags hel hi ih

theorem wrap (h : Plain evs) {el : Element} (hel : el.Plain) : Plain (wrap el evs) := by
  unfold Event.wrap
  split
  · exact .empty hel .nil
  · exact .tags hel h .nil

theorem flatMap {α : Type} {f : α → List Event} {as : List α} (h : ∀ a ∈ as, Plain (f a)) :
    Plain (as.flatMap f) := by
  induction as with
  | nil => exact .nil
  | cons a as ih =>
    rw [List.flatMap_cons]
    exact (h a (by simp)).append (ih fun b hb => h b (by simp [hb]))

theorem mapEmpty {α : Type} {f : α → Element} {as : List α} (h : ∀ a ∈ as, (f a).Plain) :
    Plain (as.map fun a => .empty (f a)) := by
  rw [List.map_eq_flatMap]
  exact flatMap fun a ha => .empty (h a ha) .nil

variable {f : Element → Element} (hf : ∀ el, (f el).name = el.name)

include hf

theorem mapElement (h : Plain evs) : Plain (evs.map (Event.mapElement f)) := by
  have plain : ∀ {el : Element}, el.Plain → (f el).Plain := fun {el} hel => plain_of_name (hf el) hel
  induction h with
  | nil => exact .nil
  | leaf l _ ih => exact .leaf l ih
  | empty hel _ ih => exact .empty (plain hel) ih
  | @copy el hel inner evs ns hi _ ih =>
    obtain ⟨ms, hms⟩ := hi.alike (alike_map hf inner)
    rw [List.map_cons, List.map_append, List.map_cons]
    change Plain (.start (f el) :: (_ ++ .close el.name :: _))
    rw [← hf el] at hel ⊢
    exact .copy hel hms ih
  | @tags el hel inner evs _ _ ihi ih =>
    rw [List.map_cons, List.map_append, List.map_cons]
    change Plain (.start (f el) :: (_ ++ .close el.name :: _))
    rw [← hf el]
    exact .tags (plain hel) ihi ih

theorem mapFirst {e : Event} (h : Plain (e :: evs)) : Plain (e.mapElement f :: evs) := by
  have plain : ∀ {el : Element}, el.Plain → (f el).Plain := fun {el} hel => plain_of_name (hf el) hel
  cases h with
  | leaf l h => exact .leaf l h
  | empty hel h => exact .empty (plain hel) h
  | @copy el hel _ _ _ hi h =>
    rw [← hf el] at hel ⊢
    exact .copy hel hi h
  | @tags el hel _ _ hi h =>
    rw [← hf el]
    exact .tags (plain hel) hi h

end Plain

end Event

/-! ## Results of steps -/

/-- All results of the step have the property, whatever the context. -/
abbrev Yields {α : Type} (m : Compile α) (Q : α → Prop) : Prop := Ensures (fun _ => True) m Q

namespace Ensures

variable {α β : Type} {m : Compile α} {f : α → Compile β} {Q : α → Prop} {R : β → Prop}

/-- The result of the first step does not matter. -/
theorem after (h : ∀ a, Yields (f a) R) : Yields (m >>= f) R :=
  .bind (R := fun _ => True) (fun _ _ => ⟨trivial, fun _ _ => trivial⟩) fun a _ => h a

theorem cleanedUp {g : Context → Context} (h : Yields m Q) : Yields (Compile.bracket m g) Q :=
  h.bracket fun _ _ => trivial

theorem withFrame (vars : Frame) (h : Yields m Q) : Yields (Compile.withFrame vars m) Q := after fun _ => h.cleanedUp

theorem withDepth (el : Element) (h : Yields m Q) : Yields (Compile.withDepth el m) Q := after fun _ => h.cleanedUp

theorem withCurrent (el : Element) (h : Yields m Q) : Yields (Compile.withCurrent el m) Q :=
  after fun _ => after fun _ => h.cleanedUp

end Ensures

/-- The stream of the drawing is plain. -/
def Drawing.Plain (d : Drawing) : Prop := Event.Plain d.events

theorem Drawing.plain_nil : Drawing.Plain {} := .nil

theorem Drawing.plain_wrap {el : Element} (hel : el.Plain) {content : List Event} (hc : Event.Plain content)
    (box : Option (Box Float)) : Drawing.Plain ⟨Event.wrap el content, box⟩ := hc.wrap hel

theorem Drawing.plain_concat {ds : List Drawing} (h : ∀ d ∈ ds, d.Plain) : (concat ds).Plain := .flatMap h

namespace Siblings

/-- The drawing of the sibling, if there is one, is plain. -/
def PlainSibling (s : Sibling) : Prop := ∀ c, s.chunk? = some c → c.drawing.Plain

theorem plain_ofAttempt {order : Order} {wait : Deferral → Pending} {r : Except Deferral Drawing}
    (hr : ∀ d, r = .ok d → d.Plain) : PlainSibling (.ofAttempt order wait r) := by
  intro c hc
  cases r with
  | ok d =>
    cases hc
    exact hr d rfl
  | error why => cases hc

theorem plain_chunks {ss : List Sibling} (h : ∀ s ∈ ss, PlainSibling s) :
    ∀ c ∈ ss.filterMap Sibling.chunk?, c.drawing.Plain := by
  intro c hc
  obtain ⟨s, hs, hc⟩ := List.mem_filterMap.1 hc
  exact h s hs c hc

variable {step : Step} (h : ∀ n order, Yields (step n order) Drawing.Plain)

include h

theorem yields_first (n : Node) (order : Order) : Yields (first step n order) PlainSibling := by
  unfold first
  exact .after fun c => .bind (h n order).attempt fun r hr => .after fun _ => .pure (plain_ofAttempt hr)

theorem yields_retry (p : Pending) : Yields (retry step p) PlainSibling := by
  unfold retry
  refine .after fun live => .after fun _ => ?_
  exact .bind ((h p.node p.order).attempt.cleanedUp) fun r hr => .pure (plain_ofAttempt hr)

theorem yields_passes (n : Nat) {chunks : List Chunk} (hc : ∀ c ∈ chunks, c.drawing.Plain) (queue : List Pending) :
    Yields (passes step n chunks queue) fun r => ∀ c ∈ r.1, c.drawing.Plain := by
  induction n generalizing chunks queue with
  | zero => exact .pure hc
  | succ n ih =>
    unfold passes
    split
    · exact .pure hc
    refine .bind (.mapM fun p _ => yields_retry h p) fun tried ht => ?_
    have hc := List.forall_mem_append.2 ⟨hc, plain_chunks ht⟩
    simp only
    split
    · exact .pure hc
    · exact ih hc _

theorem yields_draw (nodes : List Node) (base : Order) : Yields (draw step nodes base) fun r => r.1.Plain := by
  unfold draw
  refine .bind (.mapM fun p _ => yields_first h p.1 _) fun tried ht => ?_
  refine .bind (yields_passes h _ (plain_chunks ht) _) fun r hr => .pure (Drawing.plain_concat fun d hd => ?_)
  obtain ⟨c, hc, rfl⟩ := List.mem_map.1 (mem_of_mem_tidy hd)
  exact hr c (List.mem_mergeSort.1 hc)

end Siblings

/-- The content of an element is drawn plainly. -/
def Inside.Plain (inside : Inside) : Prop := ∀ nodes order, Yields (inside nodes order) fun r => r.1.Plain

theorem Inside.Plain.of {inside : Inside} (h : inside.Plain) (el : Element) (nodes : List Node) (order : Order) :
    Yields (inside.of el nodes order) Drawing.Plain := by
  unfold Inside.of
  refine .bind (h nodes order) fun r hr => ?_
  simp only
  split
  · exact .pure hr
  · exact .throw

/-! ## Names of elements -/

namespace Element

/-- A property of the name of an element does not depend on its attributes. -/
theorem stable_name (P : String → Prop) : Stable (fun _ => True) fun el => P el.name := ⟨fun _ _ h => h, fun _ h => h⟩

theorem name_eraseAll (el : Element) (names : List String) : (el.eraseAll names).name = el.name :=
  (stable_name (· = el.name)).eraseAll (by simp) rfl

theorem name_addClass (el : Element) (c : String) : (el.addClass c).name = el.name := name_addClasses el [c]

theorem name_ofAttrs (name : String) (pairs : List (String × String)) : (ofAttrs name pairs).name = name := by
  unfold ofAttrs
  generalize hel : ({ name := name } : Element) = el
  have hname : el.name = name := by rw [← hel]
  clear hel
  induction pairs generalizing el with
  | nil => exact hname
  | cons p pairs ih =>
    refine ih _ ?_
    simp only
    split
    · rw [name_addClasses, hname]
    · exact hname

end Element

theorem Scope.name_applyDefaults (s : Scope) (el : Element) : (s.applyDefaults el).name = el.name := by
  unfold applyDefaults
  induction s.defaults.reverse generalizing el with
  | nil => rfl
  | cons d ds ih =>
    refine (ih _).trans ?_
    unfold fillFrom
    split
    · rfl
    · exact name_addClasses _ _

theorem Compile.yields_prepare (el : Element) (order : Order) :
    Yields (prepare el order) fun fl => fl.name = el.name := by
  unfold prepare
  refine .after fun _ => .bind (name_expandElement _) fun fl hfl => .after fun c => .after fun _ => .pure ?_
  rw [Scope.name_applyDefaults, hfl]

/-! ## Roles -/

namespace Control

variable {inside : Inside} (hi : inside.Plain)

include hi

theorem yields_body (el : Element) (children : List Node) (order : Order) (vars : Frame) :
    Yields (body inside el children order vars) Drawing.Plain := .withFrame vars (hi.of el children order)

theorem yields_loopTurn (el : Element) (children : List Node) (while? until? : Option String) (start step : Float)
    (k : Nat) : Yields (loopTurn inside el children while? until? start step k)
      fun t => ∀ d last, t = .drawn d last → d.Plain := by
  unfold loopTurn
  refine .after fun b => ?_
  split
  · refine .after fun c => .after fun _ => .bind (yields_body hi el children _ _) fun d hd => ?_
    refine .after fun last => .pure ?_
    rintro d' last' h
    cases h
    exact hd
  · exact .pure fun _ _ h => nomatch h

theorem yields_loop (bound : Nat) (el : Element) (children : List Node) (order : Order) :
    Yields (loop bound inside el children order) Drawing.Plain := by
  unfold loop
  refine .after fun _ => .after fun el => .after fun _ => .after fun count => .after fun _ => ?_
  refine .after fun start => .after fun step => ?_
  refine .bind (ensures_turns _ (yields_loopTurn hi el children _ _ _ _) _ _ (by simp)) fun ds hds => ?_
  exact .pure (Drawing.plain_concat hds)

theorem yields_each (el : Element) (children : List Node) (order : Order) :
    Yields (each inside el children order) Drawing.Plain := by
  unfold each
  refine .after fun _ => .after fun el => .after fun _ => ?_
  split
  · exact .throw
  refine .after fun xs => .after fun c => .after fun _ => ?_
  exact .bind (.mapM fun p _ => yields_body hi el children _ _) fun ds hds => .pure (Drawing.plain_concat hds)

theorem yields_branch (el : Element) (children : List Node) (order : Order) :
    Yields (branch inside el children order) Drawing.Plain := by
  unfold branch
  refine .after fun _ => ?_
  split
  · exact .throw
  refine .after fun el => .after fun _ => .after fun holds => ?_
  split
  · exact yields_body hi el children _ _
  · exact .pure Drawing.plain_nil

omit hi

theorem yields_assign (el : Element) (order : Order) : Yields (assign el order) Drawing.Plain :=
  .after fun _ => .after fun _ => .pure Drawing.plain_nil

theorem yields_config (el : Element) (order : Order) : Yields (config el order) Drawing.Plain :=
  .after fun _ => .after fun _ => .pure Drawing.plain_nil

theorem yields_defaults (children : List Node) (order : Order) : Yields (defaults children order) Drawing.Plain :=
  .after fun _ => .pure Drawing.plain_nil

theorem yields_templates (children : List Node) : Yields (templates children) Drawing.Plain := by
  unfold templates
  simp only
  split
  · exact .throw
  · exact .after fun _ => .pure Drawing.plain_nil

end Control

namespace Label

theorem plain_content (el : Element) (lines : List String) : Event.Plain (content el lines).events := by
  unfold content
  split
  · exact .leaf _ .nil
  refine .flatMap fun s hs => ?_
  obtain ⟨⟨line, i⟩, _, rfl⟩ := List.mem_map.1 hs
  exact .wrap (.leaf _ .nil) (plain_of_name (name_ofAttrs _ _) (by decide))

theorem plain_draw (l : Label) (shape : Element) (b : Box Float) : Event.Plain (l.draw shape b).events := by
  have hname : (l.element shape b).name = "text" := by
    unfold Label.element
    simp only
    split
    · exact (name_addClasses _ _).trans (name_addClasses _ _)
    · exact (name_addClasses _ _).trans (name_addClasses _ _)
  exact (plain_content _ _).wrap (plain_of_name hname (by decide))

end Label

namespace Figure

variable {el : Element} (h : el.Plain)

include h

theorem plain_measured {o : Options} {label : Option Label} {inner : List Event} (hi : Event.Plain inner) {s : Settled}
    (hs : measured o el label inner = .ok s) : s.element.Plain ∧ Event.Plain s.content ∧ Event.Plain s.beside := by
  refine ⟨(asks_measured (stable_name (· ∉ shorthands)) trivial (by simp) h o label inner).result hs, ?_⟩
  unfold measured at hs
  split at hs
  · obtain ⟨box, -, hs⟩ := except_bind_eq_ok hs
    cases hs
    refine ⟨.append ?_ hi, .nil⟩
    unfold labelContent
    split
    · exact Label.plain_content _ _
    · exact .nil
  · obtain ⟨box, -, hs⟩ := except_bind_eq_ok hs
    obtain ⟨fl, -, hs⟩ := except_bind_eq_ok hs
    cases hs
    refine ⟨hi, ?_⟩
    unfold attached
    split
    · exact Label.plain_draw _ _ _
    · exact .nil

theorem yields_shape (note : Element → Compile Unit) {inside : Inside} (hi : inside.Plain) (children : List Node) :
    Yields (shape note inside el children) Drawing.Plain := by
  have hI := stable_name (· ∉ shorthands)
  unfold shape
  refine .after fun c => ?_
  refine .bind (R := Element.Plain) (.ofExcept fun fl hr => (asks_expandPath hI trivial h _).result hr) fun el h => ?_
  refine .after fun _ => .after fun c => ?_
  refine .bind (R := Element.Plain) (.ofExcept fun fl hr =>
    ((Connector.asks_connect hI (by simp) el h).ok (fun _ => c.boxOf) fl hr).1) fun el h => ?_
  refine .after fun _ => .after fun c => ?_
  refine .bind (R := Element.Plain) (.ofExcept fun fl hr =>
    ((Position.asks_resolve hI (by simp) el el h).ok (fun _ => c.boxOf) fl hr).1) fun el h => ?_
  refine .bind (R := fun r => r.2.Plain) (.ofExcept fun r hr =>
    (Label.asks_take hI (by simp) h).result hr) fun r hr => ?_
  obtain ⟨label, el⟩ := r
  refine .after fun _ => .bind (hi.of el children _) fun inner hinner => .after fun c => ?_
  refine .bind (.ofExcept fun s hs => plain_measured hr hinner hs) fun s hs => ?_
  refine .after fun _ => .after fun _ => .after fun _ => ?_
  exact .pure ((hs.2.1.wrap hs.1).append hs.2.2)

omit h

theorem name_textBoxRect (o : Options) (el : Element) (children : List Node) :
    (textBoxRect o el children).name = "rect" := by
  unfold textBoxRect
  simp only
  split <;> split <;> rfl

theorem yields_textBox {inside : Inside} (hi : inside.Plain) (el : Element) (children : List Node) :
    Yields (textBox inside el children) Drawing.Plain := by
  unfold textBox
  exact .after fun c => .after fun _ =>
    yields_shape (plain_of_name (name_textBoxRect _ _ _) (by decide)) setCurrent hi []

theorem plain_personParts (b : Box Float) : ∀ el ∈ personParts b, el.Plain := by
  intro el hel
  simp only [personParts, List.mem_cons, List.not_mem_nil, or_false] at hel
  rcases hel with rfl | rfl | rfl | rfl <;> exact plain_of_name (name_ofAttrs _ _) (by decide)

theorem yields_person (el : Element) : Yields (person el) Drawing.Plain := by
  unfold person
  refine .after fun b => .after fun _ => ?_
  have hg : ((({ el with name := "g" } : Element).eraseAll geometry).addClass "d-person").Plain :=
    plain_of_name ((name_addClass _ _).trans (name_eraseAll _ _)) (by simp [shorthands])
  refine .bind (R := Element.Plain) (.ofExcept fun g hr =>
    (asks_rotated (stable_name (· ∉ shorthands)) trivial (by simp) hg _).result hr) fun g hg => ?_
  exact .after fun _ => .after fun _ => .pure (Drawing.plain_wrap hg (.mapEmpty (plain_personParts b)) _)

theorem yields_pipeline {inside : Inside} (hi : inside.Plain) (el : Element) (children : List Node) :
    Yields (pipeline inside el children) Drawing.Plain := by
  unfold pipeline
  refine .after fun b => yields_shape (plain_of_name ?_ (by decide : "path" ∉ shorthands)) _ hi children
  exact (name_addClass _ _).trans (name_eraseAll _ _)

end Figure

theorem Gradient.yields_draw {inside : Inside} (hi : inside.Plain) {el₀ : Element} (h : el₀.Plain)
    (children : List Node) : Yields (draw inside el₀ children) Drawing.Plain := by
  have shaped : ∀ {fl : Element} dir length, fl.Plain → Yields (shaped fl dir length) Element.Plain := by
    intro fl dir length hfl
    unfold Gradient.shaped
    refine .after fun covered => ?_
    split
    · exact .after fun degrees => .pure (plain_of_name rfl hfl)
    split
    · exact .pure (plain_of_name rfl hfl)
    · exact .pure hfl
  have bare : (el₀.eraseAll ["stops", "dir", "length"]).Plain := plain_of_name (name_eraseAll _ _) h
  unfold Gradient.draw
  refine .bind (shaped _ _ bare) fun el h => .after fun _ => .after fun _ => ?_
  refine .bind (hi.of el children _) fun inner hinner => .after fun _ => .after fun _ => ?_
  have stops : Event.Plain ((parseStops (el₀.attrs.value "stops")).map fun s => .empty s.element) :=
    .mapEmpty fun s _ => plain_of_name (name_ofAttrs _ _) (by decide)
  exact .pure (Drawing.plain_wrap h (stops.append hinner) none)

namespace Reuse

theorem yields_merge (inst t : Element) (used : List String) :
    Yields (merge inst t used) fun r => r.1.name = t.name := by
  unfold merge
  simp only
  refine .after fun turn => ?_
  refine .bind (R := fun r : Element × Placement => r.1.name = t.name) (.foldlM (fun s hs a _ => ?_) rfl)
    fun r hr => .pure ((name_addClasses _ _).trans hr)
  obtain ⟨fl, p⟩ := s
  unfold mergeAttr
  simp only
  split
  · exact .pure hs
  · exact .pure hs
  · exact .after fun _ => .pure hs
  · exact .pure hs
  · exact .after fun _ => .pure hs
  · exact .after fun _ => .pure hs
  · refine .pure ?_
    split <;> exact hs

theorem yields_applyGroup (p : Placement) {d : Drawing} (h : d.Plain) : Yields (p.applyGroup d) Drawing.Plain := by
  obtain ⟨events, box⟩ := d
  unfold Placement.applyGroup
  simp only
  split
  · exact .pure .nil
  next e rest =>
  have placed : Event.Plain (e.mapElement (fun el => if (p.steps box).isEmpty then el
      else el.prependTransform (" ".intercalate (p.steps box))) :: rest) := by
    refine Event.Plain.mapFirst (fun el => ?_) h
    split
    · rfl
    · exact (stable_name (· = el.name)).prependTransform (by simp) rfl _
  generalize box.map _ = box'
  split
  · exact .after fun _ => .pure placed
  · exact .pure placed

theorem yields_draw {draw group : Element → List Node → Order → Compile Drawing}
    (hd : ∀ el children order, Yields (draw el children order) Drawing.Plain)
    (hg : ∀ el children order, el.name = "g" → Yields (group el children order) Drawing.Plain)
    (el : Element) (order : Order) : Yields (Reuse.draw draw group el order) Drawing.Plain := by
  unfold Reuse.draw
  refine .after fun inst => .after fun _ => ?_
  split
  · exact .throw
  refine .after fun c => ?_
  split
  · next t children _ =>
    refine .withDepth _ (.withFrame _ (.bind (yields_merge _ _ _) fun r hr => ?_))
    obtain ⟨t', p⟩ := r
    simp only
    split
    · next hgroup =>
      have hname : t'.name = "g" := by simpa [Reuse.draw.rename, hgroup] using hr
      exact .bind (hg _ _ _ hname) fun d hd => yields_applyGroup p hd
    · exact .after fun t => hd _ _ _
  · exact .throw

end Reuse

theorem yields_drawContainer {inside : Inside} (hi : inside.Plain) (drawn : Bool) {el : Element} (h : el.Plain)
    (children : List Node) (order : Order) :
    Yields (drawContainer inside drawn el children order) Drawing.Plain := by
  unfold drawContainer
  refine .bind (yields_prepare el order) fun fl hfl => .withDepth _ ?_
  refine .bind (.withFrame _ (hi.of fl children _)) fun inner hinner => ?_
  have hfl := plain_of_name hfl h
  refine .bind (R := Element.Plain) (.ofExcept fun g hr =>
    (asks_rotated (stable_name (· ∉ shorthands)) trivial (by simp) hfl _).result hr) fun g hg => ?_
  exact .after fun _ => .after fun _ => .pure (Drawing.plain_wrap hg hinner _)

theorem yields_drawVerbatim {el : Element} (h : el.name ∈ copied) (children : List Node) (order : Order) :
    Yields (drawVerbatim el children order) Drawing.Plain := by
  unfold drawVerbatim
  refine .bind (yields_prepare el order) fun fl hfl => .after fun _ => .pure ?_
  rw [← hfl] at h
  unfold Drawing.Plain Event.wrap
  split
  · exact .empty (not_mem_shorthands_of_copied h) .nil
  · exact .copy h (Node.nests_eventsAll children) .nil

theorem yields_drawLeaf (l : Leaf) : Yields (drawLeaf l) Drawing.Plain := by
  unfold drawLeaf
  split
  · exact .after fun c => .after fun s => .pure (.leaf _ .nil)
  · exact .pure (.leaf _ .nil)

theorem yields_drawNode {element : Element → List Node → Order → Compile Drawing}
    (he : ∀ el children order, Yields (element el children order) Drawing.Plain) (n : Node) (order : Order) :
    Yields (drawNode element n order) Drawing.Plain := by
  cases n with
  | leaf l => exact yields_drawLeaf l
  | element el children =>
    have body : Yields (withCurrent el do
        let d ← element el children order
        if (← get).options.debug && !d.events.isEmpty then
          return { d with events := debugComment el :: d.events }
        return d) Drawing.Plain := by
      refine .withCurrent _ (.bind (he _ _ _) fun d hd => .after fun c => ?_)
      split
      · exact .pure (.leaf _ hd)
      · exact .pure hd
    unfold drawNode
    simp only
    split
    · exact .after fun _ => body
    · exact body

/-- Every element is drawn plainly, whatever its role. -/
theorem yields_drawElement (turnBound levels : Nat) :
    ∀ el children order, Yields (drawElement turnBound levels el children order) Drawing.Plain := by
  induction levels with
  | zero => exact fun _ _ _ => .throw
  | succ levels ih =>
    intro el children order
    have hi : Inside.Plain (Siblings.draw (drawNode (drawElement turnBound levels))) :=
      Siblings.yields_draw (yields_drawNode ih)
    have kept : (Role.ofName el.name).keepsName → ∀ {f : Element → Compile Drawing},
        (∀ el, el.Plain → Yields (f el) Drawing.Plain) → Yields (prepare el order >>= f) Drawing.Plain :=
      fun hr f hf => .bind (yields_prepare el order) fun fl hfl => hf fl (plain_of_name hfl (plain_of_role hr))
    unfold drawElement
    simp only
    cases hrole : Role.ofName el.name with
    | loop => exact Control.yields_loop hi _ _ _ _
    | each => exact Control.yields_each hi _ _ _
    | branch => exact Control.yields_branch hi _ _ _
    | assign => exact Control.yields_assign _ _
    | config => exact Control.yields_config _ _
    | defaults => exact Control.yields_defaults _ _
    | templates => exact Control.yields_templates _
    | reuse =>
      exact Reuse.yields_draw ih
        (fun fl cs order hfl => yields_drawContainer hi true (plain_of_name hfl (by decide)) cs order) _ _
    | gradient => exact kept (by rw [hrole]; rfl) fun el h => Gradient.yields_draw hi h children
    | textBox => exact .after fun el => Figure.yields_textBox hi el children
    | person => exact .after fun el => Figure.yields_person el
    | pipeline => exact .after fun el => Figure.yields_pipeline hi el children
    | verbatim => exact yields_drawVerbatim (Role.mem_copied hrole) _ _
    | container drawn => exact yields_drawContainer hi drawn (plain_of_role (by rw [hrole]; rfl)) _ _
    | shape => exact kept (by rw [hrole]; rfl) fun el h => Figure.yields_shape h _ hi children

/-! ## Documents -/

theorem Node.plain_element {el : Element} (hel : el.Plain) {cs : List Node} (hc : ∀ c ∈ cs, Event.Plain c.events) :
    Event.Plain (Node.element el cs).events := by
  have all : ∀ {cs : List Node}, (∀ c ∈ cs, Event.Plain c.events) → Event.Plain (eventsAll cs) := by
    intro cs
    induction cs with
    | nil => exact fun _ => .nil
    | cons c cs ih =>
      intro h
      obtain ⟨hc, hcs⟩ := List.forall_mem_cons.1 h
      exact hc.append (ih hcs)
  cases cs with
  | nil => exact .empty hel .nil
  | cons c cs => exact .tags hel (all hc) .nil

theorem Styles.plain_arrowMarker (p : Theme.Palette) (mode : StyleMode) : Event.Plain (arrowMarker p mode).events := by
  refine Node.plain_element (plain_of_name (name_ofAttrs _ _) (by decide)) fun c hc => ?_
  rw [List.mem_singleton.1 hc]
  refine .empty (plain_of_name ?_ (by decide : "polygon" ∉ shorthands)) .nil
  split
  · exact name_ofAttrs _ _
  · exact name_ofAttrs _ _

theorem Styles.plain_events {o : Options} {names classes : List String} {s : Styles}
    (h : build? o names classes = some s) : Event.Plain s.events := by
  have defs : ∀ n ∈ s.defs, Event.Plain n.events := by
    unfold build? at h
    generalize (if o.addAutoStyles then o.styleMode else .none) = mode at h
    simp only at h
    split at h
    · cases h
    split at h
    · cases h
      simp
    · cases h
      unfold automatic
      simp only
      split
      · simpa using plain_arrowMarker _ _
      · simp
  unfold events
  refine .append ?_ ?_
  · split
    · exact .nil
    · exact .copy (by decide) (.leaf _ .nil) .nil
  · split
    · exact .nil
    · exact Node.plain_element (plain_of_name rfl (by decide)) defs

theorem Root.plain_assemble {c : Context} {el : Element} (hel : el.Plain) {d : Drawing} (hd : d.Plain)
    {evs : List Event} (h : assemble? c el d = some evs) : Event.Plain evs := by
  obtain ⟨styles, hs, h⟩ := Option.bind_eq_some_iff.1 h
  simp only [pure, Option.some.injEq] at h
  have content := (Styles.plain_events hs).append (Event.Plain.mapElement styles.name_apply hd)
  have name : (styles.apply (finished c.options el d.box)).name = el.name := by
    rw [Styles.name_apply, (name_finished _ _ _).1]
  rw [← h]
  split
  · exact content.wrap (plain_of_name name hel)
  · exact content.wrap (plain_of_name name hel)

theorem Root.yields_draw (b : Bounds) {el : Element} (hel : el.Plain) (content : List Node) :
    Yields (draw b el content) fun r => r.1.Plain ∧ r.2.1.Plain := by
  unfold draw
  refine .after fun _ => .bind (name_expandElement _) fun fl hfl => .after fun _ => ?_
  refine .bind (Siblings.yields_draw (yields_drawNode (yields_drawElement _ _)) _ _) fun r hr => .pure ⟨?_, hr⟩
  exact plain_of_name hfl hel

theorem Node.plain_leaves {ns : List Node} (h : ∀ n ∈ ns, n.isElement = false) : Event.Plain (eventsAll ns) := by
  induction ns with
  | nil => exact .nil
  | cons n ns ih =>
    obtain ⟨hn, hns⟩ := List.forall_mem_cons.1 h
    cases n with
    | leaf l => exact .leaf l (ih hns)
    | element el cs => cases hn

theorem compile_plain {o : Options} {chance : Chance} {evs out : List Event} (h : compile o evs chance = .ok out) : Event.Plain out := by
  obtain ⟨-, ns, -, h⟩ := compile_eq_ok.1 h
  obtain ⟨outer, el, d, c, evs', houter, hdraw, hass, rfl⟩ := compileNodes_eq_ok.1 h
  obtain ⟨hname, haround⟩ := Outermost.around_ofNodes houter
  obtain ⟨hbefore, hbehind⟩ := List.forall_mem_append.1 haround
  have hdrawn := Root.yields_draw (.ofDocument o ns) (plain_of_name hname (by decide)) outer.content
    (.new o chance) trivial
  rw [hdraw] at hdrawn
  obtain ⟨hel, hd⟩ := hdrawn.2 _ rfl
  exact ((Node.plain_leaves hbefore).append (Root.plain_assemble hel hd hass)).append (Node.plain_leaves hbehind)

/-- No shorthand is left in a document that compiles. -/
theorem compile_expands (o : Options) (chance : Chance) {evs out : List Event} (h : compile o evs chance = .ok out) :
    ∀ el ∈ Event.exposed [] out, el.name ∉ shorthands := (compile_plain h).of_mem_exposed

/-- A shorthand with another one in a title. -/
def titledGroup : List Node :=
  [.element { name := "svg" } [
    .element (.ofAttrs "if" [("test", "'yes'")]) [
      .element { name := "g" } [.element { name := "title" } [.element { name := "loop" } []]]]]]

/-- The group and its title are drawn, and nothing else is exposed. -/
theorem compile_expands_titledGroup :
    ∃ out, compile { addAutoStyles := false } (Node.eventsAll titledGroup) = .ok out ∧
      (Event.exposed [] out).map Element.name = ["svg", "g", "title"] ∧
      ∀ el ∈ Event.exposed [] out, el.name ∉ shorthands := by
  have names : (compile { addAutoStyles := false } (Node.eventsAll titledGroup)).toOption.map
      (fun out => (Event.exposed [] out).map Element.name) = some ["svg", "g", "title"] := by decide +kernel
  cases h : compile { addAutoStyles := false } (Node.eventsAll titledGroup) with
  | error e =>
    rw [h] at names
    cases names
  | ok out =>
    rw [h] at names
    exact ⟨out, rfl, Option.some.inj names, compile_expands _ _ h⟩

end DiagramMarkup
