import DiagramMarkup.Compile.Root
import DiagramMarkup.Proofs.Elements
import DiagramMarkup.Proofs.Nesting

/-!
# Sound drawings

Every drawing is a piece of a document: its tags nest, its elements have admitted attribute names, and whatever has a
box shows an element (`Drawing.Sound`). An element may be made from what the context holds, so the context is to hold
admitted names only as well (`Context.Sound`).

1. The small steps keep the context sound and give sound elements.
2. Siblings are sound if every single one is (`ensures_draw`): a waiting node keeps a scope of its own, which is sound
   like the context it comes from.
-/

namespace DiagramMarkup

open Element

/-- The tags of the stream nest, and its elements have admitted names. -/
structure Event.Sound (ok : String → Prop) (evs : List Event) : Prop where
  nests : ∃ ns, Node.Nests evs ns
  fits : ∀ e ∈ evs, e.Fits (Named ok)

/-- The stream of the drawing is sound, and a box comes with an element. -/
structure Drawing.Sound (ok : String → Prop) (d : Drawing) : Prop where
  stream : Event.Sound ok d.events
  shown : d.box.isSome → ∃ e ∈ d.events, e.element?.isSome

/-- The elements that the context can give to a drawing have admitted names. -/
structure Context.Sound (ok : String → Prop) (c : Context) : Prop where
  written : ∀ p ∈ c.written, p.2.Fits (Named ok)
  templates : ∀ p ∈ c.templates, p.2.Fits (Named ok)
  defaults : ∀ d ∈ c.scope.defaults, Named ok d

variable {ok : String → Prop}

/-! ## Drawings -/

namespace Event

theorem sound_nil : Sound ok [] := ⟨⟨[], .nil⟩, by simp⟩

theorem sound_leaf (l : Leaf) : Sound ok [.leaf l] := ⟨⟨_, .leaf l .nil⟩, by simp⟩

theorem Sound.append {evs fvs : List Event} (h : Sound ok evs) (k : Sound ok fvs) :
    Sound ok (evs ++ fvs) := by
  obtain ⟨ns, hn⟩ := h.nests
  obtain ⟨ms, hm⟩ := k.nests
  exact ⟨⟨_, hn.append hm⟩, List.forall_mem_append.2 ⟨h.fits, k.fits⟩⟩

theorem Sound.wrap {content : List Event} (h : Sound ok content) {el : Element}
    (hel : Named ok el) : Sound ok (wrap el content) := by
  obtain ⟨ns, hn⟩ := h.nests
  exact ⟨⟨_, hn.wrap el⟩, fits_wrap.2 ⟨hel, h.fits⟩⟩

theorem sound_empty {el : Element} (hel : Named ok el) : Sound ok [.empty el] := sound_nil.wrap hel

theorem sound_flatMap {α : Type} {f : α → List Event} {as : List α}
    (h : ∀ a ∈ as, Sound ok (f a)) : Sound ok (as.flatMap f) := by
  induction as with
  | nil => exact sound_nil
  | cons a as ih =>
    rw [List.flatMap_cons]
    exact (h a (by simp)).append (ih fun b hb => h b (by simp [hb]))

theorem sound_map_empty {α : Type} {f : α → Element} {as : List α} (h : ∀ a ∈ as, Named ok (f a)) :
    Sound ok (as.map fun a => .empty (f a)) := by
  rw [List.map_eq_flatMap]
  exact sound_flatMap fun a ha => sound_empty (h a ha)

theorem sound_eventsAll {ns : List Node} (h : ∀ n ∈ ns, n.Fits (Named ok)) :
    Sound ok (Node.eventsAll ns) :=
  ⟨⟨ns, Node.nests_eventsAll ns⟩, Node.fits_eventsAll.2 h⟩

/-- An element with its tags shows itself. -/
theorem exists_element_wrap (el : Element) (content : List Event) :
    ∃ e ∈ Event.wrap el content, e.element?.isSome := by
  unfold Event.wrap
  split
  · exact ⟨_, List.mem_singleton_self _, rfl⟩
  · exact ⟨.start el, by simp, rfl⟩

end Event

namespace Drawing

theorem sound_nil : Sound ok {} := ⟨Event.sound_nil, by simp⟩

theorem sound_leaf (l : Leaf) : Sound ok { events := [.leaf l] } := ⟨Event.sound_leaf l, by simp⟩

theorem joinBox_isSome {a b : Option (Box Float)} (h : (joinBox a b).isSome) :
    a.isSome ∨ b.isSome := by
  cases b with
  | none => exact .inl h
  | some b => exact .inr rfl

theorem exists_box_of_foldl {ds : List Drawing} :
    ∀ {a : Option (Box Float)}, (ds.foldl (fun b d => joinBox b d.box) a).isSome →
      a.isSome ∨ ∃ d ∈ ds, d.box.isSome := by
  induction ds with
  | nil => exact fun h => .inl h
  | cons d ds ih =>
    intro a h
    rcases ih h with h | ⟨e, he, hb⟩
    · rcases joinBox_isSome h with h | h
      · exact .inl h
      · exact .inr ⟨d, by simp, h⟩
    · exact .inr ⟨e, by simp [he], hb⟩

/-- Sound drawings one after the other are sound. -/
theorem sound_concat {ds : List Drawing} (h : ∀ d ∈ ds, Sound ok d) : Sound ok (concat ds) := by
  refine ⟨Event.sound_flatMap fun d hd => (h d hd).stream, fun hb => ?_⟩
  rcases exists_box_of_foldl hb with hb | ⟨d, hd, hb⟩
  · cases hb
  · obtain ⟨e, he, hel⟩ := (h d hd).shown hb
    exact ⟨e, List.mem_flatMap.2 ⟨d, hd, he⟩, hel⟩

/-- An element around a sound stream, with another one behind it. -/
theorem sound_wrap_append {el : Element} {content text : List Event} (box : Option (Box Float))
    (hel : Named ok el) (hc : Event.Sound ok content) (ht : Event.Sound ok text) :
    Sound ok ⟨Event.wrap el content ++ text, box⟩ := by
  refine ⟨(hc.wrap hel).append ht, fun _ => ?_⟩
  obtain ⟨e, he, hs⟩ := Event.exists_element_wrap el content
  exact ⟨e, List.mem_append_left _ he, hs⟩

theorem sound_wrap {el : Element} {content : List Event} (box : Option (Box Float))
    (hel : Named ok el) (hc : Event.Sound ok content) : Sound ok ⟨Event.wrap el content, box⟩ :=
  ⟨hc.wrap hel, fun _ => Event.exists_element_wrap el content⟩

end Drawing

/-! ## Small steps -/

namespace Compile

variable {β : Type}

theorem ensures_raise (kind : ErrorKind) (el : Element) (attr : String) (f : Fault)
    {Q : β → Prop} : Ensures (Context.Sound ok) (raise kind el attr f : Compile β) Q := .throw

theorem checked_eq_ok {el : Element} {attr : String} {r : Except Fault β} {b : β}
    (h : checked el attr r = .ok b) : r = .ok b := by
  cases r with
  | ok x =>
    cases h
    rfl
  | error f => cases h

theorem ensures_orFail (el : Element) (attr : String) (r : Except Fault β) :
    Ensures (Context.Sound ok) (orFail el attr r) fun b => r = .ok b :=
  .ofExcept fun _ h => checked_eq_ok h

theorem ensures_setCurrent (el : Element) :
    Ensures (Context.Sound ok) (setCurrent el) fun _ => True :=
  .modify fun _ h => ⟨h.written, h.templates, h.defaults⟩

theorem ensures_observe (el : Element) :
    Ensures (Context.Sound ok) (observe el) fun _ => True :=
  .modify fun _ h => ⟨h.written, h.templates, h.defaults⟩

theorem ensures_register (el : Element) (box : Option (Box Float)) :
    Ensures (Context.Sound ok) (register el box) fun _ => True :=
  .modify fun _ h => ⟨h.written, h.templates, h.defaults⟩

theorem ensures_evaluating (el : Option Element) (attr : String)
    {f : Context → Except Expr.Error β × Context}
    (hf : ∀ c, c.Sound ok → (f c).2.Sound ok) :
    Ensures (Context.Sound ok) (evaluating el attr f) fun _ => True := by
  intro c hc
  have := hf c hc
  rw [exec_evaluating]
  rcases h : f c with ⟨_ | a, d⟩ <;> rw [h] at this <;> exact ⟨this, fun _ _ => trivial⟩

theorem ensures_expand (el : Element) (attr s : String) :
    Ensures (Context.Sound ok) (expand el attr s) fun _ => True :=
  ensures_evaluating _ _ fun _ h => ⟨h.written, h.templates, h.defaults⟩

theorem ensures_eval (el : Element) (attr s : String) :
    Ensures (Context.Sound ok) (eval el attr s) fun _ => True :=
  ensures_evaluating _ _ fun _ h => ⟨h.written, h.templates, h.defaults⟩

theorem ensures_condition (el : Element) (attr s : String) :
    Ensures (Context.Sound ok) (condition el attr s) fun _ => True := by
  unfold condition
  exact .bind (ensures_eval _ _ _) fun _ _ => .pure trivial

theorem ensures_readNumber (el : Element) (attr s : String) :
    Ensures (Context.Sound ok) (readNumber el attr s) fun _ => True :=
  .ofExcept fun _ _ => trivial

theorem ensures_expandElement {el : Element} (h : Named ok el) :
    Ensures (Context.Sound ok) (expandElement el) (Named ok) := by
  unfold expandElement
  refine .bind (R := Named ok) (.foldlM (fun fl hfl p hp => ?_) h) fun fl hfl => ?_
  · unfold expandAttr
    refine .bind (ensures_expand _ _ _) fun v _ => .pure ?_
    split
    · exact hfl
    · exact hfl.set (h.entries p hp) _
  · refine .bind (R := fun _ => True) ?_ fun cs _ => .pure ?_
    · refine .mono (.mapM (Q := fun _ => True) fun c _ => ?_) fun _ _ => trivial
      exact .bind (ensures_expand _ _ _) fun _ _ => .pure trivial
    · exact (hfl.withClasses []).addClasses _

theorem named_fillFrom {el d : Element} (h : Named ok el) (hd : Named ok d) :
    Named ok (Scope.fillFrom el d) := by
  unfold Scope.fillFrom
  split
  · exact h
  · exact (h.setDefaults hd.entries).addClasses _

theorem named_applyDefaults {s : Scope} {el : Element} (h : Named ok el)
    (hs : ∀ d ∈ s.defaults, Named ok d) : Named ok (s.applyDefaults el) := by
  unfold Scope.applyDefaults
  have hr : ∀ d ∈ s.defaults.reverse, Named ok d := by simpa using hs
  generalize s.defaults.reverse = ds at hr
  induction ds generalizing el with
  | nil => exact h
  | cons d ds ih => exact ih (named_fillFrom h (hr d (by simp))) fun e he => hr e (by simp [he])

theorem sound_markSeen {c : Context} (h : c.Sound ok) (id : String) : (c.markSeen id).Sound ok := by
  unfold Context.markSeen
  split
  · exact h
  · exact ⟨h.written, h.templates, h.defaults⟩

theorem ensures_prepare {el : Element} (h : Named ok el) (order : Order) :
    Ensures (Context.Sound ok) (prepare el order) (Named ok) := by
  unfold prepare
  refine .bind (ensures_setCurrent _) fun _ _ => ?_
  refine .bind (ensures_expandElement (h.withOrder order)) fun fl hfl => ?_
  refine .bind .get fun c hc => ?_
  refine .bind (.modify fun d hd => ?_) fun _ _ => .pure (named_applyDefaults hfl hc.defaults)
  obtain ⟨hw, ht, hs⟩ := sound_markSeen hd (c.scope.applyDefaults fl).id
  exact ⟨hw, ht, hs⟩

theorem ensures_withFrame {m : Compile β} {Q : β → Prop} (vars : Frame)
    (h : Ensures (Context.Sound ok) m Q) : Ensures (Context.Sound ok) (withFrame vars m) Q := by
  unfold withFrame
  refine .bind (.update fun c d hc hd => ?_) fun _ _ =>
    h.bracket fun _ hc => ⟨hc.written, hc.templates, hc.defaults⟩
  rw [Context.pushFrame_eq_ok hd]
  exact ⟨hc.written, hc.templates, hc.defaults⟩

theorem ensures_withDepth {m : Compile β} {Q : β → Prop} (el : Element)
    (h : Ensures (Context.Sound ok) m Q) : Ensures (Context.Sound ok) (withDepth el m) Q := by
  unfold withDepth
  refine .bind (.update fun c d hc hd => ?_) fun _ _ =>
    h.bracket fun _ hc => ⟨hc.written, hc.templates, hc.defaults⟩
  rw [Context.enter_eq_ok hd]
  exact ⟨hc.written, hc.templates, hc.defaults⟩

theorem ensures_withCurrent {m : Compile β} {Q : β → Prop} (el : Element)
    (h : Ensures (Context.Sound ok) m Q) : Ensures (Context.Sound ok) (withCurrent el m) Q := by
  unfold withCurrent
  refine .bind .get fun c _ => .bind (ensures_setCurrent el) fun _ _ => ?_
  exact h.bracket fun _ hc => ⟨hc.written, hc.templates, hc.defaults⟩

end Compile

/-! ## Siblings -/

/-- The node has admitted names, and so does the scope in which it waits. -/
def Pending.Sound (ok : String → Prop) (p : Pending) : Prop :=
  p.node.Fits (Named ok) ∧ ∀ d ∈ p.scope.defaults, Named ok d

/-- A drawing that is sound, or a node that waits in a sound scope. -/
def Sibling.Sound (ok : String → Prop) : Sibling → Prop
  | .drawn c => c.drawing.Sound ok
  | .waiting p => p.Sound ok

namespace Siblings

open Compile

/-- The step draws nodes with admitted names soundly. -/
def StepSound (ok : String → Prop) (step : Step) : Prop :=
  ∀ n order, n.Fits (Named ok) → Ensures (Context.Sound ok) (step n order) (Drawing.Sound ok)

theorem sound_ofAttempt {order : Order} {wait : Deferral → Pending} {r : Except Deferral Drawing}
    (hr : ∀ d, r = .ok d → d.Sound ok) (hw : ∀ why, (wait why).Sound ok) :
    (Sibling.ofAttempt order wait r).Sound ok := by
  cases r with
  | ok d => exact hr d rfl
  | error why => exact hw why

theorem sound_chunks {ss : List Sibling} (h : ∀ s ∈ ss, s.Sound ok) :
    ∀ c ∈ ss.filterMap Sibling.chunk?, c.drawing.Sound ok := by
  intro c hc
  obtain ⟨s, hs, hc⟩ := List.mem_filterMap.1 hc
  have := h s hs
  cases s <;> cases hc
  exact this

theorem sound_pendings {ss : List Sibling} (h : ∀ s ∈ ss, s.Sound ok) :
    ∀ p ∈ ss.filterMap Sibling.pending?, p.Sound ok := by
  intro p hp
  obtain ⟨s, hs, hp⟩ := List.mem_filterMap.1 hp
  have := h s hs
  cases s <;> cases hp
  exact this

variable {step : Step}

theorem ensures_first (h : StepSound ok step) {n : Node} (hn : n.Fits (Named ok)) (order : Order) :
    Ensures (Context.Sound ok) (first step n order) (Sibling.Sound ok) := by
  unfold first
  refine .bind .get fun c hc => .bind (h n order hn).attempt fun r hr => ?_
  refine .bind (.modify fun d hd => ?_) fun _ _ => .pure (sound_ofAttempt hr fun _ => ⟨hn, hc.defaults⟩)
  unfold aim
  split
  · exact ⟨hd.written, hd.templates, hd.defaults⟩
  · exact hd

theorem ensures_retry (h : StepSound ok step) {p : Pending} (hp : p.Sound ok) :
    Ensures (Context.Sound ok) (retry step p) (Sibling.Sound ok) := by
  unfold retry
  refine .bind .get fun live hl => ?_
  refine .bind (.modify fun _ hd => ⟨hd.written, hd.templates, hp.2⟩) fun _ _ => ?_
  refine .bind ((h p.node p.order hp.1).attempt.bracket fun _ hd =>
    ⟨hd.written, hd.templates, hl.defaults⟩) fun r hr => ?_
  exact .pure (sound_ofAttempt hr fun _ => hp)

theorem ensures_passes (h : StepSound ok step) (n : Nat) {chunks : List Chunk} {queue : List Pending}
    (hc : ∀ c ∈ chunks, c.drawing.Sound ok) (hq : ∀ p ∈ queue, p.Sound ok) :
    Ensures (Context.Sound ok) (passes step n chunks queue)
      fun r => ∀ c ∈ r.1, c.drawing.Sound ok := by
  induction n generalizing chunks queue with
  | zero => exact .pure hc
  | succ n ih =>
    unfold passes
    split
    · exact .pure hc
    refine .bind (.mapM fun p hp => ensures_retry h (hq p hp)) fun tried ht => ?_
    have hc := List.forall_mem_append.2 ⟨hc, sound_chunks ht⟩
    simp only
    split
    · exact .pure hc
    · exact ih hc (sound_pendings ht)

theorem mem_of_mem_tidy {ds : List Drawing} {d : Drawing} (h : d ∈ tidy ds) : d ∈ ds := by
  fun_induction tidy ds with
  | case1 _ _ _ _ ih => exact List.mem_cons_of_mem _ (ih h)
  | case2 _ _ _ _ ih =>
    rcases List.mem_cons.1 h with rfl | h
    · exact List.mem_cons_self
    · exact List.mem_cons_of_mem _ (ih h)
  | case3 => exact h

theorem sound_assemble {chunks : List Chunk} (h : ∀ c ∈ chunks, c.drawing.Sound ok) :
    (assemble chunks).Sound ok := by
  refine Drawing.sound_concat fun d hd => ?_
  obtain ⟨c, hc, rfl⟩ := List.mem_map.1 (mem_of_mem_tidy hd)
  exact h c (List.mem_mergeSort.1 hc)

theorem ensures_draw (h : StepSound ok step) {nodes : List Node}
    (hn : ∀ n ∈ nodes, n.Fits (Named ok)) (base : Order) :
    Ensures (Context.Sound ok) (draw step nodes base) fun r => r.1.Sound ok := by
  unfold draw
  refine .bind (.mapM (Q := Sibling.Sound ok) fun p hp => ?_) fun tried ht => ?_
  · exact ensures_first h (hn p.1 (List.fst_mem_of_mem_zipIdx hp)) _
  · refine .bind (ensures_passes h _ (sound_chunks ht) (sound_pendings ht)) fun r hr => ?_
    exact .pure (sound_assemble hr)

end Siblings

/-- The content of an element is drawn soundly. -/
def Inside.Sound (ok : String → Prop) (inside : Inside) : Prop :=
  ∀ nodes order, (∀ n ∈ nodes, n.Fits (Named ok)) →
    Ensures (Context.Sound ok) (inside nodes order) fun r => r.1.Sound ok

theorem Inside.Sound.ensures_of {inside : Inside} (h : inside.Sound ok) (el : Element)
    {nodes : List Node} (hn : ∀ n ∈ nodes, n.Fits (Named ok)) (order : Order) :
    Ensures (Context.Sound ok) (inside.of el nodes order) (Drawing.Sound ok) := by
  unfold Inside.of
  refine .bind (h nodes order hn) fun r hr => ?_
  obtain ⟨d, stalled⟩ := r
  simp only
  split
  · exact .pure hr
  · exact .throw

end DiagramMarkup
