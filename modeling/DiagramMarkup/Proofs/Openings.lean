import DiagramMarkup.Proofs.Fillings
import DiagramMarkup.Proofs.Shapes

/-!
# Opening elements

What is no control element opens its drawing with an element of the output. It has the attributes of the prepared
element, apart from those that settling its geometry and its text takes or writes.

1. Attributes that stand for geometry or text are spent. Native geometry is written only for an element that has
   something to settle (`settled`), so each stage leaves the other attributes (`Keeps`).
2. Each role puts an element that keeps them in front of its drawing (`opens_drawElement`).
-/

namespace DiagramMarkup

open Element Compile

/-- The element that opens a drawing. -/
def Drawing.opening? (d : Drawing) : Option Element := d.events.head?.bind Event.element?

theorem Drawing.opening?_wrap (el : Element) (content beside : List Event) (box : Option (Box Float)) :
    (Drawing.mk (Event.wrap el content ++ beside) box).opening? = some el := by
  unfold opening? Event.wrap
  split <;> rfl

/-! ## Attributes that are settled -/

/-- The attributes that stand for native geometry. -/
def placing : List String :=
  Position.attributes ++ ["start", "end", "corner-offset", "rotate", "dir", "length"]

/-- The attributes that stand for something else, or that may be read anew. -/
def spent : List String := placing ++ ["d", "stops"] ++ Label.attributes

/-- Is native geometry written for the element? -/
def writesGeometry (el : Element) : Bool :=
  placing.any el.has || match Role.ofName el.name with
    | .person | .pipeline => true
    | .textBox => !(["wh", "width", "height"].any el.has)
    | _ => false

/-- The attributes of an element that are taken or written when it is drawn. -/
def settled (el : Element) : List String := spent ++ if writesGeometry el then geometric else []

/-- The attribute has the value, and if it is geometry, no other geometry is written for the element. -/
structure Keeps (a : String) (v : Option String) (el : Element) : Prop where
  value : el.get? a = v
  unplaced : a ∈ geometric → ∀ n ∈ placing, el.get? n = none

namespace Keeps

variable {a : String} {v : Option String} {el fl : Element}

theorem withName (h : Keeps a v el) (name : String) : Keeps a v { el with name := name } := ⟨h.value, h.unplaced⟩

theorem addClass (h : Keeps a v el) (c : String) : Keeps a v (el.addClass c) :=
  ⟨(get?_addClasses el [c] a).trans h.value, fun ha n hn => (get?_addClasses el [c] n).trans (h.unplaced ha n hn)⟩

/-- Attributes that stand for no geometry may be written. -/
theorem stable : Stable (fun n => n ≠ a ∧ n ∉ placing) (Keeps a v) := by
  refine ⟨fun {el n} w hn h => ⟨?_, fun ha m hm => ?_⟩, fun {el n} hn h => ⟨?_, fun ha m hm => ?_⟩⟩
  · rw [get?_set, if_neg (Ne.symm hn.1), h.value]
  · rw [get?_set, if_neg fun heq : m = n => hn.2 (heq ▸ hm), h.unplaced ha m hm]
  · rw [get?_erase, if_neg (Ne.symm hn.1), h.value]
  · rw [get?_erase, h.unplaced ha m hm, ite_self]

/-- What is no geometry is kept when geometry is written. -/
theorem stable_of_not_geometric (hgeo : a ∉ geometric) : Stable (· ≠ a) (Keeps a v) := by
  refine ⟨fun {el n} w hn h => ⟨?_, fun ha => absurd ha hgeo⟩, fun {el n} hn h => ⟨?_, fun ha => absurd ha hgeo⟩⟩
  · rw [get?_set, if_neg (Ne.symm hn), h.value]
  · rw [get?_erase, if_neg (Ne.symm hn), h.value]

variable (ha : a ∉ spent) (h : Keeps a v el)

include ha

theorem ne_of_mem_spent {n : String} (hn : n ∈ spent) : n ≠ a := fun heq => ha (heq ▸ hn)

theorem ne_of_mem_append (hgeo : a ∉ geometric) {ns : List String} (hns : ∀ n ∈ ns, n ∈ spent) :
    ∀ n ∈ ns ++ geometric, n ≠ a := by
  refine fun n hn heq => ?_
  rcases List.mem_append.1 hn with hn | hn
  · exact ha (heq ▸ hns n hn)
  · exact hgeo (heq ▸ hn)

include h

theorem eraseAll {ns : List String} (hns : ∀ n ∈ ns, n ∈ spent) : Keeps a v (el.eraseAll ns) := by
  induction ns generalizing el with
  | nil => exact h
  | cons n ns ih =>
    obtain ⟨hn, hns⟩ := List.forall_mem_cons.1 hns
    change Keeps a v ((el.erase n).eraseAll ns)
    refine ih ⟨?_, fun hgeo m hm => ?_⟩ hns
    · rw [get?_erase, if_neg fun heq : a = n => ha (heq ▸ hn), h.value]
    · rw [get?_erase, h.unplaced hgeo m hm, ite_self]

theorem expandPath {o : Options} (hr : Figure.expandPath o el = .ok fl) : Keeps a v fl :=
  (Figure.asks_expandPath stable ⟨ne_of_mem_spent ha (by decide), by decide⟩ h o).result hr

theorem connect {refs : Position.Referrer Float} (hr : Connector.connect refs el = .ok fl) : Keeps a v fl := by
  by_cases hgeo : a ∈ geometric
  · unfold Connector.connect at hr
    split at hr
    · cases hr
      exact h
    · rw [h.unplaced hgeo "start" (by decide), h.unplaced hgeo "end" (by decide)] at hr
      cases hr
      exact h
  · exact ((Connector.asks_connect (stable_of_not_geometric hgeo) (ne_of_mem_append ha hgeo (by decide)) el h).ok
      (fun _ => refs) fl hr).1

theorem resolve {refs : Position.Referrer Float} (hr : Position.resolve refs el = .ok fl) : Keeps a v fl := by
  by_cases hgeo : a ∈ geometric
  · have hhas : Position.has el = false := by
      refine List.any_eq_false.2 fun n hn => ?_
      rw [Element.has_eq_isSome, h.unplaced hgeo n (List.mem_append_left _ hn)]
      decide
    unfold Position.resolve at hr
    rw [hhas] at hr
    split at hr
    · cases hr
      exact h
    · cases hr
      exact h
  · have hspent : ∀ n ∈ Position.attributes, n ∈ spent := by decide
    have hfree : ∀ n ∈ geometric ++ Position.attributes, n ≠ a := fun n hn =>
      ne_of_mem_append ha hgeo hspent n (List.mem_append.2 (List.mem_append.1 hn).symm)
    exact ((Position.asks_resolve (stable_of_not_geometric hgeo) hfree el el h).ok (fun _ => refs) fl hr).1

theorem rotated {box : Option (Box Float)} (hr : Compile.rotated el box = .ok fl) : Keeps a v fl := by
  by_cases hgeo : a ∈ geometric
  · unfold Compile.rotated at hr
    rw [h.unplaced hgeo "rotate" (by decide)] at hr
    cases hr
    exact h
  · have hfree : ∀ n ∈ ["rotate"] ++ geometric, n ≠ a := ne_of_mem_append ha hgeo (by decide)
    exact (Compile.asks_rotated (stable_of_not_geometric hgeo) (hfree _ (by simp))
      (fun n hn => hfree n (List.mem_append_right _ hn)) h box).result hr

theorem take {r : Option Label × Element} (hr : Label.take el = .ok r) : Keeps a v r.2 := by
  have hspent : ∀ n ∈ Label.attributes, n ∈ spent ∧ n ∉ placing := by decide
  exact (Label.asks_take stable (fun n hn => ⟨ne_of_mem_spent ha (hspent n hn).1, (hspent n hn).2⟩) h).result hr

theorem measured {o : Options} {label : Option Label} {inner : List Event} {s : Figure.Settled}
    (hs : Figure.measured o el label inner = .ok s) : Keeps a v s.element := by
  unfold Figure.measured at hs
  split at hs
  · obtain ⟨box, -, hs⟩ := except_bind_eq_ok hs
    cases hs
    exact h
  · obtain ⟨box, -, hs⟩ := except_bind_eq_ok hs
    obtain ⟨fl, hfl, hs⟩ := except_bind_eq_ok hs
    cases hs
    exact h.rotated ha hfl

end Keeps

/-! ## Roles -/

/-- The element is another one in the course of being drawn: it has the attributes that are not settled. -/
def Continues (fl el : Element) : Prop := ∀ a ∉ settled fl, Keeps a (fl.get? a) el

/-- The drawing opens with an element that has the attributes of another, apart from those that are settled. -/
def Opens (fl : Element) (d : Drawing) : Prop :=
  ∃ out, d.opening? = some out ∧ ∀ a ∉ settled fl, out.get? a = fl.get? a

theorem Continues.opens {fl el : Element} (h : Continues fl el) (content beside : List Event)
    (box : Option (Box Float)) : Opens fl ⟨Event.wrap el content ++ beside, box⟩ :=
  ⟨el, Drawing.opening?_wrap el content beside box, fun a ha => (h a ha).value⟩

theorem Continues.opens_wrap {fl el : Element} (h : Continues fl el) (content : List Event) (box : Option (Box Float)) :
    Opens fl ⟨Event.wrap el content, box⟩ := by
  have hopens := h.opens content [] box
  rwa [List.append_nil] at hopens

theorem not_mem_spent {fl : Element} {a : String} (ha : a ∉ settled fl) : a ∉ spent :=
  fun hmem => ha (List.mem_append_left _ hmem)

theorem writesGeometry_eq_false {fl : Element} {a : String} (ha : a ∉ settled fl) (hgeo : a ∈ geometric) :
    writesGeometry fl = false := by
  cases hw : writesGeometry fl with
  | false => rfl
  | true =>
    refine absurd (List.mem_append_right _ ?_) ha
    rw [hw]
    exact hgeo

theorem Continues.refl (fl : Element) : Continues fl fl := by
  refine fun a ha => ⟨rfl, fun hgeo n hn => ?_⟩
  have hnone := (Bool.or_eq_false_iff.1 (writesGeometry_eq_false ha hgeo)).1
  have hhas : fl.has n = false := by simpa using List.any_eq_false.1 hnone n hn
  exact Attrs.get?_eq_none_iff.2 hhas

/-- Native geometry may be written if the element has something to settle. -/
theorem Continues.set {fl el : Element} (h : Continues fl el) (hw : writesGeometry fl) {n : String}
    (hn : n ∈ geometric ++ ["d"]) (w : String) : Continues fl (el.set n w) := by
  intro a ha
  have hgeo : a ∉ geometric := fun hgeo => by
    rw [writesGeometry_eq_false ha hgeo] at hw
    cases hw
  refine (Keeps.stable_of_not_geometric hgeo).set w (fun heq => ?_) (h a ha)
  rcases List.mem_append.1 hn with hn | hn
  · exact hgeo (heq ▸ hn)
  · exact not_mem_spent ha ((by decide : ∀ n ∈ ["d"], n ∈ spent) a (heq ▸ hn))

theorem Continues.eraseAll {fl el : Element} (h : Continues fl el) (hw : writesGeometry fl) {ns : List String}
    (hns : ∀ n ∈ ns, n ∈ geometric ++ spent) : Continues fl (el.eraseAll ns) := by
  intro a ha
  have hgeo : a ∉ geometric := fun hgeo => by
    rw [writesGeometry_eq_false ha hgeo] at hw
    cases hw
  refine (Keeps.stable_of_not_geometric hgeo).eraseAll (fun n hn heq => ?_) (h a ha)
  rcases List.mem_append.1 (hns n hn) with hn | hn
  · exact hgeo (heq ▸ hn)
  · exact not_mem_spent ha (heq ▸ hn)

section Roles

variable {fl el : Element} (inside : Inside) (children : List Node)

theorem Figure.opens_shape (h : Continues fl el) (note : Element → Compile Unit) :
    Yields (shape note inside el children) (Opens fl) := by
  unfold shape
  refine .after fun c => .bind (R := Continues fl)
    (.ofExcept fun el hr a ha => (h a ha).expandPath (not_mem_spent ha) hr) fun el h => ?_
  refine .after fun _ => .after fun c => .bind (R := Continues fl)
    (.ofExcept fun el hr a ha => (h a ha).connect (not_mem_spent ha) hr) fun el h => ?_
  refine .after fun _ => .after fun c => .bind (R := Continues fl)
    (.ofExcept fun el hr a ha => (h a ha).resolve (not_mem_spent ha) hr) fun el h => ?_
  refine .bind (R := fun r => Continues fl r.2)
    (.ofExcept fun r hr a ha => (h a ha).take (not_mem_spent ha) hr) fun r h => ?_
  refine .after fun _ => .after fun inner => .after fun c => ?_
  refine .bind (R := fun s => Continues fl s.element)
    (.ofExcept fun s hs a ha => (h a ha).measured (not_mem_spent ha) hs) fun s hs => ?_
  exact .after fun _ => .after fun _ => .after fun _ => .pure (hs.opens _ _ _)

theorem opens_rotated (h : Continues fl el) (box : Option (Box Float)) {γ : Type} {Q : γ → Prop}
    {f : Element → Compile γ} (hf : ∀ el, Continues fl el → Yields (f el) Q) :
    Yields (do f (← ofExcept (rotated el box))) Q :=
  .bind (R := Continues fl) (.ofExcept fun _ hr a ha => (h a ha).rotated (not_mem_spent ha) hr) hf

/-- A gradient without an angle and a length keeps its geometry. -/
theorem Gradient.opens_draw : Yields (Gradient.draw inside fl children) (Opens fl) := by
  have hbare : Continues fl (fl.eraseAll ["stops", "dir", "length"]) := fun a ha =>
    (Continues.refl fl a ha).eraseAll (not_mem_spent ha) (by decide)
  have hwrites : ∀ n ∈ ["dir", "length"], (fl.get? n).isSome → writesGeometry fl := fun n hn hsome => by
    unfold writesGeometry
    rw [List.any_eq_true.2 ⟨n, (by decide : ∀ n ∈ ["dir", "length"], n ∈ placing) n hn, by rwa [Element.has_eq_isSome]⟩,
      Bool.true_or]
  unfold Gradient.draw
  refine .bind (R := Continues fl) ?_ fun el h => .after fun _ => .after fun _ => .after fun inner =>
    .after fun _ => .after fun _ => .pure (h.opens_wrap _ _)
  unfold shaped
  refine .after fun covered => ?_
  split
  · next hgiven =>
    have hw : writesGeometry fl := by
      rcases Bool.or_eq_true_iff.1 (Bool.and_eq_true_iff.1 hgiven).2 with hdir | hlength
      · exact hwrites _ (by simp) hdir
      · exact hwrites _ (by simp) hlength
    refine .after fun degrees => .pure ?_
    exact (((hbare.set hw (by decide) _).set hw (by decide) _).set hw (by decide) _).set hw (by decide) _
  split
  · next hgiven =>
    exact .pure (hbare.set (hwrites _ (by simp) (Bool.and_eq_true_iff.1 hgiven).2) (by decide) _)
  · exact .pure hbare

/-- The rectangle of a text box has the attributes of the box, and a size of its own if it is given none. -/
theorem Figure.continues_textBoxRect (hrole : Role.ofName fl.name = .textBox) (o : Options) :
    Continues fl (textBoxRect o fl children) := by
  have hnamed : Continues fl { fl with name := "rect" } := fun a ha => (Continues.refl fl a ha).withName "rect"
  have htext : ∀ t, Continues fl (Element.set { fl with name := "rect" } "text" t) := fun t a ha =>
    Keeps.stable.set t ⟨Keeps.ne_of_mem_spent (not_mem_spent ha) (by decide), by decide⟩ (hnamed a ha)
  have hsized : ∀ (el : Element) (w x : Float), Continues fl el → (∀ n, n ≠ "text" → el.get? n = fl.get? n) →
      Continues fl (if el.has "wh" || el.has "width" || el.has "height" then el
        else (el.setNumber "width" w).setNumber "height" x) := by
    intro el w x hel hsame
    have hhas : ∀ n, n ≠ "text" → el.has n = fl.has n := fun n hn => by
      rw [Element.has_eq_isSome, Element.has_eq_isSome, hsame n hn]
    split
    · exact hel
    · next hnone =>
      rw [hhas "wh" (by decide), hhas "width" (by decide), hhas "height" (by decide)] at hnone
      have hw : writesGeometry fl := by
        unfold writesGeometry
        rw [hrole]
        simp only [Bool.or_eq_true, not_or, Bool.not_eq_true] at hnone
        simp [hnone]
      exact (hel.set hw (by decide) _).set hw (by decide) _
  unfold textBoxRect
  simp only
  split
  · exact hsized _ _ _ hnamed fun n _ => rfl
  · refine hsized _ _ _ (htext _) fun n hn => ?_
    rw [get?_set, if_neg hn]
    rfl

theorem Figure.opens_textBox (hrole : Role.ofName fl.name = .textBox) :
    Yields (textBox inside fl children) (Opens fl) := by
  unfold textBox
  exact .after fun c => .after fun _ => opens_shape inside [] (continues_textBoxRect children hrole _) _

theorem Figure.opens_person (hrole : Role.ofName fl.name = .person) : Yields (person fl) (Opens fl) := by
  have hw : writesGeometry fl := by
    unfold writesGeometry
    rw [hrole, Bool.or_true]
  have hbare : Continues fl ((({ fl with name := "g" } : Element).eraseAll geometry).addClass "d-person") := fun a ha =>
    (Continues.eraseAll (fun a ha => (Continues.refl fl a ha).withName "g") hw (by decide) a ha).addClass _
  unfold person
  refine .after fun b => .after fun _ => ?_
  exact opens_rotated hbare _ fun _ hg => .after fun _ => .after fun _ => .pure (hg.opens_wrap _ _)

theorem Figure.opens_pipeline (hrole : Role.ofName fl.name = .pipeline) :
    Yields (pipeline inside fl children) (Opens fl) := by
  have hw : writesGeometry fl := by
    unfold writesGeometry
    rw [hrole, Bool.or_true]
  have hbare : Continues fl ((({ fl with name := "path" } : Element).eraseAll geometry).addClass "d-pipeline") :=
    fun a ha =>
      (Continues.eraseAll (fun a ha => (Continues.refl fl a ha).withName "path") hw (by decide) a ha).addClass _
  unfold pipeline
  exact .after fun b => opens_shape inside children (hbare.set hw (by decide) _) _

end Roles

/-- Does an element with this role open its drawing? -/
def Role.opens : Role → Bool
  | .gradient | .textBox | .person | .pipeline | .verbatim | .container _ | .shape => true
  | _ => false

variable {turns levels : Nat} {el : Element} {children : List Node} {order : Order} {c c' : Context} {d : Drawing}

/-- A drawn element is prepared, and opens its drawing with what is not settled. -/
theorem opens_drawElement (hrole : (Role.ofName el.name).opens)
    (h : exec (drawElement turns levels el children order) c = (.ok d, c')) :
    ∃ fl, (∀ a, Filled c.env (el.get? a) (c.scope.default? el.name a) (fl.get? a)) ∧ Opens fl d := by
  cases levels with
  | zero => cases h
  | succ levels =>
    have hprepare : ∀ {f : Element → Compile Drawing}, exec (prepare el order >>= f) c = (.ok d, c') →
        (∀ fl, fl.name = el.name → Yields (f fl) (Opens fl)) →
        ∃ fl, (∀ a, Filled c.env (el.get? a) (c.scope.default? el.name a) (fl.get? a)) ∧ Opens fl d := fun h hf => by
      obtain ⟨fl, c₁, hfl, h⟩ := exec_bind_eq_ok h
      have hname := ((yields_prepare el order).of_exec trivial hfl).2
      exact ⟨fl, ((beside_prepare el order).of_exec (.refl c) hfl).2, ((hf fl hname).of_exec trivial h).2⟩
    unfold drawElement at h
    simp only at h
    cases hr : Role.ofName el.name <;> rw [hr] at h hrole
    case gradient => exact hprepare h fun fl _ => Gradient.opens_draw _ _
    case textBox => exact hprepare h fun fl hname => Figure.opens_textBox _ _ (by rw [hname, hr])
    case person => exact hprepare h fun fl hname => Figure.opens_person (by rw [hname, hr])
    case pipeline => exact hprepare h fun fl hname => Figure.opens_pipeline _ _ (by rw [hname, hr])
    case verbatim => exact hprepare h fun fl _ => .after fun _ => .pure ((Continues.refl fl).opens_wrap _ _)
    case container drawn =>
      refine hprepare h fun fl _ => .withDepth _ (.after fun inner => ?_)
      exact opens_rotated (Continues.refl fl) _ fun _ hg =>
        .after fun _ => .after fun _ => .pure (hg.opens_wrap _ _)
    case shape => exact hprepare h fun fl _ => Figure.opens_shape _ _ (Continues.refl fl) _
    all_goals cases hrole

end DiagramMarkup
