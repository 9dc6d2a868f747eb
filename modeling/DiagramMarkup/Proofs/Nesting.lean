import DiagramMarkup.Element.Node
import Mathlib.Data.List.Forall2

/-!
# Streams that nest

`Nests evs ns` says that the tags of `evs` nest and that `ns` are the trees they spell. Pieces of output are put
together from such streams: one behind the other, or between the tags of an element.

1. A stream that nests is read as its trees wherever it stands (`Nests.nest_append`), so `ofEvents` accepts it.
2. Nesting depends on the names in the tags only, so attributes may be changed afterwards (`Nests.alike`).
3. Reading makes up no elements: those of the trees are those of the tags (`fits_of_ofEvents`).
-/

namespace DiagramMarkup

namespace Node

/-- The stream nests, and it spells the trees. -/
inductive Nests : List Event → List Node → Prop where
  | nil : Nests [] []
  | leaf (l : Leaf) {evs : List Event} {ns : List Node} (h : Nests evs ns) :
    Nests (.leaf l :: evs) (.leaf l :: ns)
  | empty (el : Element) {evs : List Event} {ns : List Node} (h : Nests evs ns) :
    Nests (.empty el :: evs) (.element el [] :: ns)
  | tags (el : Element) {inner evs : List Event} {cs ns : List Node} (hi : Nests inner cs)
    (h : Nests evs ns) :
    Nests (.start el :: (inner ++ .close el.name :: evs)) (.element el cs :: ns)

namespace Nests

variable {evs fvs : List Event} {ns ms : List Node}

/-- A stream that nests is read as its trees, whatever stands around it. -/
theorem nest_append (h : Nests evs ns) : ∀ rest stack siblings,
    nest (evs ++ rest) stack siblings = nest rest stack (ns.reverse ++ siblings) := by
  induction h with
  | nil => intro rest stack siblings; rfl
  | leaf l _ ih => intro rest stack siblings; simp [nest, ih]
  | empty el _ ih => intro rest stack siblings; simp [nest, ih]
  | tags el _ _ ihi ih => intro rest stack siblings; simp [nest, ihi, ih]

theorem ofEvents_eq (h : Nests evs ns) : ofEvents evs = .ok ns := by
  have := h.nest_append [] [] []
  rw [List.append_nil, List.append_nil] at this
  unfold Node.ofEvents
  rw [this, nest, List.reverse_reverse]

theorem append (h : Nests evs ns) (k : Nests fvs ms) : Nests (evs ++ fvs) (ns ++ ms) := by
  induction h with
  | nil => exact k
  | leaf l _ ih => exact .leaf l ih
  | empty el _ ih => exact .empty el ih
  | tags el hi _ _ ih =>
    rw [List.cons_append, List.append_assoc, List.cons_append]
    exact .tags el hi ih

theorem eq_nil (h : Nests [] ns) : ns = [] := by cases h; rfl

theorem wrap (h : Nests evs ns) (el : Element) : Nests (Event.wrap el evs) [.element el ns] := by
  unfold Event.wrap
  split
  · next he =>
    rw [List.isEmpty_iff] at he
    subst he
    rw [h.eq_nil]
    exact .empty el .nil
  · exact .tags el h .nil

end Nests

mutual

theorem nests_events : ∀ n : Node, Nests n.events [n]
  | .leaf l => .leaf l .nil
  | .element el [] => .empty el .nil
  | .element el (c :: cs) => .tags el ((nests_events c).append (nests_eventsAll cs)) .nil

/-- The stream of trees spells these trees. -/
theorem nests_eventsAll : ∀ ns : List Node, Nests (eventsAll ns) ns
  | [] => .nil
  | n :: ns => (nests_events n).append (nests_eventsAll ns)

end

end Node

/-! ## Streams with the same tags -/

namespace Event

/-- The same tag, perhaps with other attributes. -/
inductive Alike : Event → Event → Prop where
  | start {el fl : Element} (h : fl.name = el.name) : Alike (.start fl) (.start el)
  | empty {el fl : Element} (h : fl.name = el.name) : Alike (.empty fl) (.empty el)
  | close (name : String) : Alike (.close name) (.close name)
  | leaf (l : Leaf) : Alike (.leaf l) (.leaf l)

theorem Alike.refl : ∀ e : Event, Alike e e
  | .start _ => .start rfl
  | .empty _ => .empty rfl
  | .close name => .close name
  | .leaf l => .leaf l

theorem alike_mapElement {f : Element → Element} (h : ∀ el, (f el).name = el.name) :
    ∀ e : Event, Alike (e.mapElement f) e
  | .start el => .start (h el)
  | .empty el => .empty (h el)
  | .close name => .close name
  | .leaf l => .leaf l

theorem alike_map {f : Element → Element} (h : ∀ el, (f el).name = el.name) (evs : List Event) :
    List.Forall₂ Alike (evs.map (Event.mapElement f)) evs := by
  rw [List.forall₂_map_left_iff]
  exact List.forall₂_same.2 fun e _ => alike_mapElement h e

end Event

namespace Node

/-- Streams with the same tags nest alike. -/
theorem Nests.alike {evs : List Event} {ns : List Node} (h : Nests evs ns) :
    ∀ {fvs : List Event}, List.Forall₂ Event.Alike fvs evs → ∃ ms, Nests fvs ms := by
  induction h with
  | nil =>
    intro fvs hf
    cases hf
    exact ⟨[], .nil⟩
  | leaf l _ ih =>
    intro fvs hf
    obtain ⟨hf, hr⟩ | ⟨hf, hr⟩ := hf
    cases hf
    obtain ⟨ms, hm⟩ := ih hr
    exact ⟨_, .leaf l hm⟩
  | empty el _ ih =>
    intro fvs hf
    obtain ⟨hf, hr⟩ | ⟨hf, hr⟩ := hf
    cases hf
    obtain ⟨ms, hm⟩ := ih hr
    exact ⟨_, .empty _ hm⟩
  | tags el _ _ ihi ih =>
    intro fvs hf
    rename_i inner evs cs ns _ _
    cases hf with
    | cons hs hr =>
      rename_i e fvs
      cases hs with
      | start hn =>
        rename_i fl
        obtain ⟨cs', hc⟩ := ihi (List.forall₂_take_append _ _ _ hr)
        have hd := List.forall₂_drop_append _ _ _ hr
        rw [← List.take_append_drop inner.length fvs]
        generalize hrest : fvs.drop inner.length = rest at hd
        cases hd with
        | cons hclose hd =>
          cases hclose
          obtain ⟨ms, hm⟩ := ih hd
          rw [← hn]
          exact ⟨_, .tags fl hc hm⟩

end Node

/-! ## The elements of a stream -/

/-- The element that the tag opens, if it does, has the property. -/
def Event.Fits (P : Element → Prop) (e : Event) : Prop := ∀ el, e.element? = some el → P el

namespace Event

variable {P : Element → Prop}

@[simp] theorem fits_start {el : Element} : Fits P (.start el) ↔ P el := by simp [Fits, element?]

@[simp] theorem fits_empty {el : Element} : Fits P (.empty el) ↔ P el := by simp [Fits, element?]

@[simp] theorem fits_close {name : String} : Fits P (.close name) := by simp [Fits, element?]

@[simp] theorem fits_leaf {l : Leaf} : Fits P (.leaf l) := by simp [Fits, element?]

theorem Fits.mapElement {f : Element → Element} (hf : ∀ el, P el → P (f el)) {e : Event}
    (h : e.Fits P) : (e.mapElement f).Fits P := by
  cases e with
  | start el => simpa [Event.mapElement] using hf el (by simpa using h)
  | empty el => simpa [Event.mapElement] using hf el (by simpa using h)
  | close name => exact fits_close
  | leaf l => exact fits_leaf

theorem isSome_mapElement {f : Element → Element} {e : Event} :
    (e.mapElement f).element?.isSome ↔ e.element?.isSome := by
  cases e <;> simp [mapElement, element?]

/-- Tags around content fit if the element and the content do. -/
theorem fits_wrap {el : Element} {content : List Event} :
    (∀ e ∈ wrap el content, e.Fits P) ↔ P el ∧ ∀ e ∈ content, e.Fits P := by
  unfold wrap
  split
  · next h =>
    rw [List.isEmpty_iff] at h
    subst h
    simp
  · simp [or_imp, forall_and]

end Event

namespace Node

variable {P : Element → Prop}

/-- All elements of the tree have the property. -/
def Fits (P : Element → Prop) (n : Node) : Prop := ∀ e ∈ n.events, e.Fits P

theorem fits_eventsAll {ns : List Node} :
    (∀ e ∈ eventsAll ns, e.Fits P) ↔ ∀ n ∈ ns, n.Fits P := by
  induction ns with
  | nil => simp [eventsAll]
  | cons n ns ih =>
    rw [eventsAll, List.forall_mem_append, List.forall_mem_cons, ih]
    rfl

@[simp] theorem fits_leaf {l : Leaf} : Fits P (.leaf l) := by simp [Fits, events]

theorem fits_element {el : Element} {cs : List Node} :
    Fits P (.element el cs) ↔ P el ∧ ∀ n ∈ cs, n.Fits P := by
  cases cs with
  | nil => simp [Fits, events]
  | cons c cs =>
    have h : (.element el (c :: cs) : Node).events =
        .start el :: eventsAll (c :: cs) ++ [.close el.name] := rfl
    rw [Fits, h, List.cons_append, List.forall_mem_cons, List.forall_mem_append, fits_eventsAll]
    simp

/-- Reading makes up no elements. -/
theorem fits_of_nest {evs : List Event} :
    ∀ {stack : List (Element × List Node)} {siblings out : List Node},
      nest evs stack siblings = .ok out → (∀ e ∈ evs, e.Fits P) →
      (∀ p ∈ stack, P p.1 ∧ ∀ n ∈ p.2, n.Fits P) → (∀ n ∈ siblings, n.Fits P) →
      ∀ n ∈ out, n.Fits P := by
  intro stack siblings out h hevs hstack hsib
  fun_induction nest evs stack siblings with
  | case1 siblings =>
    cases h
    simpa using hsib
  | case2 => cases h
  | case3 el evs stack siblings ih =>
    simp only [List.forall_mem_cons, Event.fits_start] at hevs
    exact ih h hevs.2 (List.forall_mem_cons.2 ⟨⟨hevs.1, hsib⟩, hstack⟩) (by simp)
  | case4 el evs stack siblings ih =>
    simp only [List.forall_mem_cons, Event.fits_empty] at hevs
    exact ih h hevs.2 hstack (List.forall_mem_cons.2 ⟨fits_element.2 ⟨hevs.1, by simp⟩, hsib⟩)
  | case5 l evs stack siblings ih =>
    exact ih h (List.forall_mem_cons.1 hevs).2 hstack (List.forall_mem_cons.2 ⟨fits_leaf, hsib⟩)
  | case6 => cases h
  | case7 name evs el before stack siblings hname ih =>
    obtain ⟨⟨hel, hbefore⟩, hstack⟩ := List.forall_mem_cons.1 hstack
    refine ih h (List.forall_mem_cons.1 hevs).2 hstack (List.forall_mem_cons.2 ⟨?_, hbefore⟩)
    exact fits_element.2 ⟨hel, by simpa using hsib⟩
  | case8 => cases h

theorem fits_of_ofEvents {evs : List Event} {ns : List Node} (h : ofEvents evs = .ok ns)
    (hevs : ∀ e ∈ evs, e.Fits P) : ∀ n ∈ ns, n.Fits P :=
  fits_of_nest h hevs (by simp) (by simp)

end Node

end DiagramMarkup
