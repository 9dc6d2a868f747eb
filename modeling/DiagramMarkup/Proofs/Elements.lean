import DiagramMarkup.Position.Resolve
import DiagramMarkup.Proofs.Steps

/-!
# Attribute names of elements

`Named ok el` says that `ok` holds of all attribute names of `el`. Whatever is done to an element on its way to the
output gives it no attribute named `class` that it did not have: classes are kept apart from the attributes until
the element is written. So if `ok` holds of every name but `class`, the property stays.
-/

namespace DiagramMarkup

namespace Attrs

theorem mem_names_set {a : Attrs} {name value n : String} (h : n ∈ (a.set name value).names) :
    n = name ∨ n ∈ a.names := mem_map_put h

theorem mem_names_erase {a : Attrs} {name n : String} (h : n ∈ (a.erase name).names) :
    n ∈ a.names :=
  (List.filter_sublist.map Prod.fst).subset h

theorem mem_names_setDefault {a : Attrs} {name value n : String}
    (h : n ∈ (a.setDefault name value).names) : n = name ∨ n ∈ a.names := by
  unfold setDefault at h
  split at h
  · exact .inr h
  · exact mem_names_set h

theorem mem_names_setAll {pairs : List (String × String)} {n : String} :
    ∀ {a : Attrs}, n ∈ (a.setAll pairs).names → n ∈ pairs.map Prod.fst ∨ n ∈ a.names := by
  induction pairs with
  | nil => exact fun h => .inr h
  | cons p pairs ih =>
    intro a h
    rcases ih h with h | h
    · exact .inl (by simp [h])
    · rcases mem_names_set h with rfl | h
      · exact .inl (by simp)
      · exact .inr h

theorem mem_names_ofList {pairs : List (String × String)} {n : String}
    (h : n ∈ (ofList pairs).names) : n ∈ pairs.map Prod.fst :=
  (mem_names_setAll h).resolve_right (by simp [names, empty])

end Attrs

namespace Element

/-- All attribute names of the element are admitted. -/
def Named (ok : String → Prop) (el : Element) : Prop := ∀ n ∈ el.attrs.names, ok n

variable {ok : String → Prop} {el : Element}

theorem named_bare (name : String) : Named ok { name := name } := by
  intro n hn
  cases hn

namespace Named

theorem withName (h : Named ok el) (name : String) : Named ok { el with name := name } := h

theorem withOrder (h : Named ok el) (order : Order) : Named ok { el with order := order } := h

theorem withClasses (h : Named ok el) (cs : List String) : Named ok { el with classes := cs } := h

theorem set (h : Named ok el) {name : String} (hn : ok name) (value : String) :
    Named ok (el.set name value) := by
  intro n hmem
  rcases Attrs.mem_names_set hmem with rfl | hmem
  · exact hn
  · exact h n hmem

theorem erase (h : Named ok el) (name : String) : Named ok (el.erase name) :=
  fun n hn => h n (Attrs.mem_names_erase hn)

theorem eraseAll (h : Named ok el) (names : List String) : Named ok (el.eraseAll names) := by
  induction names generalizing el with
  | nil => exact h
  | cons n names ih => exact ih (h.erase n)

theorem setDefault (h : Named ok el) {name : String} (hn : ok name) (value : String) :
    Named ok { el with attrs := el.attrs.setDefault name value } := by
  intro n hmem
  rcases Attrs.mem_names_setDefault hmem with rfl | hmem
  · exact hn
  · exact h n hmem

theorem setDefaults (h : Named ok el) {pairs : List (String × String)}
    (hp : ∀ p ∈ pairs, ok p.1) :
    Named ok { el with
      attrs := pairs.foldl (fun (a : Attrs) p => a.setDefault p.1 p.2) el.attrs } := by
  induction pairs generalizing el with
  | nil => exact h
  | cons p pairs ih =>
    exact ih (h.setDefault (hp p (by simp)) p.2) fun q hq => hp q (by simp [hq])

theorem addClass (h : Named ok el) (c : String) : Named ok (el.addClass c) := by
  unfold Element.addClass
  split <;> exact h

theorem addClasses (h : Named ok el) (cs : List String) : Named ok (el.addClasses cs) := by
  induction cs generalizing el with
  | nil => exact h
  | cons c cs ih => exact ih (h.addClass c)

/-- The names of one element may be given to another. -/
theorem entries (h : Named ok el) : ∀ p ∈ el.attrs.entries, ok p.1 :=
  fun p hp => h p.1 (List.mem_map_of_mem hp)

end Named

theorem named_ofAttrs {pairs : List (String × String)} (name : String)
    (h : ∀ p ∈ pairs, p.1 ≠ "class" → ok p.1) : Named ok (ofAttrs name pairs) := by
  unfold ofAttrs
  generalize hel : ({ name := name } : Element) = el
  have hnamed : Named ok el := hel ▸ named_bare name
  clear hel
  induction pairs generalizing el with
  | nil => exact hnamed
  | cons p pairs ih =>
    refine ih (fun q hq => h q (by simp [hq])) _ ?_
    simp only
    split
    · exact hnamed.addClasses _
    · next hp => exact hnamed.set (h p (by simp) (by simpa using hp)) _

/-! ## Stable properties -/

/-- The property stays when attributes with free names are given values or removed. -/
structure Stable (free : String → Prop) (I : Element → Prop) : Prop where
  set : ∀ {el : Element} {n : String} (v : String), free n → I el → I (el.set n v)
  erase : ∀ {el : Element} {n : String}, free n → I el → I (el.erase n)

/-- The attributes in which native geometry is written. -/
def geometric : List String :=
  ["x", "y", "width", "height", "cx", "cy", "r", "rx", "ry", "x1", "y1", "x2", "y2", "points", "transform"]

theorem stable_named (hok : ∀ n, n ≠ "class" → ok n) : Stable (· ≠ "class") (Named ok) :=
  ⟨fun v hn h => h.set (hok _ hn) v, fun _ h => h.erase _⟩

theorem geometric_ne_class : ∀ n ∈ geometric, n ≠ "class" := by decide

namespace Stable

variable {α : Type} [Scalar α] {free : String → Prop} {I : Element → Prop} (hI : Stable free I)

include hI

theorem setNumber {n : String} (hn : free n) (h : I el) (v : α) : I (el.setNumber n v) :=
  hI.set _ hn h

theorem eraseAll {ns : List String} (hns : ∀ n ∈ ns, free n) : ∀ {el : Element}, I el →
    I (el.eraseAll ns) := by
  induction ns with
  | nil => exact fun h => h
  | cons n ns ih =>
    obtain ⟨hn, hns⟩ := List.forall_mem_cons.1 hns
    exact fun h => ih hns (hI.erase hn h)

variable (hn : ∀ n ∈ geometric, free n)

include hn

theorem prependTransform (h : I el) (t : String) : I (el.prependTransform t) := by
  unfold Element.prependTransform
  split <;> exact hI.set _ (hn _ (by decide)) h

theorem setBox (h : I el) (b : Box α) : I (el.setBox b) := by
  have num : ∀ {fl : Element} (n : String) (v : α), n ∈ geometric → I fl → I (fl.setNumber n v) :=
    fun n v hmem hfl => hI.setNumber (hn n hmem) hfl v
  unfold Element.setBox
  cases el.shape? with
  | none => exact h
  | some s =>
    cases s with
    | box =>
      exact num _ _ (by decide) (num _ _ (by decide) (num _ _ (by decide) (num _ _ (by decide) h)))
    | circle => exact num _ _ (by decide) (num _ _ (by decide) (num _ _ (by decide) h))
    | ellipse =>
      exact num _ _ (by decide) (num _ _ (by decide) (num _ _ (by decide) (num _ _ (by decide) h)))
    | line =>
      exact num _ _ (by decide) (num _ _ (by decide) (num _ _ (by decide) (num _ _ (by decide) h)))
    | points => exact h
    | path => exact h
    | point => exact num _ _ (by decide) (num _ _ (by decide) h)

theorem ensures_shiftNumber {n : String} (hmem : n ∈ geometric) (d : α) :
    Ensures I (shiftNumber n d) fun _ => True := by
  unfold shiftNumber
  refine .bind .get fun el hel => ?_
  split
  · exact .throw
  · exact .pure trivial
  · exact .modify fun fl hfl => hI.setNumber (hn n hmem) hfl _

theorem ensures_fillNumber {n : String} (hmem : n ∈ geometric) (v : α) :
    Ensures I (fillNumber n v) fun _ => True := by
  unfold fillNumber
  refine .bind .get fun el hel => ?_
  split
  · exact .pure trivial
  · exact .modify fun fl hfl => hI.setNumber (hn n hmem) hfl _

theorem ensures_translate (dx dy : α) : Ensures I (translate dx dy) fun _ => True := by
  unfold Element.translate
  split
  · exact .pure trivial
  refine .bind .get fun el hel => ?_
  have shift : ∀ (n : String) (d : α), n ∈ geometric → Ensures I (shiftNumber n d) fun _ => True :=
    fun n d hmem => hI.ensures_shiftNumber hn hmem d
  have fill : ∀ (n : String) (d : α), n ∈ geometric → Ensures I (fillNumber n d) fun _ => True :=
    fun n d hmem => hI.ensures_fillNumber hn hmem d
  have box : Ensures I (do
      shiftNumber "x" dx; shiftNumber "y" dy; fillNumber "x" dx; fillNumber "y" dy)
      fun _ => True :=
    .bind (shift _ _ (by decide)) fun _ _ => .bind (shift _ _ (by decide)) fun _ _ =>
      .bind (fill _ _ (by decide)) fun _ _ => fill _ _ (by decide)
  have round : Ensures I (do shiftNumber "cx" dx; shiftNumber "cy" dy) fun _ => True :=
    .bind (shift _ _ (by decide)) fun _ _ => shift _ _ (by decide)
  cases el.shape? with
  | none => exact .modify fun fl hfl => hI.prependTransform hn hfl _
  | some s =>
    cases s with
    | box => exact box
    | point => exact box
    | circle => exact round
    | ellipse => exact round
    | line =>
      exact .bind (shift _ _ (by decide)) fun _ _ => .bind (shift _ _ (by decide)) fun _ _ =>
        .bind (shift _ _ (by decide)) fun _ _ => shift _ _ (by decide)
    | points =>
      refine .bind .get fun el _ => ?_
      split
      · exact .throw
      · exact .modify fun fl hfl => hI.set _ (hn _ (by decide)) hfl
    | path => exact .modify fun fl hfl => hI.prependTransform hn hfl _

end Stable

theorem Named.setNumber {α : Type} [Scalar α] (h : Named ok el) {name : String} (hn : ok name)
    (v : α) : Named ok (el.setNumber name v) := h.set hn _

theorem Named.prependTransform (hok : ∀ n, n ≠ "class" → ok n) (h : Named ok el) (t : String) :
    Named ok (el.prependTransform t) :=
  (stable_named hok).prependTransform geometric_ne_class h t

end Element

/-! ## Positional attributes -/

namespace Position

open Element

variable {α β : Type} {free : String → Prop} {I : Element → Prop}

theorem local_failOn (attr : String) (f : Fault) {Q : β → Prop} :
    Local I (failOn attr f : Edit Failure β) Q := by
  unfold failOn
  exact .bind .get fun _ _ => .throw (Failure.final_error _)

theorem local_orFail (attr : String) (r : Except Fault β) :
    Local I (orFail attr r) fun b => r = .ok b := by
  unfold orFail
  split
  · exact .pure rfl
  · exact local_failOn attr _

theorem local_require (holds : Bool) (attr : String) (f : Fault) :
    Local I (require holds attr f) fun _ => True := by
  unfold require
  split
  · exact .pure trivial
  · exact local_failOn attr f

theorem local_requireSized (shape : Shape) (attr : String) :
    Local I (requireSized shape attr) fun _ => True := by
  unfold requireSized
  exact .bind .get fun _ _ => local_require _ _ _

theorem local_editing {attr : String} {e : Edit Fault Unit} (h : Ensures I e fun _ => True) :
    Local I (editing attr e) fun _ => True := by
  unfold editing
  refine .bind .get fun el hel => ?_
  exact .bind (.set (h el hel).1) fun _ _ => (local_orFail attr _).mono fun _ _ => trivial

section Scalars

variable [Scalar α]

theorem local_combined (inside : Bool) (v : String) (boxes : List (Box α)) :
    Local I (combined inside v boxes) fun _ => True := by
  unfold combined
  refine .bind .get fun el _ => ?_
  split
  · exact .pure trivial
  · exact .throw (Failure.final_error _)

theorem local_adjusted (v : String) (size : Point α) (args : List String) :
    Local I (adjusted v size args) fun _ => True := by
  unfold adjusted
  split
  · exact .pure trivial
  · exact .bind (local_orFail _ _) fun _ _ => .pure trivial
  · exact .bind (local_orFail _ _) fun _ _ => .bind (local_orFail _ _) fun _ _ => .pure trivial
  · exact local_failOn _ _

theorem local_grown (attr : String) (d : Option String) (size : α) :
    Local I (grown attr d size) fun _ => True := by
  unfold grown
  split
  · exact .pure trivial
  · exact .bind (local_orFail _ _) fun _ _ => .pure trivial

variable (hI : Stable free I)

include hI

theorem local_take {name : String} (hn : free name) : Local I (take name) fun _ => True := by
  unfold take
  refine .bind .get fun el hel => ?_
  exact .bind (.set (hI.erase hn hel)) fun _ _ => .pure trivial

theorem local_margined (hm : free "margin") (inside : Bool) (b : Box α) :
    Local I (margined inside b) fun _ => True := by
  unfold margined
  refine .bind (local_take hI hm) fun m _ => ?_
  split
  · exact .pure trivial
  · exact .bind (local_orFail _ _) fun _ _ => .pure trivial

theorem local_ownLoc (hl : free "xy-loc") : Local I ownLoc fun _ => True := by
  unfold ownLoc
  refine .bind (local_take hI hl) fun v _ => ?_
  split
  · exact .pure trivial
  · exact (local_orFail _ _).mono fun _ _ => trivial

theorem local_shiftOf {attr : String} (ha : free attr) :
    Local I (shiftOf α attr) fun _ => True := by
  unfold shiftOf
  refine .bind (local_take hI ha) fun v _ => ?_
  split
  · exact .pure trivial
  · refine .bind (local_orFail _ _) fun ns _ => ?_
    split
    · exact .pure trivial
    · exact local_failOn _ _

variable (hn : ∀ n ∈ geometric, free n)

include hn

theorem stable_setSize {el : Element} (h : I el) (shape : Shape) (w v : α) :
    I (setSize shape w v el) := by
  unfold setSize
  split
  · exact hI.setNumber (hn _ (by decide)) (hI.setNumber (hn _ (by decide)) h _) _
  · exact hI.setNumber (hn _ (by decide)) h _
  · exact hI.setNumber (hn _ (by decide)) (hI.setNumber (hn _ (by decide)) h _) _
  · exact h

omit hn in
theorem stable_setIfKnown {el : Element} (h : I el) {name : String} (hf : free name)
    (v : Option α) : I (setIfKnown name v el) := by
  unfold setIfKnown
  split
  · exact hI.setNumber hf h _
  · exact h

theorem stable_setExtent {el : Element} (h : I el) (shape : Shape) (e : Extent α) :
    I (setExtent shape e el) := by
  unfold setExtent
  split
  · exact hI.setBox hn h _
  · split
    · exact stable_setIfKnown hI (stable_setIfKnown hI h (hn _ (by decide)) _) (hn _ (by decide)) _
    · exact stable_setIfKnown hI (stable_setIfKnown hI h (hn _ (by decide)) _) (hn _ (by decide)) _

theorem local_sizeByDelta (hw : free "dw") (hh : free "dh") (shape : Shape) :
    Local I (sizeByDelta α shape) fun _ => True := by
  unfold sizeByDelta
  refine .bind (local_take hI hw) fun dw _ => .bind (local_take hI hh) fun dh _ => ?_
  split
  · exact .pure trivial
  refine .bind (local_requireSized _ _) fun _ _ => .bind .get fun el _ => ?_
  refine .bind (local_orFail _ _) fun s _ => .bind (local_grown _ _ _) fun w _ => ?_
  refine .bind (local_grown _ _ _) fun h _ => ?_
  exact .modify fun el hel => stable_setSize hI hn hel _ _ _

theorem local_place (shape : Shape) (attr : String) (l : Loc) (p : Point α) :
    Local I (place shape attr l p) fun _ => True := by
  have drawn : Local I (placeDrawn attr l p) fun _ => True := by
    unfold placeDrawn
    refine .bind .get fun el _ => .bind (local_orFail _ _) fun b _ => ?_
    split
    · exact .bind .get fun _ _ => local_failOn _ _
    · exact local_editing (hI.ensures_translate hn _ _)
  have sized : Local I (placeSized shape attr l p) fun _ => True := by
    unfold placeSized
    refine .bind .get fun el _ => .bind (local_orFail _ _) fun s _ => ?_
    exact .modify fun el h => stable_setExtent hI hn h _ _
  cases shape with
  | point =>
    exact .modify fun el h => hI.setNumber (hn _ (by decide)) (hI.setNumber (hn _ (by decide)) h _) _
  | line => exact drawn
  | points => exact drawn
  | path => exact drawn
  | box => exact sized
  | circle => exact sized
  | ellipse => exact sized

end Scalars

end Position

end DiagramMarkup
