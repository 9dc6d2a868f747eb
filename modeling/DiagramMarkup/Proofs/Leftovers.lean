import DiagramMarkup.Proofs.Lookups

/-!
# What is left of positional attributes

Settling the position of an element removes positional attributes and writes native geometry in their place.

1. An edit spends attributes if, whenever it has a result, it has removed these and kept the other positional ones
   (`Spends`). Edits of native geometry spend nothing, since its attributes have other names (`Spends.nothing`).
2. The sizes spend `margin` only behind `surround` or `inside` (`spends_encloseBy`), and the ends `xy1` and `xy2` are
   spent on lines alone (`spends_placeEnds`).
3. So these are left where they say nothing, and all the others are gone (`resolve_leaves`).
-/

namespace DiagramMarkup

namespace Position

open Element

variable {α β γ : Type} {el fl : Element}

/-! ## Spending -/

/-- Whenever the edit has a result, it has removed these positional attributes of the element, and no others. -/
def Spends (ns : List String) (m : Edit Failure β) (el : Element) : Prop :=
  ∀ b fl, exec m el = (.ok b, fl) → ∀ a ∈ attributes, fl.get? a = if a ∈ ns then none else el.get? a

/-- The element has the positional attributes of another. -/
def SameShorthand (el : Element) : Element → Prop := Kept (fun _ => True) el attributes

theorem stable_sameShorthand (el : Element) : Stable (· ∉ attributes) (SameShorthand el) := by
  have hall : Stable (fun _ => True) fun _ => True := ⟨fun _ _ h => h, fun _ h => h⟩
  have hkept := hall.kept el attributes
  exact ⟨fun v hn h => hkept.set v ⟨trivial, hn⟩ h, fun hn h => hkept.erase ⟨trivial, hn⟩ h⟩

theorem geometric_not_mem : ∀ n ∈ geometric, n ∉ attributes := by decide

namespace Spends

variable {m : Edit Failure β} {ns ms : List String}

theorem nothing {Q : β → Prop} (h : Ensures (SameShorthand el) m Q) : Spends [] m el := by
  intro b fl hm a ha
  have hkept := (h el ⟨trivial, fun _ _ => rfl⟩).1
  rw [hm] at hkept
  simpa using hkept.2 a ha

theorem pure (b : β) : Spends [] (pure b) el := .nothing (.pure (Q := fun _ => True) trivial)

theorem bind {f : β → Edit Failure γ} (hm : Spends ns m el)
    (hf : ∀ b fl, exec m el = (.ok b, fl) → Spends ms (f b) fl) : Spends (ns ++ ms) (m >>= f) el := by
  intro c gl h a ha
  obtain ⟨b, fl, hb, hc⟩ := exec_bind_eq_ok h
  rw [hf b fl hb c gl hc a ha, hm b fl hb a ha]
  by_cases hms : a ∈ ms <;> simp [hms]

/-- A sequence whose first part spends nothing. -/
theorem before {f : β → Edit Failure γ} (hm : Spends [] m el) (hf : ∀ b fl, Spends ms (f b) fl) :
    Spends ms (m >>= f) el :=
  hm.bind fun b fl _ => hf b fl

/-- A sequence whose second part spends nothing. -/
theorem after {f : β → Edit Failure γ} (hm : Spends ns m el) (hf : ∀ b fl, Spends [] (f b) fl) :
    Spends ns (m >>= f) el := by
  have h := hm.bind fun b fl _ => hf b fl
  rwa [List.append_nil] at h

/-- What an attribute that is not spent says is the same before and after. -/
theorem get?_eq (h : Spends ns m el) {b : β} (hm : exec m el = (.ok b, fl)) {a : String} (ha : a ∈ attributes)
    (hns : a ∉ ns) : fl.get? a = el.get? a := by
  rw [h b fl hm a ha, if_neg hns]

end Spends

theorem exec_take (a : String) (el : Element) : exec (take a) el = (.ok (el.get? a), el.erase a) := rfl

theorem spends_take (a : String) (el : Element) : Spends [a] (take a) el := by
  intro v fl h n _
  rw [exec_take] at h
  cases h
  rw [get?_erase]
  simp only [List.mem_singleton]

/-- What follows the removal of an attribute depends on its value. -/
theorem spends_taken {a : String} {f : Option String → Edit Failure γ} {ns : List String}
    (h : ∀ fl, Spends ns (f (el.get? a)) fl) : Spends (a :: ns) (take a >>= f) el :=
  (spends_take a el).bind fun v fl hv => by
    rw [exec_take] at hv
    cases hv
    exact h _

section Steps

theorem spends_nothing {m : Edit Failure β} {Q : β → Prop} (h : Local (SameShorthand el) m Q) : Spends [] m el :=
  .nothing h.ensures

theorem spends_failOn (attr : String) (f : Fault) : Spends [] (failOn attr f : Edit Failure β) el :=
  spends_nothing (local_failOn (Q := fun _ => True) attr f)

theorem spends_orFail (attr : String) (r : Except Fault β) : Spends [] (orFail attr r) el :=
  spends_nothing (local_orFail attr r)

theorem spends_requireSized (shape : Shape) (attr : String) : Spends [] (requireSized shape attr) el :=
  spends_nothing (local_requireSized shape attr)

theorem spends_modify {f : Element → Element} (h : SameShorthand el (f el)) : Spends [] (modify f) el := by
  intro b fl hb a ha
  cases hb
  simpa using h.2 a ha

theorem sameShorthand_self (el : Element) : SameShorthand el el := ⟨trivial, fun _ _ => rfl⟩

theorem ensures_boxOf {I : Element → Prop} (refs : Referrer α) (t : String) :
    Ensures I (boxOf refs t) fun _ => True := by
  unfold boxOf
  split
  · exact .pure trivial
  · exact .throw

/-! ## Sizes -/

theorem spends_boxesOf (refs : Referrer α) (attr v : String) : Spends [] (boxesOf refs attr v) el := by
  have hbox : ∀ t ∈ Text.words v, Ensures (SameShorthand el)
      (do require (isRef t) attr (.notReference t); boxOf refs t) fun _ => True :=
    fun t _ => .bind (local_require _ _ _).ensures fun _ _ => ensures_boxOf refs t
  exact .nothing (.bind (local_require _ _ _).ensures fun _ _ => .mapM hbox)

variable [Scalar α] (refs : Referrer α) (shape : Shape)

theorem spends_margined (inside : Bool) (b : Box α) : Spends ["margin"] (margined inside b) el := by
  refine spends_taken fun fl => ?_
  cases el.get? "margin" with
  | none => exact .pure _
  | some m => exact (spends_orFail _ _).before fun _ _ => .pure _

/-- The margin goes with the list of references that it belongs to. -/
theorem spends_encloseBy (inside : Bool) (attr : String) :
    Spends (attr :: if (el.get? attr).isSome then ["margin"] else []) (encloseBy refs shape inside attr) el := by
  refine spends_taken fun fl => ?_
  cases el.get? attr with
  | none => exact .pure _
  | some v =>
    refine (spends_requireSized _ _).before fun _ _ => (spends_boxesOf refs _ _).before fun boxes _ => ?_
    refine (spends_nothing (local_combined _ _ _)).before fun b _ => ?_
    refine (spends_margined _ _).after fun b fl => spends_modify ?_
    exact (stable_sameShorthand fl).setBox geometric_not_mem (sameShorthand_self fl) _

theorem spends_parseSize (v : String) : Spends [] (parseSize refs v) el := by
  unfold parseSize
  split
  · exact spends_orFail _ _
  · refine (spends_orFail _ _).before fun ref _ => (spends_nothing (local_require _ _ _)).before fun _ _ => ?_
    exact (Spends.nothing (ensures_boxOf refs _)).before fun b _ => spends_nothing (local_adjusted _ _ _)

theorem spends_sizeByPair : Spends ["wh"] (sizeByPair refs shape) el := by
  refine spends_taken fun fl => ?_
  cases el.get? "wh" with
  | none => exact .pure _
  | some v =>
    refine (spends_requireSized _ _).before fun _ _ => (spends_parseSize refs v).before fun size fl => ?_
    exact spends_modify (stable_setSize (stable_sameShorthand fl) geometric_not_mem (sameShorthand_self fl) _ _ _)

variable (α) in
theorem spends_sizeByDelta : Spends ["dw", "dh"] (sizeByDelta α shape) el := by
  refine spends_taken fun fl => spends_taken fun fl => ?_
  split
  · exact .pure _
  refine (spends_requireSized _ _).before fun _ fl => (spends_nothing .get).before fun gl _ => ?_
  refine (spends_orFail _ _).before fun size _ => ?_
  refine (spends_nothing (local_grown _ _ _)).before fun w _ => ?_
  refine (spends_nothing (local_grown _ _ _)).before fun h fl => ?_
  exact spends_modify (stable_setSize (stable_sameShorthand fl) geometric_not_mem (sameShorthand_self fl) _ _ _)

/-- The attributes that settling the size removes. -/
def spentOnSize (el : Element) : List String :=
  ("surround" :: if (el.get? "surround").isSome then ["margin"] else []) ++
    (("inside" :: if (el.get? "inside").isSome then ["margin"] else []) ++ (["wh"] ++ ["dw", "dh"]))

theorem spends_sizes : Spends (spentOnSize el) (sizes refs shape) el := by
  have hsurround : "inside" ∉ "surround" :: if (el.get? "surround").isSome then ["margin"] else [] := by
    split <;> decide
  refine (spends_encloseBy refs shape false "surround").bind fun _ fl hfl => ?_
  rw [← (spends_encloseBy refs shape false "surround").get?_eq hfl (by decide) hsurround]
  refine (spends_encloseBy refs shape true "inside").bind fun _ _ _ => ?_
  exact (spends_sizeByPair refs shape).bind fun _ _ _ => spends_sizeByDelta α shape

/-! ## Places -/

theorem spends_pointOf (attr : String) (ref : Ref α) (implied : Loc) :
    Spends [] (pointOf refs attr ref implied) el := by
  unfold pointOf
  split
  · exact spends_orFail _ _
  · refine (Spends.nothing (ensures_boxOf refs _)).before fun b _ => (spends_orFail _ _).before fun d _ => ?_
    exact .pure _

theorem spends_placeEnd {attr nx ny : String} (hx : nx ∈ geometric) (hy : ny ∈ geometric) :
    Spends [attr] (placeEnd refs attr nx ny) el := by
  refine spends_taken fun fl => ?_
  cases el.get? attr with
  | none => exact .pure _
  | some v =>
    refine (spends_orFail _ _).before fun ref _ => (spends_pointOf refs _ _ _).before fun p fl => spends_modify ?_
    have hstable := stable_sameShorthand fl
    exact hstable.setNumber (geometric_not_mem _ hy)
      (hstable.setNumber (geometric_not_mem _ hx) (sameShorthand_self fl) _) _

theorem spends_placeEnds :
    Spends (if shape == .line then ["xy1", "xy2"] else []) (placeEnds refs shape) el := by
  unfold placeEnds
  split
  · exact (spends_placeEnd refs (by decide) (by decide)).bind fun _ _ _ =>
      spends_placeEnd refs (by decide) (by decide)
  · exact .pure _

theorem spends_ownLoc : Spends ["xy-loc"] ownLoc el := by
  refine spends_taken fun fl => ?_
  cases el.get? "xy-loc" with
  | none => exact .pure _
  | some v => exact spends_orFail _ _

theorem spends_goal (attr v : String) (loc : Loc) : Spends [] (goal refs attr v loc) el := by
  refine (spends_orFail _ _).before fun ref _ => ?_
  split
  · refine (Spends.nothing (ensures_boxOf refs _)).before fun b _ => (spends_orFail _ _).before fun d _ => ?_
    split <;> exact .pure _
  · exact (spends_pointOf refs _ _ _).before fun _ _ => .pure _

theorem spends_placeByEither (loc : Loc) (cxy xy : Option String) :
    Spends [] (placeByEither refs shape loc cxy xy) el := by
  have hplace : ∀ attr v loc, Spends [] (placeBy refs shape attr v loc) el := fun attr v loc =>
    (spends_goal refs attr v loc).before fun g fl =>
      spends_nothing (local_place (stable_sameShorthand fl) geometric_not_mem shape attr g.1 g.2)
  unfold placeByEither
  split
  · exact .pure _
  · exact spends_failOn _ _
  · exact hplace _ _ _
  · exact hplace _ _ _

variable (α) in
theorem spends_shiftOf (attr : String) : Spends [attr] (shiftOf α attr) el := by
  refine spends_taken fun fl => ?_
  cases el.get? attr with
  | none => exact .pure _
  | some v =>
    refine (spends_orFail _ _).before fun ns _ => ?_
    split
    · exact .pure _
    · exact spends_failOn _ _

/-- The attributes that settling the place removes. -/
def spentOnPlace (shape : Shape) : List String :=
  (if shape == .line then ["xy1", "xy2"] else []) ++ (["xy-loc"] ++ (["cxy", "xy"] ++ (["dx"] ++ ["dy"])))

theorem spends_locate : Spends (spentOnPlace shape) (locate refs shape) el := by
  refine (spends_placeEnds refs shape).bind fun _ _ _ => spends_ownLoc.bind fun loc _ _ => ?_
  refine spends_taken fun _ => spends_taken fun _ => (spends_placeByEither refs shape _ _ _).before fun _ _ => ?_
  refine (spends_shiftOf α "dx").bind fun dx _ _ => (spends_shiftOf α "dy").after fun dy fl => ?_
  exact spends_nothing (local_editing ((stable_sameShorthand fl).ensures_translate geometric_not_mem _ _))

end Steps

/-! ## What is left -/

theorem eq_ok_of_toOption {ε : Type} {r : Except ε β} {b : β} (h : r.toOption = some b) : r = .ok b := by
  cases r with
  | error e => cases h
  | ok a =>
    cases h
    rfl

section Resolve

variable [Scalar α] {refs : Referrer α} {shape : Shape}

/-- The attribute says nothing on this element: a margin without references that it could keep from, or an end of a
line on another shape. -/
def idle (shape : Shape) (el : Element) (a : String) : Bool :=
  a == "margin" && !el.has "surround" && !el.has "inside" || (a == "xy1" || a == "xy2") && shape != .line

theorem mem_spent (shape : Shape) (el : Element) {a : String} (ha : a ∈ attributes) :
    a ∈ spentOnSize el ++ spentOnPlace shape ↔ idle shape el a = false := by
  unfold idle spentOnSize spentOnPlace
  rw [has_eq_isSome, has_eq_isSome]
  cases (el.get? "surround").isSome <;> cases (el.get? "inside").isSome <;> cases shape <;>
    revert a <;> decide

theorem exec_of_resolve (hshape : el.shape? = some shape) (hhas : has el = true) (h : resolve refs el = .ok fl) :
    exec (do sizes refs shape; locate refs shape) el = (.ok (), fl) := by
  unfold resolve at h
  rw [hshape] at h
  simp only [hhas, Bool.not_true, Bool.false_eq_true, if_false] at h
  unfold exec
  split at h
  · next hrun =>
    cases h
    exact hrun
  · cases h

theorem get?_resolve (hshape : el.shape? = some shape) (h : resolve refs el = .ok fl) {a : String}
    (ha : a ∈ attributes) : fl.get? a = if idle shape el a then el.get? a else none := by
  cases hhas : has el with
  | false =>
    have hfl : fl = el := by
      unfold resolve at h
      rw [hshape] at h
      simp only [hhas] at h
      cases h
      rfl
    rw [hfl, get?_of_not_has el hhas a ha, ite_self]
  | true =>
    have hspent : Spends (spentOnSize el ++ spentOnPlace shape) (do sizes refs shape; locate refs shape) el :=
      (spends_sizes refs shape).bind fun _ _ _ => spends_locate refs shape
    rw [hspent _ _ (exec_of_resolve hshape hhas h) a ha]
    simp only [mem_spent shape el ha]
    cases idle shape el a <;> rfl

/-- Once the position of an element is settled, of its positional attributes those are left that say nothing on it. So
none is left unless it has a margin without `surround` and `inside`, or an end of a line without being one. -/
theorem resolve_leaves (hshape : el.shape? = some shape) (h : resolve refs el = .ok fl) :
    (∀ a ∈ attributes, fl.get? a = if idle shape el a then el.get? a else none) ∧
      has fl = attributes.any fun a => idle shape el a && el.has a := by
  refine ⟨fun a ha => get?_resolve hshape h ha, ?_⟩
  unfold has
  rw [Bool.eq_iff_iff, List.any_eq_true, List.any_eq_true]
  refine exists_congr fun a => and_congr_right fun ha => ?_
  rw [has_eq_isSome, has_eq_isSome, get?_resolve hshape h ha]
  cases idle shape el a <;> simp

end Resolve

/-- Only the square `#a` is known. -/
def onlySquare (t : String) : Except Failure (Box Float) :=
  if t = "#a" then .ok ⟨0, 0, 6, 6⟩ else .error (.deferred (.mk "" t []))

/-- A circle around the square, with an end of a line that says nothing on it. -/
def ringed : Element :=
  .ofAttrs "circle" [("surround", "#a"), ("margin", "1"), ("xy2", "9 9"), ("dx", "2"), ("dh", "50%")]

theorem resolve_leaves_ringed :
    ∃ fl, resolve onlySquare ringed = .ok fl ∧ (∀ a ∈ attributes, fl.get? a = if a = "xy2" then some "9 9" else none) ∧
      has fl = true := by
  have hrun : resolve onlySquare ringed =
      .ok (.ofAttrs "circle" [("xy2", "9 9"), ("cx", "5"), ("cy", "3"), ("r", "5.657")]) :=
    eq_ok_of_toOption (by decide +kernel)
  obtain ⟨hleft, hhas⟩ := resolve_leaves rfl hrun
  refine ⟨_, hrun, fun a ha => ?_, hhas.trans (by decide +kernel)⟩
  rw [hleft a ha]
  revert a
  decide +kernel

/-- A margin stays on a rectangle that has nothing to keep from. -/
theorem exists_margin_left :
    ∃ el fl : Element, el.shape? = some .box ∧ resolve onlySquare el = .ok fl ∧ fl.get? "margin" = some "5" ∧
      has fl = true :=
  ⟨.ofAttrs "rect" [("margin", "5"), ("wh", "10")],
    .ofAttrs "rect" [("margin", "5"), ("width", "10"), ("height", "10")], rfl,
    eq_ok_of_toOption (by decide +kernel), by decide +kernel, by decide +kernel⟩

end Position

end DiagramMarkup
