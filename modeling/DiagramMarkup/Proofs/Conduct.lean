import DiagramMarkup.Proofs.Regimes

/-!
# Every role keeps to its regime

1. Each role of elements keeps to a regime if the drawing of its content does. Containers, loops, branches and
   instances run their content in a frame of their own, and so leave the names of all frames as they were; a shape runs
   its content in the frame it stands in.
2. A loop turns at most as often as the options allow, and an instance nests at most as deep (`meets_turns`,
   `Regime.Room`). Between two steps of the nesting depth the drawing descends through one tree, so a number of levels
   suffices that grows with the depth left and with the size of the trees.
3. By induction over the levels, every element keeps to its regime (`meets_drawElement`).
-/

namespace DiagramMarkup

open Element Compile Regime

variable {R : Regime} {depth : Nat} {F : Scope → Prop} {s : Scope}
  {inside : Inside} {children : List Node}

/-! ## Control elements -/

namespace Control

theorem meets_body {order : Order} (hi : ∀ t, R.Meets depth (R.Within t) (inside children order) fun _ => True)
    (el : Element) (vars : Frame) :
    R.Meets depth (R.Around s) (body inside el children order vars) fun _ => True :=
  meets_withFrame vars fun t => Inside.meets_of (hi t) el

/-- Loops with a count have as much fuel as they need, and others run into the limit before theirs is used up. -/
theorem meets_turns {turn : Nat → Compile Turn} {count : Option Nat}
    (h : ∀ k, R.Meets depth F (turn k) fun t => ∀ d last, t = .drawn d last → R.exhausts ∨ k < R.turns) :
    ∀ (fuel k : Nat) (acc : List Drawing),
      (R.exhausts ∨ count = some (k + fuel) ∨ count = none ∧ k ≤ R.turns ∧ R.turns < k + fuel) →
      R.Meets depth F (turns turn count fuel k acc) fun _ => True := by
  intro fuel
  induction fuel with
  | zero =>
    intro k acc hfuel
    unfold turns
    split
    · exact .pure trivial
    · next hcount =>
      refine .throw fun _ => ?_
      rcases hfuel with hx | hsome | ⟨-, hle, hlt⟩
      · exact hx
      · exact absurd (beq_iff_eq.2 hsome) hcount
      · omega
  | succ fuel ih =>
    intro k acc hfuel
    unfold turns
    split
    · exact .pure trivial
    refine .bind (h k) fun t ht => ?_
    split
    · exact .pure trivial
    · exact .pure trivial
    · next d =>
      refine ih (k + 1) _ ?_
      rcases hfuel with hx | hsome | ⟨hnone, -, hlt⟩
      · exact .inl hx
      · exact .inr (.inl (hsome.trans (by congr 1; omega)))
      · exact (ht d false rfl).imp_right fun hk => .inr ⟨hnone, hk, by omega⟩

theorem meets_testHolds (el : Element) (attr : String) (default : Bool) (test : Option String) :
    R.Meets depth F (testHolds el attr default test) fun _ => True := by
  unfold testHolds
  split
  · exact .pure trivial
  · exact meets_condition _ _ _

theorem meets_loopNumber (el : Element) (attr : String) (default : Float) :
    R.Meets depth F (loopNumber el attr default) fun _ => True := by
  unfold loopNumber
  split
  · exact .pure trivial
  · exact meets_readNumber _ _ _

theorem meets_loopCount (el : Element) : R.Meets depth F (loopCount el) fun _ => True := by
  unfold loopCount
  split
  · exact .pure trivial
  refine .bind (meets_eval _ _ _) fun v _ => ?_
  split
  · exact meets_raise _ _ _ _
  split
  · exact meets_raise _ _ _ _
  · exact .bind .get fun c _ => .bind (.ofExcept (c.blames_checkLoop fails_error _ _)) fun _ _ =>
      .pure trivial

/-- A turn is taken only as long as the limit allows. -/
theorem meets_loopTurn (hi : ∀ order t, R.Meets depth (R.Within t) (inside children order) fun _ => True)
    (el : Element) (while? until? : Option String) (start step : Float) (k : Nat) :
    R.Meets depth (R.Around s) (loopTurn inside el children while? until? start step k)
      fun t => ∀ d last, t = .drawn d last → R.exhausts ∨ k < R.turns := by
  unfold loopTurn
  refine .bind (meets_testHolds _ _ _ _) fun b _ => ?_
  split
  · refine .bind .get fun c hc => .bind (.ofExcept (c.blames_checkLoop fails_error _ _)) fun _ hk => ?_
    refine .bind (meets_body (hi _) el _) fun d _ => .bind (meets_testHolds _ _ _ _) fun last _ => ?_
    refine .pure fun _ _ _ => (R.turns_le hc.options).imp_right fun hle => ?_
    unfold Context.checkLoop at hk
    split at hk
    · cases hk
    · omega
  · exact .pure fun _ _ h => nomatch h

theorem meets_loop (hi : ∀ order t, R.Meets depth (R.Within t) (inside children order) fun _ => True)
    {bound : Nat} (hbound : R.exhausts ∨ R.turns < bound) {el : Element} (hel : Named R.attr el) (order : Order) :
    R.Meets depth (R.Around s) (loop bound inside el children order) fun _ => True := by
  unfold loop
  refine .bind (meets_setCurrent _) fun _ _ => ?_
  refine .bind (meets_expandElement ((hel.eraseAll _).withOrder order)) fun el _ => ?_
  refine .bind (meets_setCurrent _) fun _ _ => .bind (meets_loopCount el) fun count _ => ?_
  refine .bind (R := fun _ => True) ?_ fun _ _ => ?_
  · unfold checkForm
    split
    · exact .pure trivial
    · exact meets_raise _ _ _ _
  refine .bind (meets_loopNumber _ _ _) fun start _ => .bind (meets_loopNumber _ _ _) fun step _ => ?_
  refine .bind (meets_turns (meets_loopTurn hi el _ _ _ _) _ _ _ ?_) fun _ _ => .pure trivial
  cases count with
  | none => exact hbound.imp_right fun hb => .inr ⟨rfl, Nat.zero_le _, by simpa using hb⟩
  | some n => exact .inr (.inl (by simp))

theorem meets_items (el : Element) (data : String) :
    R.Meets depth F (items el data) fun _ => True := by
  unfold items
  split
  · exact .pure trivial
  refine .bind .get fun c hc => ?_
  simp only
  refine .bind (.set (hc.eval data)) fun _ _ => ?_
  split
  · exact .pure trivial
  · split
    · exact .pure trivial
    · exact .pure trivial
    · exact .throw (fails_error _)

theorem meets_each (hi : ∀ order t, R.Meets depth (R.Within t) (inside children order) fun _ => True)
    {el : Element} (hel : Named R.attr el) (order : Order) :
    R.Meets depth (R.Around s) (each inside el children order) fun _ => True := by
  unfold each
  refine .bind (meets_setCurrent _) fun _ _ => ?_
  refine .bind (meets_expandElement (hel.withOrder order)) fun el _ => ?_
  refine .bind (meets_setCurrent _) fun _ _ => ?_
  split
  · exact meets_raise _ _ _ _
  refine .bind (meets_items _ _) fun xs _ => .bind .get fun c _ => ?_
  refine .bind (.ofExcept (c.blames_checkLoop fails_error _ _)) fun _ _ => ?_
  exact .bind (.mapM (Q := fun _ => True) fun p _ => meets_body (hi _) el _) fun _ _ => .pure trivial

theorem meets_branch (hi : ∀ order t, R.Meets depth (R.Within t) (inside children order) fun _ => True)
    {el : Element} (hel : Named R.attr el) (order : Order) :
    R.Meets depth (R.Around s) (branch inside el children order) fun _ => True := by
  unfold branch
  refine .bind (meets_setCurrent _) fun _ _ => ?_
  split
  · exact meets_raise _ _ _ _
  refine .bind (meets_expandElement ((hel.erase _).withOrder order)) fun el _ => ?_
  refine .bind (meets_setCurrent _) fun _ _ => .bind (meets_condition _ _ _) fun b _ => ?_
  split
  · exact meets_body (hi _) el _
  · exact .pure trivial

/-- An assignment can define names in the innermost frame only. -/
theorem meets_setVar (hv : R.tag "var") (name value : String) :
    R.Meets depth (R.Within s) (update (·.setVar name value)) fun _ => True := by
  refine .update (fun c _ => c.blames_setVar fails_error name value) fun c d hc hd => ?_
  rw [Context.setVar_eq_ok hd]
  have assigned : R.Scoped (R.Within s) (c.scope.setVar name value) :=
    ⟨hc.scope.shape.setVar hv name value, (c.scope.defaults_setVar name value).symm ▸ hc.scope.attrs⟩
  exact hc.withScope assigned c.prev

theorem meets_assign (hv : R.tag "var") (el : Element) (order : Order) :
    R.Meets depth (R.Within s) (assign el order) fun _ => True := by
  unfold assign
  refine .bind (meets_setCurrent _) fun _ _ => .bind (.forM fun p _ => ?_) fun _ _ => .pure trivial
  exact .bind (meets_expand _ _ _) fun v _ => meets_setVar hv p.1 v

theorem meets_config {el : Element} (hel : Named R.attr el)
    (hset : ∀ {o o' : Options} {name value : String}, R.attr name → R.options o → o.set name value = .ok o' →
      R.options o') (hdice : ∀ source, R.dice { source := source }) (order : Order) :
    R.Meets depth F (config el order) fun _ => True := by
  unfold config
  refine .bind (meets_prepare hel order) fun el hel => ?_
  refine .bind (.forM fun p hp => ?_) fun _ _ => .pure trivial
  refine .bind .get fun c hc => .bind (meets_orFail _ _ _) fun d hd => .set ?_
  unfold Context.setOption at hd
  obtain ⟨o, ho, hd⟩ := except_bind_eq_ok hd
  cases hd
  refine ⟨hc.depth, hset (hel.entries p hp) hc.options ho, ?_, hc.scope, hc.written, hc.templates⟩
  simp only
  split
  · exact hc.dice
  · exact hdice _

theorem meets_addDefault (hd : R.tag "defaults") {d : Element} (h : Named R.attr d) :
    R.Meets depth (R.Within s) (modify fun c => { c with scope := c.scope.addDefault d }) fun _ => True := by
  refine .modify fun c hc => ?_
  have added : R.Scoped (R.Within s) (c.scope.addDefault d) :=
    ⟨hc.scope.shape.addDefault hd d, List.forall_mem_append.2 ⟨hc.scope.attrs, by simpa using h⟩⟩
  exact hc.withScope added c.prev

theorem meets_defaults (hd : R.tag "defaults") (hc : ∀ n ∈ children, ∀ d, n.element? = some d → Named R.attr d)
    (order : Order) : R.Meets depth (R.Within s) (defaults children order) fun _ => True := by
  unfold defaults
  refine .bind (.forM fun p hp => ?_) fun _ _ => .pure trivial
  obtain ⟨n, i⟩ := p
  have hn := hc n (List.fst_mem_of_mem_zipIdx hp)
  cases n with
  | leaf l => exact .pure trivial
  | element d cs =>
    refine .bind (meets_setCurrent _) fun _ _ => ?_
    exact .bind (meets_expandElement ((hn d rfl).withOrder (order.sub i))) fun d hnamed => meets_addDefault hd hnamed

theorem meets_addTemplate {n : Node} (hn : R.tag "reuse" → R.Fits n) :
    R.Meets depth F (addTemplate n) fun _ => True := by
  unfold addTemplate
  split
  · exact .pure trivial
  split
  · exact meets_raise _ _ _ _
  · next el _ _ => exact .modify fun c h => (h.addTemplate el.id hn).markSeen _

theorem meets_templates (hc : R.tag "reuse" → ∀ n ∈ children, R.Fits n) :
    R.Meets depth F (templates children) fun _ => True := by
  unfold templates
  simp only
  split
  · exact meets_raise _ _ _ _
  exact .bind (.forM fun n hn => meets_addTemplate fun hr => hc hr n hn) fun _ _ => .pure trivial

end Control

/-! ## Shapes and figures -/

namespace Figure

theorem meets_shape {note : Element → Compile Unit} (hnote : ∀ el, R.Meets depth F (note el) fun _ => True)
    (hi : ∀ order, R.Meets depth F (inside children order) fun _ => True) (el : Element) :
    R.Meets depth F (shape note inside el children) fun _ => True := by
  unfold shape
  refine .bind .get fun c _ => .bind (.ofExcept (blames_expandPath fails_error _ _)) fun el _ => ?_
  refine .bind (hnote _) fun _ _ => .bind .get fun c _ => ?_
  refine .bind (.ofExcept (Connector.blames_connect fails_error
    (c.blames_boxOf fails_error fails_deferred) _)) fun el _ => ?_
  refine .bind (hnote _) fun _ _ => .bind .get fun c _ => ?_
  refine .bind (.ofExcept (Position.blames_resolve fails_error
    (c.blames_boxOf fails_error fails_deferred) _)) fun el _ => ?_
  refine .bind (.ofExcept (Label.blames_take fails_error _)) fun r _ => ?_
  obtain ⟨label, el⟩ := r
  refine .bind (hnote _) fun _ _ => .bind (Inside.meets_of (hi _) el) fun inner _ => .bind .get fun c _ => ?_
  refine .bind (.ofExcept (blames_measured fails_error _ _ _ _)) fun s _ => ?_
  refine .bind (.forM fun _ _ => meets_observe _) fun _ _ => ?_
  exact .bind (meets_register _ _) fun _ _ => .bind (meets_observe _) fun _ _ => .pure trivial

theorem meets_boxOf (el : Element) (w h : Float) : R.Meets depth F (boxOf el w h) fun _ => True := by
  unfold boxOf
  simp only
  refine .bind .get fun c _ => .bind (.ofExcept (Position.blames_resolve fails_error
    (c.blames_boxOf fails_error fails_deferred) _)) fun rect _ => .bind (meets_orFail _ _ _) fun b _ => ?_
  split
  · exact .pure trivial
  · exact meets_raise _ _ _ _

theorem meets_textBox (hi : ∀ order, R.Meets depth F (inside [] order) fun _ => True) (el : Element)
    (children : List Node) : R.Meets depth F (textBox inside el children) fun _ => True :=
  .bind .get fun _ _ => .bind (meets_setCurrent _) fun _ _ => meets_shape meets_setCurrent hi _

theorem meets_person (el : Element) : R.Meets depth F (person el) fun _ => True := by
  unfold person
  refine .bind (meets_boxOf _ _ _) fun b _ => .bind (.forM fun _ _ => meets_observe _) fun _ _ => ?_
  refine .bind (.ofExcept (blames_rotated fails_error _ _)) fun g _ => ?_
  exact .bind (meets_register _ _) fun _ _ => .bind (meets_observe _) fun _ _ => .pure trivial

theorem meets_pipeline (hi : ∀ order, R.Meets depth F (inside children order) fun _ => True)
    (el : Element) : R.Meets depth F (pipeline inside el children) fun _ => True :=
  .bind (meets_boxOf _ _ _) fun _ _ => meets_shape (fun _ => .pure trivial) hi _

end Figure

theorem Gradient.meets_draw (hi : ∀ order, R.Meets depth F (inside children order) fun _ => True)
    (el : Element) : R.Meets depth F (Gradient.draw inside el children) fun _ => True := by
  unfold Gradient.draw
  refine .bind (R := fun _ => True) ?_ fun el _ => ?_
  · unfold shaped
    refine .bind (R := fun _ => True) ?_ fun covered _ => ?_
    · unfold coverage
      split
      · exact .pure trivial
      · exact .map (meets_orFail _ _ _) fun _ _ => trivial
    split
    · refine .bind (R := fun _ => True) ?_ fun degrees _ => .pure trivial
      unfold degreesOf
      split
      · exact .pure trivial
      · exact meets_readNumber _ _ _
    split
    · exact .pure trivial
    · exact .pure trivial
  refine .bind (meets_setCurrent _) fun _ _ => .bind (.forM fun _ _ => meets_observe _) fun _ _ => ?_
  refine .bind (Inside.meets_of (hi _) el) fun inner _ => ?_
  exact .bind (meets_register _ _) fun _ _ => .bind (meets_observe _) fun _ _ => .pure trivial

/-! ## Instances -/

namespace Reuse

theorem meets_number (el : Element) (attr v : String) :
    R.Meets depth F (number el attr v) fun _ => True :=
  .bind (meets_expand _ _ _) fun _ _ => meets_readNumber _ _ _

theorem meets_mergeAttr (inst : Element) (used : List String) {s : Element × Placement}
    (hs : R.Admits s.1) {a : String × String} (ha : R.attr a.1) :
    R.Meets depth F (mergeAttr inst used s a) fun r => R.Admits r.1 := by
  obtain ⟨t, p⟩ := s
  unfold mergeAttr
  simp only
  split
  · exact .pure hs
  · exact .pure hs
  · exact .bind (meets_number _ _ _) fun _ _ => .pure hs
  · exact .pure (Admits.given (by decide) hs _)
  · exact .bind (meets_number _ _ _) fun _ _ => .pure hs
  · exact .bind (meets_number _ _ _) fun _ _ => .pure hs
  · refine .pure ?_
    split
    · exact hs
    · exact Admits.stable.set _ ha hs

theorem meets_merge {inst t : Element} (hinst : Named R.attr inst) (ht : R.Admits t) (used : List String) :
    R.Meets depth F (merge inst t used) fun r => R.Admits r.1 := by
  have own : ∀ p ∈ (if inst.id == "" then t.attrs.entries.filter (·.1 != "id")
      else ("id", inst.id) :: t.attrs.entries.filter (·.1 != "id")), R.attr p.1 := by
    have hf : ∀ p ∈ t.attrs.entries.filter (·.1 != "id"), R.attr p.1 :=
      fun p hp => ht.named.entries p (List.mem_filter.1 hp).1
    split
    · exact hf
    · exact List.forall_mem_cons.2 ⟨R.attr_given "id" (by decide), hf⟩
  unfold merge
  simp only
  refine .bind (R := fun _ => True) ?_ fun turn _ => ?_
  · unfold ownTurn
    split
    · exact .pure trivial
    · exact meets_number _ _ _
  refine .bind (R := fun r : Element × Placement => R.Admits r.1)
    (.foldlM (fun s hs a ha => ?_) ⟨ht.tag, fun n hn => ?_⟩) fun r hr => .pure (hr.addClasses _)
  · exact meets_mergeAttr inst used hs (hinst.entries a ha)
  · obtain ⟨p, hp, rfl⟩ := List.mem_map.1 (Attrs.mem_names_ofList (Attrs.mem_names_erase hn))
    exact own p hp

theorem admits_setGiven {t : Element} (h : R.Admits t) {attr : String} (ha : attr ∈ given)
    (v : Option Float) : R.Admits (setGiven t attr v) := by
  unfold setGiven
  split
  · exact h.setNumber ha _
  · exact h

theorem meets_shift {t : Element} (h : R.Admits t) {attr : String} (ha : attr ∈ given)
    (v : Option Float) : R.Meets depth F (shift t attr v) R.Admits := by
  unfold shift
  split
  · exact .pure h
  split
  · exact .pure (h.setNumber ha _)
  · exact .bind (meets_readNumber _ _ _) fun _ _ => .pure (h.setNumber ha _)

theorem meets_applyShape (p : Placement) {t : Element} (h : R.Admits t) :
    R.Meets depth F (p.applyShape t) R.Admits := by
  have hp : R.Admits (if p.transform == "" then t else t.prependTransform p.transform) := by
    split
    · exact h
    · exact h.prependTransform _
  unfold Placement.applyShape
  generalize (if p.transform == "" then t else t.prependTransform p.transform) = u at hp
  have hr : R.Admits (if p.rotate == 0 then u else u.setNumber "rotate" p.rotate) := by
    split
    · exact hp
    · exact hp.setNumber (by decide) _
  simp only
  generalize (if p.rotate == 0 then u else u.setNumber "rotate" p.rotate) = w at hr
  split
  · exact .pure (admits_setGiven (admits_setGiven hr (by decide) _) (by decide) _)
  split
  · exact .pure (admits_setGiven (admits_setGiven hr (by decide) _) (by decide) _)
  · exact .bind (meets_shift hr (by decide) _) fun t ht => meets_shift ht (by decide) _

theorem meets_applyGroup (p : Placement) (d : Drawing) :
    R.Meets depth F (p.applyGroup d) fun _ => True := by
  unfold Placement.applyGroup
  simp only
  split
  · exact .pure trivial
  next e rest _ =>
  generalize e.mapElement _ = first
  generalize d.box.map _ = box
  split
  · refine .bind (R := fun _ => True) ?_ fun _ _ => .pure trivial
    cases first.element? with
    | none => exact .pure trivial
    | some el => exact meets_register _ _
  · exact .pure trivial

/-- An instance keeps to a regime if its template does, one level deeper. -/
theorem meets_draw {draw group : Element → List Node → Order → Compile Drawing} {order : Order}
    (hd : R.exhausts ∨ depth + 1 ≤ R.nesting → ∀ t children, R.Fits (.element t children) →
      ∀ s, R.Meets (depth + 1) (R.Within s) (draw t children order) fun _ => True)
    (hg : R.exhausts ∨ depth + 1 ≤ R.nesting → ∀ t children, R.Fits (.element t children) →
      ∀ s, R.Meets (depth + 1) (R.Within s) (group t children order) fun _ => True)
    {el : Element} (h : Named R.attr el) (hr : R.tag "reuse") :
    R.Meets depth (R.Around s) (Reuse.draw draw group el order) fun _ => True := by
  unfold Reuse.draw
  refine .bind (meets_prepare h order) fun inst hinst => ?_
  have hinst := named_target hinst
  refine .bind (meets_setCurrent _) fun _ _ => ?_
  split
  · exact meets_raise _ _ _ _
  refine .bind .get fun c hc => ?_
  split
  · next t children heq =>
    rw [Node.map_copy] at heq
    have ht := hc.fits_template hr heq
    refine meets_withDepth _ fun room => meets_withFrame _ fun s => ?_
    have renamed : R.Admits (Reuse.draw.rename t) := by
      unfold Reuse.draw.rename
      split
      · exact ⟨R.tag_group, ht.element.named⟩
      · exact ht.element
    refine .bind (meets_merge hinst renamed _) fun r hr => ?_
    obtain ⟨t', p⟩ := r
    simp only
    split
    · exact .bind (hg room t' children (ht.withElement hr) s) fun d _ => meets_applyGroup p d
    · exact .bind (meets_applyShape p hr) fun t ht' => hd room t children (ht.withElement ht') s
  · exact .throw (fails_deferred _)

end Reuse

/-! ## All elements -/

theorem meets_drawContainer {order : Order}
    (hi : ∀ order t, R.Meets (depth + 1) (R.Within t) (inside children order) fun _ => True)
    (drawn : Bool) {el : Element} (h : Named R.attr el) :
    R.Meets depth (R.Around s) (drawContainer inside drawn el children order) fun _ => True := by
  unfold drawContainer
  refine .bind (meets_prepare h order) fun el h => meets_withDepth _ fun _ => ?_
  refine .bind (meets_withFrame _ fun t => Inside.meets_of (hi _ t) el) fun inner _ => ?_
  refine .bind (.ofExcept (blames_rotated fails_error _ _)) fun el _ => ?_
  exact .bind (meets_register _ _) fun _ _ => .bind (meets_observe _) fun _ _ => .pure trivial

theorem meets_drawLeaf (l : Leaf) : R.Meets depth F (drawLeaf l) fun _ => True := by
  unfold drawLeaf
  split
  · refine .bind .get fun c _ => .bind (.evaluating fails_error fun _ h => h.expand _) fun _ _ => ?_
    exact .pure trivial
  · exact .pure trivial

theorem meets_drawNode {element : Element → List Node → Order → Compile Drawing} {n : Node}
    (hn : R.tag "reuse" → ∀ el children, n = .element el children → isLiteralId el.id → R.Fits n) {order : Order}
    (h : ∀ el children, n = .element el children →
      R.Meets depth F (element el children order) fun _ => True) :
    R.Meets depth F (drawNode element n order) fun _ => True := by
  cases n with
  | leaf l => exact meets_drawLeaf l
  | element el children =>
    have drawn : R.Meets depth F (withCurrent el do
        let d ← element el children order
        if (← get).options.debug && !d.events.isEmpty then
          return { d with events := debugComment el :: d.events }
        return d) fun _ => True := by
      refine meets_withCurrent _ (.bind (h el children rfl) fun d _ => .bind .get fun c _ => ?_)
      split <;> exact .pure trivial
    unfold drawNode
    simp only
    split
    · next hid =>
      exact .bind (.modify fun c hc => hc.registerWritten _ fun hr => hn hr el children rfl hid) fun _ _ => drawn
    · exact drawn

namespace Regime

variable (R)

/-- So many levels suffice for a tree at a nesting depth. -/
def Room (depth levels : Nat) (n : Node) : Prop :=
  R.exhausts ∨ (R.nesting - depth) * (R.size + 1) + n.size ≤ levels

variable {R} {levels : Nat}

/-- There is room for the content of an element if there is room for the element. -/
theorem Room.child {el : Element} (h : R.Room depth (levels + 1) (.element el children)) {n : Node}
    (hn : n ∈ children) : R.Room depth levels n := by
  refine h.imp_right fun h => ?_
  have := Node.size_le_sizeAll hn
  rw [Node.size] at h
  omega

theorem Room.deeper {n : Node} (h : R.Room depth levels n) : R.Room (depth + 1) levels n := by
  refine h.imp_right fun h => Nat.le_trans (Nat.add_le_add_right ?_ _) h
  exact Nat.mul_le_mul_right _ (by omega)

/-- There is room for any tree of the document one level deeper. -/
theorem Room.instance {m : Node} (h : R.Room depth (levels + 1) m) (hm : 0 < m.size)
    (room : R.exhausts ∨ depth + 1 ≤ R.nesting) {n : Node} (hn : R.Fits n) :
    R.Room (depth + 1) levels n := by
  rcases h with hx | h
  · exact .inl hx
  rcases room with hx | room
  · exact .inl hx
  refine hn.small.imp_right fun hsize => ?_
  obtain ⟨k, hk⟩ : ∃ k, R.nesting - depth = k + 1 := ⟨R.nesting - depth - 1, by omega⟩
  have hk' : R.nesting - (depth + 1) = k := by omega
  rw [hk, Nat.succ_mul] at h
  rw [hk']
  omega

end Regime

namespace Role

/-- Does an element with this role run its content in a frame of its own? -/
def framed : Role → Bool
  | .loop | .each | .branch | .reuse | .container _ => true
  | _ => false

theorem name_of_assign {name : String} (h : ofName name = .assign) : name = "var" := by
  unfold ofName at h
  split at h <;> cases h
  rfl

theorem name_of_config {name : String} (h : ofName name = .config) : name = "config" := by
  unfold ofName at h
  split at h <;> cases h
  rfl

theorem name_of_defaults {name : String} (h : ofName name = .defaults) : name = "defaults" := by
  unfold ofName at h
  split at h <;> cases h
  rfl

theorem name_of_reuse {name : String} (h : ofName name = .reuse) : name = "reuse" := by
  unfold ofName at h
  split at h <;> cases h
  rfl

end Role

section Elements

variable {bound : Nat} (hbound : R.exhausts ∨ R.turns < bound)

/-- Every element with room keeps to its regime. -/
def Regime.Draws (R : Regime) (bound levels : Nat) : Prop :=
  ∀ ⦃depth : Nat⦄ ⦃s : Scope⦄ ⦃el : Element⦄ ⦃children : List Node⦄ (order : Order),
    R.Fits (.element el children) → R.Room depth levels (.element el children) →
    R.Meets depth (R.Within s) (drawElement bound levels el children order) fun _ => True

/-- The content of an element keeps to the regime if every element does. -/
theorem Regime.Draws.meets_inside {levels : Nat} (h : R.Draws bound levels)
    (hf : ∀ n ∈ children, R.Fits n) (hr : ∀ n ∈ children, R.Room depth levels n) (order : Order) :
    R.Meets depth (R.Within s) (Siblings.draw (drawNode (drawElement bound levels)) children order)
      fun _ => True := by
  refine Siblings.meets_draw (P := fun n => R.Fits n ∧ R.Room depth levels n) (fun n order hn => ?_)
    (fun n hn => ⟨hf n hn, hr n hn⟩) order
  refine meets_drawNode (fun _ _ _ _ _ => hn.1) fun el cs heq => ?_
  subst heq
  exact h order hn.1 hn.2

include hbound

/-- An element with a frame of its own leaves the names of all frames as they were. -/
theorem Regime.Draws.meets_framed {levels : Nat} (h : R.Draws bound levels) {el : Element} {order : Order}
    (hf : R.Fits (.element el children)) (hr : R.Room depth (levels + 1) (.element el children))
    (hrole : (Role.ofName el.name).framed) :
    R.Meets depth (R.Around s) (drawElement bound (levels + 1) el children order) fun _ => True := by
  have fits : ∀ n ∈ children, R.Fits n := fun n hn => hf.child hn
  have inside := fun order t => h.meets_inside (s := t) fits (fun n hn => hr.child hn) order
  unfold drawElement
  simp only
  cases hname : Role.ofName el.name with
  | loop => exact Control.meets_loop inside hbound hf.element.named order
  | each => exact Control.meets_each inside hf.element.named order
  | branch => exact Control.meets_branch inside hf.element.named order
  | container drawn =>
    exact meets_drawContainer (fun order t => h.meets_inside fits (fun n hn => (hr.child hn).deeper) order)
      drawn hf.element.named
  | reuse =>
    have room : R.exhausts ∨ depth + 1 ≤ R.nesting → ∀ {n}, R.Fits n → R.Room (depth + 1) levels n :=
      fun hx _ hn => hr.instance (by rw [Node.size]; omega) hx hn
    refine Reuse.meets_draw (fun hx t cs ht s => h order ht (room hx ht)) (fun hx t cs ht s => ?_) hf.element.named
      (Role.name_of_reuse hname ▸ hf.element.tag)
    refine .loosen fun _ => meets_drawContainer (fun order t => ?_) true ht.element.named
    exact h.meets_inside (fun n hn => ht.child hn) (fun n hn => (room hx (ht.child hn)).deeper) order
  | assign | config | defaults | templates | gradient | textBox | person | pipeline | verbatim | shape =>
    rw [hname] at hrole
    cases hrole

omit hbound in
theorem meets_drawVerbatim {el : Element} (hel : Named R.attr el) (order : Order) :
    R.Meets depth F (drawVerbatim el children order) fun _ => True :=
  .bind (meets_prepare hel order) fun _ _ => .bind (meets_observe _) fun _ _ => .pure trivial

/-- Every element keeps to its regime, whatever its role. -/
theorem meets_drawElement (levels : Nat) : R.Draws bound levels := by
  induction levels with
  | zero =>
    intro depth s el children order _ hr
    refine .throw fun _ => hr.resolve_right fun h => ?_
    rw [Node.size] at h
    omega
  | succ levels ih =>
    intro depth s el children order hf hr
    by_cases hrole : (Role.ofName el.name).framed
    · exact .loosen fun _ => ih.meets_framed hbound hf hr hrole
    have fits : ∀ n ∈ children, R.Fits n := fun n hn => hf.child hn
    have inside := fun order => ih.meets_inside (s := s) fits (fun n hn => hr.child hn) order
    have prepared : ∀ {f : Element → Compile Drawing},
        (∀ el, R.Meets depth (R.Within s) (f el) fun _ => True) →
        R.Meets depth (R.Within s) (prepare el order >>= f) fun _ => True :=
      fun hf' => .bind (meets_prepare hf.element.named order) fun el _ => hf' el
    unfold drawElement
    simp only
    cases hname : Role.ofName el.name with
    | assign => exact Control.meets_assign (Role.name_of_assign hname ▸ hf.element.tag) el order
    | config =>
      have tag := Role.name_of_config hname ▸ hf.element.tag
      exact Control.meets_config hf.element.named (R.options_set tag) (fun source => R.dice_start source tag) order
    | defaults =>
      exact Control.meets_defaults (Role.name_of_defaults hname ▸ hf.element.tag) (fun n hn => (fits n hn).named) order
    | templates => exact Control.meets_templates fun _ => fits
    | gradient => exact prepared fun el => Gradient.meets_draw inside el
    | textBox =>
      exact prepared fun el => Figure.meets_textBox (fun order => ih.meets_inside (by simp) (by simp) order) el _
    | person => exact prepared fun el => Figure.meets_person el
    | pipeline => exact prepared fun el => Figure.meets_pipeline inside el
    | verbatim => exact meets_drawVerbatim hf.element.named order
    | shape => exact prepared fun el => Figure.meets_shape meets_setCurrent inside el
    | loop | each | branch | reuse | container drawn =>
      rw [hname] at hrole
      exact absurd rfl hrole

end Elements

end DiagramMarkup
