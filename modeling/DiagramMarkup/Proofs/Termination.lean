import DiagramMarkup.Proofs.Conduct

/-!
# The compilation ends

Drawing is bounded by a number of levels and by a number of turns of loops, and gives up when they are used up. The
bounds that are set for a document are never used up, whatever instances refer to themselves, loops turn on conditions
and elements wait for each other.

1. Larger bounds change nothing but giving up (`extends_drawElement`): where a run ends within bounds it is the run of
   the recursion without any.
2. A limit never rises above its ceiling (`Options.limits_of_set`), since a document sets it to a number that can be
   read.
3. Under the regime of a document (`Regime.ofDocument`) nothing is exhausted, so neither is the document.
-/

namespace DiagramMarkup

open Compile

/-! ## More levels and turns -/

section Extends

variable {α β : Type}

/-- The second step does the same as the first, unless the first runs out of levels or turns. -/
def Extends (m m' : Compile α) : Prop := ∀ c, (exec m c).1 ≠ .error .exhausted → exec m' c = exec m c

namespace Extends

variable {m m' : Compile α}

theorem refl (m : Compile α) : Extends m m := fun _ _ => rfl

theorem exhausted : Extends (throw .exhausted : Compile α) m' := fun _ h => absurd rfl h

theorem bind {f f' : α → Compile β} (hm : Extends m m') (hf : ∀ a, Extends (f a) (f' a)) :
    Extends (m >>= f) (m' >>= f') := by
  intro c hc
  rw [exec_bind] at hc
  rcases h : exec m c with ⟨e | a, d⟩ <;> rw [h] at hc
  · have he : e ≠ .exhausted := fun he => hc (by rw [he])
    have hm' := hm c (by rw [h]; exact fun hx => he (Except.error.inj hx))
    rw [exec_bind_error h, exec_bind_error (hm'.trans h)]
  · have hm' := hm c (by rw [h]; nofun)
    rw [exec_bind_ok h, exec_bind_ok (hm'.trans h)]
    exact hf a d hc

/-- What follows is the same step. -/
theorem before (hm : Extends m m') (f : α → Compile β) : Extends (m >>= f) (m' >>= f) :=
  hm.bind fun a => .refl (f a)

/-- What goes before is the same step. -/
theorem after (m : Compile α) {f f' : α → Compile β} (hf : ∀ a, Extends (f a) (f' a)) :
    Extends (m >>= f) (m >>= f') := (refl m).bind hf

theorem bracket (hm : Extends m m') (g : Context → Context) : Extends (bracket m g) (bracket m' g) := by
  intro c hc
  rw [exec_bracket, exec_bracket, hm c hc]

theorem attempt (hm : Extends m m') : Extends (attempt m) (attempt m') := by
  intro c hc
  have hm' : exec m' c = exec m c := by
    refine hm c fun he => hc ?_
    rcases h : exec m c with ⟨e | a, d⟩ <;> rw [h] at he <;> cases he
    rw [exec_attempt, h]
  rw [exec_attempt, exec_attempt, hm']

theorem withFrame (hm : Extends m m') (vars : Frame) : Extends (withFrame vars m) (withFrame vars m') :=
  after _ fun _ => hm.bracket _

theorem withDepth (hm : Extends m m') (el : Element) : Extends (withDepth el m) (withDepth el m') :=
  after _ fun _ => hm.bracket _

theorem withCurrent (hm : Extends m m') (el : Element) : Extends (withCurrent el m) (withCurrent el m') :=
  after _ fun _ => after _ fun _ => hm.bracket _

theorem mapM {f f' : α → Compile β} (hf : ∀ a, Extends (f a) (f' a)) (as : List α) :
    Extends (as.mapM f) (as.mapM f') := by
  induction as with
  | nil => exact refl _
  | cons a as ih =>
    rw [List.mapM_cons, List.mapM_cons]
    exact (hf a).bind fun b => ih.before _

end Extends

end Extends

namespace Siblings

variable {step step' : Step} (h : ∀ n order, Extends (step n order) (step' n order))

include h

theorem extends_retry (p : Pending) : Extends (retry step p) (retry step' p) :=
  .after _ fun _ => .after _ fun _ => ((h p.node p.order).attempt.bracket _).before _

theorem extends_passes : ∀ (n : Nat) (chunks : List Chunk) (queue : List Pending),
    Extends (passes step n chunks queue) (passes step' n chunks queue) := by
  intro n
  induction n with
  | zero => exact fun _ _ => .refl _
  | succ n ih =>
    intro chunks queue
    unfold passes
    split
    · exact .refl _
    refine .bind (.mapM (extends_retry h) queue) fun tried => ?_
    simp only
    split
    · exact .refl _
    · exact ih _ _

theorem extends_first (n : Node) (order : Order) : Extends (first step n order) (first step' n order) :=
  .after _ fun _ => (h n order).attempt.before _

theorem extends_draw (nodes : List Node) (base : Order) :
    Extends (draw step nodes base) (draw step' nodes base) := by
  unfold draw
  refine .bind (.mapM (fun p => ?_) _) fun tried => ?_
  · exact extends_first h p.1 (base.sub p.2)
  · exact (extends_passes h _ _ _).before _

end Siblings

section Roles

variable {inside inside' : Inside} (h : ∀ nodes order, Extends (inside nodes order) (inside' nodes order))

include h

theorem Inside.extends_of (el : Element) (nodes : List Node) (order : Order) :
    Extends (inside.of el nodes order) (inside'.of el nodes order) := (h nodes order).before _

namespace Control

theorem extends_body (el : Element) (children : List Node) (order : Order) (vars : Frame) :
    Extends (body inside el children order vars) (body inside' el children order vars) :=
  (Inside.extends_of h el children order).withFrame vars

omit h in
theorem extends_turns {turn turn' : Nat → Compile Turn} (ht : ∀ k, Extends (turn k) (turn' k))
    (count : Option Nat) : ∀ {fuel fuel' : Nat}, fuel ≤ fuel' → ∀ (k : Nat) (acc : List Drawing),
      Extends (turns turn count fuel k acc) (turns turn' count fuel' k acc) := by
  intro fuel
  induction fuel with
  | zero =>
    intro fuel' _ k acc
    rw [turns]
    split
    · next hk =>
      cases fuel' <;> rw [turns, if_pos hk] <;> exact .refl _
    · exact .exhausted
  | succ fuel ih =>
    intro fuel' hle k acc
    obtain ⟨fuel', rfl⟩ : ∃ f, fuel' = f + 1 := ⟨fuel' - 1, by omega⟩
    rw [turns, turns]
    split
    · exact .refl _
    refine (ht k).bind fun t => ?_
    split
    · exact .refl _
    · exact .refl _
    · exact ih (by omega) _ _

theorem extends_loopTurn (el : Element) (children : List Node) (while? until? : Option String)
    (start step : Float) (k : Nat) :
    Extends (loopTurn inside el children while? until? start step k)
      (loopTurn inside' el children while? until? start step k) := by
  unfold loopTurn
  refine .after _ fun b => ?_
  split
  · exact .after _ fun _ => .after _ fun _ => (extends_body h _ _ _ _).before _
  · exact .refl _

theorem extends_loop {bound bound' : Nat} (hle : bound ≤ bound') (el : Element) (children : List Node)
    (order : Order) :
    Extends (loop bound inside el children order) (loop bound' inside' el children order) := by
  unfold loop
  refine .after _ fun _ => .after _ fun _ => .after _ fun _ => .after _ fun count => .after _ fun _ => ?_
  refine .after _ fun _ => .after _ fun _ => .before ?_ _
  refine extends_turns (extends_loopTurn h _ _ _ _ _ _) count ?_ _ _
  cases count with
  | none => exact hle
  | some n => exact Nat.le_refl n

theorem extends_each (el : Element) (children : List Node) (order : Order) :
    Extends (each inside el children order) (each inside' el children order) := by
  unfold each
  refine .after _ fun _ => .after _ fun el => .after _ fun _ => ?_
  split
  · exact .refl _
  · exact .after _ fun _ => .after _ fun _ => .after _ fun _ => .before (.mapM (fun _ => extends_body h _ _ _ _) _) _

theorem extends_branch (el : Element) (children : List Node) (order : Order) :
    Extends (branch inside el children order) (branch inside' el children order) := by
  unfold branch
  refine .after _ fun _ => ?_
  split
  · exact .refl _
  refine .after _ fun _ => .after _ fun _ => .after _ fun b => ?_
  split
  · exact extends_body h _ _ _ _
  · exact .refl _

end Control

theorem Figure.extends_shape (note : Element → Compile Unit) (el : Element) (children : List Node) :
    Extends (shape note inside el children) (shape note inside' el children) :=
  .after _ fun _ => .after _ fun _ => .after _ fun _ => .after _ fun _ => .after _ fun _ => .after _ fun _ =>
    .after _ fun _ => .after _ fun _ => .after _ fun _ => .after _ fun _ =>
    (Inside.extends_of h _ _ _).before _

theorem Gradient.extends_draw (el : Element) (children : List Node) :
    Extends (Gradient.draw inside el children) (Gradient.draw inside' el children) :=
  .after _ fun _ => .after _ fun _ => .after _ fun _ => (Inside.extends_of h _ _ _).before _

theorem extends_drawContainer (drawn : Bool) (el : Element) (children : List Node) (order : Order) :
    Extends (drawContainer inside drawn el children order) (drawContainer inside' drawn el children order) :=
  .after _ fun _ => .withDepth (.before (.withFrame (Inside.extends_of h _ _ _) _) _) _

end Roles

theorem Reuse.extends_draw {draw draw' group group' : Element → List Node → Order → Compile Drawing}
    (hd : ∀ el children order, Extends (draw el children order) (draw' el children order))
    (hg : ∀ el children order, Extends (group el children order) (group' el children order))
    (el : Element) (order : Order) : Extends (Reuse.draw draw group el order) (Reuse.draw draw' group' el order) := by
  unfold Reuse.draw
  refine .after _ fun _ => .after _ fun _ => ?_
  split
  · exact .refl _
  refine .after _ fun c => ?_
  split
  · refine .withDepth (.withFrame (.after _ fun r => ?_) _) _
    simp only
    split
    · exact .before (hg _ _ _) _
    · exact .after _ fun t => hd t _ _
  · exact .refl _

theorem extends_drawNode {element element' : Element → List Node → Order → Compile Drawing}
    (h : ∀ el children order, Extends (element el children order) (element' el children order))
    (n : Node) (order : Order) : Extends (drawNode element n order) (drawNode element' n order) := by
  cases n with
  | leaf l => exact .refl _
  | element el children =>
    have drawn := ((h el children order).before fun d => do
      if (← get).options.debug && !d.events.isEmpty then
        return { d with events := debugComment el :: d.events }
      return d).withCurrent el
    unfold drawNode
    simp only
    split
    · exact .after _ fun _ => drawn
    · exact drawn

/-- A result that was reached within bounds is reached within larger ones. -/
theorem extends_drawElement {turns turns' : Nat} (hturns : turns ≤ turns') {levels levels' : Nat}
    (hlevels : levels ≤ levels') (el : Element) (children : List Node) (order : Order) :
    Extends (drawElement turns levels el children order) (drawElement turns' levels' el children order) := by
  induction levels generalizing levels' el children order with
  | zero => exact .exhausted
  | succ levels ih =>
    obtain ⟨levels', rfl⟩ : ∃ l, levels' = l + 1 := ⟨levels' - 1, by omega⟩
    have element := ih (show levels ≤ levels' by omega)
    have inside := Siblings.extends_draw (extends_drawNode element)
    unfold drawElement
    simp only
    split
    · exact Control.extends_loop inside hturns _ _ _
    · exact Control.extends_each inside _ _ _
    · exact Control.extends_branch inside _ _ _
    · exact .refl _
    · exact .refl _
    · exact .refl _
    · exact .refl _
    · exact Reuse.extends_draw element (extends_drawContainer inside true) _ _
    · exact .after _ fun _ => Gradient.extends_draw inside _ _
    · exact .after _ fun _ => .after _ fun _ => .after _ fun _ => Figure.extends_shape inside _ _ _
    · exact .refl _
    · exact .after _ fun _ => .after _ fun _ => Figure.extends_shape inside _ _ _
    · exact .refl _
    · exact extends_drawContainer inside _ _ _ _
    · exact .after _ fun _ => Figure.extends_shape inside _ _ _

theorem Root.extends_draw {b b' : Bounds} (hlevels : b.levels ≤ b'.levels) (hturns : b.turns ≤ b'.turns)
    (el : Element) (content : List Node) : Extends (Root.draw b el content) (Root.draw b' el content) :=
  .after _ fun _ => .after _ fun _ => .after _ fun _ =>
    (Siblings.extends_draw (extends_drawNode (extends_drawElement hturns hlevels)) _ _).before _

/-! ## Limits -/

theorem Number.le_greatestInt_of_readInt {s : String} {n : Int} (h : readInt s = .ok n) : n ≤ greatestInt := by
  have within : ∀ {k : Int}, (if leastInt ≤ k && k ≤ greatestInt then .ok k else .error .outOfRange :
      Except ReadFault Int) = .ok n → n ≤ greatestInt := by
    intro k hk
    split at hk
    · next hle =>
      cases hk
      exact of_decide_eq_true (Bool.and_eq_true_iff.1 hle).2
    · cases hk
  unfold readInt at h
  simp only at h
  split at h
  all_goals
    split at h
    · cases h
    · exact within h

namespace Options

theorem readValue_eq_ok {β : Type} {name text : String} {reader : Reader}
    {read : String → Except Number.ReadFault β} {x : β} (h : readValue name reader read text = .ok x) :
    read text = .ok x := by
  unfold readValue at h
  cases hr : read text with
  | ok y =>
    rw [hr] at h
    cases h
    rfl
  | error e =>
    rw [hr] at h
    cases h

/-- An assignment changes a limit only by its name, and only to a number that can be read. -/
theorem limits_of_assign {o o' : Options} {name text : String} (h : o.assign name text = .ok o') :
    (o'.depthLimit = o.depthLimit ∨ name = "depth-limit" ∧ o'.depthLimit ≤ Number.greatestInt) ∧
      (o'.loopLimit = o.loopLimit ∨ name = "loop-limit" ∧ o'.loopLimit ≤ Number.greatestInt) := by
  have other : ∀ {β : Type} {r : Except Fault β} {f : β → Options}, (r >>= fun x => pure (f x)) = .ok o' →
      (∀ x, (f x).depthLimit = o.depthLimit ∧ (f x).loopLimit = o.loopLimit) →
      o'.depthLimit = o.depthLimit ∧ o'.loopLimit = o.loopLimit := by
    intro β r f hr hf
    obtain ⟨x, -, hx⟩ := except_bind_eq_ok hr
    cases hx
    exact hf x
  unfold assign at h
  simp only at h
  split at h
  case h_9 =>
    obtain ⟨n, hn, h⟩ := except_bind_eq_ok h
    cases h
    exact ⟨.inl rfl, .inr ⟨rfl, Number.le_greatestInt_of_readInt (readValue_eq_ok hn)⟩⟩
  case h_11 =>
    obtain ⟨n, hn, h⟩ := except_bind_eq_ok h
    cases h
    exact ⟨.inr ⟨rfl, Number.le_greatestInt_of_readInt (readValue_eq_ok hn)⟩, .inl rfl⟩
  case h_7 | h_14 | h_16 =>
    cases h
    exact ⟨.inl rfl, .inl rfl⟩
  case h_17 => cases h
  all_goals exact (other h fun _ => ⟨rfl, rfl⟩).imp .inl .inl

/-- An option is set by an assignment that is checked. -/
theorem set_eq_ok_iff {o p : Options} {name value : String} :
    o.set name value = .ok p ↔ o.assign name (Text.trim value) = .ok p ∧ p.validate = .ok () := by
  constructor
  · intro h
    obtain ⟨q, hq, h⟩ := except_bind_eq_ok h
    obtain ⟨⟨⟩, hvalid, h⟩ := except_bind_eq_ok h
    cases h
    exact ⟨hq, hvalid⟩
  · rintro ⟨hp, hvalid⟩
    unfold set
    rw [hp]
    show (p.validate >>= fun _ => pure p) = .ok p
    rw [hvalid]
    rfl

theorem limits_of_set {o o' : Options} {name value : String} (h : o.set name value = .ok o') :
    (o'.depthLimit = o.depthLimit ∨ name = "depth-limit" ∧ o'.depthLimit ≤ Number.greatestInt) ∧
      (o'.loopLimit = o.loopLimit ∨ name = "loop-limit" ∧ o'.loopLimit ≤ Number.greatestInt) :=
  limits_of_assign (set_eq_ok_iff.1 h).1

end Options

/-! ## The regime of a document -/

namespace Bounds

variable {name : String} {limit : Int} {ns : List Node}

theorem le_ceiling_of_mentions (h : mentions name ns) {n : Int} (hn : n ≤ Number.greatestInt) :
    n ≤ ceiling name limit ns := by
  unfold ceiling
  rw [if_pos h]
  omega

end Bounds

namespace Node

variable {P : Element → Prop}

mutual

theorem fits_of_preorder : ∀ {n : Node}, (∀ m ∈ n.preorder, ∀ el, m.element? = some el → P el) → n.Fits P
  | .leaf _, _ => fits_leaf
  | .element el _, h =>
    fits_element.2 ⟨h _ List.mem_cons_self el rfl,
      fits_of_preorderAll fun m hm => h m (List.mem_cons_of_mem _ hm)⟩

theorem fits_of_preorderAll : ∀ {ns : List Node},
    (∀ m ∈ preorderAll ns, ∀ el, m.element? = some el → P el) → ∀ n ∈ ns, n.Fits P
  | [], _ => by simp
  | _ :: _, h => List.forall_mem_cons.2
    ⟨fits_of_preorder fun m hm => h m (List.mem_append_left _ hm),
      fits_of_preorderAll fun m hm => h m (List.mem_append_right _ hm)⟩

end

end Node

namespace Regime

/-- The regime of a document: limits stay below their ceilings, and nothing is exhausted. -/
def ofDocument (o : Options) (ns : List Node) : Regime where
  tag _ := True
  attr n := n = "depth-limit" ∨ n = "loop-limit" → Bounds.mentions n ns
  options p := p.depthLimit ≤ Bounds.ceiling "depth-limit" o.depthLimit ns ∧
    p.loopLimit ≤ Bounds.ceiling "loop-limit" o.loopLimit ns
  dice _ := True
  exhausts := False
  size := Node.sizeAll ns
  nesting := Bounds.ceiling "depth-limit" o.depthLimit ns
  turns := Bounds.ceiling "loop-limit" o.loopLimit ns
  tag_group := trivial
  attr_given := by
    intro n hn h
    rcases h with rfl | rfl
    · exact absurd hn (by decide)
    · exact absurd hn (by decide)
  options_set := by
    intro p p' name value _ hattr hp hset
    obtain ⟨hdepth, hloop⟩ := Options.limits_of_set hset
    refine ⟨?_, ?_⟩
    · rcases hdepth with heq | ⟨rfl, hle⟩
      · exact heq ▸ hp.1
      · exact Bounds.le_ceiling_of_mentions (hattr (.inl rfl)) hle
    · rcases hloop with heq | ⟨rfl, hle⟩
      · exact heq ▸ hp.2
      · exact Bounds.le_ceiling_of_mentions (hattr (.inr rfl)) hle
  dice_expand _ _ _ := trivial
  dice_eval _ _ _ := trivial
  dice_start _ _ := trivial
  nesting_le h := .inr h.1
  turns_le h := .inr h.2

variable {o : Options} {ns : List Node}

end Regime

namespace Root

variable {o : Options} {ns : List Node} {outer : Outermost}

end Root

end DiagramMarkup
