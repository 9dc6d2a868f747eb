import DiagramMarkup.Proofs.Shapes

/-!
# Shapes at other places

An element knows its place in the document, but what it draws does not depend on it: settling a shape at another place
gives the same geometry, with an element at that place (`settle_placed`).

1. An edit is blind if it does the same to an element at another place (`Blind`). Sequences of blind edits are blind.
2. All edits that settle a position are blind, and so are the other stages of settling a shape.
-/

namespace DiagramMarkup

open Element

/-- The element at another place. -/
def Element.placed (k : Order) (el : Element) : Element := { el with order := k }

/-! ## Blind edits -/

section Blind

variable {ε β γ : Type}

/-- The edit does the same to an element at another place. -/
def Blind (m : Edit ε β) : Prop :=
  ∀ k el, exec m (placed k el) = ((exec m el).1, placed k (exec m el).2)

namespace Blind

theorem pure (b : β) : Blind (pure b : Edit ε β) := fun _ _ => rfl

theorem throw (e : ε) : Blind (throw e : Edit ε β) := fun _ _ => rfl

theorem modify {f : Element → Element} (h : ∀ k el, f (placed k el) = placed k (f el)) :
    Blind (modify f : Edit ε Unit) := by
  intro k el
  rw [exec_modify, exec_modify, h]

theorem bind {m : Edit ε β} {f : β → Edit ε γ} (hm : Blind m) (hf : ∀ b, Blind (f b)) :
    Blind (m >>= f) := by
  intro k el
  rw [exec_bind, exec_bind, hm k el]
  rcases exec m el with ⟨_ | b, fl⟩
  · rfl
  · exact hf b k fl

/-- Reading the element, but not its place. -/
theorem read {f : Element → Edit ε β} (h : ∀ k el, f (placed k el) = f el) (hf : ∀ el, Blind (f el)) :
    Blind (get >>= f) := by
  intro k el
  rw [exec_bind_ok (exec_get _), exec_bind_ok (exec_get _), h k el]
  exact hf el k el

theorem mapM {f : β → Edit ε γ} (h : ∀ b, Blind (f b)) : ∀ bs : List β, Blind (bs.mapM f)
  | [] => pure []
  | b :: bs => by
    rw [List.mapM_cons]
    exact .bind (h b) fun c => .bind (mapM h bs) fun cs => .pure _

end Blind

end Blind

/-! ## Native geometry -/

section Geometry

variable {α : Type} [Scalar α]

theorem Element.setNumber_placed (k : Order) (el : Element) (n : String) (v : α) :
    (placed k el).setNumber n v = placed k (el.setNumber n v) := rfl

theorem Element.setBox_placed (k : Order) (el : Element) (b : Box α) :
    (placed k el).setBox b = placed k (el.setBox b) := by
  unfold setBox
  cases h : el.shape? with
  | none =>
    rw [show (placed k el).shape? = none from h]
  | some s =>
    rw [show (placed k el).shape? = some s from h]
    cases s <;> rfl

theorem Element.prependTransform_placed (k : Order) (el : Element) (t : String) :
    (placed k el).prependTransform t = placed k (el.prependTransform t) := by
  unfold prependTransform
  cases h : el.get? "transform" with
  | none =>
    rw [show (placed k el).get? "transform" = none from h]
    rfl
  | some s =>
    rw [show (placed k el).get? "transform" = some s from h]
    rfl

theorem blind_shiftNumber (n : String) (d : α) : Blind (shiftNumber n d) := by
  unfold shiftNumber
  refine .read (fun _ _ => rfl) fun el => ?_
  split
  · exact .throw _
  · exact .pure _
  · exact .modify fun _ _ => rfl

theorem blind_fillNumber (n : String) (v : α) : Blind (fillNumber n v) := by
  unfold fillNumber
  refine .read (fun _ _ => rfl) fun el => ?_
  split
  · exact .pure _
  · exact .modify fun _ _ => rfl

theorem blind_translate (dx dy : α) : Blind (translate dx dy) := by
  have round : Blind (do shiftNumber "cx" dx; shiftNumber "cy" dy) :=
    .bind (blind_shiftNumber _ _) fun _ => blind_shiftNumber _ _
  have box : Blind (do shiftNumber "x" dx; shiftNumber "y" dy; fillNumber "x" dx; fillNumber "y" dy) :=
    .bind (blind_shiftNumber _ _) fun _ => .bind (blind_shiftNumber _ _) fun _ =>
      .bind (blind_fillNumber _ _) fun _ => blind_fillNumber _ _
  unfold Element.translate
  split
  · exact .pure _
  refine .read (fun _ _ => rfl) fun el => ?_
  cases el.shape? with
  | none => exact .modify fun k fl => prependTransform_placed k fl _
  | some s =>
    cases s with
    | box => exact box
    | point => exact box
    | circle => exact round
    | ellipse => exact round
    | line =>
      exact .bind (blind_shiftNumber _ _) fun _ => .bind (blind_shiftNumber _ _) fun _ =>
        .bind (blind_shiftNumber _ _) fun _ => blind_shiftNumber _ _
    | points =>
      refine .read (fun _ _ => rfl) fun el => ?_
      split
      · exact .throw _
      · exact .modify fun _ _ => rfl
    | path => exact .modify fun k fl => prependTransform_placed k fl _

end Geometry

/-! ## Positions -/

namespace Position

section Edits

variable {β : Type}

theorem blind_take (name : String) : Blind (take name) := fun _ _ => rfl

theorem blind_failOn (attr : String) (f : Fault) : Blind (failOn attr f : Edit Failure β) := fun _ _ => rfl

theorem blind_orFail (attr : String) (r : Except Fault β) : Blind (orFail attr r) := by
  cases r with
  | ok b => exact .pure b
  | error f => exact blind_failOn attr f

theorem blind_require (holds : Bool) (attr : String) (f : Fault) : Blind (require holds attr f) := by
  cases holds with
  | false => exact blind_failOn attr f
  | true => exact .pure ()

theorem blind_editing (attr : String) {e : Edit Fault Unit} (h : Blind e) : Blind (editing attr e) := by
  intro k el
  have hrun := h k el
  unfold exec at hrun
  unfold editing
  rw [exec_bind_ok (exec_get _), exec_bind_ok (exec_get _), hrun]
  rcases ExceptT.run e el with ⟨r, fl⟩
  exact blind_orFail attr r k fl

theorem blind_requireSized (shape : Shape) (attr : String) : Blind (requireSized shape attr) :=
  .read (fun _ _ => rfl) fun _ => blind_require _ _ _

end Edits

variable (refs : Referrer Float) (shape : Shape)

theorem blind_boxOf (t : String) : Blind (boxOf refs t) := by
  unfold boxOf
  split
  · exact .pure _
  · exact .throw _

/-! ### Sizes -/

theorem blind_boxesOf (attr v : String) : Blind (boxesOf refs attr v) :=
  .bind (blind_require _ _ _) fun _ =>
    .mapM (fun t => .bind (blind_require _ _ _) fun _ => blind_boxOf refs t) _

theorem blind_combined (inside : Bool) (v : String) (boxes : List (Box Float)) :
    Blind (combined inside v boxes) := by
  refine .read (fun _ _ => rfl) fun el => ?_
  split
  · exact .pure _
  · exact .throw _

theorem blind_margined (inside : Bool) (b : Box Float) : Blind (margined inside b) := by
  refine .bind (blind_take _) fun m => ?_
  cases m with
  | none => exact .pure _
  | some m => exact .bind (blind_orFail _ _) fun _ => .pure _

theorem blind_encloseBy (inside : Bool) (attr : String) : Blind (encloseBy refs shape inside attr) := by
  refine .bind (blind_take _) fun v => ?_
  cases v with
  | none => exact .pure _
  | some v =>
    refine .bind (blind_requireSized _ _) fun _ => .bind (blind_boxesOf refs _ _) fun boxes => ?_
    refine .bind (blind_combined _ _ _) fun b => .bind (blind_margined _ _) fun b => ?_
    exact .modify fun k el => setBox_placed k el _

theorem blind_adjusted (v : String) (size : Point Float) (ds : List String) :
    Blind (adjusted v size ds) := by
  unfold adjusted
  split
  · exact .pure _
  · exact .bind (blind_orFail _ _) fun _ => .pure _
  · exact .bind (blind_orFail _ _) fun _ => .bind (blind_orFail _ _) fun _ => .pure _
  · exact blind_failOn _ _

theorem blind_parseSize (v : String) : Blind (parseSize refs v) := by
  unfold parseSize
  split
  · exact blind_orFail _ _
  · refine .bind (blind_orFail _ _) fun ref => .bind (blind_require _ _ _) fun _ => ?_
    exact .bind (blind_boxOf refs _) fun b => blind_adjusted _ _ _

theorem setSize_placed (w h : Float) (k : Order) (el : Element) :
    setSize shape w h (placed k el) = placed k (setSize shape w h el) := by
  have two : ∀ (m n : String) (v u : Float), ((placed k el).setNumber m v).setNumber n u =
      placed k ((el.setNumber m v).setNumber n u) := by
    intro m n v u
    rw [setNumber_placed, setNumber_placed]
  cases shape with
  | box => exact two _ _ _ _
  | circle => rfl
  | ellipse => exact two _ _ _ _
  | _ => rfl

theorem blind_sizeByPair : Blind (sizeByPair refs shape) := by
  refine .bind (blind_take _) fun v => ?_
  cases v with
  | none => exact .pure _
  | some v =>
    refine .bind (blind_requireSized _ _) fun _ => .bind (blind_parseSize refs v) fun size => ?_
    exact .modify fun k el => setSize_placed shape _ _ k el

theorem blind_grown (attr : String) (d : Option String) (size : Float) : Blind (grown attr d size) := by
  cases d with
  | none => exact .pure _
  | some d => exact .bind (blind_orFail _ _) fun _ => .pure _

theorem blind_sizeByDelta : Blind (sizeByDelta Float shape) := by
  refine .bind (blind_take _) fun dw => .bind (blind_take _) fun dh => ?_
  split
  · exact .pure _
  refine .bind (blind_requireSized _ _) fun _ => .read (fun _ _ => rfl) fun el => ?_
  refine .bind (blind_orFail _ _) fun size => .bind (blind_grown _ _ _) fun w => ?_
  exact .bind (blind_grown _ _ _) fun h => .modify fun k el => setSize_placed shape _ _ k el

theorem blind_sizes : Blind (sizes refs shape) :=
  .bind (blind_encloseBy refs shape _ _) fun _ => .bind (blind_encloseBy refs shape _ _) fun _ =>
    .bind (blind_sizeByPair refs shape) fun _ => blind_sizeByDelta shape

/-! ### Places -/

theorem blind_pointOf (attr : String) (ref : Ref Float) (implied : Loc) :
    Blind (pointOf refs attr ref implied) := by
  unfold pointOf
  split
  · exact blind_orFail _ _
  · exact .bind (blind_boxOf refs _) fun _ => .bind (blind_orFail _ _) fun _ => .pure _

theorem blind_goal (attr v : String) (loc : Loc) : Blind (goal refs attr v loc) := by
  refine .bind (blind_orFail _ _) fun ref => ?_
  split
  · refine .bind (blind_boxOf refs _) fun b => .bind (blind_orFail _ _) fun d => ?_
    split <;> exact .pure _
  · exact .bind (blind_pointOf refs _ _ _) fun _ => .pure _

theorem setExtent_placed (e : Extent Float) (k : Order) (el : Element) :
    setExtent shape e (placed k el) = placed k (setExtent shape e el) := by
  have known : ∀ (n : String) (v : Option Float) (fl : Element),
      setIfKnown n v (placed k fl) = placed k (setIfKnown n v fl) := by
    intro n v fl
    cases v <;> rfl
  unfold setExtent
  split
  · exact setBox_placed k el _
  split
  · rw [known, known]
  · rw [known, known]

theorem blind_placeDrawn (attr : String) (l : Loc) (p : Point Float) : Blind (placeDrawn attr l p) := by
  refine .read (fun _ _ => rfl) fun el => .bind (blind_orFail _ _) fun box => ?_
  cases box with
  | none => exact .read (fun _ _ => rfl) fun _ => blind_failOn _ _
  | some b => exact blind_editing _ (blind_translate _ _)

theorem blind_place (attr : String) (l : Loc) (p : Point Float) : Blind (place shape attr l p) := by
  have sized : Blind (placeSized shape attr l p) :=
    .read (fun _ _ => rfl) fun el => .bind (blind_orFail _ _) fun size =>
      .modify fun k el => setExtent_placed shape _ k el
  cases shape with
  | point => exact .modify fun _ _ => rfl
  | line => exact blind_placeDrawn _ _ _
  | points => exact blind_placeDrawn _ _ _
  | path => exact blind_placeDrawn _ _ _
  | box => exact sized
  | circle => exact sized
  | ellipse => exact sized

theorem blind_placeEnd (attr nx ny : String) : Blind (placeEnd refs attr nx ny) := by
  refine .bind (blind_take _) fun v => ?_
  cases v with
  | none => exact .pure _
  | some v =>
    refine .bind (blind_orFail _ _) fun ref => .bind (blind_pointOf refs _ _ _) fun p => ?_
    exact .modify fun _ _ => rfl

theorem blind_placeEnds : Blind (placeEnds refs shape) := by
  unfold placeEnds
  split
  · exact .bind (blind_placeEnd refs _ _ _) fun _ => blind_placeEnd refs _ _ _
  · exact .pure _

theorem blind_shiftOf (attr : String) : Blind (shiftOf Float attr) := by
  refine .bind (blind_take _) fun v => ?_
  cases v with
  | none => exact .pure _
  | some v =>
    refine .bind (blind_orFail _ _) fun xs => ?_
    split
    · exact .pure _
    · exact blind_failOn _ _

theorem blind_ownLoc : Blind ownLoc := by
  refine .bind (blind_take _) fun v => ?_
  cases v with
  | none => exact .pure _
  | some v => exact blind_orFail _ _

theorem blind_placeByEither (loc : Loc) (cxy xy : Option String) :
    Blind (placeByEither refs shape loc cxy xy) := by
  have place : ∀ attr v loc, Blind (placeBy refs shape attr v loc) := fun attr v loc =>
    .bind (blind_goal refs attr v loc) fun g => blind_place shape attr g.1 g.2
  unfold placeByEither
  split
  · exact .pure _
  · exact blind_failOn _ _
  · exact place _ _ _
  · exact place _ _ _

theorem blind_locate : Blind (locate refs shape) := by
  refine .bind (blind_placeEnds refs shape) fun _ => .bind blind_ownLoc fun loc => ?_
  refine .bind (blind_take _) fun cxy => .bind (blind_take _) fun xy => ?_
  refine .bind (blind_placeByEither refs shape loc cxy xy) fun _ => .bind (blind_shiftOf _) fun dx => ?_
  exact .bind (blind_shiftOf _) fun dy => blind_editing _ (blind_translate _ _)

theorem resolve_placed (k : Order) (el : Element) :
    resolve refs (placed k el) = placed k <$> resolve refs el := by
  cases hshape : el.shape? with
  | none =>
    unfold resolve
    rw [show (placed k el).shape? = none from hshape, hshape]
    rfl
  | some shape =>
    cases hhas : has el with
    | false =>
      unfold resolve
      rw [show (placed k el).shape? = some shape from hshape, hshape, hhas,
        show has (placed k el) = false from hhas]
      rfl
    | true =>
      have hblind : Blind (do sizes refs shape; locate refs shape) :=
        .bind (blind_sizes refs shape) fun _ => blind_locate refs shape
      have hplaced : (placed k el).shape? = some shape := hshape
      rw [resolve_eq_outcome refs hshape hhas, resolve_eq_outcome refs hplaced hhas]
      unfold outcome
      rw [hblind k el]
      rcases exec (do sizes refs shape; locate refs shape : Edit Failure Unit) el with ⟨_ | _, fl⟩ <;> rfl

end Position

/-! ## Other stages -/

section Stages

variable (k : Order) (el : Element)

@[simp] theorem Element.placed_name : (placed k el).name = el.name := rfl

@[simp] theorem Element.placed_classes : (placed k el).classes = el.classes := rfl

@[simp] theorem Element.get?_placed (n : String) : (placed k el).get? n = el.get? n := rfl

@[simp] theorem Element.erase_placed (n : String) : (placed k el).erase n = placed k (el.erase n) := rfl

@[simp] theorem Element.eraseAll_placed (ns : List String) :
    (placed k el).eraseAll ns = placed k (el.eraseAll ns) := rfl

@[simp] theorem Compile.checked_placed {β : Type} (attr : String) (r : Except Fault β) :
    checked (placed k el) attr r = checked el attr r := rfl

@[simp] theorem Compile.numberIn_placed (attr s : String) :
    numberIn (placed k el) attr s = numberIn el attr s := rfl

theorem Compile.rotated_placed (box : Option (Box Float)) :
    rotated (placed k el) box = placed k <$> rotated el box := by
  unfold rotated
  simp only [get?_placed, erase_placed, numberIn_placed]
  cases el.get? "rotate" with
  | none => rfl
  | some v =>
    simp only [map_bind, map_pure]
    refine bind_congr fun a => congrArg pure ?_
    split
    · rfl
    · exact prependTransform_placed k (el.erase "rotate") _

namespace Connector

theorem endpoint_placed (refs : Position.Referrer Float) (attr v : String) :
    Position.Endpoint.resolve refs (some (placed k el)) attr v =
      Position.Endpoint.resolve refs (some el) attr v := rfl

theorem cornerOffset_placed : cornerOffset (placed k el) = cornerOffset el := rfl

theorem joined_placed (s e : Position.Endpoint Float) (offset : Option (Length Float)) :
    joined (placed k el) s e offset = placed k (joined el s e offset) := by
  unfold joined
  rw [placed_name]
  split <;> rfl

theorem connect_placed (refs : Position.Referrer Float) :
    connect refs (placed k el) = placed k <$> connect refs el := by
  unfold connect
  rw [show isConnector (placed k el) = isConnector el from rfl, get?_placed, get?_placed]
  split
  · rfl
  split
  · rfl
  · simp only [endpoint_placed, cornerOffset_placed, joined_placed, map_bind, map_pure]
  · rfl

end Connector

theorem Label.take_placed :
    take (placed k el) = (fun r => (r.1, placed k r.2)) <$> take el := by
  have loc : ∀ v, locOf (placed k (el.eraseAll Label.attributes)) v =
      locOf (el.eraseAll Label.attributes) v := fun _ => rfl
  have offset : ∀ attr v, offset (placed k (el.eraseAll Label.attributes)) attr v =
      offset (el.eraseAll Label.attributes) attr v := fun _ _ => rfl
  unfold take
  simp only [placed_name, get?_placed, eraseAll_placed, erase_placed, loc, offset]
  split
  · rfl
  split
  · rfl
  · simp only [map_bind, map_pure]

namespace Figure

theorem expandPath_placed (o : Options) :
    expandPath o (placed k el) = placed k <$> expandPath o el := by
  unfold expandPath
  rw [placed_name, get?_placed]
  split
  · split <;> rfl
  · rfl

/-- The settled shape with its element at another place. -/
def Settled.placed (k : Order) (s : Settled) : Settled := { s with element := s.element.placed k }

theorem measured_placed (o : Options) (label : Option Label) (inner : List Event) :
    measured o (placed k el) label inner = Settled.placed k <$> measured o el label inner := by
  have text : labelContent (placed k el) label = labelContent el label := by cases label <;> rfl
  have size : ∀ lines, Label.box? o (placed k el) lines = Label.box? o el lines := fun _ => rfl
  have beside : ∀ (fl : Element) (b : Option (Box Float)),
      attached (placed k fl) label b = attached fl label b := by
    intro fl b
    cases label <;> cases b <;> rfl
  unfold measured
  rw [placed_name]
  split
  · simp only [text, size, Compile.checked_placed, map_bind, map_pure]
    rfl
  · simp only [Compile.checked_placed, Compile.rotated_placed, map_bind, map_pure, bind_map_left, beside]
    rfl

/-- A shape at another place is settled in the same way. -/
theorem settle_placed (o : Options) (refs : Position.Referrer Float) :
    settle o (fun _ => refs) (placed k el) = Settled.placed k <$> settle o (fun _ => refs) el := by
  unfold settle
  simp only [expandPath_placed, bind_map_left, map_bind, Connector.connect_placed,
    Position.resolve_placed, Label.take_placed, measured_placed]

end Figure

end Stages

end DiagramMarkup
