import DiagramMarkup.Proofs.Evaluations

/-!
# Flat lists

The items of a list are never lists themselves. Lists that are put together are spliced (`Value.flat_ofItems`);
arithmetic puts its results together as they are, but each of them is a number (`Value.flat_mapItems`,
`Value.flat_zipItems`); and functions that give back an argument give back a flat one.

1. Every function of the library makes a flat value of flat arguments, and does nothing to the dice but draw
   (`Builtin.keepsFlat_find`).
2. So every expression comes to a flat value, as far as variables may lead (`ensures_eval`), and all that an evaluation
   hands to functions and operators on its way is flat (`Handed.flat`).
3. Reading a flat value goes no further than its items (`Value.number?_eq_shallow`, `Value.render_eq_shallow`,
   `Value.equal_eq_shallow`).
-/

namespace DiagramMarkup.Expr

namespace Value

/-! ## Flat values -/

/-- The items of the value are no lists. -/
def Flat (v : Value) : Prop := ∀ x ∈ v.items, x.isList = false

theorem items_of_isList {v : Value} (h : v.isList = false) : v.items = [v] := by
  cases v with
  | list xs => cases h
  | number | string | text => rfl

theorem flat_of_isList {v : Value} (h : v.isList = false) : v.Flat := by
  intro x hx
  rw [items_of_isList h] at hx
  exact List.mem_singleton.1 hx ▸ h

theorem flat_number (x : Float) : (number x).Flat := flat_of_isList rfl

theorem flat_string (s : String) : (string s).Flat := flat_of_isList rfl

theorem flat_text (s : String) : (text s).Flat := flat_of_isList rfl

theorem flat_ofBool (b : Bool) : (ofBool b).Flat := flat_number _

/-- Lists are spliced into a list, so its items are items of flat values. -/
theorem flat_ofItems {vs : List Value} (h : ∀ v ∈ vs, v.Flat) : (ofItems vs).Flat := by
  intro x hx
  obtain ⟨v, hv, hx⟩ := List.mem_flatMap.1 hx
  exact h v hv x hx

theorem flat_list_map {α : Type} {f : α → Value} (h : ∀ a, (f a).isList = false) (as : List α) :
    (list (as.map f)).Flat := by
  intro x hx
  obtain ⟨a, -, rfl⟩ := List.mem_map.1 hx
  exact h a

theorem flat_ofNumbers (xs : List Float) : (ofNumbers xs).Flat := flat_list_map (fun _ => rfl) xs

theorem flat_of_mem_items {v x : Value} (hv : v.Flat) (hx : x ∈ v.items) : x.Flat := flat_of_isList (hv x hx)

/-! ## Readers that go no further than the items -/

/-- The number in a value that is no list. -/
def itemNumber? : Value → Option Float
  | .number x => some x
  | .string s | .text s => Number.read? (Text.trim s)
  | .list _ => none

/-- The number in a value, looking at most at its items. -/
def shallowNumber? : Value → Option Float
  | .list [x] => x.itemNumber?
  | v => v.itemNumber?

/-- The text of a value that is no list. -/
def itemText : Value → String
  | .number x => Number.fixedText x
  | .string s | .text s => s
  | .list _ => ""

/-- The text of a value, looking at most at its items. -/
def shallowText : Value → String
  | .list xs => ", ".intercalate (xs.map itemText)
  | v => v.itemText

/-- Equality of values that are no lists. -/
def itemEqual (x y : Value) : Bool :=
  match x.itemNumber?, y.itemNumber? with
  | some a, some b => a == b
  | _, _ => x.itemText == y.itemText

/-- Equality of values, looking at most at their items. -/
def shallowEqual (v w : Value) : Bool :=
  match v.shallowNumber?, w.shallowNumber? with
  | some a, some b => a == b
  | _, _ => v.items.isEqv w.items itemEqual

theorem number?_eq_item {x : Value} (hx : x.isList = false) : x.number? = x.itemNumber? := by
  cases x with
  | list xs => cases hx
  | number | string | text => rfl

theorem number?_eq_shallow {v : Value} (hv : v.Flat) : v.number? = v.shallowNumber? := by
  cases v with
  | number | string | text => rfl
  | list xs =>
    match xs, hv with
    | [], _ | _ :: _ :: _, _ => rfl
    | [x], hv => exact number?_eq_item (hv x List.mem_cons_self)

theorem render_eq_item {x : Value} (hx : x.isList = false) : x.render = x.itemText := by
  cases x with
  | list xs => cases hx
  | number | string | text => rfl

theorem renderAll_eq_map : ∀ {xs : List Value}, (∀ x ∈ xs, x.isList = false) → renderAll xs = xs.map itemText
  | [], _ => rfl
  | x :: xs, h => by
    obtain ⟨hx, hxs⟩ := List.forall_mem_cons.1 h
    rw [renderAll, List.map_cons, render_eq_item hx, renderAll_eq_map hxs]

theorem render_eq_shallow {v : Value} (hv : v.Flat) : v.render = v.shallowText := by
  cases v with
  | number | string | text => rfl
  | list xs =>
    have texts : renderAll xs = xs.map itemText := renderAll_eq_map hv
    exact congrArg (", ".intercalate ·) texts

theorem equal_eq_equalItem {v : Value} (hv : v.isList = false) (w : Value) : equal v w = equalItem v w := by
  cases v with
  | list xs => cases hv
  | number | string | text => rfl

/-- Two values that are no lists are equal by number or by text. -/
theorem equal_items {x y : Value} (hx : x.isList = false) (hy : y.isList = false) :
    equal x y = (numbersEqual? x y).getD (x.render == y.render) := by
  rw [equal_eq_equalItem hx]
  cases y with
  | list ys => cases hy
  | number | string | text => rfl

theorem equal_eq_itemEqual {x y : Value} (hx : x.isList = false) (hy : y.isList = false) :
    equal x y = itemEqual x y := by
  rw [equal_items hx hy, itemEqual, numbersEqual?, number?_eq_item hx, number?_eq_item hy, render_eq_item hx,
    render_eq_item hy]
  cases x.itemNumber? <;> cases y.itemNumber? <;> rfl

theorem equalAll_eq_isEqv : ∀ {xs ys : List Value}, (∀ x ∈ xs, x.isList = false) → (∀ y ∈ ys, y.isList = false) →
    equalAll xs ys = xs.isEqv ys itemEqual
  | [], [], _, _ | [], _ :: _, _, _ | _ :: _, [], _, _ => rfl
  | x :: xs, y :: ys, hxs, hys => by
    obtain ⟨hx, hxs⟩ := List.forall_mem_cons.1 hxs
    obtain ⟨hy, hys⟩ := List.forall_mem_cons.1 hys
    rw [equalAll, List.isEqv, equal_eq_itemEqual hx hy, equalAll_eq_isEqv hxs hys]

/-- Values are equal by number or item by item, whichever of them are lists. -/
theorem equal_eq_getD (v w : Value) : equal v w = (numbersEqual? v w).getD (equalAll v.items w.items) := by
  cases hv : v.isList with
  | true =>
    cases v with
    | list xs => rfl
    | number | string | text => cases hv
  | false =>
    have single : v.items = [v] := items_of_isList hv
    rw [single]
    cases hw : w.isList with
    | false =>
      have hone : equalAll [v] [w] = equal v w := Bool.and_true _
      rw [items_of_isList hw, hone, equal_items hv hw]
      cases numbersEqual? v w <;> rfl
    | true =>
      cases w with
      | number | string | text => cases hw
      | list ys =>
        rw [equal_eq_equalItem hv]
        match ys with
        | [] => rfl
        | [y] =>
          have hone : equalAll [v] [y] = equalItem v y := by
            rw [← equal_eq_equalItem hv]
            exact Bool.and_true _
          exact congrArg _ hone.symm
        | y :: z :: zs =>
          have htwo : equalAll [v] (y :: z :: zs) = false := Bool.and_false _
          exact congrArg _ htwo.symm

theorem equal_eq_shallow {v w : Value} (hv : v.Flat) (hw : w.Flat) : v.equal w = v.shallowEqual w := by
  rw [equal_eq_getD, equalAll_eq_isEqv hv hw, numbersEqual?, shallowEqual, number?_eq_shallow hv,
    number?_eq_shallow hw]
  cases v.shallowNumber? <;> cases w.shallowNumber? <;> rfl

/-! ## Arithmetic -/

section Items

variable {f : Value → Except Cause Value} (hf : ∀ v w, f v = .ok w → w.isList = false)

include hf

theorem mapItems_isList {v w : Value} (hv : v.isList = false) (h : mapItems f v = .ok w) : w.isList = false := by
  cases v with
  | list xs => cases hv
  | number | string | text => exact hf _ w h

theorem mapAll_isList : ∀ {xs ys : List Value}, (∀ x ∈ xs, x.isList = false) → mapAll f xs = .ok ys →
    ∀ y ∈ ys, y.isList = false
  | [], _, _, h => by
    cases h
    exact fun _ h => nomatch h
  | x :: xs, _, hxs, h => by
    obtain ⟨hx, hxs⟩ := List.forall_mem_cons.1 hxs
    obtain ⟨y, hy, h⟩ := except_bind_eq_ok h
    obtain ⟨ys, hys, h⟩ := except_bind_eq_ok h
    cases h
    exact List.forall_mem_cons.2 ⟨mapItems_isList hf hx hy, mapAll_isList hxs hys⟩

/-- A list whose items are mapped to no lists stays flat. -/
theorem flat_mapItems {v w : Value} (hv : v.Flat) (h : mapItems f v = .ok w) : w.Flat := by
  cases v with
  | list xs =>
    obtain ⟨ys, hys, h⟩ := except_bind_eq_ok h
    cases h
    exact mapAll_isList hf hv hys
  | number | string | text => exact flat_of_isList (hf _ w h)

end Items

section Pairs

variable {f : Value → Value → Except Cause Value} (hf : ∀ v w z, f v w = .ok z → z.isList = false)

include hf

theorem zipItems_isList {v w z : Value} (hv : v.isList = false) (hw : w.isList = false)
    (h : zipItems f v w = .ok z) : z.isList = false := by
  cases v with
  | list xs => cases hv
  | number | string | text => exact mapItems_isList (hf _) hw h

theorem zipAll_isList : ∀ {xs ys zs : List Value}, (∀ x ∈ xs, x.isList = false) → (∀ y ∈ ys, y.isList = false) →
    zipAll f xs ys = .ok zs → ∀ z ∈ zs, z.isList = false
  | x :: xs, y :: ys, _, hxs, hys, h => by
    obtain ⟨hx, hxs⟩ := List.forall_mem_cons.1 hxs
    obtain ⟨hy, hys⟩ := List.forall_mem_cons.1 hys
    obtain ⟨z, hz, h⟩ := except_bind_eq_ok h
    obtain ⟨zs, hzs, h⟩ := except_bind_eq_ok h
    cases h
    exact List.forall_mem_cons.2 ⟨zipItems_isList hf hx hy hz, zipAll_isList hxs hys hzs⟩
  | [], _, _, _, _, h | _ :: _, [], _, _, _, h => by
    cases h
    exact fun _ h => nomatch h

/-- A list put together from pairs of items that are combined to no lists is flat. -/
theorem flat_zipItems {v w z : Value} (hv : v.Flat) (hw : w.Flat) (h : zipItems f v w = .ok z) : z.Flat := by
  cases v with
  | number | string | text => exact flat_mapItems (hf _) hw h
  | list xs =>
    cases w with
    | number | string | text => exact flat_mapItems (fun v => hf v _) hv h
    | list ys =>
      rw [zipItems] at h
      split at h
      · obtain ⟨zs, hzs, h⟩ := except_bind_eq_ok h
        cases h
        exact zipAll_isList hf hv hw hzs
      · cases h

end Pairs

theorem flat_mapNumber {f : Float → Except Cause Float} {v w : Value} (hv : v.Flat)
    (h : v.mapNumber f = .ok w) : w.Flat := by
  refine flat_mapItems (fun x y hy => ?_) hv h
  obtain ⟨n, -, hy⟩ := except_bind_eq_ok hy
  obtain ⟨m, -, hy⟩ := except_bind_eq_ok hy
  cases hy
  rfl

end Value

open Value

theorem flat_arith {op : Op} {v w z : Value} (hv : v.Flat) (hw : w.Flat) (h : arith op v w = .ok z) : z.Flat := by
  refine flat_zipItems (fun x y u hu => ?_) hv hw h
  cases hxy : arithItem op x y with
  | error e =>
    rw [hxy] at hu
    cases hu
  | ok n =>
    rw [hxy] at hu
    cases hu
    rfl

theorem flat_compareValues {op : Op} {v w z : Value} (h : compareValues op v w = .ok z) : z.Flat := by
  unfold compareValues at h
  split at h
  · cases h
    exact flat_ofBool _
  · split at h <;> cases h
    exact flat_ofBool _

theorem flat_applyBinary {op : Op} {v w z : Value} (hv : v.Flat) (hw : w.Flat) (h : applyBinary op v w = .ok z) :
    z.Flat := by
  cases op with
  | and | or | xor | eq | ne =>
    cases h
    exact flat_ofBool _
  | lt | le | gt | ge => exact flat_compareValues h
  | add =>
    rw [applyBinary] at h
    split at h
    · cases h
      exact flat_string _
    · exact flat_arith hv hw h
  | sub | mul | div | floorDiv | mod => exact flat_arith hv hw h

/-! ## The library -/

namespace Builtin

/-- Whatever is asked of the random source, the dice keep the invariant. -/
def KeptByDraws (I : Dice → Prop) : Prop :=
  ∀ {α : Type} (request : Source → Nat → α × Nat), Ensures I (draw request) fun _ => True

/-- Flat arguments give a flat result, and an invariant of the dice is kept. -/
def KeepsFlat (I : Dice → Prop) (g : Builtin) : Prop :=
  ∀ vs : List Value, (∀ v ∈ vs, v.Flat) → Ensures I (g.call vs) Value.Flat

variable {I : Dice → Prop}

section Kinds

variable {min : Nat} {max : Option Nat} {flatten : Bool}

theorem keepsFlat_pure {f : List Value → Except Cause Value}
    (hf : ∀ vs v, (∀ v ∈ vs, v.Flat) → f vs = .ok v → v.Flat) : (pure min max flatten f).KeepsFlat I :=
  fun vs hvs _ hs => ⟨hs, fun v hv => hf vs v hvs hv⟩

theorem keepsFlat_onItems {f : List Value → Except Cause Value}
    (hf : ∀ vs v, (∀ v ∈ vs, v.Flat) → f vs = .ok v → v.Flat) : (onItems min f).KeepsFlat I :=
  keepsFlat_pure hf

theorem keepsFlat_number1 (f : Float → Except Cause Float) : (number1 f).KeepsFlat I := by
  refine keepsFlat_pure fun vs v hvs hv => ?_
  split at hv
  · exact flat_mapNumber (hvs _ (List.mem_cons_self ..)) hv
  · cases hv

theorem keepsFlat_total1 (f : Float → Float) : (total1 f).KeepsFlat I := keepsFlat_number1 _

theorem keepsFlat_number2 {f : Float → Float → Except Cause Value} (hf : ∀ x y v, f x y = .ok v → v.Flat) :
    (number2 flatten f).KeepsFlat I := by
  refine keepsFlat_pure fun vs v _ hv => ?_
  obtain ⟨xs, -, hv⟩ := except_bind_eq_ok hv
  split at hv
  · exact hf _ _ v hv
  · cases hv

theorem keepsFlat_number3 {f : Float → Float → Float → Except Cause Value}
    (hf : ∀ x y z v, f x y z = .ok v → v.Flat) : (number3 f).KeepsFlat I := by
  refine keepsFlat_pure fun vs v _ hv => ?_
  obtain ⟨xs, -, hv⟩ := except_bind_eq_ok hv
  split at hv
  · exact hf _ _ _ v hv
  · cases hv

theorem keepsFlat_value1 {f : Value → Value} (hf : ∀ v, (f v).Flat) : (value1 f).KeepsFlat I := by
  refine keepsFlat_pure fun vs v _ hv => ?_
  split at hv <;> cases hv
  exact hf _

theorem keepsFlat_value2 {f : Value → Value → Except Cause Value}
    (hf : ∀ v w z, v.Flat → w.Flat → f v w = .ok z → z.Flat) : (value2 f).KeepsFlat I := by
  refine keepsFlat_pure fun vs v hvs hv => ?_
  split at hv
  · exact hf _ _ v (hvs _ (by simp)) (hvs _ (by simp)) hv
  · cases hv

theorem keepsFlat_test2 (f : Value → Value → Bool) : (test2 f).KeepsFlat I := by
  refine keepsFlat_value2 fun v w z _ _ hz => ?_
  cases hz
  exact flat_ofBool _

theorem keepsFlat_reduce (f : Float → List Float → Float) : (reduce f).KeepsFlat I := by
  refine keepsFlat_pure fun vs v _ hv => ?_
  split at hv
  · cases hv
  · obtain ⟨xs, -, hv⟩ := except_bind_eq_ok hv
    split at hv <;> cases hv
    exact flat_number _

end Kinds

/-! ### Functions that draw -/

section Draws

variable (hI : KeptByDraws I)

include hI

theorem ensures_randint (vs : List Value) : Ensures I (randint vs) Value.Flat := by
  unfold randint
  refine .bind (R := fun _ => True) (.of_eq fun _ => rfl) fun xs _ => ?_
  split
  · simp only
    split
    · exact .throw
    split
    · exact .throw
    split
    · exact .throw
    · exact .bind (hI _) fun _ _ => .pure (flat_number _)
  · exact .throw

theorem ensures_gauss (vs : List Value) : Ensures I (gauss vs) Value.Flat := by
  unfold gauss
  refine .bind (R := fun _ => True) (.of_eq fun _ => rfl) fun xs _ => ?_
  split
  · split
    · exact .throw
    · exact .bind (hI _) fun _ _ => .pure (flat_number _)
  · exact .throw

end Draws

/-! ### Functions of lists -/

theorem flat_halves {op : Op} {vs : List Value} {v : Value} (hvs : ∀ v ∈ vs, v.Flat) (h : halves op vs = .ok v) :
    v.Flat := by
  unfold halves at h
  split at h
  · cases h
  · exact flat_arith (flat_ofItems fun v hv => hvs v (List.mem_of_mem_take hv))
      (flat_ofItems fun v hv => hvs v (List.mem_of_mem_drop hv)) h

theorem flat_rangeOf {start stop step : Float} {v : Value} (h : rangeOf start stop step = .ok v) : v.Flat := by
  unfold rangeOf at h
  split at h
  · cases h
  · simp only at h
    split at h <;> cases h
    exact flat_ofNumbers _

theorem flat_selectItem {vs : List Value} {v : Value} (hvs : ∀ v ∈ vs, v.Flat) (h : selectItem vs = .ok v) :
    v.Flat := by
  unfold selectItem at h
  split at h
  · cases h
  · split at h
    · cases h
    · simp only at h
      split at h
      · cases h
      · split at h
        · next x hx =>
          cases h
          exact hvs _ (List.mem_cons_of_mem _ (List.mem_of_getElem? hx))
        · cases h

/-- No function of the library puts a list into a list, or does anything to the dice but draw. The first step settles
the families of functions whose results are numbers whatever they compute; the rest stand in the order of `find?`. -/
theorem keepsFlat_find (hI : KeptByDraws I) {name : String} {g : Builtin} (h : find? name = some g) :
    g.KeepsFlat I := by
  unfold find? at h
  split at h
  all_goals cases h
  all_goals try with_reducible first
    | exact keepsFlat_total1 _
    | exact keepsFlat_number1 _
    | exact keepsFlat_reduce _
    | exact keepsFlat_test2 _
    | exact keepsFlat_value2 fun _ _ _ _ _ h => flat_compareValues h
  -- `atan2`, `pow`, `divmod`
  · refine keepsFlat_number2 fun x y v hv => ?_
    cases hv
    exact flat_number _
  · refine keepsFlat_number2 fun x y v hv => ?_
    simp only at hv
    split at hv <;> cases hv
    exact flat_number _
  · refine keepsFlat_number2 fun x y v hv => ?_
    split at hv <;> cases hv
    exact flat_ofNumbers _
  -- `clamp`, `mix`
  · refine keepsFlat_number3 fun x lo hi v hv => ?_
    split at hv <;> cases hv
    exact flat_number _
  · refine keepsFlat_number3 fun x y z v hv => ?_
    cases hv
    exact flat_number _
  -- `not`, `if`
  · exact keepsFlat_value1 fun v => flat_ofBool _
  · refine keepsFlat_pure fun vs v hvs hv => ?_
    split at hv <;> cases hv
    split
    · exact hvs _ (by simp)
    · exact hvs _ (by simp)
  -- `random`, `randint`, `gauss`
  · exact fun _ _ => .bind (hI _) fun _ _ => .pure (flat_number _)
  · exact fun vs _ => ensures_randint hI vs
  · exact fun vs _ => ensures_gauss hI vs
  -- `range`
  · refine keepsFlat_pure fun vs v _ hv => ?_
    obtain ⟨xs, -, hv⟩ := except_bind_eq_ok hv
    split at hv
    · exact flat_rangeOf hv
    · exact flat_rangeOf hv
    · exact flat_rangeOf hv
    · cases hv
  -- `addv`, `subv`, `scalev`
  · exact keepsFlat_onItems fun vs v => flat_halves
  · exact keepsFlat_onItems fun vs v => flat_halves
  · refine keepsFlat_onItems fun vs v hvs hv => ?_
    split at hv
    · exact flat_arith (hvs _ List.mem_cons_self) (flat_ofItems fun v hv => hvs v (List.mem_cons_of_mem _ hv)) hv
    · cases hv
  -- `head`, `tail`, `count`, `empty`, `in`, `select`
  · refine keepsFlat_onItems fun vs v hvs hv => ?_
    split at hv <;> cases hv
    exact hvs _ List.mem_cons_self
  · refine keepsFlat_onItems fun vs v hvs hv => ?_
    split at hv <;> cases hv
    exact flat_ofItems fun v hv => hvs v (List.mem_cons_of_mem _ hv)
  · refine keepsFlat_onItems fun vs v _ hv => ?_
    cases hv
    exact flat_number _
  · refine keepsFlat_onItems fun vs v _ hv => ?_
    cases hv
    exact flat_ofBool _
  · refine keepsFlat_onItems fun vs v _ hv => ?_
    split at hv <;> cases hv
    exact flat_ofBool _
  · exact keepsFlat_onItems fun vs v => flat_selectItem
  -- `swap`
  · refine keepsFlat_value2 fun v w z hv hw hz => ?_
    cases hz
    exact flat_ofItems (by simp [hv, hw])
  -- `r2p`, `p2r`
  · refine keepsFlat_number2 fun x y v hv => ?_
    cases hv
    exact flat_ofNumbers _
  · refine keepsFlat_number2 fun x y v hv => ?_
    cases hv
    exact flat_ofNumbers _
  -- `split`, `splitw`, `trim`, `join`, and literal texts
  · refine keepsFlat_value2 fun sep v z _ _ hz => ?_
    split at hz <;> cases hz
    exact flat_list_map (fun _ => rfl) _
  · exact keepsFlat_value1 fun v => flat_list_map (fun _ => rfl) _
  · exact keepsFlat_value1 fun v => flat_string _
  · refine keepsFlat_onItems fun vs v _ hv => ?_
    split at hv <;> cases hv
    exact flat_string _
  · refine keepsFlat_pure fun vs v _ hv => ?_
    cases hv
    exact flat_text _

/-- The arguments that a function works on. -/
def spliced (g : Builtin) (vs : List Value) : List Value := if g.flatten then vs.flatMap Value.items else vs

theorem flat_spliced (g : Builtin) {vs : List Value} (hvs : ∀ v ∈ vs, v.Flat) : ∀ v ∈ g.spliced vs, v.Flat := by
  unfold spliced
  split
  · intro x hx
    obtain ⟨v, hv, hx⟩ := List.mem_flatMap.1 hx
    exact flat_of_mem_items (hvs v hv) hx
  · exact hvs

end Builtin

/-! ## Evaluation -/

theorem ensures_except {α : Type} {I : Dice → Prop} {Q : α → Prop} {r : Except Cause α} (h : ∀ a, r = .ok a → Q a) :
    Ensures I (r : EvalM α) Q := fun _ hs => ⟨hs, h⟩

section Invariant

variable {I : Dice → Prop}

theorem ensures_callBuiltin (hI : Builtin.KeptByDraws I) (name : String) {vs : List Value}
    (hvs : ∀ v ∈ vs, v.Flat) : Ensures I (callBuiltin name vs) Value.Flat := by
  unfold callBuiltin
  split
  · exact .throw
  · next g hg =>
    have hcall := Builtin.keepsFlat_find hI hg (g.spliced vs) (g.flat_spliced hvs)
    unfold Builtin.spliced at hcall
    simp only
    generalize (if g.flatten then vs.flatMap Value.items else vs) = args at hcall ⊢
    split
    all_goals
      split
      · exact hcall
      · exact .throw

mutual

theorem ensures_evalTerm (hI : Builtin.KeptByDraws I) {deref : String → EvalM Value}
    (h : ∀ name, Ensures I (deref name) Value.Flat) : ∀ t : Term, Ensures I (evalTerm deref t) Value.Flat
  | .number x => .pure (flat_number x)
  | .string s => .pure (flat_string s)
  | .var name => h name
  | .neg x => .bind (ensures_evalTerm hI h x) fun _ hv => ensures_except fun _ => flat_mapNumber hv
  | .binary op x y =>
    .bind (ensures_evalTerm hI h x) fun _ hv => .bind (ensures_evalTerm hI h y) fun _ hw =>
      ensures_except fun _ => flat_applyBinary hv hw
  | .call name args => by
    rw [evalTerm]
    split
    · exact .throw
    · exact .bind (ensures_evalTerms hI h args) fun vs hvs => ensures_callBuiltin hI name hvs
  | .list items => .bind (ensures_evalTerms hI h items) fun _ hvs => .pure (flat_ofItems hvs)

theorem ensures_evalTerms (hI : Builtin.KeptByDraws I) {deref : String → EvalM Value}
    (h : ∀ name, Ensures I (deref name) Value.Flat) :
    ∀ ts : List Term, Ensures I (evalTerms deref ts) fun vs => ∀ v ∈ vs, v.Flat
  | [] => .pure fun _ h => nomatch h
  | t :: ts =>
    .bind (ensures_evalTerm hI h t) fun _ hv => .bind (ensures_evalTerms hI h ts) fun _ hvs =>
      .pure (List.forall_mem_cons.2 ⟨hv, hvs⟩)

end

variable (hI : Builtin.KeptByDraws I)

include hI

/-- The text of a variable gives a flat value, by induction on the levels left. -/
theorem ensures_deref (env : Env) (levels : Nat) (name : String) : Ensures I (env.deref levels name) Value.Flat := by
  induction levels generalizing name with
  | zero =>
    cases hvar : env.var? name with
    | none =>
      rw [deref_unknown hvar]
      exact .throw
    | some raw =>
      rw [deref_zero hvar]
      exact .throw
  | succ levels ih =>
    cases hvar : env.var? name with
    | none =>
      rw [deref_unknown hvar]
      exact .throw
    | some raw =>
      rw [deref_succ hvar]
      cases meaning raw with
      | number x => exact .pure (flat_number x)
      | text => exact .pure (flat_string raw)
      | term t =>
        rw [evalLevel_eq]
        exact ensures_evalTerm hI ih t

theorem ensures_evalLevel (env : Env) (levels : Nat) (t : Term) : Ensures I (evalLevel env levels t) Value.Flat := by
  rw [evalLevel_eq]
  exact ensures_evalTerm hI (ensures_deref hI env levels) t

/-- An expression comes to a flat value, and what holds of the dice before and behind every draw holds behind the
expression. -/
theorem ensures_eval (env : Env) (s : String) : Ensures I (eval env s) Value.Flat := by
  intro d hd
  cases hs : parse s with
  | error c =>
    rw [exec_eval_unreadable hs]
    exact ⟨hd, nofun⟩
  | ok t =>
    obtain ⟨he, hflat⟩ := ensures_evalLevel hI env env.limit t d hd
    rw [exec_eval_term hs]
    refine ⟨he, fun v hv => ?_⟩
    rcases hr : (exec (evalLevel env env.limit t) d).1 with c | w <;> rw [hr] at hv <;> cases hv
    exact hflat v hr

end Invariant

/-! ## What is handed on -/

variable {env : Env}

theorem keptByDraws_trivial : Builtin.KeptByDraws fun _ => True := fun _ _ _ => ⟨trivial, fun _ _ => trivial⟩

theorem Evaluates.flat {depth : Nat} {t : Term} {d e : Dice} {v : Value} (h : Evaluates env depth t d (.ok v) e) :
    v.Flat :=
  (ensures_evalLevel keptByDraws_trivial env _ t d trivial).2 v (congrArg Prod.fst (evaluates_iff.1 h))

theorem EvaluatesAll.flat {depth : Nat} {ts : List Term} {d e : Dice} {vs : List Value}
    (h : EvaluatesAll env depth ts d (.ok vs) e) : ∀ v ∈ vs, v.Flat :=
  (ensures_evalTerms keptByDraws_trivial (ensures_deref keptByDraws_trivial env _) ts d trivial).2 vs
    (congrArg Prod.fst h.exec_eq)

/-- In the course of an evaluation a function or an operator is given these values. -/
inductive Handed (env : Env) : Nat → Term → Dice → List Value → Prop where
  | negation {depth x d v e} (operand : Evaluates env depth x d (.ok v) e) : Handed env depth (.neg x) d [v]
  | operation {depth op x y d v e w f} (left : Evaluates env depth x d (.ok v) e)
      (right : Evaluates env depth y e (.ok w) f) : Handed env depth (.binary op x y) d [v, w]
  | function {depth name g args d vs e} (hname : Builtin.find? name = some g)
      (arguments : EvaluatesAll env depth args d (.ok vs) e) :
      Handed env depth (.call name args) d (g.spliced vs)
  | inNegation {depth x d vs} (inner : Handed env depth x d vs) : Handed env depth (.neg x) d vs
  | inLeft {depth op x y d vs} (inner : Handed env depth x d vs) : Handed env depth (.binary op x y) d vs
  | inRight {depth op x y d v e vs} (left : Evaluates env depth x d (.ok v) e) (inner : Handed env depth y e vs) :
      Handed env depth (.binary op x y) d vs
  | inArgument {depth name g before t behind d us e vs} (hname : Builtin.find? name = some g)
      (arguments : EvaluatesAll env depth before d (.ok us) e) (inner : Handed env depth t e vs) :
      Handed env depth (.call name (before ++ t :: behind)) d vs
  | inList {depth before t behind d us e vs} (parts : EvaluatesAll env depth before d (.ok us) e)
      (inner : Handed env depth t e vs) : Handed env depth (.list (before ++ t :: behind)) d vs
  | inVariable {depth name raw t d vs} (hvar : env.var? name = some raw) (hdepth : depth < env.limit)
      (hraw : meaning raw = .term t) (inner : Handed env (depth + 1) t d vs) : Handed env depth (.var name) d vs

theorem Handed.flat {depth : Nat} {t : Term} {d : Dice} {vs : List Value} (h : Handed env depth t d vs) :
    ∀ v ∈ vs, v.Flat := by
  induction h with
  | negation operand =>
    intro v hv
    cases List.mem_singleton.1 hv
    exact operand.flat
  | operation left right =>
    intro v hv
    rcases List.mem_cons.1 hv with rfl | hv
    · exact left.flat
    · cases List.mem_singleton.1 hv
      exact right.flat
  | function hname arguments => exact Builtin.flat_spliced _ arguments.flat
  | inNegation _ ih | inLeft _ ih | inRight _ _ ih | inArgument _ _ _ ih | inList _ _ ih | inVariable _ _ _ _ ih =>
    exact ih

/-- Lists are flat: the value of an expression, and all that its evaluation hands to functions and operators. So reading
a value never goes further than its items. -/
theorem eval_flat (env : Env) (s : String) (d : Dice) :
    (∀ v, (exec (eval env s) d).1 = .ok v → v.Flat) ∧
    (∀ t vs, parse s = .ok t → Handed env 0 t d vs → ∀ v ∈ vs, v.Flat) ∧
    ∀ v w : Value, v.Flat → w.Flat →
      v.number? = v.shallowNumber? ∧ v.render = v.shallowText ∧ v.equal w = v.shallowEqual w := by
  refine ⟨(ensures_eval keptByDraws_trivial env s d trivial).2, fun t vs _ h => h.flat, fun v w hv hw => ?_⟩
  exact ⟨number?_eq_shallow hv, render_eq_shallow hv, equal_eq_shallow hv hw⟩

/-- A list is handed to a function as it is, and spliced into the list that the function makes. -/
theorem eval_flat_swapped :
    let pair := Value.list [.string "a", .string "b"]
    let triple := Value.list [.string "c", .string "a", .string "b"]
    (exec (eval { var? := fun _ => none } "swap(('a', 'b'), 'c')") {}).1 = .ok triple ∧ triple.Flat ∧
      pair.Flat ∧ pair.render = "a, b" := by
  intro pair triple
  have flat := eval_flat { var? := fun _ => none } "swap(('a', 'b'), 'c')" {}
  have hs : parse "swap(('a', 'b'), 'c')" = .ok (.call "swap" [.list [.string "a", .string "b"], .string "c"]) := rfl
  obtain ⟨g, hg, hflatten⟩ : ∃ g, Builtin.find? "swap" = some g ∧ g.flatten = false := ⟨_, rfl, rfl⟩
  have arguments : EvaluatesAll { var? := fun _ => none } 0 [.list [.string "a", .string "b"], .string "c"] {}
      (.ok [pair, .string "c"]) {} :=
    .cons (.list (.cons .string (.cons .string .nil))) (.cons .string .nil)
  have value := congrArg Prod.fst (Evaluates.exec_eval hs (.call hg arguments (r := .ok triple) rfl))
  have hpair : pair ∈ g.spliced [pair, .string "c"] := by
    rw [Builtin.spliced, hflatten]
    exact List.mem_cons_self
  have pairFlat : pair.Flat := flat.2.1 _ _ hs (.function hg arguments) pair hpair
  refine ⟨value, flat.1 triple value, pairFlat, ?_⟩
  rw [(flat.2.2 pair pair pairFlat pairFlat).2.1]
  rfl

end DiagramMarkup.Expr
