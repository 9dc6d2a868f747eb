import DiagramMarkup.Position.Endpoint
import DiagramMarkup.Proofs.Exact
import DiagramMarkup.Proofs.Heads
import DiagramMarkup.Proofs.Leftovers
import DiagramMarkup.Proofs.Strokes

/-!
# What the arguments of a position value do

The arguments behind a target are an offset, a gap or the adjustments of a size.

1. Reading them as such requires that they are numbers and not too many (`Ref.offset_apt`, `Ref.pair_apt`,
   `adjusted_apt`).
2. Every attribute that is settled has read its arguments in one of these ways (`apt_of_resolve`). The end of a
   connector has, unless it is a target without a spot, whose arguments nothing reads (`Endpoint.apt_of_resolve`).
3. With a target and without a side, an offset moves the point by its amounts, whatever stood in its place
   (`placeBy_offset`, `placeEnd_offset`, `Endpoint.resolve_offset`).
-/

namespace DiagramMarkup

open Scalar

variable {α β : Type} [Scalar α]

/-! ## Numbers -/

variable (α) in
/-- The text is read as a number. -/
def IsNumber (w : String) : Prop := (read? w : Option α).isSome

variable (α) in
/-- The text is read as a number or as a percentage. -/
def IsAmount (w : String) : Prop := IsNumber α w ∨ ∃ u, Text.before? "%" w = some u ∧ IsNumber α u

theorem isNumber_of_forall₂ {ws : List String} {xs : List α} (h : List.Forall₂ (fun w x => read? w = some x) ws xs) :
    ∀ w ∈ ws, IsNumber α w := by
  induction h with
  | nil => exact fun _ hw => absurd hw List.not_mem_nil
  | cons hx _ ih => exact List.forall_mem_cons.2 ⟨Option.isSome_of_mem hx, ih⟩

/-- A pair of numbers is written as one number or as two. -/
theorem Numbers.parsePair_apt {s : String} {p : Point α} (h : parsePair s = .ok p) :
    (∀ w ∈ split s, IsNumber α w) ∧ (split s).length ≤ 2 := by
  obtain ⟨xs, hxs, h⟩ := except_bind_eq_ok h
  have hparts := parse_eq_ok.1 hxs
  refine ⟨isNumber_of_forall₂ hparts, ?_⟩
  rw [hparts.length_eq]
  match xs, h with
  | [_], _ => exact Nat.le_succ 1
  | [_, _], _ => exact le_rfl

/-- A length is written as a number or a percentage. -/
theorem isAmount_of_parse {w : String} {l : Length α} (hw : Text.Tight w.toList) (h : Position.parseDelta w = .ok l) :
    IsAmount α w := by
  unfold Position.parseDelta Length.parse at h
  simp only [hw.trim_eq] at h
  have hnumber : ∀ {u : String} {x : α}, read u = .ok x → IsNumber α u := fun hu => by
    unfold IsNumber read?
    rw [hu]
    rfl
  split at h
  · next u hu =>
    split at h
    · next hx => exact .inr ⟨u, hu, hnumber hx⟩
    · cases h
  · split at h
    · next hx => exact .inl (hnumber hx)
    · cases h

namespace Position

open Element

variable {refs : Referrer α} {ref : Ref α} {v : String} {el fl : Element}

/-! ## Readings of the arguments -/

/-- The arguments of a position value can be read, and there are not more than it has a use for. -/
structure Ref.Apt (ref : Ref α) (readable : String → Prop) : Prop where
  readable : ∀ w ∈ ref.args, readable w
  few : ref.args.length ≤ 2
  gap : ∀ side, ref.spot = .beside side → ref.args.length ≤ 1

namespace Ref

theorem isPart_of_parse (h : parse v = .ok ref) : ∀ w ∈ ref.args, Numbers.IsPart w := by
  obtain ⟨_, rest, -, -, hargs, -⟩ := parse_cases h
  rw [hargs]
  exact fun w hw => Numbers.isPart_of_mem hw

theorem gap_of_parse (h : parse v = .ok ref) : ∀ side, ref.spot = .beside side → ref.args.length ≤ 1 := by
  obtain ⟨_, rest, -, -, -, hgap⟩ := parse_cases h
  exact hgap

theorem offset_apt {d : Point α} (h : parse v = .ok ref) (hd : ref.offset = .ok d) : ref.Apt (IsNumber α) := by
  obtain ⟨xs, hxs, hd⟩ := except_bind_eq_ok hd
  have hparts := Numbers.mapM_read_eq_ok.1 hxs
  refine ⟨isNumber_of_forall₂ hparts, ?_, gap_of_parse h⟩
  rw [hparts.length_eq]
  match xs, hd with
  | [], _ => exact Nat.zero_le 2
  | [_], _ => exact Nat.le_succ 1
  | [_, _], _ => exact le_rfl

theorem pair_apt {p : Point α} (h : parse v = .ok ref) (hp : ref.pair = .ok p) : ref.Apt (IsNumber α) := by
  obtain ⟨hnumbers, hfew⟩ := Numbers.parsePair_apt hp
  rw [Numbers.split_intercalate (isPart_of_parse h)] at hnumbers hfew
  exact ⟨hnumbers, hfew, gap_of_parse h⟩

/-- A text that does not start as a reference has no target. -/
theorem parse_of_not_isRef (h : isRef v = false) : parse v = .ok (⟨none, .implied, Numbers.split v⟩ : Ref α) := by
  have hstart : ∀ {c r}, (Text.trim v).toList = c :: r → c ≠ '#' ∧ c ≠ '^' := by
    intro c r hchars
    have hfirst := Text.trimStart_eq_append v.toList
    rw [Text.trim, String.toList_ofList] at hchars
    rw [hchars, List.cons_append] at hfirst
    unfold isRef at h
    rw [hfirst] at h
    constructor <;> rintro rfl <;> cases h
  have htarget : splitTarget (Text.trim v) = .ok (none, (Text.trim v).toList) := by
    unfold splitTarget
    split
    · next hchars => exact absurd rfl (hstart hchars).2
    · next hchars => exact absurd rfl (hstart hchars).1
    · rfl
  have hspot : ∀ side, (Spot.implied : Spot α) ≠ .beside side := by
    intro side h
    cases h
  rw [parse_of_parts htarget rfl fun side h => absurd h (hspot side), String.ofList_toList, Numbers.split_trim]

end Ref

/-! ## Steps that have succeeded -/

section Succeeded

variable {γ : Type} {c : γ}

omit [Scalar α]

theorem of_exec_orFail {attr : String} {r : Except Fault β} {b : β} (h : exec (orFail attr r) el = (.ok b, fl)) :
    r = .ok b := by
  cases r with
  | error f => cases h
  | ok a =>
    cases h
    rfl

theorem of_exec_orFail_bind {attr : String} {r : Except Fault β} {f : β → Edit Failure γ}
    (h : exec (orFail attr r >>= f) el = (.ok c, fl)) : ∃ b, r = .ok b ∧ exec (f b) el = (.ok c, fl) := by
  cases r with
  | error f => cases h
  | ok b => exact ⟨b, rfl, h⟩

theorem of_exec_boxOf_bind {t : String} {f : Box α → Edit Failure γ}
    (h : exec (boxOf refs t >>= f) el = (.ok c, fl)) : ∃ b, refs t = .ok b ∧ exec (f b) el = (.ok c, fl) := by
  unfold boxOf at h
  cases hb : refs t with
  | error f =>
    rw [hb] at h
    cases h
  | ok b =>
    rw [hb] at h
    exact ⟨b, rfl, h⟩

end Succeeded

theorem pointOf_apt {attr : String} {implied : Loc} {p : Point α} (href : Ref.parse v = .ok ref)
    (h : exec (pointOf refs attr ref implied) el = (.ok p, fl)) : ref.Apt (IsNumber α) := by
  unfold pointOf at h
  split at h
  · exact Ref.pair_apt href (of_exec_orFail h)
  · obtain ⟨b, -, h⟩ := of_exec_boxOf_bind h
    obtain ⟨d, hd, -⟩ := of_exec_orFail_bind h
    exact Ref.offset_apt href hd

theorem goal_apt {attr : String} {loc : Loc} {g : Loc × Point α} (h : exec (goal refs attr v loc) el = (.ok g, fl)) :
    ∃ ref : Ref α, Ref.parse v = .ok ref ∧ ref.Apt (IsNumber α) := by
  obtain ⟨ref, href, h⟩ := of_exec_orFail_bind h
  refine ⟨ref, href, ?_⟩
  split at h
  · obtain ⟨b, -, h⟩ := of_exec_boxOf_bind h
    obtain ⟨d, hd, -⟩ := of_exec_orFail_bind h
    exact Ref.offset_apt href hd
  · obtain ⟨p, _, hp, -⟩ := exec_bind_eq_ok h
    exact pointOf_apt href hp

theorem adjusted_apt {size p : Point α} {args : List String} (hargs : ∀ w ∈ args, Numbers.IsPart w)
    (h : exec (adjusted v size args) el = (.ok p, fl)) : (∀ w ∈ args, IsAmount α w) ∧ args.length ≤ 2 := by
  rcases args with _ | ⟨dw, _ | ⟨dh, _ | ⟨_, _⟩⟩⟩
  · exact ⟨fun _ hw => absurd hw List.not_mem_nil, Nat.zero_le 2⟩
  · obtain ⟨l, hl, -⟩ := of_exec_orFail_bind h
    refine ⟨fun w hw => ?_, Nat.le_succ 1⟩
    rw [List.mem_singleton.1 hw]
    exact isAmount_of_parse (hargs dw List.mem_cons_self).tight hl
  · obtain ⟨lw, hw, h⟩ := of_exec_orFail_bind h
    obtain ⟨lh, hh, -⟩ := of_exec_orFail_bind h
    obtain ⟨htw, hth⟩ := List.forall_mem_cons.1 hargs
    refine ⟨List.forall_mem_cons.2 ⟨isAmount_of_parse htw.tight hw, fun w hmem => ?_⟩, le_rfl⟩
    rw [List.mem_singleton.1 hmem]
    exact isAmount_of_parse (hth dh List.mem_cons_self).tight hh
  · have hnone := congrArg Prod.fst h
    cases hnone

theorem parseSize_apt {p : Point α} (h : exec (parseSize refs v) el = (.ok p, fl)) :
    ∃ ref : Ref α, Ref.parse v = .ok ref ∧ ref.Apt (IsAmount α) := by
  unfold parseSize at h
  cases hv : isRef v with
  | false =>
    rw [hv] at h
    obtain ⟨hnumbers, hfew⟩ := Numbers.parsePair_apt (of_exec_orFail h)
    exact ⟨_, Ref.parse_of_not_isRef hv, fun w hw => .inl (hnumbers w hw), hfew, nofun⟩
  | true =>
    rw [hv] at h
    obtain ⟨ref, href, h⟩ := of_exec_orFail_bind h
    obtain ⟨_, _, -, h⟩ := exec_bind_eq_ok h
    obtain ⟨b, -, h⟩ := of_exec_boxOf_bind h
    obtain ⟨hamounts, hfew⟩ := adjusted_apt (Ref.isPart_of_parse href) h
    exact ⟨ref, href, hamounts, hfew, Ref.gap_of_parse href⟩

/-! ## Attributes that are settled -/

section Settled

variable {shape : Shape} {a : String}

theorem exec_take_bind {γ : Type} (a : String) (f : Option String → Edit Failure γ) (el : Element) :
    exec (take a >>= f) el = exec (f (el.get? a)) (el.erase a) := rfl

theorem sizeByPair_apt (h : exec (sizeByPair refs shape) el = (.ok (), fl)) (hv : el.get? "wh" = some v) :
    ∃ ref : Ref α, Ref.parse v = .ok ref ∧ ref.Apt (IsAmount α) := by
  unfold sizeByPair at h
  rw [exec_take_bind, hv] at h
  obtain ⟨_, _, -, h⟩ := exec_bind_eq_ok h
  obtain ⟨p, _, hp, -⟩ := exec_bind_eq_ok h
  exact parseSize_apt hp

theorem sizes_apt (h : exec (sizes refs shape) el = (.ok (), fl)) (hv : el.get? "wh" = some v) :
    ∃ ref : Ref α, Ref.parse v = .ok ref ∧ ref.Apt (IsAmount α) := by
  have hkeep : ∀ {attr : String} {b : Bool}, attr ≠ "wh" → "wh" ∉ attr :: if b then ["margin"] else [] := by
    intro attr b hattr
    cases b <;> simp [hattr.symm]
  obtain ⟨_, el₁, h₁, h⟩ := exec_bind_eq_ok h
  obtain ⟨_, el₂, h₂, h⟩ := exec_bind_eq_ok h
  obtain ⟨_, _, h₃, -⟩ := exec_bind_eq_ok h
  refine sizeByPair_apt h₃ ?_
  rw [(spends_encloseBy refs shape true "inside").get?_eq h₂ (by decide) (hkeep (by decide)),
    (spends_encloseBy refs shape false "surround").get?_eq h₁ (by decide) (hkeep (by decide)), hv]

theorem placeEnd_apt {attr nx ny : String} (h : exec (placeEnd refs attr nx ny) el = (.ok (), fl))
    (hv : el.get? attr = some v) : ∃ ref : Ref α, Ref.parse v = .ok ref ∧ ref.Apt (IsNumber α) := by
  unfold placeEnd at h
  rw [exec_take_bind, hv] at h
  obtain ⟨ref, href, h⟩ := of_exec_orFail_bind h
  obtain ⟨p, _, hp, -⟩ := exec_bind_eq_ok h
  exact ⟨ref, href, pointOf_apt href hp⟩

theorem placeEnds_apt (h : exec (placeEnds refs .line) el = (.ok (), fl)) (ha : a = "xy1" ∨ a = "xy2")
    (hv : el.get? a = some v) : ∃ ref : Ref α, Ref.parse v = .ok ref ∧ ref.Apt (IsNumber α) := by
  obtain ⟨_, el₁, h₁, h₂⟩ := exec_bind_eq_ok h
  rcases ha with rfl | rfl
  · exact placeEnd_apt h₁ hv
  · refine placeEnd_apt h₂ ?_
    rw [(spends_placeEnd refs (by decide) (by decide)).get?_eq h₁ (by decide) (by decide), hv]

theorem placeByEither_apt {loc : Loc} {cxy xy : Option String}
    (h : exec (placeByEither refs shape loc cxy xy) el = (.ok (), fl)) (hv : cxy = some v ∨ xy = some v) :
    ∃ ref : Ref α, Ref.parse v = .ok ref ∧ ref.Apt (IsNumber α) := by
  unfold placeByEither at h
  split at h
  · simp at hv
  · cases h
  all_goals
    obtain ⟨g, _, hg, -⟩ := exec_bind_eq_ok h
    obtain rfl : _ = v := by simpa using hv
    exact goal_apt hg

theorem locate_apt (h : exec (locate refs shape) el = (.ok (), fl)) (ha : a = "cxy" ∨ a = "xy")
    (hv : el.get? a = some v) : ∃ ref : Ref α, Ref.parse v = .ok ref ∧ ref.Apt (IsNumber α) := by
  have hends : a ∉ if shape == .line then ["xy1", "xy2"] else [] := by
    rcases ha with rfl | rfl <;> split <;> decide
  have hmem : a ∈ attributes := by rcases ha with rfl | rfl <;> decide
  have hloc : a ∉ ["xy-loc"] := by rcases ha with rfl | rfl <;> decide
  obtain ⟨_, el₁, h₁, h⟩ := exec_bind_eq_ok h
  obtain ⟨loc, el₂, h₂, h⟩ := exec_bind_eq_ok h
  rw [exec_take_bind, exec_take_bind, get?_erase] at h
  obtain ⟨_, _, h₃, -⟩ := exec_bind_eq_ok h
  have hv₂ : el₂.get? a = some v := by
    rw [spends_ownLoc.get?_eq h₂ hmem hloc, (spends_placeEnds refs shape).get?_eq h₁ hmem hends, hv]
  refine placeByEither_apt h₃ ?_
  rcases ha with rfl | rfl
  · exact .inl hv₂
  · exact .inr (by rwa [if_neg (by decide)])

/-- The attributes whose values are position values. -/
def valued : List String := ["xy", "cxy", "xy1", "xy2", "wh"]

theorem mem_attributes_of_mem_valued : ∀ a ∈ valued, a ∈ attributes := by decide

/-- Settling the size leaves the values of places. -/
theorem not_mem_spentOnSize (el : Element) : ∀ a ∈ valued, a ≠ "wh" → a ∉ spentOnSize el := by
  unfold spentOnSize
  cases (el.get? "surround").isSome <;> cases (el.get? "inside").isSome <;> decide

/-- A position value of an attribute that is settled has arguments that can be read, and not too many. -/
theorem apt_of_resolve (h : resolve refs el = .ok fl) (ha : a ∈ valued)
    (hv : el.get? a = some v) (hgone : fl.get? a = none) :
    ∃ ref : Ref α, Ref.parse v = .ok ref ∧ ref.Apt (if a = "wh" then IsAmount α else IsNumber α) := by
  have hmem := mem_attributes_of_mem_valued a ha
  cases hshape : el.shape? with
  | none =>
    unfold resolve at h
    rw [hshape] at h
    cases h
    cases hgone.symm.trans hv
  | some shape =>
    have hhas : has el = true := List.any_eq_true.2 ⟨a, hmem, by rw [has_eq_isSome, hv]; rfl⟩
    have hidle : idle shape el a = false := by
      rw [get?_resolve hshape h hmem, hv] at hgone
      simpa using hgone
    obtain ⟨_, el₁, h₁, h₂⟩ := exec_bind_eq_ok (exec_of_resolve hshape hhas h)
    by_cases hwh : a = "wh"
    · subst hwh
      exact sizes_apt h₁ hv
    · rw [if_neg hwh]
      have hv₁ : el₁.get? a = some v := by
        rw [(spends_sizes refs shape).get?_eq h₁ hmem (not_mem_spentOnSize el a ha hwh), hv]
      by_cases hend : a = "xy1" ∨ a = "xy2"
      · obtain rfl : shape = .line := by
          rcases hend with rfl | rfl <;> simpa [idle] using hidle
        obtain ⟨_, _, h₂, -⟩ := exec_bind_eq_ok h₂
        exact placeEnds_apt h₂ hend hv₁
      · have hplace : ∀ a ∈ valued, a ≠ "wh" → ¬(a = "xy1" ∨ a = "xy2") → a = "cxy" ∨ a = "xy" := by decide
        exact locate_apt h₂ (hplace a ha hwh hend) hv₁

end Settled

/-! ## Ends of connectors -/

section Ends

variable {attr : String} {b : Box α} {t : String} {a : Anchor α} {d : Point α} {e : Endpoint α}

omit [Scalar α] in
theorem of_mapError {ε ε' : Type} {r : Except ε α} {f : ε → ε'} {x : α} (h : r.mapError f = .ok x) : r = .ok x := by
  cases r with
  | error _ => cases h
  | ok _ =>
    cases h
    rfl

/-- The end of a connector has arguments that can be read, and not too many, unless it is a target without a spot. -/
theorem Endpoint.apt_of_resolve {el : Option Element} (h : Endpoint.resolve refs el attr v = .ok e) :
    ∃ ref : Ref α, Ref.parse v = .ok ref ∧ (ref.Apt (IsNumber α) ∨
      ref.spot = .implied ∧ ∃ t b, ref.target = some t ∧ refs t = .ok b ∧ e = .box b.normalized) := by
  obtain ⟨ref, href, h⟩ := except_bind_eq_ok h
  have href := of_mapError href
  refine ⟨ref, href, ?_⟩
  split at h
  · cases h
  · obtain ⟨p, hp, -⟩ := except_bind_eq_ok h
    exact .inl (Ref.pair_apt href (of_mapError hp))
  · next t ht hside =>
    obtain ⟨b, hb, h⟩ := except_bind_eq_ok h
    split at h
    · obtain ⟨d, hd, -⟩ := except_bind_eq_ok h
      exact .inl (Ref.offset_apt href (of_mapError hd))
    · next hanchor =>
      cases h
      refine .inr ⟨?_, t, b, ht, hb, rfl⟩
      cases hspot : ref.spot with
      | implied => rfl
      | anchor a => exact absurd hspot (hanchor a)
      | beside side => exact absurd hspot (hside side)

/-- An end at an anchor is at its point, moved by the offset. -/
theorem Endpoint.resolve_anchor (el : Option Element) (attr : String) (href : Ref.parse v = .ok ref)
    (ht : ref.target = some t) (ha : ref.spot = .anchor a) (hb : refs t = .ok b) (hd : ref.offset = .ok d) :
    Endpoint.resolve refs el attr v =
      .ok (.anchor b.normalized ⟨(a.point b.normalized).x + d.x, (a.point b.normalized).y + d.y⟩ a.dir?) := by
  unfold Endpoint.resolve
  simp only [href, Except.mapError, bind, Except.bind, ha, ht, hb, hd]
  rfl

/-- An end that names no spot is the box, whatever its arguments are. -/
theorem Endpoint.resolve_implied (el : Option Element) (attr : String) (href : Ref.parse v = .ok ref)
    (ht : ref.target = some t) (ha : ref.spot = .implied) (hb : refs t = .ok b) :
    Endpoint.resolve refs el attr v = .ok (.box b.normalized) := by
  unfold Endpoint.resolve
  simp only [href, Except.mapError, bind, Except.bind, ha, ht, hb]
  rfl

end Ends

/-! ## Offsets -/

section Offsets

variable {b : Box α} {t : String} {d : Point α}

/-- The value places an element, or the end of a line, at the point that belongs to the implied location. -/
structure PlacesAt (refs : Referrer α) (v : String) (point : Loc → Point α) : Prop where
  element : ∀ shape attr loc el,
    exec (placeBy refs shape attr v loc) el = exec (place shape attr loc (point loc)) el
  ending : ∀ attr nx ny el, el.get? attr = some v → exec (placeEnd refs attr nx ny) el =
    (.ok (), ((el.erase attr).setNumber nx (point .center).x).setNumber ny (point .center).y)

theorem exec_pointOf (attr : String) (implied : Loc) (el : Element) (ht : ref.target = some t) (hb : refs t = .ok b)
    (hd : ref.offset = .ok d) : exec (pointOf refs attr ref implied) el =
      (.ok ⟨(ref.pointOn implied b).x + d.x, (ref.pointOn implied b).y + d.y⟩, el) := by
  unfold pointOf boxOf
  rw [ht]
  simp only [hb, hd]
  rfl

/-- A value with a target and without a side places at its spot, moved by the offset. -/
theorem placesAt_of_parse (href : Ref.parse v = .ok ref) (ht : ref.target = some t)
    (hside : ∀ side, ref.spot ≠ .beside side) (hb : refs t = .ok b) (hd : ref.offset = .ok d) :
    PlacesAt refs v fun l => ⟨(ref.pointOn l b).x + d.x, (ref.pointOn l b).y + d.y⟩ := by
  have hpoint := fun attr implied el => exec_pointOf attr implied el ht hb hd
  refine ⟨fun shape attr loc el => ?_, fun attr nx ny el hv => ?_⟩
  · have hgoal : exec (goal refs attr v loc) el =
        (.ok (loc, ⟨(ref.pointOn loc b).x + d.x, (ref.pointOn loc b).y + d.y⟩), el) := by
      unfold goal
      rw [href]
      refine (exec_bind_ok rfl).trans ?_
      split
      · next side hbeside => exact absurd hbeside (hside side)
      · rw [exec_bind_ok (hpoint attr loc el)]
        rfl
    unfold placeBy
    rw [exec_bind_ok hgoal]
  · unfold placeEnd
    rw [exec_take_bind, hv]
    simp only [href]
    exact (exec_bind_ok rfl).trans (exec_bind_ok (hpoint attr .center _))

theorem Ref.offset_nil (target : Option String) (spot : Spot α) :
    offset ⟨target, spot, []⟩ = .ok ⟨zero, zero⟩ := rfl

theorem Ref.offset_pair (target : Option String) (spot : Spot α) {dx dy : String} {x y : α} (hx : read? dx = some x)
    (hy : read? dy = some y) : offset ⟨target, spot, [dx, dy]⟩ = .ok ⟨x, y⟩ := by
  have hnumbers : numbers ⟨target, spot, [dx, dy]⟩ = .ok [x, y] :=
    Numbers.mapM_read_eq_ok.2 (.cons hx (.cons hy .nil))
  unfold offset
  rw [hnumbers]
  rfl

/-- The arguments of a position value are read, but for those of the end of a connector at a target without a spot.

An attribute that is settled has arguments that are numbers (amounts for a size), and not too many, and so has the end
of a connector, unless it names no spot: then it is the box of the target, whatever the arguments are. Where adding zero
changes nothing, the offset `dx dy` behind the head of a value moves the place of an element or of an end by its
amounts, and the end of a connector that names a spot. -/
theorem arguments_read (refs : Referrer α) :
    (∀ el fl a v, resolve refs el = .ok fl → a ∈ valued → el.get? a = some v → fl.get? a = none →
      ∃ ref : Ref α, Ref.parse v = .ok ref ∧ ref.Apt (if a = "wh" then IsAmount α else IsNumber α)) ∧
    (∀ el attr v e, Endpoint.resolve refs el attr v = .ok e → ∃ ref : Ref α, Ref.parse v = .ok ref ∧
      (ref.Apt (IsNumber α) ∨
        ref.spot = .implied ∧ ∃ t b, ref.target = some t ∧ refs t = .ok b ∧ e = .box b.normalized)) ∧
    ((∀ x : α, x + zero = x) → ∀ (v : String) (ref : Ref α) (t : String) (b : Box α), Ref.parse v = .ok ref →
      ref.target = some t → (∀ side, ref.spot ≠ .beside side) → refs t = .ok b →
      ∃ (head : String) (rest : List Char), (Text.trim v).toList = head.toList ++ rest ∧
        ref.args = Numbers.split (String.ofList rest) ∧ PlacesAt refs head (ref.pointOn · b) ∧
        (∀ el attr a, ref.spot = .anchor a → Endpoint.resolve refs el attr head =
          .ok (.anchor b.normalized (a.point b.normalized) a.dir?)) ∧
        ∀ (dx dy : String) (x y : α), Numbers.IsPart dx → Numbers.IsPart dy → read? dx = some x → read? dy = some y →
          PlacesAt refs (" ".intercalate [head, dx, dy])
            (fun l => ⟨(ref.pointOn l b).x + x, (ref.pointOn l b).y + y⟩) ∧
          ∀ el attr a, ref.spot = .anchor a → Endpoint.resolve refs el attr (" ".intercalate [head, dx, dy]) =
            .ok (.anchor b.normalized ⟨(a.point b.normalized).x + x, (a.point b.normalized).y + y⟩ a.dir?)) := by
  refine ⟨fun el fl a v h ha hv hgone => apt_of_resolve h ha hv hgone,
    fun el attr v e h => Endpoint.apt_of_resolve h, fun hzero v ref t b href ht hside hb => ?_⟩
  obtain ⟨head, rest, htext, hargs, hagain⟩ := Ref.exists_head href ht
  have hbare : Ref.parse head = .ok { ref with args := [] } :=
    hagain [] (fun _ hw => absurd hw List.not_mem_nil) fun side hbeside => absurd hbeside (hside side)
  refine ⟨head, rest, htext, hargs, ?_, fun el attr a ha => ?_, fun dx dy x y hdx hdy hx hy => ?_⟩
  · have hplace := placesAt_of_parse hbare ht hside hb (Ref.offset_nil _ _)
    simp only [hzero] at hplace
    exact hplace
  · rw [Endpoint.resolve_anchor el attr hbare ht ha hb (Ref.offset_nil _ _), hzero, hzero]
  · have hmoved : Ref.parse (" ".intercalate [head, dx, dy]) = .ok { ref with args := [dx, dy] } := by
      refine hagain [dx, dy] (List.forall_mem_cons.2 ⟨hdx, fun w hw => ?_⟩) fun side hbeside => ?_
      · rwa [List.mem_singleton.1 hw]
      · exact absurd hbeside (hside side)
    exact ⟨placesAt_of_parse hmoved ht hside hb (Ref.offset_pair _ _ hx hy),
      fun el attr a ha => Endpoint.resolve_anchor el attr hmoved ht ha hb (Ref.offset_pair _ _ hx hy)⟩

/-- A rectangle of half the size of a square, off its lower right corner. -/
def offCorner : Element := .ofAttrs "rect" [("xy", "#a@br 1 2"), ("wh", "#a 50%")]

theorem arguments_read_corner :
    letI := Path.wholeNumbers
    let refs : Referrer ℚ := fun _ => .ok ⟨0, 0, 6, 6⟩
    (∃ ref : Ref ℚ, Ref.parse "#a 50%" = .ok ref ∧ ref.Apt (IsAmount ℚ)) ∧
      (∃ ref : Ref ℚ, Ref.parse "#a@br 1 2" = .ok ref ∧ ref.Apt (IsNumber ℚ)) ∧
      ∃ (head : String) (rest : List Char), (Text.trim "#a@br 1 2").toList = head.toList ++ rest ∧
        PlacesAt refs head (fun _ => ⟨6, 6⟩) ∧ PlacesAt refs (" ".intercalate [head, "2", "-1"]) fun _ => ⟨8, 5⟩ := by
  let := Path.wholeNumbers
  intro refs
  obtain ⟨hresolve, hends, hoffsets⟩ := arguments_read refs
  have hrun : resolve refs offCorner =
      .ok (.ofAttrs "rect" [("width", "3"), ("height", "3"), ("x", "7"), ("y", "8")]) :=
    eq_ok_of_toOption (by decide +kernel)
  have hparse : (Ref.parse "#a@br 1 2" : Except Fault (Ref ℚ)) =
      .ok ⟨some "#a", .anchor (.named .bottomRight), ["1", "2"]⟩ := rfl
  have hend := Endpoint.resolve_anchor none "start" hparse rfl rfl (show refs "#a" = .ok ⟨0, 0, 6, 6⟩ from rfl)
    (Ref.offset_pair _ _ (show read? "1" = some (1 : ℚ) from rfl) (show read? "2" = some (2 : ℚ) from rfl))
  obtain ⟨ref, href, hapt | ⟨himplied, -⟩⟩ := hends none "start" "#a@br 1 2" _ hend
  · obtain ⟨head, rest, htext, -, hbare, -, hmoved⟩ := hoffsets add_zero "#a@br 1 2" _ "#a" _ hparse rfl nofun rfl
    have hparts : ∀ w ∈ Numbers.split "2 -1", Numbers.IsPart w := fun w hw => Numbers.isPart_of_mem hw
    have hplace := (hmoved "2" "-1" 2 (-1) (hparts _ (by decide)) (hparts _ (by decide)) rfl rfl).1
    have hsize := hresolve offCorner _ "wh" "#a 50%" hrun (by decide) (by decide +kernel) (by decide +kernel)
    refine ⟨hsize, ⟨ref, href, hapt⟩, head, rest, htext, hbare, ?_⟩
    have hpoint : (⟨(6 : ℚ) + 2, 6 + -1⟩ : Point ℚ) = ⟨8, 5⟩ := by norm_num
    rw [← hpoint]
    exact hplace
  · cases hparse.symm.trans href
    cases himplied

/-- The end of a connector at a box takes any arguments, and is the box of the target with an offset as without. -/
theorem exists_arguments_unread :
    ∃ ref : Ref Float, Ref.parse "#a junk" = .ok ref ∧ ref.args = ["junk"] ∧ ¬ IsNumber Float "junk" ∧
      Endpoint.resolve onlySquare none "start" "#a junk" = .ok (.box ⟨0, 0, 6, 6⟩) ∧
      Endpoint.resolve onlySquare none "start" "#a 5 5" = Endpoint.resolve onlySquare none "start" "#a" := by
  have hsquare : (⟨0, 0, 6, 6⟩ : Box Float).normalized = ⟨0, 0, 6, 6⟩ := by decide +kernel
  have hbox : ∀ {v : String} {args : List String}, Ref.parse v = .ok (⟨some "#a", .implied, args⟩ : Ref Float) →
      Endpoint.resolve onlySquare none "start" v = .ok (.box ⟨0, 0, 6, 6⟩) := fun h => by
    rw [Endpoint.resolve_implied none "start" h rfl rfl (if_pos rfl), hsquare]
  refine ⟨⟨some "#a", .implied, ["junk"]⟩, rfl, rfl, ?_, hbox rfl, ?_⟩
  · unfold IsNumber
    decide
  rw [hbox (v := "#a 5 5") rfl, hbox (v := "#a") rfl]

end Offsets

end Position

end DiagramMarkup
