import DiagramMarkup.Proofs.Boxes
import DiagramMarkup.Proofs.Lookups
import DiagramMarkup.Proofs.Steps

/-!
# Moving an element

The attributes that describe an element are halves of integers, so what is written when it is moved is read again.

1. The box of an element is that of its attributes as exact numbers (`exists_box?`), also when points are written
   (`Points.exists_parse_text`).
2. A step that moves or fills in an attribute leaves the others as they are (`exists_shiftNumber`, `exists_fillNumber`),
   and so does the whole movement (`exists_translate`).
3. The box of a missing attribute is that of zero, but only a box shape fills it in, so other shapes are not moved along
   an axis where an attribute is missing (`box_translate_iff`).
-/

namespace DiagramMarkup

open Number (Measures)

/-! ## Attributes that are read -/

namespace Element

variable {A B : Nat} {el fl : Element} {n : String} {o : Option ℚ} {x d : Float} {r δ : ℚ}

/-- The attribute is missing, or reads as half an integer of at most this size. -/
def Reads (B : Nat) (el : Element) (n : String) (o : Option ℚ) : Prop :=
  ∃ x : Option Float, el.number n = .ok x ∧ Option.Rel (Measures B) x o

theorem Reads.mono (h : Reads A el n o) (hAB : A ≤ B) : Reads B el n o := by
  obtain ⟨x, hx, hrel⟩ := h
  refine ⟨x, hx, ?_⟩
  cases hrel with
  | none => exact .none
  | some h => exact .some (h.mono hAB)

theorem number_eq_none_iff : (el.number n : Except Fault (Option Float)) = .ok none ↔ el.get? n = none := by
  unfold number
  cases h : el.get? n with
  | none => simp
  | some s =>
    simp only [reduceCtorEq, iff_false]
    split <;> simp

theorem Reads.has_eq (h : Reads A el n o) : el.has n = o.isSome := by
  obtain ⟨x, hx, hrel⟩ := h
  rw [has_eq_isSome]
  cases hrel with
  | none =>
    rw [number_eq_none_iff.1 hx]
    rfl
  | some h =>
    cases hget : el.get? n with
    | none =>
      rw [number_eq_none_iff.2 hget] at hx
      cases hx
    | some s => rfl

theorem Reads.numberOrZero (h : Reads A el n o) :
    ∃ x : Float, el.numberOrZero n = .ok x ∧ Measures A x (o.getD 0) := by
  obtain ⟨x, hx, hrel⟩ := h
  unfold Element.numberOrZero
  rw [hx]
  cases hrel with
  | none => exact ⟨_, rfl, Number.Measures.zero.mono (Nat.zero_le A)⟩
  | some h => exact ⟨_, rfl, h⟩

theorem number_setNumber_of_ne {m : String} (h : m ≠ n) :
    ((el.setNumber n x).number m : Except Fault (Option Float)) = el.number m := by
  unfold number setNumber
  rw [get?_set, if_neg h]

/-- A number that is stored is read again. -/
theorem reads_setNumber (h : Measures A x r) : Reads A (el.setNumber n x) n (some r) := by
  obtain ⟨y, hread, hy⟩ := h.exists_read_fixed
  have hpart := h.isPart_fixed
  have hunit := (Number.isPart_fixedText (Number.isFinite_of_denotes h.denotes)).2
  have hend : Text.dropEnd "px" (Scalar.fixed x) = Scalar.fixed x := by
    unfold Text.dropEnd Text.before? Text.endsWith
    rw [if_neg]
    · rfl
    · intro hsuffix
      exact hunit ((List.isSuffixOf_iff_suffix.1 hsuffix).mem (by decide))
  refine ⟨some y, ?_, .some hy⟩
  unfold number setNumber
  rw [get?_set, if_pos rfl]
  simp only [hpart.tight.trim_eq, hend]
  unfold Scalar.read?
  rw [hread]
  rfl

/-- What numeric attributes stand for. -/
abbrev Values : Type := String → Option ℚ

/-- Add to a value that is present. -/
def Values.shift (f : Values) (n : String) (d : ℚ) : Values := Function.update f n ((f n).map (· + d))

/-- Give a missing value. -/
def Values.fill (f : Values) (n : String) (d : ℚ) : Values := Function.update f n (some ((f n).getD d))

@[simp] theorem Values.shift_apply (f : Values) (n m : String) (d : ℚ) :
    f.shift n d m = if m = n then (f n).map (· + d) else f m := by
  unfold shift
  exact Function.update_apply f n _ m

@[simp] theorem Values.fill_apply (f : Values) (n m : String) (d : ℚ) :
    f.fill n d m = if m = n then some ((f n).getD d) else f m := by
  unfold fill
  exact Function.update_apply f n _ m

/-- These attributes are missing, or read as halves of integers of at most this size. -/
def ReadsAll (B : Nat) (el : Element) (names : List String) (f : Values) : Prop :=
  ∀ n ∈ names, Reads B el n (f n)

variable {names : List String} {f : Values}

theorem ReadsAll.mono (h : ReadsAll A el names f) (hAB : A ≤ B) : ReadsAll B el names f := fun n hn => (h n hn).mono hAB

theorem ReadsAll.subset {ns : List String} (h : ReadsAll A el names f) (hns : ns ⊆ names) : ReadsAll A el ns f :=
  fun n hn => h n (hns hn)

theorem ReadsAll.setNumber (h : ReadsAll A el names f) (n : String) (hx : Measures A x r) :
    ReadsAll A (el.setNumber n x) (n :: names) (Function.update f n (some r)) := by
  intro m hm
  by_cases hne : m = n
  · subst hne
    rw [Function.update_self]
    exact reads_setNumber hx
  · rw [Function.update_of_ne hne]
    unfold Reads
    rw [number_setNumber_of_ne hne]
    exact h m (List.mem_of_ne_of_mem hne hm)

theorem exists_shiftNumber (n : String) (hn : n ∈ names) (h : ReadsAll A el names f) (hd : Measures B d δ)
    (hAB : A + B ≤ 2 ^ 52) :
    ∃ fl, exec (shiftNumber n d) el = (.ok (), fl) ∧ fl.shape? = el.shape? ∧
      ReadsAll (A + B) fl names (f.shift n δ) := by
  obtain ⟨x, hx, hrel⟩ := h n hn
  have hexec : exec (shiftNumber n d) el = (.ok (), x.elim el fun x => el.setNumber n (x + d)) := by
    unfold shiftNumber
    rw [exec_bind, exec_get]
    simp only [hx]
    cases x <;> rfl
  rw [hexec]
  unfold Values.shift
  cases ho : f n with
  | none =>
    rw [ho] at hrel
    cases hrel
    rw [Option.map_none, ← ho, Function.update_eq_self]
    exact ⟨el, rfl, rfl, h.mono (Nat.le_add_right A B)⟩
  | some r =>
    rw [ho] at hrel
    cases hrel with
    | some hr =>
      have hset := (h.mono (Nat.le_add_right A B)).setNumber n (hr.add hd hAB)
      exact ⟨_, rfl, rfl, hset.subset (List.subset_cons_self n names)⟩

theorem exists_fillNumber (n : String) (hn : n ∈ names) (h : ReadsAll A el names f) (hd : Measures A d δ) :
    ∃ fl, exec (fillNumber n d) el = (.ok (), fl) ∧ fl.shape? = el.shape? ∧
      ReadsAll A fl names (f.fill n δ) := by
  have hhas := (h n hn).has_eq
  have hexec : exec (fillNumber n d) el = (.ok (), if el.has n then el else el.setNumber n d) := by
    unfold fillNumber
    rw [exec_bind, exec_get]
    simp only
    cases el.has n <;> rfl
  rw [hexec, hhas]
  unfold Values.fill
  cases ho : f n with
  | none => exact ⟨_, rfl, rfl, (h.setNumber n hd).subset (List.subset_cons_self n names)⟩
  | some r =>
    have hsame : Function.update f n (some r) = f := by rw [← ho, Function.update_eq_self]
    rw [Option.getD_some, hsame]
    exact ⟨el, rfl, rfl, h⟩

end Element

/-! ## Shapes of exact numbers -/

namespace Shape

/-- The attributes for the place of the shape along each axis. -/
def places : Shape → List String × List String
  | .box | .point => (["x"], ["y"])
  | .circle | .ellipse => (["cx"], ["cy"])
  | .line => (["x1", "x2"], ["y1", "y2"])
  | .points | .path => ([], [])

/-- The attributes for the size of the shape. -/
def sizes : Shape → List String
  | .box => ["width", "height"]
  | .circle => ["r"]
  | .ellipse => ["rx", "ry"]
  | .line | .points | .path | .point => []

/-- The attributes that are single numbers. -/
def numbers (s : Shape) : List String := s.places.1 ++ s.places.2 ++ s.sizes

/-- The box of a shape whose attributes have these values. -/
def boxOf (f : Element.Values) (s : Shape) : Option (Box ℚ) :=
  let at0 n := (f n).getD 0
  match s with
  | .box => match f "width", f "height" with
    | some w, some h => some ⟨at0 "x", at0 "y", at0 "x" + w, at0 "y" + h⟩
    | _, _ => none
  | .circle => match f "r" with
    | some r => some ⟨at0 "cx" - r, at0 "cy" - r, at0 "cx" + r, at0 "cy" + r⟩
    | none => none
  | .ellipse => match f "rx", f "ry" with
    | some rx, some ry => some ⟨at0 "cx" - rx, at0 "cy" - ry, at0 "cx" + rx, at0 "cy" + ry⟩
    | _, _ => none
  | .line => some ⟨at0 "x1", at0 "y1", at0 "x2", at0 "y2"⟩
  | .points | .path | .point => none

/-- The values of the attributes after a movement. -/
def moved (k l : ℚ) (f : Element.Values) : Shape → Element.Values
  | .box | .point => (((f.shift "x" k).shift "y" l).fill "x" k).fill "y" l
  | .circle | .ellipse => (f.shift "cx" k).shift "cy" l
  | .line => (((f.shift "x1" k).shift "y1" l).shift "x2" k).shift "y2" l
  | .points | .path => f

/-- The box moves along an axis as far as the attributes for it are there or are filled in. -/
theorem exists_boxOf_moved {f : Element.Values} {s : Shape} {c : Box ℚ} (h : s.boxOf f = some c) (k l : ℚ) :
    ∃ c', s.boxOf (s.moved k l f) = some c' ∧ (c' = ⟨c.x1 + k, c.y1 + l, c.x2 + k, c.y2 + l⟩ ↔
      s = .box ∨ (k = 0 ∨ ∀ n ∈ s.places.1, (f n).isSome) ∧ (l = 0 ∨ ∀ n ∈ s.places.2, (f n).isSome)) := by
  have hmap : ∀ (o : Option ℚ) (d : ℚ), (o.map (· + d)).getD 0 = o.getD 0 + d ↔ d = 0 ∨ o.isSome := by
    intro o d
    cases o <;> simp [eq_comm]
  have hfill : ∀ (o : Option ℚ) (d : ℚ), (o.map (· + d)).getD d = o.getD 0 + d := by
    intro o d
    cases o <;> simp
  have hsub : ∀ x y r d : ℚ, x - r = y - r + d ↔ x = y + d := fun x y r d => by
    constructor <;> intro h <;> linarith
  have hadd : ∀ x y r d : ℚ, x + r = y + r + d ↔ x = y + d := fun x y r d => by
    constructor <;> intro h <;> linarith
  cases s with
  | box =>
    cases hw : f "width" with
    | none => simp [boxOf, hw] at h
    | some w => cases hh : f "height" with
      | none => simp [boxOf, hw, hh] at h
      | some h' =>
        simp only [boxOf, hw, hh, Option.some.injEq] at h
        subst h
        simp [boxOf, moved, hw, hh, hfill, hadd]
  | circle =>
    cases hr : f "r" with
    | none => simp [boxOf, hr] at h
    | some r =>
      simp only [boxOf, hr, Option.some.injEq] at h
      subst h
      simp [boxOf, moved, places, hr, hsub, hadd, hmap]
      exact And.intro
  | ellipse =>
    cases hw : f "rx" with
    | none => simp [boxOf, hw] at h
    | some w => cases hh : f "ry" with
      | none => simp [boxOf, hw, hh] at h
      | some h' =>
        simp only [boxOf, hw, hh, Option.some.injEq] at h
        subst h
        simp [boxOf, moved, places, hw, hh, hsub, hadd, hmap]
        exact And.intro
  | line =>
    simp only [boxOf, Option.some.injEq] at h
    subst h
    simp [boxOf, moved, places, hmap]
    tauto
  | points | path | point => cases h

end Shape

namespace Element

variable {A B : Nat} {el : Element} {s : Shape} {f : Values} {dx dy : Float} {k l : ℚ}

/-- The box of an element is that of its attributes. -/
theorem exists_box? (hs : el.shape? = some s) (hkind : s ≠ .points ∧ s ≠ .path) (hf : ReadsAll A el s.numbers f)
    (hA : A + A ≤ 2 ^ 52) : ∃ b, el.box? = .ok b ∧ Option.Rel (Box.Measures (A + A)) b (s.boxOf f) := by
  have hmono := Nat.le_add_right A A
  unfold Element.box?
  rw [hs]
  cases s with
  | box =>
    obtain ⟨x, hx, hxf⟩ := (hf "x" (by decide)).numberOrZero
    obtain ⟨y, hy, hyf⟩ := (hf "y" (by decide)).numberOrZero
    obtain ⟨w, hw, hwf⟩ := hf "width" (by decide)
    obtain ⟨h, hh, hhf⟩ := hf "height" (by decide)
    simp only [hx, hy, hw, hh]
    unfold Shape.boxOf
    simp only
    generalize f "width" = ow at hwf
    generalize f "height" = oh at hhf
    cases hwf with
    | none => exact ⟨none, rfl, .none⟩
    | some hwf => cases hhf with
      | none => exact ⟨none, rfl, .none⟩
      | some hhf => exact ⟨_, rfl, .some ⟨hxf.mono hmono, hyf.mono hmono, hxf.add hwf hA, hyf.add hhf hA⟩⟩
  | circle =>
    obtain ⟨x, hx, hxf⟩ := (hf "cx" (by decide)).numberOrZero
    obtain ⟨y, hy, hyf⟩ := (hf "cy" (by decide)).numberOrZero
    obtain ⟨r, hr, hrf⟩ := hf "r" (by decide)
    simp only [hx, hy, hr]
    unfold Shape.boxOf
    simp only
    generalize f "r" = o at hrf
    cases hrf with
    | none => exact ⟨none, rfl, .none⟩
    | some hrf => exact ⟨_, rfl, .some ⟨hxf.sub hrf hA, hyf.sub hrf hA, hxf.add hrf hA, hyf.add hrf hA⟩⟩
  | ellipse =>
    obtain ⟨x, hx, hxf⟩ := (hf "cx" (by decide)).numberOrZero
    obtain ⟨y, hy, hyf⟩ := (hf "cy" (by decide)).numberOrZero
    obtain ⟨w, hw, hwf⟩ := hf "rx" (by decide)
    obtain ⟨h, hh, hhf⟩ := hf "ry" (by decide)
    simp only [hx, hy, hw, hh]
    unfold Shape.boxOf
    simp only
    generalize f "rx" = ow at hwf
    generalize f "ry" = oh at hhf
    cases hwf with
    | none => exact ⟨none, rfl, .none⟩
    | some hwf => cases hhf with
      | none => exact ⟨none, rfl, .none⟩
      | some hhf => exact ⟨_, rfl, .some ⟨hxf.sub hwf hA, hyf.sub hhf hA, hxf.add hwf hA, hyf.add hhf hA⟩⟩
  | line =>
    obtain ⟨x1, hx1, hx1f⟩ := (hf "x1" (by decide)).numberOrZero
    obtain ⟨y1, hy1, hy1f⟩ := (hf "y1" (by decide)).numberOrZero
    obtain ⟨x2, hx2, hx2f⟩ := (hf "x2" (by decide)).numberOrZero
    obtain ⟨y2, hy2, hy2f⟩ := (hf "y2" (by decide)).numberOrZero
    simp only [hx1, hy1, hx2, hy2]
    exact ⟨_, rfl, .some ⟨hx1f.mono hmono, hy1f.mono hmono, hx2f.mono hmono, hy2f.mono hmono⟩⟩
  | point => exact ⟨none, rfl, .none⟩
  | points => exact absurd rfl hkind.1
  | path => exact absurd rfl hkind.2

theorem zero_test (hdx : Measures B dx k) (hdy : Measures B dy l) (hmoves : k ≠ 0 ∨ l ≠ 0) :
    (dx == Scalar.zero && dy == Scalar.zero) = false := by
  rw [Bool.and_eq_false_iff, Bool.eq_false_iff, Bool.eq_false_iff, ne_eq, ne_eq,
    hdx.denotes.beq_iff Measures.zero.denotes, hdy.denotes.beq_iff Measures.zero.denotes]
  exact hmoves

/-- A movement along an axis, or along both, changes the attributes. -/
theorem exists_translate (hs : el.shape? = some s) (hkind : s ≠ .points ∧ s ≠ .path) (hf : ReadsAll A el s.numbers f)
    (hdx : Measures B dx k) (hdy : Measures B dy l) (hmoves : k ≠ 0 ∨ l ≠ 0) (hAB : A + 4 * B ≤ 2 ^ 52) :
    ∃ fl, exec (translate dx dy) el = (.ok (), fl) ∧ fl.shape? = some s ∧
      ReadsAll (A + 4 * B) fl s.numbers (s.moved k l f) := by
  unfold translate
  rw [zero_test hdx hdy hmoves, if_neg Bool.false_ne_true, exec_bind_ok (exec_get el)]
  simp only [hs]
  cases s with
  | box | point =>
    obtain ⟨e1, h1, hs1, hf1⟩ := exists_shiftNumber "x" (by decide) hf hdx (by omega)
    obtain ⟨e2, h2, hs2, hf2⟩ := exists_shiftNumber "y" (by decide) hf1 hdy (by omega)
    obtain ⟨e3, h3, hs3, hf3⟩ := exists_fillNumber "x" (by decide) hf2 (hdx.mono (by omega))
    obtain ⟨e4, h4, hs4, hf4⟩ := exists_fillNumber "y" (by decide) hf3 (hdy.mono (by omega))
    simp only
    rw [exec_bind_ok h1, exec_bind_ok h2, exec_bind_ok h3, h4]
    exact ⟨e4, rfl, by rw [hs4, hs3, hs2, hs1, hs], hf4.mono (by omega)⟩
  | circle | ellipse =>
    obtain ⟨e1, h1, hs1, hf1⟩ := exists_shiftNumber "cx" (by decide) hf hdx (by omega)
    obtain ⟨e2, h2, hs2, hf2⟩ := exists_shiftNumber "cy" (by decide) hf1 hdy (by omega)
    simp only
    rw [exec_bind_ok h1, h2]
    exact ⟨e2, rfl, by rw [hs2, hs1, hs], hf2.mono (by omega)⟩
  | line =>
    obtain ⟨e1, h1, hs1, hf1⟩ := exists_shiftNumber "x1" (by decide) hf hdx (by omega)
    obtain ⟨e2, h2, hs2, hf2⟩ := exists_shiftNumber "y1" (by decide) hf1 hdy (by omega)
    obtain ⟨e3, h3, hs3, hf3⟩ := exists_shiftNumber "x2" (by decide) hf2 hdx (by omega)
    obtain ⟨e4, h4, hs4, hf4⟩ := exists_shiftNumber "y2" (by decide) hf3 hdy (by omega)
    simp only
    rw [exec_bind_ok h1, exec_bind_ok h2, exec_bind_ok h3, h4]
    exact ⟨e4, rfl, by rw [hs4, hs3, hs2, hs1, hs], hf4.mono (by omega)⟩
  | points => exact absurd rfl hkind.1
  | path => exact absurd rfl hkind.2

end Element

/-! ## Points that are written -/

namespace Points

variable {B : Nat} {ps : List (Point Float)} {qs : List (Point ℚ)}

theorem split_text (h : ∀ p ∈ ps, Numbers.IsPart (Scalar.fixed p.x) ∧ Numbers.IsPart (Scalar.fixed p.y)) :
    Numbers.split (text ps) = ps.flatMap fun p => [Scalar.fixed p.x, Scalar.fixed p.y] := by
  have hchars : (text ps).toList = [',', ' '].intercalate
      (ps.map fun p => (Scalar.fixed p.x).toList ++ ' ' :: (Scalar.fixed p.y).toList) := by
    unfold text
    rw [String.toList_intercalate, List.map_map]
    congr 1
    refine List.map_congr_left fun p _ => ?_
    simp [String.toList_append]
  unfold Numbers.split
  rw [hchars, Text.wordsWhere_intercalate (by simp [Numbers.isSeparator, Text.isBlank]), List.flatMap_map,
    List.map_flatMap]
  refine List.flatMap_congr fun p hp => ?_
  obtain ⟨hx, hy⟩ := h p hp
  rw [Text.wordsWhere_append_cons (by decide), Text.wordsWhere_word hx, Text.wordsWhere_word hy]
  simp

/-- The numbers of points that are written make up these points again. -/
theorem exists_pairUp (h : List.Forall₂ (Point.Measures B) ps qs) :
    ∃ xs ps', List.Forall₂ (fun w (x : Float) => Scalar.read? w = some x)
        (ps.flatMap fun p => [Scalar.fixed p.x, Scalar.fixed p.y]) xs ∧
      pairUp xs = some ps' ∧ List.Forall₂ (Point.Measures B) ps' qs := by
  induction h with
  | nil => exact ⟨[], [], .nil, rfl, .nil⟩
  | cons hp _ ih =>
    obtain ⟨xs, ps', hread, hpair, hmeasures⟩ := ih
    obtain ⟨x, hx, hxq⟩ := hp.x.exists_read_fixed
    obtain ⟨y, hy, hyq⟩ := hp.y.exists_read_fixed
    have hread? : ∀ {s : String} {z : Float}, Scalar.read s = .ok z → Scalar.read? s = some z := by
      intro s z h
      unfold Scalar.read?
      rw [h]
      rfl
    refine ⟨x :: y :: xs, ⟨x, y⟩ :: ps', .cons (hread? hx) (.cons (hread? hy) hread), ?_, .cons ⟨hxq, hyq⟩ hmeasures⟩
    unfold pairUp
    rw [hpair]
    rfl

/-- Points that are written are read again. -/
theorem exists_parse_text (h : List.Forall₂ (Point.Measures B) ps qs) :
    ∃ ps', parse (text ps) = .ok ps' ∧ List.Forall₂ (Point.Measures B) ps' qs := by
  obtain ⟨xs, ps', hread, hpair, hmeasures⟩ := exists_pairUp h
  have hparts : ∀ p ∈ ps, Numbers.IsPart (Scalar.fixed p.x) ∧ Numbers.IsPart (Scalar.fixed p.y) := by
    clear hread hmeasures
    induction h with
    | nil => simp
    | cons hp _ ih => exact List.forall_mem_cons.2 ⟨⟨hp.x.isPart_fixed, hp.y.isPart_fixed⟩, ih⟩
  rw [← split_text hparts] at hread
  refine ⟨ps', ?_, hmeasures⟩
  unfold parse
  rw [Numbers.parse_eq_ok.2 hread]
  simp only [bind, Except.bind, hpair]
  rfl

end Points

/-! ## The box of a moved element -/

namespace Element

variable {A B : Nat} {el : Element} {s : Shape} {f : Values} {b : Box Float} {dx dy : Float} {k l : ℚ}

/-- What describes an element of this shape are halves of integers of at most this size. -/
structure Measured (B : Nat) (s : Shape) (el : Element) : Prop where
  numbers : ∀ n ∈ s.numbers, ∃ o, Reads B el n o
  points : s = .points → ∀ ps, Points.parse (el.attrs.value "points") = .ok ps → ∀ p ∈ ps, ∃ q, Point.Measures B p q

theorem exec_translate_zero (hdx : Measures B dx 0) (hdy : Measures B dy 0) :
    exec (translate dx dy) el = (.ok (), el) := by
  have hzero : (dx == Scalar.zero && dy == Scalar.zero) = true := by
    rw [Bool.and_eq_true, hdx.denotes.beq_iff Measures.zero.denotes, hdy.denotes.beq_iff Measures.zero.denotes]
    exact ⟨rfl, rfl⟩
  unfold translate
  rw [hzero, if_pos rfl]
  rfl

theorem box?_points (hs : el.shape? = some .points) :
    (el.box? : Except Fault (Option (Box Float))) =
      (Points.parse (el.attrs.value "points")).map Points.box? := by
  unfold box?
  rw [hs]
  simp only
  cases (Points.parse (el.attrs.value "points") : Except Fault (List (Point Float))) <;> rfl

/-- The points of an element are moved. -/
theorem exists_translate_points {ps : List (Point Float)} {qs : List (Point ℚ)} (hs : el.shape? = some .points)
    (hps : Points.parse (el.attrs.value "points") = .ok ps) (hqs : List.Forall₂ (Point.Measures A) ps qs)
    (hdx : Measures B dx k) (hdy : Measures B dy l) (hmoves : k ≠ 0 ∨ l ≠ 0) (hAB : A + B ≤ 2 ^ 52) :
    ∃ fl ps', exec (translate dx dy) el = (.ok (), fl) ∧ fl.box? = .ok (Points.box? ps') ∧
      List.Forall₂ (Point.Measures (A + B)) ps' (qs.map (·.shifted k l)) := by
  obtain ⟨rs, hrs⟩ : ∃ rs, rs = ps.map fun p => (⟨p.x + dx, p.y + dy⟩ : Point Float) := ⟨_, rfl⟩
  have hmoved : List.Forall₂ (Point.Measures (A + B)) rs (qs.map (·.shifted k l)) :=
    hrs ▸ List.rel_map (fun _ _ h => ⟨h.x.add hdx hAB, h.y.add hdy hAB⟩) hqs
  obtain ⟨ps', hparse, hmeasures⟩ := Points.exists_parse_text hmoved
  refine ⟨el.set "points" (Points.text rs), ps', ?_, ?_, hmeasures⟩
  · unfold translate
    rw [zero_test hdx hdy hmoves, if_neg Bool.false_ne_true, exec_bind_ok (exec_get el)]
    simp only [hs]
    rw [exec_bind_ok (exec_get el), hrs]
    simp only [hps]
    rfl
  · have hvalue : (el.set "points" (Points.text rs)).attrs.value "points" = Points.text rs := by
      have hget : (el.set "points" (Points.text rs)).attrs.get? "points" = some (Points.text rs) :=
        (get?_set el "points" "points" _).trans (if_pos rfl)
      unfold Attrs.value
      rw [hget]
      rfl
    rw [box?_points (by simpa using hs), hvalue, hparse]
    rfl

theorem Measured.exists_points (h : el.Measured A .points) {ps : List (Point Float)}
    (hps : Points.parse (el.attrs.value "points") = .ok ps) : ∃ qs, List.Forall₂ (Point.Measures A) ps qs := by
  have : Nonempty (Point ℚ) := ⟨⟨0, 0⟩⟩
  choose! q hq using h.points rfl ps hps
  exact ⟨ps.map q, List.forall₂_map_right_iff.2 (List.forall₂_same.2 hq)⟩

theorem exists_parse_of_box? (hs : el.shape? = some .points) (hb : el.box? = .ok (some b)) :
    ∃ ps, Points.parse (el.attrs.value "points") = .ok ps ∧ Points.box? ps = some b := by
  rw [box?_points hs] at hb
  cases hps : (Points.parse (el.attrs.value "points") : Except Fault (List (Point Float))) with
  | error e =>
    rw [hps] at hb
    cases hb
  | ok ps =>
    rw [hps] at hb
    exact ⟨ps, rfl, Except.ok.inj hb⟩

theorem exists_boxOf (hs : el.shape? = some s) (hkind : s ≠ .points ∧ s ≠ .path) (hf : ReadsAll A el s.numbers f)
    (hb : el.box? = .ok (some b)) (hA : A + A ≤ 2 ^ 52) : ∃ c, s.boxOf f = some c ∧ b.Measures (A + A) c := by
  obtain ⟨ob, hob, hrel⟩ := exists_box? hs hkind hf hA
  cases hb.symm.trans hob
  generalize s.boxOf f = oc at hrel
  cases hrel with
  | some h => exact ⟨_, rfl, h⟩

theorem exists_box?_of_points [Elementary ℚ] (hs : el.shape? = some .points) (hm : el.Measured A .points)
    (hb : el.box? = .ok (some b)) : ∃ ps qs c, Points.parse (el.attrs.value "points") = .ok ps ∧
      List.Forall₂ (Point.Measures A) ps qs ∧ Points.box? qs = some c ∧ b.Measures A c := by
  obtain ⟨ps, hps, hbox⟩ := exists_parse_of_box? hs hb
  obtain ⟨qs, hqs⟩ := hm.exists_points hps
  have hrel := Points.measures_box? hqs
  rw [hbox] at hrel
  generalize hc : Points.box? qs = oc at hrel
  cases hrel with
  | some h => exact ⟨ps, qs, _, hps, hqs, hc, h⟩

theorem Measured.exists_box (hm : el.Measured A s) (hs : el.shape? = some s) (hkind : s ≠ .path)
    (hb : el.box? = .ok (some b)) (hA : A + A ≤ 2 ^ 52) : ∃ c, b.Measures (A + A) c := by
  by_cases hpoints : s = .points
  · subst hpoints
    let := Elementary.rough
    obtain ⟨-, -, c, -, -, -, h⟩ := exists_box?_of_points hs hm hb
    exact ⟨c, h.mono (Nat.le_add_right A A)⟩
  · choose! f hf using hm.numbers
    obtain ⟨c, -, h⟩ := exists_boxOf hs ⟨hpoints, hkind⟩ hf hb hA
    exact ⟨c, h⟩

/-- The movement of single numbers. -/
theorem translate_iff_of_numbers (hs : el.shape? = some s) (hkind : s ≠ .points ∧ s ≠ .path) (hm : el.Measured A s)
    (hb : el.box? = .ok (some b)) (hdx : Measures B dx k) (hdy : Measures B dy l) (hmoves : k ≠ 0 ∨ l ≠ 0)
    (hAB : 2 * A + 8 * B ≤ 2 ^ 52) :
    ∃ fl b', exec (translate dx dy) el = (.ok (), fl) ∧ fl.box? = .ok (some b') ∧ ((b' == b.translate dx dy) = true ↔
      s = .box ∨ (k = 0 ∨ ∀ n ∈ s.places.1, el.has n) ∧ (l = 0 ∨ ∀ n ∈ s.places.2, el.has n)) := by
  choose! f hf using hm.numbers
  obtain ⟨c, hc, hbc⟩ := exists_boxOf hs hkind hf hb (by omega)
  obtain ⟨c', hc', hiff⟩ := Shape.exists_boxOf_moved hc k l
  obtain ⟨fl, hexec, hshape, hmoved⟩ := exists_translate hs hkind hf hdx hdy hmoves (by omega)
  obtain ⟨ob, hob, hrel⟩ := exists_box? hshape hkind hmoved (by omega)
  rw [hc'] at hrel
  cases hrel with
  | some hbc' =>
    refine ⟨fl, _, hexec, hob, ?_⟩
    let := Elementary.rough
    rw [hbc'.beq_iff (hbc.translate hdx hdy (by omega))]
    refine hiff.trans ?_
    have hhas : ∀ {ns : List String}, ns ⊆ s.numbers → ((∀ n ∈ ns, (f n).isSome) ↔ ∀ n ∈ ns, el.has n) := fun hns =>
      forall₂_congr fun n hn => by rw [(hf n (hns hn)).has_eq]
    obtain ⟨hx, hy⟩ := List.append_subset.1 (List.subset_append_left (s.places.1 ++ s.places.2) s.sizes)
    rw [hhas hx, hhas hy]

/-- The movement of points. -/
theorem translate_of_points (hs : el.shape? = some .points) (hm : el.Measured A .points)
    (hb : el.box? = .ok (some b)) (hdx : Measures B dx k) (hdy : Measures B dy l) (hmoves : k ≠ 0 ∨ l ≠ 0)
    (hAB : A + B ≤ 2 ^ 52) :
    ∃ fl b', exec (translate dx dy) el = (.ok (), fl) ∧ fl.box? = .ok (some b') ∧
      (b' == b.translate dx dy) = true := by
  let := Elementary.rough
  obtain ⟨ps, qs, c, hps, hqs, hc, hbc⟩ := exists_box?_of_points hs hm hb
  obtain ⟨fl, ps', hexec, hfl, hps'⟩ := exists_translate_points hs hps hqs hdx hdy hmoves hAB
  have hrel := Points.measures_box? hps'
  rw [Points.box?_map_translate, hc, Option.map_some] at hrel
  generalize Points.box? ps' = ob at hrel hfl
  cases hrel with
  | some hbc' => exact ⟨fl, _, hexec, hfl, (hbc'.beq_iff (hbc.translate hdx hdy hAB)).2 rfl⟩

/-- The box of a moved element is the moved box, unless the movement goes along an axis for which an attribute is
missing: the box is that of zero then, and only a box shape has it filled in. -/
theorem box_translate_iff (hs : el.shape? = some s) (hkind : s ≠ .path) (hm : el.Measured (2 ^ 48) s)
    (hb : el.box? = .ok (some b)) (hdx : Measures (2 ^ 48) dx k) (hdy : Measures (2 ^ 48) dy l) :
    ∃ fl b', exec (translate dx dy) el = (.ok (), fl) ∧ fl.box? = .ok (some b') ∧ ((b' == b.translate dx dy) = true ↔
      s = .box ∨ (k = 0 ∨ ∀ n ∈ s.places.1, el.has n) ∧ (l = 0 ∨ ∀ n ∈ s.places.2, el.has n)) := by
  by_cases hmoves : k ≠ 0 ∨ l ≠ 0
  · by_cases hpoints : s = .points
    · subst hpoints
      obtain ⟨fl, b', hexec, hfl, heq⟩ := translate_of_points hs hm hb hdx hdy hmoves (by norm_num)
      exact ⟨fl, b', hexec, hfl, iff_of_true heq (.inr ⟨.inr (by simp [Shape.places]), .inr (by simp [Shape.places])⟩)⟩
    · exact translate_iff_of_numbers hs ⟨hpoints, hkind⟩ hm hb hdx hdy hmoves (by norm_num)
  · obtain ⟨rfl, rfl⟩ : k = 0 ∧ l = 0 := by simpa using hmoves
    refine ⟨el, b, exec_translate_zero hdx hdy, hb, iff_of_true ?_ (.inr ⟨.inl rfl, .inl rfl⟩)⟩
    obtain ⟨c, hbc⟩ := hm.exists_box hs hkind hb (by norm_num)
    let := Elementary.rough
    rw [hbc.beq_iff (hbc.translate hdx hdy (by norm_num))]
    simp [Box.translate]

/-- An ellipse whose centre is given along one axis only. -/
def lying : Element := .ofAttrs "ellipse" [("cx", "1"), ("rx", "4px"), ("ry", "2.5")]

theorem box_translate_lying :
    let three := Number.ofInt 3
    let zero := Number.ofInt 0
    ∃ b, lying.box? = .ok (some b) ∧
      (∃ fl b', exec (translate three zero) lying = (.ok (), fl) ∧ fl.box? = .ok (some b') ∧
        (b' == b.translate three zero) = true) ∧
      ∃ fl b', exec (translate zero three) lying = (.ok (), fl) ∧ fl.box? = .ok (some b') ∧
        ¬(b' == b.translate zero three) = true := by
  intro three zero
  have hone : Measures (2 ^ 48) (Number.ofInt 1) 1 :=
    ⟨⟨⟨false, 2 ^ 52, -52⟩, by decide +kernel, by norm_num [Number.Exact.value]⟩, ⟨2, by norm_num⟩, by norm_num⟩
  have hthree : Measures (2 ^ 48) three 3 :=
    ⟨⟨⟨false, 3 * 2 ^ 51, -51⟩, by decide +kernel, by norm_num [Number.Exact.value]⟩, ⟨6, by norm_num⟩, by norm_num⟩
  have hfour : Measures (2 ^ 48) (Number.ofInt 4) 4 :=
    ⟨⟨⟨false, 2 ^ 52, -50⟩, by decide +kernel, by norm_num [Number.Exact.value]⟩, ⟨8, by norm_num⟩, by norm_num⟩
  have hhalf : Measures (2 ^ 48) (Number.ofInt 5 / Number.ofInt 2) (5 / 2) :=
    ⟨⟨⟨false, 5 * 2 ^ 50, -51⟩, by decide +kernel, by norm_num [Number.Exact.value]⟩, ⟨5, by norm_num⟩, by norm_num⟩
  have hzero : Measures (2 ^ 48) zero 0 := Measures.zero.mono (Nat.zero_le _)
  have hreads : lying.Measured (2 ^ 48) .ellipse := by
    refine ⟨fun n hn => ?_, nofun⟩
    fin_cases hn
    · exact ⟨some 1, _, rfl, .some hone⟩
    · exact ⟨none, _, rfl, .none⟩
    · exact ⟨some 4, _, rfl, .some hfour⟩
    · exact ⟨some (5 / 2), _, rfl, .some hhalf⟩
  obtain ⟨b, hbox⟩ : ∃ b : Box Float, lying.box? = .ok (some b) := ⟨_, rfl⟩
  obtain ⟨f₁, b₁, hexec₁, hbox₁, hiff₁⟩ := box_translate_iff (s := .ellipse) rfl nofun hreads hbox hthree hzero
  obtain ⟨f₂, b₂, hexec₂, hbox₂, hiff₂⟩ := box_translate_iff (s := .ellipse) rfl nofun hreads hbox hzero hthree
  refine ⟨_, hbox, ⟨f₁, b₁, hexec₁, hbox₁, hiff₁.2 (.inr ⟨.inr ?_, .inl rfl⟩)⟩, f₂, b₂, hexec₂, hbox₂, fun h => ?_⟩
  · simp [Shape.places, lying]
    decide
  · rcases hiff₂.1 h with h | ⟨-, h | h⟩
    · cases h
    · norm_num at h
    · exact absurd (h "cy" (by decide)) (by decide)

/-- A circle at the origin stays there. -/
theorem exists_translate_left :
    ∃ (el fl : Element) (b : Box Float), el.shape? = some .circle ∧ el.box? = .ok (some b) ∧
      exec (translate (Number.ofInt 3) (Number.ofInt 4)) el = (.ok (), fl) ∧ fl.box? = .ok (some b) ∧
      (b == b.translate (Number.ofInt 3) (Number.ofInt 4)) = false :=
  ⟨.ofAttrs "circle" [("r", "5")], .ofAttrs "circle" [("r", "5")], _, rfl, rfl, by decide +kernel, rfl,
    by decide +kernel⟩

end Element

end DiagramMarkup
