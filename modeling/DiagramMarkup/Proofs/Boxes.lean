import DiagramMarkup.Element.Points
import DiagramMarkup.Proofs.Exact
import DiagramMarkup.Proofs.Measures

/-!
# Boxes of measures

Boxes whose coordinates are halves of integers are moved, joined and cut without an error, so what holds of them with
exact numbers holds of doubles.
-/

namespace DiagramMarkup

/-- The point is moved. -/
def Point.shifted {K : Type} [Field K] (p : Point K) (k l : K) : Point K := ⟨p.x + k, p.y + l⟩

/-- The coordinates of the point stand for halves of integers of at most this size. -/
structure Point.Measures (B : Nat) (p : Point Float) (q : Point ℚ) : Prop where
  x : Number.Measures B p.x q.x
  y : Number.Measures B p.y q.y

/-- The coordinates of the box stand for halves of integers of at most this size. -/
structure Box.Measures (B : Nat) (b : Box Float) (c : Box ℚ) : Prop where
  x1 : Number.Measures B b.x1 c.x1
  y1 : Number.Measures B b.y1 c.y1
  x2 : Number.Measures B b.x2 c.x2
  y2 : Number.Measures B b.y2 c.y2

/-- The common part of two boxes, which is turned over when they are apart. -/
def Box.overlap {α : Type} [Scalar α] (b c : Box α) : Box α :=
  ⟨Scalar.greatest b.normalized.x1 c.normalized.x1, Scalar.greatest b.normalized.y1 c.normalized.y1,
    Scalar.least b.normalized.x2 c.normalized.x2, Scalar.least b.normalized.y2 c.normalized.y2⟩

/-- The boxes have no point in common along an axis. -/
def Box.Separate {α : Type} [Scalar α] (b c : Box α) : Prop :=
  (b.overlap c).width < Scalar.zero ∨ (b.overlap c).height < Scalar.zero

instance {α : Type} [Scalar α] (b c : Box α) : Decidable (b.Separate c) := inferInstanceAs (Decidable (_ ∨ _))

theorem Box.intersect?_eq {α : Type} [Scalar α] (b c : Box α) :
    b.intersect? c = if b.Separate c then none else some (b.overlap c) := by
  have hbool : b.intersect? c = if (b.overlap c).width < Scalar.zero || (b.overlap c).height < Scalar.zero then none
    else some (b.overlap c) := rfl
  rw [hbool]
  by_cases h : b.Separate c
  · rw [if_pos h, if_pos (by simpa [Separate] using h)]
  · rw [if_neg h, if_neg (by simpa [Separate] using h)]

namespace Box.Measures

variable {A B : Nat} {b b' : Box Float} {c c' : Box ℚ}

theorem mono (h : b.Measures A c) (hAB : A ≤ B) : b.Measures B c :=
  ⟨h.x1.mono hAB, h.y1.mono hAB, h.x2.mono hAB, h.y2.mono hAB⟩

theorem beq_iff (h : b.Measures A c) (h' : b'.Measures B c') : (b == b') = true ↔ c = c' := by
  have hbeq : (b == b') = (b.x1 == b'.x1 && (b.y1 == b'.y1 && (b.x2 == b'.x2 && b.y2 == b'.y2))) := rfl
  simp only [hbeq, Bool.and_eq_true, h.x1.denotes.beq_iff h'.x1.denotes, h.y1.denotes.beq_iff h'.y1.denotes,
    h.x2.denotes.beq_iff h'.x2.denotes, h.y2.denotes.beq_iff h'.y2.denotes]
  cases c
  cases c'
  simp

theorem ofPoint {p : Point Float} {q : Point ℚ} (h : p.Measures B q) :
    (Box.ofPoint p.x p.y).Measures B (Box.ofPoint q.x q.y) := ⟨h.x, h.y, h.x, h.y⟩

variable [Elementary ℚ]

theorem translate {dx dy : Float} {k l : ℚ} (h : b.Measures A c) (hdx : Number.Measures B dx k)
    (hdy : Number.Measures B dy l) (hAB : A + B ≤ 2 ^ 52) : (b.translate dx dy).Measures (A + B) (c.translate k l) :=
  ⟨h.x1.add hdx hAB, h.y1.add hdy hAB, h.x2.add hdx hAB, h.y2.add hdy hAB⟩

theorem normalized (h : b.Measures A c) : b.normalized.Measures A c.normalized :=
  ⟨h.x1.least h.x2, h.y1.least h.y2, h.x1.greatest h.x2, h.y1.greatest h.y2⟩

theorem union (h : b.Measures A c) (h' : b'.Measures A c') : (b.union b').Measures A (c.union c') :=
  ⟨h.normalized.x1.least h'.normalized.x1, h.normalized.y1.least h'.normalized.y1,
    h.normalized.x2.greatest h'.normalized.x2, h.normalized.y2.greatest h'.normalized.y2⟩

theorem width (h : b.Measures A c) (hA : A + A ≤ 2 ^ 52) : Number.Measures (A + A) b.width c.width :=
  h.x2.sub h.x1 hA

theorem height (h : b.Measures A c) (hA : A + A ≤ 2 ^ 52) : Number.Measures (A + A) b.height c.height :=
  h.y2.sub h.y1 hA

theorem expandSides {t r u l : Float} {t' r' u' l' : ℚ} (h : b.Measures A c) (ht : Number.Measures B t t')
    (hr : Number.Measures B r r') (hu : Number.Measures B u u') (hl : Number.Measures B l l') (hAB : A + B ≤ 2 ^ 52) :
    (b.expandSides t r u l).Measures (A + B) (c.expandSides t' r' u' l') :=
  ⟨h.normalized.x1.sub hl hAB, h.normalized.y1.sub ht hAB, h.normalized.x2.add hr hAB, h.normalized.y2.add hu hAB⟩

theorem overlap (h : b.Measures A c) (h' : b'.Measures A c') : (b.overlap b').Measures A (c.overlap c') :=
  ⟨h.normalized.x1.greatest h'.normalized.x1, h.normalized.y1.greatest h'.normalized.y1,
    h.normalized.x2.least h'.normalized.x2, h.normalized.y2.least h'.normalized.y2⟩

theorem intersect? (h : b.Measures A c) (h' : b'.Measures A c') (hA : A + A ≤ 2 ^ 52) :
    Option.Rel (Box.Measures A) (b.intersect? b') (c.intersect? c') := by
  have hoverlap := h.overlap h'
  have hwidth : (b.overlap b').width < Scalar.zero ↔ (c.overlap c').width < Scalar.zero :=
    Scalar.zero_eq (K := ℚ) ▸ (hoverlap.width hA).denotes.lt_iff Number.Measures.zero.denotes
  have hheight : (b.overlap b').height < Scalar.zero ↔ (c.overlap c').height < Scalar.zero :=
    Scalar.zero_eq (K := ℚ) ▸ (hoverlap.height hA).denotes.lt_iff Number.Measures.zero.denotes
  have hseparate : b.Separate b' ↔ c.Separate c' := or_congr hwidth hheight
  rw [intersect?_eq, intersect?_eq]
  by_cases hsep : c.Separate c'
  · rw [if_pos hsep, if_pos (hseparate.2 hsep)]
    exact .none
  · rw [if_neg hsep, if_neg (mt hseparate.1 hsep)]
    exact .some hoverlap

end Box.Measures

namespace Box

variable {K : Type} [Field K] [LinearOrder K] [IsStrictOrderedRing K] [FloorRing K] [Elementary K]

theorem translate_union (b c : Box K) (k l : K) :
    (b.union c).translate k l = (b.translate k l).union (c.translate k l) := by
  have hmin : ∀ x y d : K, min (x + d) (y + d) = min x y + d := fun x y d => min_add_add_right x y d
  have hmax : ∀ x y d : K, max (x + d) (y + d) = max x y + d := fun x y d => max_add_add_right x y d
  unfold union normalized translate
  simp only [Scalar.least_eq_min, Scalar.greatest_eq_max, hmin, hmax]

end Box

namespace Points

variable {K : Type} [Field K] [LinearOrder K] [IsStrictOrderedRing K] [FloorRing K] [Elementary K]

/-- The box of points that are moved is moved. -/
theorem box?_map_translate (ps : List (Point K)) (k l : K) :
    box? (ps.map (·.shifted k l)) = (box? ps).map (·.translate k l) := by
  cases ps with
  | nil => rfl
  | cons p ps =>
    have hfold : ∀ (qs : List (Point K)) (b : Box K),
        (qs.map (·.shifted k l)).foldl (fun b q => b.union (Box.ofPoint q.x q.y)) (b.translate k l) =
          (qs.foldl (fun b q => b.union (Box.ofPoint q.x q.y)) b).translate k l := by
      intro qs
      induction qs with
      | nil => exact fun _ => rfl
      | cons q qs ih =>
        intro b
        have hpoint : Box.ofPoint (q.shifted k l).x (q.shifted k l).y = (Box.ofPoint q.x q.y).translate k l := rfl
        rw [List.map_cons, List.foldl_cons, List.foldl_cons, ← ih, Box.translate_union, hpoint]
    unfold box?
    rw [List.map_cons, Option.map_some]
    exact congrArg some (hfold ps (Box.ofPoint p.x p.y))

theorem measures_box? {B : Nat} [Elementary ℚ] {ps : List (Point Float)} {qs : List (Point ℚ)}
    (h : List.Forall₂ (Point.Measures B) ps qs) : Option.Rel (Box.Measures B) (box? ps) (box? qs) := by
  cases h with
  | nil => exact .none
  | cons hp hrest => exact .some (List.rel_foldl (fun _ _ hb _ _ hq => hb.union (.ofPoint hq)) (.ofPoint hp) hrest)

end Points

end DiagramMarkup
