import Mathlib
import DiagramMarkup.Element.Segment
import DiagramMarkup.Proofs.Pieces

/-!
# What the box of a path holds

With exact numbers, the box of path data is compared with what the data draws.

1. Segments draw lines and curves (`strokes`). A smooth curve mirrors the last control point of the curve before it, so
   one of its control points is not written (`Segment.implied`).
2. The box is the least one that holds the points that are written: where segments end, and control points
   (`exists_covers_boundsFrom`).
3. A curve lies within every box that holds its control points (`Stroke.holds_point`), so the box holds what is drawn,
   apart from smooth curves whose control point it does not hold (`box_holds_strokes`).
-/

namespace DiagramMarkup

deriving instance DecidableEq for Point, Box

section Holding

variable {K : Type} [LinearOrder K]

/-- The point lies in the box, possibly on its edge. -/
def Box.Holds (b : Box K) (p : Point K) : Prop := (b.x1 ≤ p.x ∧ p.x ≤ b.x2) ∧ b.y1 ≤ p.y ∧ p.y ≤ b.y2

instance (b : Box K) (p : Point K) : Decidable (b.Holds p) := inferInstanceAs (Decidable (_ ∧ _))

/-- The box lies in another one. -/
def Box.Within (b c : Box K) : Prop := (c.x1 ≤ b.x1 ∧ b.x2 ≤ c.x2) ∧ c.y1 ≤ b.y1 ∧ b.y2 ≤ c.y2

theorem Box.within_refl (b : Box K) : b.Within b := ⟨⟨le_rfl, le_rfl⟩, le_rfl, le_rfl⟩

end Holding

namespace Path

variable {K : Type} [Field K]

/-! ## Strokes -/

/-- A part of what is drawn: a straight line, or a curve with its control points. -/
inductive Stroke (K : Type) where
  | line (p q : Point K)
  | quadratic (p c q : Point K)
  | cubic (p c d q : Point K)

namespace Stroke

/-- The ends of the stroke and its control points. -/
def controls : Stroke K → List (Point K)
  | .line p q => [p, q]
  | .quadratic p c q => [p, c, q]
  | .cubic p c d q => [p, c, d, q]

/-- The points of the stroke, from its start at zero to its end at one. -/
def point (t : K) : Stroke K → Point K
  | .line p q => ⟨(1 - t) * p.x + t * q.x, (1 - t) * p.y + t * q.y⟩
  | .quadratic p c q =>
    ⟨(1 - t) ^ 2 * p.x + 2 • ((1 - t) * t * c.x) + t ^ 2 * q.x,
      (1 - t) ^ 2 * p.y + 2 • ((1 - t) * t * c.y) + t ^ 2 * q.y⟩
  | .cubic p c d q =>
    ⟨(1 - t) ^ 3 * p.x + 3 • ((1 - t) ^ 2 * t * c.x) + 3 • ((1 - t) * t ^ 2 * d.x) + t ^ 3 * q.x,
      (1 - t) ^ 3 * p.y + 3 • ((1 - t) ^ 2 * t * c.y) + 3 • ((1 - t) * t ^ 2 * d.y) + t ^ 3 * q.y⟩

end Stroke

/-- The last control point of the segment before, if that is a curve. -/
inductive Trail (K : Type) where
  | other
  | quadratic (c : Point K)
  | cubic (d : Point K)

/-- The point opposite to `c`, as far from `p` as it. -/
def mirror (p c : Point K) : Point K := ⟨p.x + (p.x - c.x), p.y + (p.y - c.y)⟩

/-- The control point of a smooth quadratic curve from `p` on. -/
def Trail.quadraticControl (p : Point K) : Trail K → Point K
  | .quadratic c => mirror p c
  | _ => p

/-- The first control point of a smooth cubic curve from `p` on. -/
def Trail.cubicControl (p : Point K) : Trail K → Point K
  | .cubic d => mirror p d
  | _ => p

/-- Where drawing goes on: the current point, the start of the current figure, and what the last segment leaves. -/
structure Tip (K : Type) where
  cur : Point K
  start : Point K
  trail : Trail K

namespace Tip

/-- Where drawing starts. -/
def origin : Tip K := ⟨⟨0, 0⟩, ⟨0, 0⟩, .other⟩

/-- A point that may count from the current one. -/
def place (tip : Tip K) (rel : Bool) (p : Point K) : Point K :=
  if rel then ⟨tip.cur.x + p.x, tip.cur.y + p.y⟩ else p

/-- The pen at the tip. -/
def pen (tip : Tip K) : Pen K := ⟨tip.cur, tip.start⟩

end Tip

namespace Segment

/-- Where the segment ends. -/
def target (tip : Tip K) : Segment K → Point K
  | .move rel p | .line rel p | .cubic rel _ _ p | .smoothCubic rel _ p | .quadratic rel _ p | .smoothQuadratic rel p
  | .arc rel _ _ _ _ _ p => tip.place rel p
  | .horizontal rel x => ⟨if rel then tip.cur.x + x else x, tip.cur.y⟩
  | .vertical rel y => ⟨tip.cur.x, if rel then tip.cur.y + y else y⟩
  | .close => tip.start

/-- The control points that are written. -/
def written (tip : Tip K) : Segment K → List (Point K)
  | .cubic rel c d _ => [tip.place rel c, tip.place rel d]
  | .smoothCubic rel c _ | .quadratic rel c _ => [tip.place rel c]
  | _ => []

/-- The control point that is not written. -/
def implied (tip : Tip K) : Segment K → Option (Point K)
  | .smoothCubic _ _ _ => some (tip.trail.cubicControl tip.cur)
  | .smoothQuadratic _ _ => some (tip.trail.quadraticControl tip.cur)
  | _ => none

/-- What the segment draws; arcs are left out. -/
def stroke? (tip : Tip K) (s : Segment K) : Option (Stroke K) :=
  match s with
  | .move _ _ | .arc _ _ _ _ _ _ _ => none
  | .line _ _ | .horizontal _ _ | .vertical _ _ | .close => some (.line tip.cur (s.target tip))
  | .quadratic rel c _ => some (.quadratic tip.cur (tip.place rel c) (s.target tip))
  | .smoothQuadratic _ _ => some (.quadratic tip.cur (tip.trail.quadraticControl tip.cur) (s.target tip))
  | .cubic rel c d _ => some (.cubic tip.cur (tip.place rel c) (tip.place rel d) (s.target tip))
  | .smoothCubic rel d _ => some (.cubic tip.cur (tip.trail.cubicControl tip.cur) (tip.place rel d) (s.target tip))

/-- The control point for a smooth curve that follows. -/
def trail (tip : Tip K) : Segment K → Trail K
  | .cubic rel _ d _ | .smoothCubic rel d _ => .cubic (tip.place rel d)
  | .quadratic rel c _ => .quadratic (tip.place rel c)
  | .smoothQuadratic _ _ => .quadratic (tip.trail.quadraticControl tip.cur)
  | _ => .other

/-- The points that the segment writes: its control points and its end. -/
def corners (tip : Tip K) (s : Segment K) : List (Point K) :=
  match s with
  | .close => []
  | s => s.written tip ++ [s.target tip]

/-- The segment is an arc. -/
def isArc : Segment K → Bool
  | .arc _ _ _ _ _ _ _ => true
  | _ => false

/-- The segment begins a figure. -/
def isMove : Segment K → Bool
  | .move _ _ => true
  | _ => false

/-- Where drawing goes on behind the segment. -/
def next (tip : Tip K) (s : Segment K) : Tip K :=
  ⟨s.target tip, if s.isMove then s.target tip else tip.start, s.trail tip⟩

end Segment

/-- What segments draw, with the control points that are not written. -/
def strokes : Tip K → List (Segment K) → List (Stroke K × Option (Point K))
  | _, [] => []
  | tip, s :: ss => ((s.stroke? tip).map (·, s.implied tip)).toList ++ strokes (s.next tip) ss

/-- The points that segments write: where they end, and control points. -/
def corners : Tip K → List (Segment K) → List (Point K)
  | _, [] => []
  | tip, s :: ss => s.corners tip ++ corners (s.next tip) ss

/-- Strokes start at the tip, and have the control points of their segment. -/
theorem mem_controls {tip : Tip K} {s : Segment K} {k : Stroke K} (hk : s.stroke? tip = some k) {p : Point K}
    (hp : p ∈ k.controls) : p ∈ s.implied tip ∨ p = tip.cur ∨ p = tip.start ∨ p ∈ s.corners tip := by
  cases s <;> cases hk <;>
    simp only [Stroke.controls, List.mem_cons, List.not_mem_nil, or_false] at hp <;>
    simp only [Segment.corners, Segment.written, Segment.implied, Segment.target, Option.mem_def, Option.some.injEq,
      List.mem_append, List.mem_cons, List.not_mem_nil, or_false, false_or] at hp ⊢ <;>
    tauto

theorem next_cases (tip : Tip K) (s : Segment K) :
    ((s.next tip).cur = tip.start ∨ (s.next tip).cur ∈ s.corners tip) ∧
      ((s.next tip).start = tip.start ∨ (s.next tip).start ∈ s.corners tip) := by
  cases s <;> simp [Segment.next, Segment.isMove, Segment.corners, Segment.target, Segment.written]

/-- The control points of strokes are written, or implied, or where drawing starts. -/
theorem mem_strokes {tip : Tip K} {ss : List (Segment K)} {k : Stroke K × Option (Point K)} (hk : k ∈ strokes tip ss)
    {p : Point K} (hp : p ∈ k.1.controls) : p ∈ k.2 ∨ p = tip.cur ∨ p = tip.start ∨ p ∈ corners tip ss := by
  induction ss generalizing tip with
  | nil => cases hk
  | cons s ss ih =>
    have hcorner : ∀ {q}, q ∈ s.corners tip → q ∈ corners tip (s :: ss) := fun h => List.mem_append_left _ h
    rcases List.mem_append.1 hk with hk | hk
    · obtain ⟨stroke, hstroke, rfl⟩ := Option.map_eq_some_iff.1 (Option.mem_toList.1 hk)
      exact (mem_controls hstroke hp).imp_right (Or.imp_right (Or.imp_right hcorner))
    · obtain ⟨hcur, hstart⟩ := next_cases tip s
      rcases ih hk with h | rfl | rfl | h
      · exact .inl h
      · exact .inr (.inr (hcur.imp_right hcorner))
      · exact .inr (.inr (hstart.imp_right hcorner))
      · exact .inr (.inr (.inr (List.mem_append_right _ h)))

/-! ## Curves in boxes -/

/-- A quadratic curve is drawn by a line that moves along two others. -/
theorem point_quadratic (t : K) (p c q : Point K) : (Stroke.quadratic p c q).point t =
    (Stroke.line ((Stroke.line p c).point t) ((Stroke.line c q).point t)).point t := by
  simp only [Stroke.point, Point.mk.injEq]
  constructor <;> ring

/-- A cubic curve is drawn by a line that moves along two quadratic curves. -/
theorem point_cubic (t : K) (p c d q : Point K) : (Stroke.cubic p c d q).point t =
    (Stroke.line ((Stroke.quadratic p c d).point t) ((Stroke.quadratic c d q).point t)).point t := by
  simp only [Stroke.point, Point.mk.injEq]
  constructor <;> ring

section Curves

variable [LinearOrder K] [IsStrictOrderedRing K] {b : Box K} {t : K}

theorem mix_mem {lo hi x y : K} (ht : 0 ≤ t) (ht' : t ≤ 1) (hx : lo ≤ x ∧ x ≤ hi) (hy : lo ≤ y ∧ y ≤ hi) :
    lo ≤ (1 - t) * x + t * y ∧ (1 - t) * x + t * y ≤ hi := by
  have hrest : 0 ≤ 1 - t := sub_nonneg.2 ht'
  constructor
  · calc lo = (1 - t) * lo + t * lo := by ring
      _ ≤ (1 - t) * x + t * y := add_le_add (mul_le_mul_of_nonneg_left hx.1 hrest) (mul_le_mul_of_nonneg_left hy.1 ht)
  · calc (1 - t) * x + t * y ≤ (1 - t) * hi + t * hi :=
        add_le_add (mul_le_mul_of_nonneg_left hx.2 hrest) (mul_le_mul_of_nonneg_left hy.2 ht)
      _ = hi := by ring

/-- Lines stay within a box. -/
theorem holds_line {p q : Point K} (ht : 0 ≤ t) (ht' : t ≤ 1) (hp : b.Holds p) (hq : b.Holds q) :
    b.Holds ((Stroke.line p q).point t) :=
  ⟨mix_mem ht ht' hp.1 hq.1, mix_mem ht ht' hp.2 hq.2⟩

/-- A stroke stays within a box that holds its ends and its control points. -/
theorem Stroke.holds_point {k : Stroke K} (h : ∀ p ∈ k.controls, b.Holds p) (ht : 0 ≤ t) (ht' : t ≤ 1) :
    b.Holds (k.point t) := by
  have hquadratic : ∀ {p c q}, b.Holds p → b.Holds c → b.Holds q → b.Holds ((Stroke.quadratic p c q).point t) := by
    intro p c q hp hc hq
    rw [point_quadratic]
    exact holds_line ht ht' (holds_line ht ht' hp hc) (holds_line ht ht' hc hq)
  cases k with
  | line p q => exact holds_line ht ht' (h p (by simp [controls])) (h q (by simp [controls]))
  | quadratic p c q =>
    exact hquadratic (h p (by simp [controls])) (h c (by simp [controls])) (h q (by simp [controls]))
  | cubic p c d q =>
    rw [point_cubic]
    exact holds_line ht ht'
      (hquadratic (h p (by simp [controls])) (h c (by simp [controls])) (h d (by simp [controls])))
      (hquadratic (h c (by simp [controls])) (h d (by simp [controls])) (h q (by simp [controls])))

end Curves

/-! ## The box -/

section Bounds

variable [LinearOrder K] [FloorRing K] [Elementary K] {o : Option (Box K)} {ps : List (Point K)}

/-- The box is the least one that holds the points, if there are any. -/
def Covers (o : Option (Box K)) (ps : List (Point K)) : Prop :=
  match o with
  | none => ps = []
  | some b => b.normalized = b ∧ ∀ c : Box K, b.Within c ↔ ∀ p ∈ ps, c.Holds p

theorem Covers.include? (h : Covers o ps) (p : Point K) : Covers (include? o p) (ps ++ [p]) := by
  cases o with
  | none =>
    obtain rfl : ps = [] := h
    exact ⟨Box.normalized_eq_iff.2 ⟨le_rfl, le_rfl⟩, fun c => by simp [Box.Within, Box.Holds, Box.ofPoint]⟩
  | some b =>
    obtain ⟨hb, hleast⟩ := h
    have hsorted := Box.normalized_eq_iff.1 hb
    have hunion : b.union (Box.ofPoint p.x p.y) = ⟨min b.x1 p.x, min b.y1 p.y, max b.x2 p.x, max b.y2 p.y⟩ := by
      unfold Box.union
      rw [hb, Box.normalized_eq_iff.2 ⟨le_rfl, le_rfl⟩]
      rfl
    show _ ∧ _
    rw [hunion]
    refine ⟨Box.normalized_eq_iff.2 ⟨?_, ?_⟩, fun c => ?_⟩
    · exact (min_le_right _ _).trans (le_max_right _ _)
    · exact (min_le_right _ _).trans (le_max_right _ _)
    · rw [List.forall_mem_append, ← hleast, List.forall_mem_singleton]
      simp only [Box.Within, Box.Holds, le_min_iff, max_le_iff]
      tauto

theorem Covers.foldl (h : Covers o ps) (qs : List (Point K)) : Covers (qs.foldl Path.include? o) (ps ++ qs) := by
  induction qs generalizing o ps with
  | nil => rwa [List.append_nil]
  | cons q qs ih =>
    have hrest := ih (h.include? q)
    rwa [List.append_assoc] at hrest

/-- The box holds the points that it covers. -/
theorem Covers.exists_holds (h : Covers o ps) {p : Point K} (hp : p ∈ ps) :
    ∃ b, o = some b ∧ ∀ q ∈ ps, b.Holds q := by
  cases o with
  | none =>
    obtain rfl : ps = [] := h
    cases hp
  | some b => exact ⟨b, rfl, (h.2 b).1 b.within_refl⟩

/-- A segment moves the pen to its end and writes its points, with the samples of an arc before them. -/
theorem exists_draw_eq (tip : Tip K) (s : Segment K) : ∃ samples : List (Point K),
    draw tip.pen s = ((s.next tip).pen, samples ++ s.corners tip) ∧ (s.isArc = false → samples = []) := by
  have hplace : ∀ (rel : Bool) (p : Point K),
      shiftBy (if rel then tip.pen.cur else ⟨Scalar.zero, Scalar.zero⟩) p = tip.place rel p := by
    intro rel p
    cases rel with
    | true => rfl
    | false =>
      have hx : (Scalar.zero : K) + p.x = p.x := by rw [Scalar.zero_eq, zero_add]
      have hy : (Scalar.zero : K) + p.y = p.y := by rw [Scalar.zero_eq, zero_add]
      show (⟨Scalar.zero + p.x, Scalar.zero + p.y⟩ : Point K) = p
      rw [hx, hy]
  unfold draw
  cases s with
  | arc rel rx ry tilt large sweep p =>
    simp only [hplace]
    exact ⟨_, rfl, nofun⟩
  | horizontal | vertical | close => exact ⟨[], rfl, fun _ => rfl⟩
  | _ =>
    simp only [hplace]
    exact ⟨[], rfl, fun _ => rfl⟩

/-- The box of segments covers what they write, besides the samples of arcs. -/
theorem exists_covers_boundsFrom (h : Covers o ps) (tip : Tip K) (ss : List (Segment K)) :
    ∃ qs, Covers (boundsFrom tip.pen o ss) (ps ++ qs) ∧ (∀ p ∈ corners tip ss, p ∈ qs) ∧
      ((∀ s ∈ ss, s.isArc = false) → qs = corners tip ss) := by
  -- The points so far are a parameter: the box is enlarged by those of one segment after the other.
  induction ss generalizing o ps tip with
  | nil => exact ⟨[], by rwa [List.append_nil], nofun, fun _ => rfl⟩
  | cons s ss ih =>
    obtain ⟨samples, hdraw, hsamples⟩ := exists_draw_eq tip s
    obtain ⟨qs, hcovers, hcorners, hexact⟩ := ih (h.foldl (samples ++ s.corners tip)) (s.next tip)
    refine ⟨samples ++ s.corners tip ++ qs, ?_, ?_, fun harc => ?_⟩
    · rw [boundsFrom, hdraw, ← List.append_assoc]
      exact hcovers
    · intro p hp
      rcases List.mem_append.1 hp with hp | hp
      · exact List.mem_append_left _ (List.mem_append_right _ hp)
      · exact List.mem_append_right _ (hcorners p hp)
    · obtain ⟨hs, hss⟩ := List.forall_mem_cons.1 harc
      rw [hsamples hs, hexact hss, List.nil_append]
      rfl

/-- The box of path data that begins with a move holds every stroke, unless this is a smooth curve with an implied
control point outside of the box. Without arcs, it is the least box that holds the points that are written. -/
theorem box_holds_strokes [IsStrictOrderedRing K] {d : String} {ss : List (Segment K)} (hss : segments d = .ok ss)
    (hmove : ∀ s ∈ ss.head?, s.isMove = true) :
    ∃ o, box? d = .ok o ∧
      (∀ k ∈ strokes .origin ss, ∃ b, o = some b ∧
        ((∀ c ∈ k.2, b.Holds c) → ∀ t, 0 ≤ t → t ≤ 1 → b.Holds (k.1.point t))) ∧
      ((∀ s ∈ ss, s.isArc = false) → ∀ b, o = some b → ∀ c, b.Within c ↔ ∀ p ∈ corners .origin ss, c.Holds p) := by
  obtain ⟨qs, hcovers, hcorners, hexact⟩ := exists_covers_boundsFrom (o := none) rfl .origin ss
  rw [List.nil_append] at hcovers
  have horigin : (Tip.origin : Tip K).pen = ⟨⟨Scalar.zero, Scalar.zero⟩, ⟨Scalar.zero, Scalar.zero⟩⟩ := by
    simp [Tip.pen, Tip.origin]
  refine ⟨boundsFrom Tip.origin.pen none ss, by rw [box?, hss, horigin]; rfl, fun k hk => ?_, fun harc b hb c => ?_⟩
  · cases ss with
    | nil => cases hk
    | cons m ss =>
      obtain ⟨rel, p, rfl⟩ : ∃ rel p, m = .move rel p := by
        cases m <;> first | exact ⟨_, _, rfl⟩ | cases hmove _ rfl
      -- The figure begins where the move ends.
      have hstart : Tip.origin.place rel p ∈ corners .origin (.move rel p :: ss) := List.mem_cons_self
      obtain ⟨b, hb, hall⟩ := hcovers.exists_holds (hcorners _ hstart)
      refine ⟨b, hb, fun himplied t ht ht' => Stroke.holds_point (fun q hq => ?_) ht ht'⟩
      have hrest : k ∈ strokes (Segment.next .origin (.move rel p)) ss := hk
      rcases mem_strokes hrest hq with h | rfl | rfl | h
      · exact himplied q h
      · exact hall _ (hcorners _ hstart)
      · exact hall _ (hcorners _ hstart)
      · exact hall _ (hcorners _ (List.mem_append_right _ h))
  · rw [hb, hexact harc] at hcovers
    exact hcovers.2 c

end Bounds

/-- Rational numbers that are read as whole numbers in decimal digits. -/
@[reducible] def wholeNumbers : Elementary ℚ :=
  { Elementary.rough with read := fun s => (Number.readInt s).map Int.cast }

/-- Two curves and the line back, of which the second curve mirrors a control point of the first within the box. -/
theorem box_holds_mirrored :
    letI := wholeNumbers
    ∃ ss : List (Segment ℚ), segments "M0 0c1 2 3 2 4 0s3 -2 4 0z" = .ok ss ∧ (strokes .origin ss).length = 3 ∧
      ∃ b : Box ℚ, box? "M0 0c1 2 3 2 4 0s3 -2 4 0z" = .ok (some b) ∧
        ∀ k ∈ strokes .origin ss, ∀ t, 0 ≤ t → t ≤ 1 → b.Holds (k.1.point t) := by
  let := wholeNumbers
  have hss : segments "M0 0c1 2 3 2 4 0s3 -2 4 0z" =
      .ok [.move false ⟨0, 0⟩, .cubic true ⟨1, 2⟩ ⟨3, 2⟩ ⟨4, 0⟩, .smoothCubic true ⟨3, -2⟩ ⟨(4 : ℚ), 0⟩, .close] := rfl
  have hbox : box? "M0 0c1 2 3 2 4 0s3 -2 4 0z" = .ok (some ⟨(0 : ℚ), -2, 8, 2⟩) := by
    rw [box?, hss]
    exact congrArg Except.ok (by decide +kernel)
  have himplied : ∀ c ∈ (strokes .origin [.move false ⟨0, 0⟩, .cubic true ⟨1, 2⟩ ⟨3, 2⟩ ⟨4, 0⟩,
      .smoothCubic true ⟨3, -2⟩ ⟨(4 : ℚ), 0⟩, .close]).filterMap Prod.snd, (⟨0, -2, 8, 2⟩ : Box ℚ).Holds c := by
    decide +kernel
  obtain ⟨o, ho, hstrokes, -⟩ := box_holds_strokes hss (by rintro s ⟨⟩; rfl)
  cases hbox.symm.trans ho
  refine ⟨_, hss, rfl, _, hbox, fun k hk => ?_⟩
  obtain ⟨b, hb, hholds⟩ := hstrokes k hk
  cases hb
  exact hholds fun c hc => himplied c (List.mem_filterMap.2 ⟨k, hk, hc⟩)

/-- A smooth quadratic curve leaves the box on the side of the control point that it mirrors. -/
theorem curve_leaves_box :
    letI := wholeNumbers
    ∃ ss : List (Segment ℚ), segments "M 0 0 Q 5 10 10 0 T 20 0" = .ok ss ∧ (∀ s ∈ ss.head?, s.isMove = true) ∧
      box? "M 0 0 Q 5 10 10 0 T 20 0" = .ok (some ⟨(0 : ℚ), 0, 20, 10⟩) ∧
      ∃ k ∈ strokes .origin ss, k.1.point (1 / 2) = ⟨15, -5⟩ ∧
        ¬ (⟨0, 0, 20, 10⟩ : Box ℚ).Holds (k.1.point (1 / 2)) := by
  let := wholeNumbers
  have hss : segments "M 0 0 Q 5 10 10 0 T 20 0" =
      .ok [.move false ⟨0, 0⟩, .quadratic false ⟨5, 10⟩ ⟨10, 0⟩, .smoothQuadratic false ⟨(20 : ℚ), 0⟩] := rfl
  have hpoint : (Stroke.quadratic ⟨10, 0⟩ ⟨15, -10⟩ ⟨(20 : ℚ), 0⟩).point (1 / 2) = ⟨15, -5⟩ := by
    norm_num [Stroke.point]
  have hbox : box? "M 0 0 Q 5 10 10 0 T 20 0" = .ok (some ⟨(0 : ℚ), 0, 20, 10⟩) := by
    rw [box?, hss]
    exact congrArg Except.ok (by decide +kernel)
  have hstrokes : strokes .origin [.move false ⟨0, 0⟩, .quadratic false ⟨5, 10⟩ ⟨10, 0⟩,
      .smoothQuadratic false ⟨(20 : ℚ), 0⟩] = [(.quadratic ⟨0, 0⟩ ⟨5, 10⟩ ⟨10, 0⟩, none),
        (.quadratic ⟨10, 0⟩ ⟨15, -10⟩ ⟨20, 0⟩, some ⟨15, -10⟩)] := by
    norm_num [strokes, Segment.stroke?, Segment.implied, Segment.next, Segment.target, Segment.trail, Segment.isMove,
      Trail.quadraticControl, mirror, Tip.place, Tip.origin]
  refine ⟨_, hss, by rintro s ⟨⟩; rfl, hbox, _, hstrokes ▸ List.mem_cons_of_mem _ List.mem_cons_self, hpoint, ?_⟩
  rw [hpoint]
  decide +kernel

end Path

end DiagramMarkup
