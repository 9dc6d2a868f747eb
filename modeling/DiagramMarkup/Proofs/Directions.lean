import DiagramMarkup.Proofs.Prices

/-!
# Directions of routes

The path that is found between two ends leaves the start in its direction and comes to the goal from ahead of it, and no
part of it can be cut short (`Taut`). Simplifying keeps this at an end unless the path turns back at the corner next to
it: then the straight run that replaces the pieces on both sides of the corner leads elsewhere (`route_directions`).

1. A path in which no inner point is in line with its neighbours is simplified to itself (`foldl_bent`).
2. In a taut path only the points next to the ends are in line with their neighbours. So at each end at most the first
   corner is dropped, and the second if it stands where the end stands (`foldl_corners`).
-/

namespace DiagramMarkup.Route

open Scalar

variable {K : Type} [Field K] [LinearOrder K] [FloorRing K] [Elementary K] {a b c q z : Point K} {d e : Dir}
  {ps cs rest out : List (Point K)}

/-! ## Points along a direction -/

/-- How far the point lies in the direction. -/
def reach (d : Dir) (c : Point K) : K :=
  match d with
  | .up => -c.y
  | .down => c.y
  | .left => -c.x
  | .right => c.x

/-- Which line along the direction the point lies on. -/
def lane (d : Dir) (c : Point K) : K :=
  match d with
  | .up | .down => c.x
  | .left | .right => c.y

theorem eq_iff_lane (d : Dir) : a = b ↔ lane d a = lane d b ∧ reach d a = reach d b := by
  obtain ⟨x, y⟩ := a
  obtain ⟨x', y'⟩ := b
  cases d <;> simp [lane, reach, and_comm]

theorem inLine_iff_lane (d : Dir) : inLine a b c = true ↔
    (lane d a = lane d b ∧ lane d b = lane d c) ∨ (reach d a = reach d b ∧ reach d b = reach d c) := by
  rw [inLine_iff]
  cases d <;> simp [lane, reach, or_comm]

theorem inLine_comm : inLine a b c = inLine c b a := by
  rw [Bool.eq_iff_iff, inLine_iff, inLine_iff]
  constructor <;> rintro (⟨h, h'⟩ | ⟨h, h'⟩) <;> simp [h, h']

section Ahead

variable [IsStrictOrderedRing K]

theorem ahead_iff_lane : ahead c d q = true ↔ lane d q = lane d c ∧ reach d c < reach d q := by
  rw [ahead_iff]
  cases d <;> simp [lane, reach]

/-- What is in line with a point and one ahead of it lies on the line in the direction. -/
theorem lane_eq_of_inLine (h : ahead c d a = true) (hline : inLine c a q = true) : lane d q = lane d c := by
  obtain ⟨hlane, hreach⟩ := ahead_iff_lane.1 h
  rcases (inLine_iff_lane d).1 hline with ⟨-, hq⟩ | ⟨ha, -⟩
  · exact hq.symm.trans hlane
  · exact absurd ha hreach.ne

/-- If a point lies ahead, so does every other one on the way there. -/
theorem ahead_of_between (h : ahead c e q = true) (hne : a ≠ c) (ha : lane d a = lane d c) (hq : lane d q = lane d c)
    (hqa : reach d q ≤ reach d a) (hac : reach d a ≤ reach d c) : ahead c e a = true := by
  have hne' := mt (eq_iff_lane d).2 hne
  rw [ahead_iff_lane] at h ⊢
  cases d <;> cases e <;> simp_all [lane, reach] <;> grind

/-- If one point lies ahead of a second and the second ahead of a third on the same line, then the one lies ahead of the
third too, or the third and the second face each other. -/
theorem ahead_or_facing (h : ahead c e a = true) (h' : ahead a d q = true) (hline : lane d c = lane d a) :
    ahead c e q = true ∨ ahead a d c = true := by
  rw [ahead_iff_lane] at h h' ⊢
  rw [ahead_iff_lane]
  cases d <;> cases e <;> simp_all [lane, reach] <;> grind

end Ahead

/-! ## Simplified paths -/

/-- No inner point is in line with its neighbours. -/
def Bent : List (Point K) → Prop
  | a :: b :: c :: rest => inLine a b c = false ∧ Bent (b :: c :: rest)
  | _ => True

theorem same_eq_false (h : b ≠ c) : (b.x == c.x && b.y == c.y) = false := by
  obtain ⟨x, y⟩ := b
  obtain ⟨x', y'⟩ := c
  rw [← Bool.not_eq_true]
  simpa using h

theorem addCorner_singleton (h : b ≠ c) : addCorner [b] c = [c, b] := by simp [addCorner, same_eq_false h]

theorem addCorner_of_ne (h : b ≠ c) :
    addCorner (b :: a :: out) c = if inLine a b c then c :: a :: out else c :: b :: a :: out := by
  simp [addCorner, same_eq_false h]

/-- Adding a corner changes nothing behind the latest one. -/
theorem exists_addCorner_eq (out : List (Point K)) (c : Point K) : ∃ pre, addCorner out c = pre ++ out.tail := by
  unfold addCorner
  split
  · exact ⟨[c], rfl⟩
  · next b =>
    split
    · exact ⟨[b], rfl⟩
    · exact ⟨[c, b], rfl⟩
  · next b a rest =>
    split
    · exact ⟨[b], rfl⟩
    · split
      · exact ⟨[c], rfl⟩
      · exact ⟨[c, b], rfl⟩

/-- A path without inner points in line is simplified to itself. -/
theorem foldl_bent : ∀ {rest : List (Point K)} {a b : Point K} {out : List (Point K)},
    Bent (a :: b :: rest) → (b :: rest).IsChain (· ≠ ·) →
      rest.foldl addCorner (b :: a :: out) = rest.reverse ++ b :: a :: out
  | [], _, _, _, _, _ => rfl
  | c :: rest, a, b, out, hbent, hne => by
    obtain ⟨hbc, hrest⟩ := List.isChain_cons_cons.1 hne
    rw [List.foldl_cons, addCorner_of_ne hbc, if_neg (by simp [hbent.1]), foldl_bent hbent.2 hrest]
    simp

/-- What simplifying keeps of the corners behind a point: all of them, all but the first, which is in line, or all but
the first two, if the second stands where the point stands. -/
inductive Kept (s : Point K) : (cs kept : List (Point K)) → Prop
  | all {cs : List (Point K)} (h : Bent (s :: cs)) : Kept s cs cs
  | butFirst {c q : Point K} {rest : List (Point K)} (h : inLine s c q = true) (hq : q ≠ s ∨ rest = []) :
    Kept s (c :: q :: rest) (q :: rest)
  | butTwo {c q : Point K} {rest : List (Point K)} (h : inLine s c s = true) : Kept s (c :: s :: q :: rest) (q :: rest)

/-- A line from `s` to `c` and back does not come along with the line on. -/
theorem not_inLine_of_bent {s : Point K} (hline : inLine s c q = true) (hbent : inLine c q z = false) (hcq : c ≠ q)
    (hqs : q ≠ s) : inLine s q z = false := by
  rw [← Bool.not_eq_true, inLine_iff] at hbent ⊢
  rw [inLine_iff] at hline
  have hcq' := mt (eq_iff_lane .down).2 hcq
  have hqs' := mt (eq_iff_lane .down).2 hqs
  simp only [lane, reach] at hcq' hqs'
  grind

theorem foldl_corners {s : Point K} (hbent : Bent cs) (hne : (s :: cs).IsChain (· ≠ ·))
    (hal : (s :: cs).IsChain Aligned) (hcs : cs ≠ []) :
    ∃ kept, Kept s cs kept ∧ cs.foldl addCorner [s] = kept.reverse ++ [s] := by
  match cs, hcs with
  | [c], _ =>
    exact ⟨[c], .all trivial, by rw [List.foldl_cons, addCorner_singleton (List.isChain_cons_cons.1 hne).1]; rfl⟩
  | c :: q :: rest, _ =>
    obtain ⟨hsc, hcs⟩ := List.isChain_cons_cons.1 hne
    obtain ⟨hcq, hq⟩ := List.isChain_cons_cons.1 hcs
    rw [List.foldl_cons, addCorner_singleton hsc]
    cases hline : inLine s c q with
    | false =>
      have hall : Bent (s :: c :: q :: rest) := ⟨hline, hbent⟩
      exact ⟨_, .all hall, by rw [foldl_bent hall hcs]; simp⟩
    | true =>
      rw [List.foldl_cons, addCorner_of_ne hcq, if_pos hline]
      match rest with
      | [] => exact ⟨[q], .butFirst hline (.inr rfl), rfl⟩
      | r :: rest =>
        by_cases hqs : q = s
        · subst hqs
          obtain ⟨hqr, hrest⟩ := List.isChain_cons_cons.1 hq
          have hqr' : Aligned q r := (List.isChain_cons_cons.1 (List.isChain_cons_cons.1 hal.tail).2).1
          have hflat : inLine q q r = true := inLine_iff.2 (hqr'.imp (fun h => ⟨rfl, h⟩) fun h => ⟨rfl, h⟩)
          refine ⟨r :: rest, .butTwo hline, ?_⟩
          rw [List.foldl_cons, addCorner_of_ne hqr, if_pos hflat, foldl_bent hbent.2 hrest]
          simp
        · have hturn : Bent (s :: q :: r :: rest) := ⟨not_inLine_of_bent hline hbent.1 hcq hqs, hbent.2⟩
          exact ⟨q :: r :: rest, .butFirst hline (.inl hqs), by rw [foldl_bent hturn hq]; simp⟩

theorem reverse_simplify (s g : Point K) (cs : List (Point K)) :
    (simplify (s :: (cs ++ [g]))).reverse = addCorner (cs.foldl addCorner [s]) g := by
  unfold simplify
  rw [List.reverse_reverse, List.foldl_cons, List.foldl_append]
  rfl

/-! ## Lines from a point -/

/-- The line sets off from the point in the direction. -/
def SetsOff (c : Point K) (d : Dir) (ps : List (Point K)) : Prop := ∃ q rest, ps = c :: q :: rest ∧ ahead c d q

/-- At its first corner the line turns back: it goes on over its first piece, to where the point is no longer behind. -/
def TurnsBack (c : Point K) (d : Dir) (ps : List (Point K)) : Prop :=
  ∃ q r rest, ps = c :: q :: r :: rest ∧ inLine c q r ∧ ¬ ahead c d r

theorem setsOff_iff : SetsOff c d (c :: q :: rest) ↔ ahead c d q = true := by
  constructor
  · rintro ⟨q, rest, h, hq⟩
    cases h
    exact hq
  · exact fun h => ⟨q, rest, rfl, h⟩

theorem turnsBack_iff : TurnsBack c d (c :: q :: z :: rest) ↔ inLine c q z = true ∧ ¬ ahead c d z := by
  constructor
  · rintro ⟨q, r, rest, h, hr⟩
    cases h
    exact hr
  · exact fun h => ⟨q, z, rest, rfl, h⟩

/-- A path from `s` to `g` over the corners in between that no straight piece can shorten: no corner is in line with the
corners next to it, the way over the first corner does not come to a point that lies ahead, nor does the way over the
last one come from there, and the way over two corners does not join points that face each other. -/
structure Taut (s : Point K) (d : Dir) (g : Point K) (e : Dir) (cs : List (Point K)) : Prop where
  distinct : (s :: (cs ++ [g])).IsChain (· ≠ ·)
  aligned : (s :: (cs ++ [g])).IsChain Aligned
  bent : Bent cs
  first : ∀ c ∈ (cs ++ [g]).head?, ahead s d c
  last : ∀ c ∈ (s :: cs).getLast?, ahead g e c
  start : ∀ {c q rest}, cs = c :: q :: rest → inLine s c q = true → ¬ ahead s d q
  goal : ∀ {init c q}, cs = init ++ [c, q] → inLine c q g = true → ¬ ahead g e c
  direct : ∀ {c q}, cs = [c, q] → inLine s c q = true → inLine s q g = true → ahead s d g → ¬ ahead g e s

namespace Taut

variable {s g : Point K}

theorem exists_kept (h : Taut s d g e cs) (hcs : cs ≠ []) :
    ∃ kept, Kept s cs kept ∧ (simplify (s :: (cs ++ [g]))).reverse = addCorner (kept.reverse ++ [s]) g := by
  have hne : (s :: cs).IsChain (· ≠ ·) :=
    List.IsChain.left_of_append (show (s :: cs ++ [g]).IsChain (· ≠ ·) from h.distinct)
  have hal : (s :: cs).IsChain Aligned :=
    List.IsChain.left_of_append (show (s :: cs ++ [g]).IsChain Aligned from h.aligned)
  obtain ⟨kept, hkept, hfold⟩ := foldl_corners h.bent hne hal hcs
  exact ⟨kept, hkept, by rw [reverse_simplify, hfold]⟩

/-- If two corners are kept, the first is the next point of the simplified path. -/
theorem exists_simplify_eq {kept : List (Point K)}
    (h : ps.reverse = addCorner ((a :: b :: kept).reverse ++ [s]) g) : ∃ tail, ps = s :: a :: tail := by
  obtain ⟨pre, hpre⟩ := exists_addCorner_eq ((a :: b :: kept).reverse ++ [s]) g
  obtain ⟨z, l, hl⟩ := List.exists_cons_of_ne_nil (mt List.reverse_eq_nil_iff.1 (List.cons_ne_nil b kept))
  have hcorners : (a :: b :: kept).reverse ++ [s] = z :: (l ++ [a, s]) := by
    rw [List.reverse_cons, hl]
    simp
  rw [hpre, hcorners, List.tail_cons] at h
  exact ⟨(pre ++ l).reverse, by rw [← List.reverse_reverse ps, h]; simp⟩

/-- The first corner that is kept is the next point, unless it is the only one and the goal is in line. -/
theorem simplify_cases {kept : List (Point K)} (h : ps.reverse = addCorner ((a :: kept).reverse ++ [s]) g)
    (hne : kept = [] → a ≠ g) :
    (∃ tail, ps = s :: a :: tail) ∨ kept = [] ∧ inLine s a g = true ∧ ps = [s, g] := by
  cases kept with
  | nil =>
    rw [List.reverse_singleton, List.singleton_append, addCorner_of_ne (hne rfl), List.reverse_eq_iff] at h
    by_cases hline : inLine s a g = true
    · rw [if_pos hline] at h
      exact .inr ⟨rfl, hline, h⟩
    · rw [if_neg hline] at h
      exact .inl ⟨[g], h⟩
  | cons b kept => exact .inl (exists_simplify_eq h)

variable [IsStrictOrderedRing K]

/-- If the way over two corners turns back at the first and goes on in line, the goal does not lie ahead. -/
theorem not_ahead_goal (h : Taut s d g e [c, q]) (hline : inLine s c q = true) (hgoal : inLine s q g = true) :
    ¬ ahead s d g := by
  intro hg
  have hlane : lane d q = lane d s := lane_eq_of_inLine (h.first c rfl) hline
  obtain ⟨hlaneg, hreach⟩ := ahead_iff_lane.1 hg
  have hback : reach d q ≤ reach d s := by
    have hq := h.start rfl hline
    rw [ahead_iff_lane, not_and, not_lt] at hq
    exact hq hlane
  have hsg : s ≠ g := fun hsg => hreach.ne (by rw [hsg])
  have hfacing : ahead g e s :=
    ahead_of_between (h.last q rfl) hsg hlaneg.symm (hlane.trans hlaneg.symm) hback hreach.le
  exact h.direct rfl hline hgoal hg hfacing

/-- If the way turns back at the first corner and this one is dropped, the simplified path does not set off. -/
theorem not_setsOff_of_back (h : Taut s d g e (c :: q :: rest)) (hline : inLine s c q = true)
    (hps : ps.reverse = addCorner ((q :: rest).reverse ++ [s]) g) : ¬ SetsOff s d ps := by
  have hback : ¬ ahead s d q := h.start rfl hline
  have hqg : rest = [] → q ≠ g := by
    rintro rfl
    exact (List.isChain_cons_cons.1 h.distinct.tail.tail).1
  rcases simplify_cases hps hqg with ⟨tail, rfl⟩ | ⟨rfl, hgoal, rfl⟩
  · rwa [setsOff_iff]
  · rw [setsOff_iff]
    exact h.not_ahead_goal hline hgoal

/-- The same where the way comes back to the start, so that two corners are dropped. -/
theorem not_setsOff_of_return (h : Taut s d g e (c :: s :: z :: rest))
    (hps : ps.reverse = addCorner ((z :: rest).reverse ++ [s]) g) : ¬ SetsOff s d ps := by
  -- Behind the start the way bends, so the next corner does not lie ahead.
  have hside : lane d z ≠ lane d s := by
    intro hz
    have hbent : inLine c s z = false := h.bent.1
    rw [← Bool.not_eq_true, inLine_iff_lane d] at hbent
    exact hbent (.inl ⟨(ahead_iff_lane.1 (h.first c rfl)).1, hz.symm⟩)
  have hzg : rest = [] → z ≠ g := by
    rintro rfl
    exact (List.isChain_cons_cons.1 h.distinct.tail.tail.tail).1
  rcases simplify_cases hps hzg with ⟨tail, rfl⟩ | ⟨rfl, hgoal, rfl⟩
  · rw [setsOff_iff, ahead_iff_lane]
    exact fun hz => hside hz.1
  · rw [setsOff_iff, ahead_iff_lane]
    rintro ⟨-, hreach⟩
    rcases (inLine_iff_lane d).1 hgoal with ⟨hz, -⟩ | ⟨hz, hg⟩
    · exact hside hz.symm
    · exact hreach.ne (hz.trans hg)

omit [IsStrictOrderedRing K] in
/-- The path sets off in the direction of the start and comes to the goal from ahead of it. -/
theorem setsOff (h : Taut s d g e cs) :
    SetsOff s d (s :: (cs ++ [g])) ∧ SetsOff g e (s :: (cs ++ [g])).reverse := by
  constructor
  · cases cs with
    | nil => exact setsOff_iff.2 (h.first g rfl)
    | cons c rest => exact setsOff_iff.2 (h.first c rfl)
  · rcases List.eq_nil_or_concat' cs with rfl | ⟨init, c, rfl⟩
    · exact setsOff_iff.2 (h.last s rfl)
    · have hpath : (s :: (init ++ [c] ++ [g])).reverse = g :: c :: (init.reverse ++ [s]) := by simp
      rw [hpath, setsOff_iff]
      exact h.last c (by rw [← List.cons_append, List.getLast?_concat]; rfl)

/-- The simplified path sets off in the direction of the start unless the path turns back at its first corner. -/
theorem setsOff_start_iff (h : Taut s d g e cs) :
    SetsOff s d (simplify (s :: (cs ++ [g]))) ↔ ¬ TurnsBack s d (s :: (cs ++ [g])) := by
  match cs with
  | [] =>
    have hsg : s ≠ g := (List.isChain_cons_cons.1 h.distinct).1
    have hroute : simplify [s, g] = [s, g] := by
      rw [← List.reverse_inj]
      exact (reverse_simplify s g []).trans (addCorner_singleton hsg)
    refine iff_of_true ?_ ?_
    · show SetsOff s d (simplify [s, g])
      rw [hroute]
      exact setsOff_iff.2 (h.first g rfl)
    · exact fun ⟨q, r, rest, hq, _⟩ => nomatch hq
  | [c] =>
    have hsc : s ≠ c := (List.isChain_cons_cons.1 h.distinct).1
    have hcg : c ≠ g := (List.isChain_cons_cons.1 h.distinct.tail).1
    have hroute : (simplify [s, c, g]).reverse = if inLine s c g then [g, s] else [g, c, s] := by
      rw [← addCorner_of_ne hcg, ← addCorner_singleton hsc]
      exact reverse_simplify s g [c]
    show SetsOff s d (simplify [s, c, g]) ↔ ¬ TurnsBack s d [s, c, g]
    rw [turnsBack_iff]
    rw [List.reverse_eq_iff] at hroute
    by_cases hline : inLine s c g = true
    · rw [hroute, if_pos hline]
      show SetsOff s d [s, g] ↔ _
      rw [setsOff_iff]
      simp [hline]
    · rw [hroute, if_neg hline]
      show SetsOff s d [s, c, g] ↔ _
      rw [setsOff_iff]
      simp [hline, h.first c rfl]
  | c :: q :: rest =>
    have hfirst : ahead s d c = true := h.first c rfl
    obtain ⟨kept, hkept, hroute⟩ := h.exists_kept (List.cons_ne_nil c (q :: rest))
    show SetsOff s d (simplify (s :: (c :: q :: rest ++ [g]))) ↔ ¬ TurnsBack s d (s :: c :: q :: (rest ++ [g]))
    rw [turnsBack_iff]
    generalize simplify (s :: (c :: q :: rest ++ [g])) = ps at hroute ⊢
    cases hkept with
    | all hbent =>
      obtain ⟨tail, rfl⟩ := exists_simplify_eq hroute
      rw [setsOff_iff]
      simp [hfirst, hbent.1]
    | butFirst hline _ =>
      exact iff_of_false (h.not_setsOff_of_back hline hroute) (not_not.2 ⟨hline, h.start rfl hline⟩)
    | butTwo hline => exact iff_of_false (h.not_setsOff_of_return hroute) (not_not.2 ⟨hline, h.start rfl hline⟩)

/-- Where the last two corners are kept, the last piece is one of the path, or it replaces two of its pieces. -/
theorem setsOff_goal_of_common (h : Taut s d g e cs) {kept : List (Point K)} (pre front front' : List (Point K))
    (hpre : 2 ≤ pre.length) (hkept : kept.reverse ++ [s] = pre ++ front) (hcs : cs.reverse ++ [s] = pre ++ front') :
    SetsOff g e (addCorner (kept.reverse ++ [s]) g) ↔ ¬ TurnsBack g e (g :: (cs.reverse ++ [s])) := by
  match pre, hpre with
  | z :: w :: pre, _ =>
    have hlast : (s :: cs).getLast? = some z := by
      rw [← List.head?_reverse, List.reverse_cons, hcs]
      rfl
    have hz : ahead g e z := h.last z hlast
    have hzg : z ≠ g := fun hzg => (ahead_iff_lane.1 hz).2.ne (by rw [hzg])
    rw [hkept, hcs, List.cons_append, List.cons_append, List.cons_append, List.cons_append, turnsBack_iff,
      addCorner_of_ne hzg, inLine_comm]
    by_cases hline : inLine g z w = true
    · rw [if_pos hline, setsOff_iff]
      simp [hline]
    · rw [if_neg hline, setsOff_iff]
      simp [hline, hz]

/-- The same where the way over two corners turns back at the first, so that only the last corner is kept. -/
theorem setsOff_goal_of_back (h : Taut s d g e [c, q]) (hline : inLine s c q = true) :
    SetsOff g e (addCorner [q, s] g) ↔ ¬ TurnsBack g e [g, q, c, s] := by
  have hcq : c ≠ q := (List.isChain_cons_cons.1 h.distinct.tail).1
  have hqg : q ≠ g := (List.isChain_cons_cons.1 h.distinct.tail.tail).1
  have hc : lane d c = lane d s := (ahead_iff_lane.1 (h.first c rfl)).1
  have hq : lane d q = lane d s := lane_eq_of_inLine (h.first c rfl) hline
  -- The goal is in line with the corners if and only if it lies on the line in the direction of the start.
  have hside : inLine c q g = true ↔ lane d g = lane d s := by
    rw [inLine_iff_lane d]
    constructor
    · rintro (⟨-, hg⟩ | ⟨hreach, -⟩)
      · exact hg.symm.trans hq
      · exact absurd ((eq_iff_lane d).2 ⟨hc.trans hq.symm, hreach⟩) hcq
    · exact fun hg => .inl ⟨hc.trans hq.symm, hq.trans hg.symm⟩
  rw [addCorner_of_ne hqg, turnsBack_iff, inLine_comm (a := g), hside]
  by_cases hgoal : inLine s q g = true
  · rw [if_pos hgoal, setsOff_iff]
    by_cases hg : lane d g = lane d s
    · have hcs : [c, q] = [] ++ [c, q] := rfl
      have hnot : ¬ ahead g e c := h.goal hcs (hside.2 hg)
      refine iff_of_false (fun hgs => ?_) (not_not.2 ⟨hg, hnot⟩)
      rcases ahead_or_facing hgs (h.first c rfl) hg with hgc | hsg
      · exact hnot hgc
      · exact h.not_ahead_goal hline hgoal hsg
    · have hqs : q = s := by
        rcases (inLine_iff_lane d).1 hgoal with ⟨-, hqg⟩ | ⟨hreach, -⟩
        · exact absurd (hqg.symm.trans hq) hg
        · exact (eq_iff_lane d).2 ⟨hq, hreach.symm⟩
      refine iff_of_true ?_ (fun hback => hg hback.1)
      rw [← hqs]
      exact h.last q rfl
  · rw [if_neg hgoal, setsOff_iff]
    refine iff_of_true (h.last q rfl) fun hback => hgoal ?_
    exact (inLine_iff_lane d).2 (.inl ⟨hq.symm, hq.trans hback.1.symm⟩)

/-- The simplified path comes to the goal from ahead of it unless the path turns back at its last corner. -/
theorem setsOff_goal_iff (h : Taut s d g e cs) :
    SetsOff g e (simplify (s :: (cs ++ [g]))).reverse ↔ ¬ TurnsBack g e (s :: (cs ++ [g])).reverse := by
  have hpath : (s :: (cs ++ [g])).reverse = g :: (cs.reverse ++ [s]) := by simp
  by_cases hcs : cs = []
  · subst hcs
    have hsg : s ≠ g := (List.isChain_cons_cons.1 h.distinct).1
    have hroute : (simplify (s :: ([] ++ [g]))).reverse = [g, s] :=
      (reverse_simplify s g []).trans (addCorner_singleton hsg)
    rw [hroute, setsOff_iff]
    exact iff_of_true (h.last s rfl) fun ⟨q, r, rest, hq, _⟩ => nomatch hq
  · obtain ⟨kept, hkept, hroute⟩ := h.exists_kept hcs
    rw [hroute, hpath]
    cases hkept with
    | all hbent =>
      refine h.setsOff_goal_of_common (cs.reverse ++ [s]) [] [] ?_ (by simp) (by simp)
      have := List.length_pos_of_ne_nil hcs
      simp
      omega
    | @butFirst c q rest hline hq =>
      cases rest with
      | nil => exact h.setsOff_goal_of_back hline
      | cons x rest =>
        exact h.setsOff_goal_of_common (q :: x :: rest).reverse [s] [c, s] (by simp) (by simp) (by simp)
    | @butTwo c x rest hline =>
      exact h.setsOff_goal_of_common (s :: x :: rest).reverse [] [c, s] (by simp) (by simp) (by simp)

end Taut

/-! ## Paths that are found -/

/-- Inside a chain, every element stands between two others. -/
theorem neighbours_of_isChain {α : Type} {R : α → α → Prop} : ∀ {l : List α} {a b : α},
    (a :: (l ++ [b])).IsChain R → ∀ x ∈ l, (∃ u, R u x) ∧ ∃ v, R x v
  | [], _, _, _ => by simp
  | x :: l, a, b, h => by
    rw [List.cons_append] at h
    obtain ⟨hax, hrest⟩ := List.isChain_cons_cons.1 h
    obtain ⟨y, l', hl⟩ : ∃ y l', l ++ [b] = y :: l' := List.exists_cons_of_ne_nil (by simp)
    have hxy : R x y := by
      rw [hl] at hrest
      exact (List.isChain_cons_cons.1 hrest).1
    exact List.forall_mem_cons.2 ⟨⟨⟨a, hax⟩, y, hxy⟩, neighbours_of_isChain hrest⟩

namespace Plan

variable {p : Plan K} {u v w i j t : Nat} {labels : List (Label K)} {inner : List Nat} [IsStrictOrderedRing K]

theorem cost_of_x (penalty : K) (h : a.x = b.x) :
    p.cost penalty a b = (if onMidline p.midX a.x then |b.y - a.y| / 2 else |b.y - a.y|) + penalty := by
  unfold cost
  simp only [absolute_eq, two_eq, h, sub_self, abs_zero, zero_add, beq_self_eq_true, Bool.true_and]
  by_cases hy : a.y = b.y <;> simp [hy]

theorem cost_of_y (penalty : K) (h : a.y = b.y) :
    p.cost penalty a b = (if onMidline p.midY a.y then |b.x - a.x| / 2 else |b.x - a.x|) + penalty := by
  unfold cost
  simp only [absolute_eq, two_eq, h, sub_self, abs_zero, add_zero, beq_self_eq_true, Bool.true_and]
  by_cases hx : a.x = b.x <;> simp [hx]

/-- One straight piece saves the penalty of the second of two pieces. -/
theorem cost_add_le (penalty : K) (h : inLine a b c = true) :
    p.cost penalty a c + penalty ≤ p.cost penalty a b + p.cost penalty b c := by
  rcases inLine_iff.1 h with ⟨hab, hbc⟩ | ⟨hab, hbc⟩
  · have hlen : |c.y - a.y| ≤ |b.y - a.y| + |c.y - b.y| := by
      rw [add_comm]
      exact abs_sub_le c.y b.y a.y
    rw [cost_of_x penalty hab, cost_of_x penalty hbc, cost_of_x penalty (hab.trans hbc), ← hab]
    split <;> linarith
  · have hlen : |c.x - a.x| ≤ |b.x - a.x| + |c.x - b.x| := by
      rw [add_comm]
      exact abs_sub_le c.x b.x a.x
    rw [cost_of_y penalty hab, cost_of_y penalty hbc, cost_of_y penalty (hab.trans hbc), ← hab]
    split <;> linarith

theorem ne_of_edge (h : p.Regular) (huv : p.graph.Edge u v) : p.spot u ≠ p.spot v := by
  have differ : ∀ {c d : Point K}, c.x ≠ d.x ∨ c.y ≠ d.y → c ≠ d := by
    rintro c d hcd rfl
    simp at hcd
  obtain ⟨rfl | ⟨c, hu⟩, rfl | ⟨d, hv⟩⟩ := edge_cases huv
  · rw [Plan.spot, Plan.spot, pointOf_start, pointOf_goal]
    exact differ (ne_of_ahead (edge_direct huv))
  · rw [Plan.spot, Plan.spot, pointOf_start, pointOf_corner hv]
    exact differ (ne_of_ahead ((edge_start_iff h hv).1 huv).1)
  · rw [Plan.spot, Plan.spot, pointOf_corner hu, pointOf_goal]
    exact (differ (ne_of_ahead ((edge_goal_iff h hu).1 huv).1)).symm
  · rw [Plan.spot, Plan.spot, pointOf_corner hu, pointOf_corner hv]
    exact differ ((corner_ne_iff h hu hv).2 ((edge_corner_iff h hu hv).1 huv).1)

omit [IsStrictOrderedRing K] in
/-- The start and the goal are joined directly if and only if they face each other. -/
theorem edge_direct_iff : p.graph.Edge p.corners.length (p.corners.length + 1) ↔
    ahead p.start p.startDir p.goal ∧ ahead p.goal p.goalDir p.start := by
  unfold Graph.Edge
  rw [size_graph, and_iff_right (by omega), and_iff_right (by omega)]
  simp [graph]

theorem ne_of_trail (h : p.Regular) (htrail : [u, v, w].IsChain (p.graph.Trails labels)) : u ≠ w := by
  have hone : ∀ {u v c}, p.graph.cost? u v = some c → 1 ≤ c := one_le_cost? h
  obtain ⟨huv, hvw⟩ := List.isChain_cons_cons.1 htrail
  have htight : p.graph.isTight labels w v := (List.isChain_cons_cons.1 hvw).1.2
  obtain ⟨-, -, e, -, -, he, -⟩ := Graph.isTight_iff.1 htight
  obtain ⟨d, hde, hd⟩ := Graph.lt_of_isTight hone htight he
  obtain ⟨b, hbd, hb⟩ := Graph.lt_of_isTight hone huv.2 hd
  rintro rfl
  rw [hb] at he
  cases he
  exact absurd (hbd.trans hde) (lt_irrefl _)

/-- The way back from the goal, over some inner nodes. -/
structure Traced (p : Plan K) (labels : List (Label K)) (inner : List Nat) : Prop where
  finished : p.graph.Finished p.corners.length (p.corners.length + 1) labels
  trail : (p.corners.length :: (inner ++ [p.corners.length + 1])).IsChain (p.graph.Trails labels)

namespace Traced

variable (h : p.Traced labels inner) (hreg : p.Regular)
include h

omit [IsStrictOrderedRing K] in
theorem edge (huv : p.graph.Trails labels u v) : p.graph.Edge u v := by
  obtain ⟨d, c, e, hd, hc, he, -⟩ := Graph.isTight_iff.1 huv.2
  have hlength := h.finished.length
  exact ⟨hlength ▸ Graph.lt_of_distOf hd, hlength ▸ Graph.lt_of_distOf he, by rw [hc]; rfl⟩

include hreg

/-- No edge saves a penalty on the way back over a few edges. -/
theorem not_edge_of_saving {rest : List Nat} (htrail : (u :: v :: rest).IsChain (p.graph.Trails labels))
    (hlast : (u :: v :: rest).getLast? = some w) (hshort : rest.length ≤ 2)
    (hsave : ∀ {k}, p.graph.Walk w u (u :: v :: rest) k → p.cost p.penalty (p.spot u) (p.spot w) + p.penalty ≤ k) :
    ¬ p.graph.Edge u w := by
  rintro ⟨-, -, hsome⟩
  obtain ⟨c, hc⟩ := Option.isSome_iff_exists.1 hsome
  obtain ⟨k, hwalk, hle⟩ := h.finished.le_cost_of_trail htrail hlast hc
  have hdear := hsave hwalk
  rw [← cost?_eq hc] at hdear
  have hslack : ((v :: rest).length : K) * Graph.tolerance ≤ 3 * Graph.tolerance :=
    mul_le_mul_of_nonneg_right (by exact_mod_cast Nat.succ_le_succ hshort) Graph.tolerance_pos.le
  linarith [one_le_penalty hreg, tolerance_lt_fifth (K := K)]

/-- No edge leads straight along two edges of the way back. -/
theorem not_edge (htrail : [u, v, w].IsChain (p.graph.Trails labels))
    (hline : inLine (p.spot u) (p.spot v) (p.spot w) = true) : ¬ p.graph.Edge u w := by
  refine h.not_edge_of_saving hreg htrail rfl (by simp) fun {k} hwalk => ?_
  obtain ⟨c, k₁, hc, h₁, rfl⟩ := hwalk.exists_step
  obtain ⟨c', k₂, hc', h₂, rfl⟩ := h₁.exists_step
  have hsave := cost_add_le (p := p) p.penalty hline
  rw [← cost?_eq hc, ← cost?_eq hc'] at hsave
  have hrest : 0 ≤ k₂ := h₂.nonneg fun hc => zero_lt_one.trans_le (one_le_cost? hreg hc)
  linarith

/-- No edge leads straight along three edges of the way back. -/
theorem not_edge_over_two (htrail : [u, i, v, w].IsChain (p.graph.Trails labels))
    (hline : inLine (p.spot u) (p.spot i) (p.spot v) = true)
    (hline' : inLine (p.spot u) (p.spot v) (p.spot w) = true) : ¬ p.graph.Edge u w := by
  refine h.not_edge_of_saving hreg htrail rfl (by simp) fun {k} hwalk => ?_
  obtain ⟨c, k₁, hc, h₁, rfl⟩ := hwalk.exists_step
  obtain ⟨c', k₂, hc', h₂, rfl⟩ := h₁.exists_step
  obtain ⟨c'', k₃, hc'', h₃, rfl⟩ := h₂.exists_step
  have hsave := cost_add_le (p := p) p.penalty hline
  have hsave' := cost_add_le (p := p) p.penalty hline'
  rw [← cost?_eq hc, ← cost?_eq hc'] at hsave
  rw [← cost?_eq hc''] at hsave'
  have hrest : 0 ≤ k₃ := h₃.nonneg fun hc => zero_lt_one.trans_le (one_le_cost? hreg hc)
  linarith [one_le_penalty hreg]

/-- A corner on the way back is not in line with the corners next to it, since there would be an edge between them. -/
theorem inLine_eq_false (hi : p.corners[u]? = some a) (hj : p.corners[v]? = some b) (hk : p.corners[w]? = some c)
    (htrail : [u, v, w].IsChain (p.graph.Trails labels)) : inLine a b c = false := by
  rw [← Bool.not_eq_true]
  intro hline
  obtain ⟨huv, hvw⟩ := List.isChain_cons_cons.1 htrail
  obtain ⟨-, -, ha, hb⟩ := (edge_corner_iff hreg hi hj).1 (h.edge huv)
  obtain ⟨-, -, ha', hb'⟩ := (edge_corner_iff hreg hj hk).1 (h.edge (List.isChain_cons_cons.1 hvw).1)
  have hjoins : p.Joins a c :=
    ⟨aligned_of_inLine hline, not_crosses_of_inLine hline ha ha', not_crosses_of_inLine hline hb hb'⟩
  refine h.not_edge hreg htrail ?_ ((edge_corner_iff hreg hi hk).2 ⟨ne_of_trail hreg htrail, hjoins⟩)
  rwa [Plan.spot, Plan.spot, Plan.spot, pointOf_corner hi, pointOf_corner hj, pointOf_corner hk]

theorem bent : ∀ {is : List Nat}, (∀ i ∈ is, ∃ c, p.corners[i]? = some c) → is.IsChain (p.graph.Trails labels) →
    Bent (is.map p.spot)
  | [], _, _ | [_], _, _ | [_, _], _, _ => trivial
  | i :: j :: k :: is, hcorner, htrail => by
    obtain ⟨c, hi⟩ := hcorner i (by simp)
    obtain ⟨q, hj⟩ := hcorner j (by simp)
    obtain ⟨z, hk⟩ := hcorner k (by simp)
    have hturn : inLine (p.spot i) (p.spot j) (p.spot k) = false := by
      rw [Plan.spot, Plan.spot, Plan.spot, pointOf_corner hi, pointOf_corner hj, pointOf_corner hk]
      exact h.inLine_eq_false hreg hi hj hk
        (List.IsChain.left_of_append (show ([i, j, k] ++ is).IsChain (p.graph.Trails labels) from htrail))
    exact ⟨hturn, bent (fun i hi => hcorner i (List.mem_cons_of_mem _ hi)) htrail.tail⟩

omit [IsStrictOrderedRing K] hreg in
theorem exists_corner (hi : i ∈ inner) : ∃ c, p.corners[i]? = some c := by
  obtain ⟨⟨u, hui⟩, v, hiv⟩ := neighbours_of_isChain h.trail i hi
  exact Plan.exists_corner (h.edge hui) (h.edge hiv)

/-- The first node behind the start lies ahead of it. -/
theorem first : ∀ c ∈ (inner.map p.spot ++ [p.goal]).head?, ahead p.start p.startDir c := by
  cases inner with
  | nil =>
    rintro c ⟨⟩
    exact edge_direct (h.edge (List.isChain_cons_cons.1 h.trail).1)
  | cons i inner =>
    rintro c ⟨⟩
    obtain ⟨c, hi⟩ := h.exists_corner (List.mem_cons_self ..)
    have hleaves : p.Leaves c := (edge_start_iff hreg hi).1 (h.edge (List.isChain_cons_cons.1 h.trail).1)
    rw [Plan.spot, pointOf_corner hi]
    exact hleaves.1

/-- The last node before the goal lies ahead of it. -/
theorem last : ∀ c ∈ (p.start :: inner.map p.spot).getLast?, ahead p.goal p.goalDir c := by
  rcases List.eq_nil_or_concat' inner with rfl | ⟨init, i, rfl⟩
  · rintro c ⟨⟩
    exact (edge_direct_iff.1 (h.edge (List.isChain_cons_cons.1 h.trail).1)).2
  · intro c hc
    rw [List.map_append, List.map_singleton, ← List.cons_append, List.getLast?_concat] at hc
    cases hc
    obtain ⟨c, hi⟩ := h.exists_corner (i := i) (by simp)
    have htrail : [i, p.corners.length + 1].IsChain (p.graph.Trails labels) := by
      have hall := h.trail
      rw [List.append_assoc, ← List.cons_append] at hall
      exact List.IsChain.right_of_append hall
    have harrives : p.Arrives c := (edge_goal_iff hreg hi).1 (h.edge (List.isChain_cons_cons.1 htrail).1)
    rw [Plan.spot, pointOf_corner hi]
    exact harrives.1

/-- The way over the first corner does not come to one that lies ahead, since there would be an edge to that one. -/
theorem not_ahead_start {rest : List Nat} (hinner : inner = i :: j :: rest)
    (hline : inLine p.start (p.spot i) (p.spot j) = true) : ¬ ahead p.start p.startDir (p.spot j) := by
  obtain ⟨c, hi⟩ := h.exists_corner (i := i) (by simp [hinner])
  obtain ⟨q, hj⟩ := h.exists_corner (i := j) (by simp [hinner])
  have htrail : [p.corners.length, i, j].IsChain (p.graph.Trails labels) := by
    have hall := h.trail
    rw [hinner] at hall
    exact List.IsChain.left_of_append (show ([p.corners.length, i, j] ++ _).IsChain _ from hall)
  obtain ⟨hfirst, hrest⟩ := List.isChain_cons_cons.1 htrail
  have hleaves : p.Leaves c := (edge_start_iff hreg hi).1 (h.edge hfirst)
  have hjoins : p.Joins c q := ((edge_corner_iff hreg hi hj).1 (h.edge (List.isChain_cons_cons.1 hrest).1)).2
  rw [Plan.spot, Plan.spot, pointOf_corner hi, pointOf_corner hj] at hline
  rw [Plan.spot, pointOf_corner hj]
  intro hahead
  have hfree : ¬ Crosses p.b p.start q := not_crosses_of_inLine hline hleaves.2 hjoins.2.2
  refine h.not_edge hreg htrail ?_ ((edge_start_iff hreg hj).2 ⟨hahead, hfree⟩)
  rwa [Plan.spot, Plan.spot, Plan.spot, pointOf_start, pointOf_corner hi, pointOf_corner hj]

/-- The way over the last corner does not come from one that lies ahead of the goal. -/
theorem not_ahead_goal {init : List Nat} (hinner : inner = init ++ [i, j])
    (hline : inLine (p.spot i) (p.spot j) p.goal = true) : ¬ ahead p.goal p.goalDir (p.spot i) := by
  obtain ⟨c, hi⟩ := h.exists_corner (i := i) (by simp [hinner])
  obtain ⟨q, hj⟩ := h.exists_corner (i := j) (by simp [hinner])
  have htrail : [i, j, p.corners.length + 1].IsChain (p.graph.Trails labels) := by
    have hall := h.trail
    rw [hinner, List.append_assoc, ← List.cons_append] at hall
    exact List.IsChain.right_of_append hall
  obtain ⟨hij, hrest⟩ := List.isChain_cons_cons.1 htrail
  have harrives : p.Arrives q := (edge_goal_iff hreg hj).1 (h.edge (List.isChain_cons_cons.1 hrest).1)
  have hjoins : p.Joins c q := ((edge_corner_iff hreg hi hj).1 (h.edge hij)).2
  rw [Plan.spot, Plan.spot, pointOf_corner hi, pointOf_corner hj] at hline
  rw [Plan.spot, pointOf_corner hi]
  intro hahead
  have hfree : ¬ Crosses p.a p.goal c :=
    not_crosses_symm (not_crosses_of_inLine hline hjoins.2.1 (not_crosses_symm harrives.2))
  refine h.not_edge hreg htrail ?_ ((edge_goal_iff hreg hi).2 ⟨hahead, hfree⟩)
  rwa [Plan.spot, Plan.spot, Plan.spot, pointOf_corner hi, pointOf_corner hj, pointOf_goal]

theorem taut : Taut p.start p.startDir p.goal p.goalDir (inner.map p.spot) := by
  have hpath : p.start :: (inner.map p.spot ++ [p.goal]) =
      (p.corners.length :: (inner ++ [p.corners.length + 1])).map p.spot := by
    simp [Plan.spot, pointOf_start, pointOf_goal]
  have hedges : (p.corners.length :: (inner ++ [p.corners.length + 1])).IsChain p.graph.Edge :=
    h.trail.imp fun u v => h.edge
  refine ⟨?_, ?_, ?_, h.first hreg, h.last hreg, ?_, ?_, ?_⟩
  · rw [hpath, List.isChain_map]
    exact hedges.imp fun u v => ne_of_edge hreg
  · rw [hpath, List.isChain_map]
    exact hedges.imp fun u v => aligned_of_edge hreg
  · exact h.bent hreg (fun i => h.exists_corner) (List.IsChain.left_of_append h.trail.tail)
  · intro c q rest hcs
    obtain ⟨i, is, hi, rfl, his⟩ := List.map_eq_cons_iff.1 hcs
    obtain ⟨j, js, rfl, rfl, -⟩ := List.map_eq_cons_iff.1 his
    exact h.not_ahead_start hreg hi
  · intro init c q hcs
    obtain ⟨is, js, his, -, hjs⟩ := List.map_eq_append_iff.1 hcs
    obtain ⟨i, ks, rfl, rfl, hks⟩ := List.map_eq_cons_iff.1 hjs
    obtain ⟨j, ls, rfl, rfl, hls⟩ := List.map_eq_cons_iff.1 hks
    rw [List.map_eq_nil_iff.1 hls] at his
    exact h.not_ahead_goal hreg his
  · intro c q hcs hline hline' hsg hgs
    obtain ⟨i, is, rfl, rfl, his⟩ := List.map_eq_cons_iff.1 hcs
    obtain ⟨j, js, rfl, rfl, hjs⟩ := List.map_eq_cons_iff.1 his
    obtain rfl := List.map_eq_nil_iff.1 hjs
    have hs : p.spot p.corners.length = p.start := pointOf_start
    have hg : p.spot (p.corners.length + 1) = p.goal := pointOf_goal
    refine h.not_edge_over_two hreg h.trail ?_ ?_ (edge_direct_iff.2 ⟨hsg, hgs⟩)
    · rwa [hs]
    · rwa [hs, hg]

end Traced

/-- What is found is a way back from the goal. -/
theorem exists_traced (hreg : p.Regular) {path : List (Point K)} (h : p.path? = some path) :
    ∃ labels inner, p.Traced labels inner ∧ path = p.start :: (inner.map p.spot ++ [p.goal]) := by
  obtain ⟨nodes, hnodes, rfl⟩ := Option.map_eq_some_iff.1 h
  simp only [List.size_toArray] at hnodes
  obtain ⟨-, hhead, hlast⟩ := Graph.isChain_of_shortest? hnodes (by rw [size_graph]; omega)
  obtain ⟨labels, hdone, htrail⟩ :=
    Graph.exists_trail_of_shortest? (one_le_cost? hreg) (by rw [size_graph]; omega) hnodes
  obtain ⟨rest, rfl⟩ := List.head?_eq_some_iff.1 hhead
  obtain ⟨init, hinit⟩ := List.getLast?_eq_some_iff.1 hlast
  cases init with
  | nil => exact absurd (List.cons.inj hinit).1 (Nat.ne_of_lt (Nat.lt_succ_self _))
  | cons i inner =>
    obtain ⟨rfl, rfl⟩ := List.cons.inj hinit
    exact ⟨labels, inner, ⟨hdone, htrail⟩, by simp [pointOf_start, pointOf_goal]⟩

end Plan

/-! ## Routes -/

section Ends

variable {start goal : End K} {style : Style K} {path : List (Point K)} [IsStrictOrderedRing K]

/-- The path that is found leaves the start in its direction and comes to the goal from ahead of it. The route does so
at an end if and only if the path does not turn back at the corner next to it. -/
theorem route_directions (hd : start.dir = some d) (he : goal.dir = some e)
    (h : (plan start goal d e style).path? = some path) :
    (SetsOff start.point d path ∧ SetsOff goal.point e path.reverse) ∧
      (SetsOff start.point d (route start goal style) ↔ ¬ TurnsBack start.point d path) ∧
      (SetsOff goal.point e (route start goal style).reverse ↔ ¬ TurnsBack goal.point e path.reverse) := by
  obtain ⟨labels, inner, htraced, hpath⟩ := Plan.exists_traced (Plan.regular_plan start goal d e style) h
  have htaut : Taut start.point d goal.point e (inner.map (plan start goal d e style).spot) :=
    htraced.taut (Plan.regular_plan start goal d e style)
  have hroute : route start goal style = simplify path := by simp only [route, hd, he, h]
  rw [hroute, hpath]
  exact ⟨htaut.setsOff, htaut.setsOff_start_iff, htaut.setsOff_goal_iff⟩

/-- To the corner of a box above, the path leads out and back before it leads up, and the route only up. -/
theorem route_directions_above :
    letI := Elementary.rough
    let start : End ℚ := ⟨⟨5, 5 / 2⟩, some .right, some ⟨0, 0, 5, 5⟩⟩
    let goal : End ℚ := ⟨⟨5, -10⟩, some .down, some ⟨0, -15, 10, -10⟩⟩
    ∃ path, (plan start goal .right .down ⟨1, none⟩).path? = some path ∧
      (SetsOff start.point .right path ∧ SetsOff goal.point .down path.reverse) ∧
      (SetsOff start.point .right (route start goal ⟨1, none⟩) ↔ ¬ TurnsBack start.point .right path) ∧
      (SetsOff goal.point .down (route start goal ⟨1, none⟩).reverse ↔ ¬ TurnsBack goal.point .down path.reverse) := by
  let := Elementary.rough
  intro start goal
  obtain ⟨path, h⟩ : ∃ path, (plan start goal .right .down ⟨1, none⟩).path? = some path :=
    exists_path rfl rfl (Box.normalized_eq_iff.2 (by norm_num)) (Box.normalized_eq_iff.2 (by norm_num))
      (by norm_num [Box.Apart]) (by norm_num [Box.OnEdge, start]) (by norm_num [Box.OnEdge, goal]) (by norm_num) rfl
  exact ⟨path, h, route_directions rfl rfl h⟩

/-- There, the route does not set off in the direction of the start. -/
theorem not_setsOff_route_above :
    letI := Elementary.rough
    let start : End ℚ := ⟨⟨5, 5 / 2⟩, some .right, some ⟨0, 0, 5, 5⟩⟩
    let goal : End ℚ := ⟨⟨5, -10⟩, some .down, some ⟨0, -15, 10, -10⟩⟩
    (∃ path, (plan start goal .right .down ⟨1, none⟩).path? = some path) ∧
      ¬ SetsOff start.point .right (route start goal ⟨1, none⟩) := by
  let := Elementary.rough
  intro start goal
  have hroute : (route start goal ⟨1, none⟩).map (fun c => (c.x, c.y)) = [(5, 5 / 2), (5, -10)] := by decide +kernel
  refine ⟨?_, ?_⟩
  · exact exists_path rfl rfl (Box.normalized_eq_iff.2 (by norm_num)) (Box.normalized_eq_iff.2 (by norm_num))
      (by norm_num [Box.Apart]) (by norm_num [Box.OnEdge, start]) (by norm_num [Box.OnEdge, goal]) (by norm_num) rfl
  · rintro ⟨q, rest, hq, hahead⟩
    rw [hq] at hroute
    simp only [List.map_cons, List.cons.injEq, Prod.mk.injEq] at hroute
    have hlane : lane .right q = lane .right start.point := (ahead_iff_lane.1 hahead).1
    rw [show lane .right q = -10 from hroute.2.1.2, show lane .right start.point = 5 / 2 from hroute.1.2] at hlane
    norm_num at hlane

end Ends

end DiagramMarkup.Route
