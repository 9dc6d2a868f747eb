import Mathlib.Data.List.Basic
import Mathlib.Data.List.Induction
import DiagramMarkup.Css.Sheet

/-!
# The cascade

What the rules of a sheet give an element: each property has the value of one rule that decides about it.

1. Properties written one after the other leave the last value of each name (`Properties.lookup_foldl_put`).
2. Ranking rules sorts them by rank (`Sheet.pairwise_byRank`) and keeps the order among those of one rank
   (`Sheet.sameRanks_byRank`). So the last ranked rule that declares a property is, of those of the highest rank, the
   last in the sheet (`Sheet.exists_decides`).
3. Two lists of rules that are sorted by rank and agree within every rank are equal
   (`Sheet.SameRanks.eq_of_pairwise`), so rules of different rank may change places (`Sheet.byRank_congr`).
-/

namespace DiagramMarkup.Css

namespace Properties

theorem lookup_put (name : String) (v : Value) (k : String) : ∀ ps : Properties,
    (put ps name v).lookup k = if k = name then some v else ps.lookup k
  | [] => by
    by_cases hk : k = name <;> simp [put, hk]
  | (m, w) :: rest => by
    unfold put
    by_cases hm : m = name
    · by_cases hk : k = name
      · simp [hm, hk]
      · simp [List.lookup_cons, hm, hk, beq_false_of_ne hk]
    · by_cases hk : k = name
      · simp [List.lookup_cons, hm, hk, beq_false_of_ne (Ne.symm hm), lookup_put name v name rest]
      · simp [List.lookup_cons, hm, hk, lookup_put name v k rest]

/-- Entries that are written one after the other leave what the last entry of a name says. -/
theorem lookup_foldl_put (k : String) : ∀ entries ps : Properties,
    (entries.foldl (fun ps p => put ps p.1 p.2) ps).lookup k = (entries.reverse.lookup k).or (ps.lookup k)
  | [], ps => rfl
  | (m, w) :: rest, ps => by
    rw [List.foldl_cons, lookup_foldl_put k rest, List.reverse_cons, List.lookup_append, lookup_put, Option.or_assoc]
    by_cases hk : k = m
    · simp [hk]
    · simp [List.lookup_cons, hk, beq_false_of_ne hk]

end Properties

namespace Rule

/-- The rank of a rule is that of its selector. -/
def rank (r : Rule) : Nat := r.selector.specificity

/-- The value that a rule declares for a property. A rule has each name once; of several entries, the last counts. -/
def get? (r : Rule) (k : String) : Option Value := r.properties.reverse.lookup k

end Rule

namespace Sheet

variable {r q : Rule} {rs : List Rule} {name k : String} {classes : List String}

/-! ## Rules by rank -/

/-- Rules sorted by rank, those of one rank in source order. -/
def byRank (rs : List Rule) : List Rule := rs.foldl (fun rs r => insertByRank r rs) []

theorem mem_insertByRank (h : q ∈ insertByRank r rs) : q = r ∨ q ∈ rs := by
  fun_induction insertByRank r rs with
  | case1 => exact .inl (List.mem_singleton.1 h)
  | case2 => exact List.mem_cons.1 h
  | case3 p rs _ ih =>
    rcases List.mem_cons.1 h with rfl | h
    · exact .inr List.mem_cons_self
    · exact (ih h).imp_right (List.mem_cons_of_mem _)

theorem pairwise_insertByRank (r : Rule) : ∀ {rs : List Rule}, rs.Pairwise (·.rank ≤ ·.rank) →
    (insertByRank r rs).Pairwise (·.rank ≤ ·.rank)
  | [], _ => List.pairwise_singleton _ _
  | p :: rs, h => by
    obtain ⟨hp, hrs⟩ := List.pairwise_cons.1 h
    unfold insertByRank
    split
    · next hlt =>
      have hrp : r.rank ≤ p.rank := Nat.le_of_lt hlt
      exact List.pairwise_cons.2 ⟨List.forall_mem_cons.2 ⟨hrp, fun q hq => Nat.le_trans hrp (hp q hq)⟩, h⟩
    · next hlt =>
      refine List.pairwise_cons.2 ⟨fun q hq => ?_, pairwise_insertByRank r hrs⟩
      rcases mem_insertByRank hq with rfl | hq
      · exact Nat.not_lt.1 hlt
      · exact hp q hq

/-- A rule comes behind those of its own rank. -/
theorem filter_insertByRank (r : Rule) (n : Nat) : ∀ {rs : List Rule}, rs.Pairwise (·.rank ≤ ·.rank) →
    (insertByRank r rs).filter (·.rank == n) = rs.filter (·.rank == n) ++ [r].filter (·.rank == n)
  | [], _ => rfl
  | p :: rs, h => by
    obtain ⟨hp, hrs⟩ := List.pairwise_cons.1 h
    unfold insertByRank
    split
    · next hlt =>
      -- all that stand behind have a higher rank
      by_cases hn : r.rank = n
      · have hbehind : (p :: rs).filter (·.rank == n) = [] := by
          rw [List.filter_eq_nil_iff]
          intro q hq
          have hpq : p.rank ≤ q.rank := by
            rcases List.mem_cons.1 hq with rfl | hq
            · exact Nat.le_refl _
            · exact hp q hq
          have hlt : r.rank < p.rank := hlt
          simp only [beq_iff_eq]
          omega
        rw [List.filter_cons, hbehind]
        simp [hn]
      · rw [List.filter_cons]
        simp [hn]
    · rw [List.filter_cons, filter_insertByRank r n hrs]
      by_cases hn : p.rank = n <;> simp [hn]

theorem byRank_append_singleton (rs : List Rule) (r : Rule) :
    byRank (rs ++ [r]) = insertByRank r (byRank rs) := by
  unfold byRank
  rw [List.foldl_append]
  rfl

theorem pairwise_byRank (rs : List Rule) : (byRank rs).Pairwise (·.rank ≤ ·.rank) := by
  induction rs using List.reverseRecOn with
  | nil => exact .nil
  | append_singleton rs r ih =>
    rw [byRank_append_singleton]
    exact pairwise_insertByRank r ih

/-- The same rules, and those of one rank in the same order. -/
def SameRanks (rs qs : List Rule) : Prop := ∀ n, rs.filter (·.rank == n) = qs.filter (·.rank == n)

namespace SameRanks

/-- Neighbours of different rank may change places. -/
theorem swap {q r : Rule} (h : q.rank ≠ r.rank) (rs qs : List Rule) :
    SameRanks (rs ++ q :: r :: qs) (rs ++ r :: q :: qs) := by
  intro n
  simp only [List.filter_append, List.filter_cons, beq_iff_eq]
  by_cases hq : q.rank = n
  · have hr : r.rank ≠ n := fun hr => h (hq.trans hr.symm)
    rw [if_pos hq, if_neg hr, if_neg hr, if_pos hq]
  · rw [if_neg hq, if_neg hq]

theorem mem_iff {qs : List Rule} (h : SameRanks rs qs) : r ∈ rs ↔ r ∈ qs := by
  have hrank : ∀ l : List Rule, r ∈ l ↔ r ∈ l.filter (·.rank == r.rank) := by simp
  rw [hrank, h, ← hrank]

theorem filter {qs : List Rule} (h : SameRanks rs qs) (p : Rule → Bool) : SameRanks (rs.filter p) (qs.filter p) := by
  intro n
  rw [List.filter_comm, h n, List.filter_comm]

theorem nil {qs : List Rule} (h : SameRanks [] qs) : qs = [] :=
  List.eq_nil_iff_forall_not_mem.2 fun _ hq => nomatch h.mem_iff.2 hq

/-- Without the first rule, which both have in common. -/
theorem tail {qs : List Rule} (h : SameRanks (r :: rs) (r :: qs)) : SameRanks rs qs := by
  intro n
  have hn := h n
  rw [List.filter_cons, List.filter_cons] at hn
  split at hn
  · exact (List.cons.inj hn).2
  · exact hn

/-- Lists that are sorted by rank are the same as soon as the ranks are. -/
theorem eq_of_pairwise : ∀ {rs qs : List Rule}, SameRanks rs qs → rs.Pairwise (·.rank ≤ ·.rank) →
    qs.Pairwise (·.rank ≤ ·.rank) → rs = qs
  | [], qs, h, _, _ => h.nil.symm
  | rs, [], h, _, _ => SameRanks.nil fun n => (h n).symm
  | r :: rs, q :: qs, h, hr, hq => by
    obtain ⟨hrs, hr⟩ := List.pairwise_cons.1 hr
    obtain ⟨hqs, hq⟩ := List.pairwise_cons.1 hq
    -- Both heads have the lowest rank, so each is the first of that rank.
    have hle : r.rank ≤ q.rank := by
      rcases List.mem_cons.1 (h.mem_iff.2 List.mem_cons_self) with hm | hm
      · exact Nat.le_of_eq (congrArg Rule.rank hm.symm)
      · exact hrs q hm
    have hge : q.rank ≤ r.rank := by
      rcases List.mem_cons.1 (h.mem_iff.1 List.mem_cons_self) with hm | hm
      · exact Nat.le_of_eq (congrArg Rule.rank hm.symm)
      · exact hqs r hm
    have hrank : q.rank = r.rank := Nat.le_antisymm hge hle
    have hhead := h r.rank
    simp only [List.filter_cons, hrank, beq_self_eq_true, if_true] at hhead
    obtain ⟨rfl, -⟩ := List.cons.inj hhead
    exact congrArg (r :: ·) (eq_of_pairwise h.tail hr (List.pairwise_cons.1 ‹_›).2)

end SameRanks

/-- Ranking keeps the order among the rules of one rank. -/
theorem sameRanks_byRank (rs : List Rule) : SameRanks (byRank rs) rs := by
  intro n
  induction rs using List.reverseRecOn with
  | nil => rfl
  | append_singleton rs r ih =>
    rw [byRank_append_singleton, filter_insertByRank r n (pairwise_byRank rs), ih, List.filter_append]

/-- Rules of different rank may change places. -/
theorem byRank_congr {qs : List Rule} (h : SameRanks rs qs) : byRank rs = byRank qs :=
  SameRanks.eq_of_pairwise
    (fun n => (sameRanks_byRank rs n).trans ((h n).trans (sameRanks_byRank qs n).symm))
    (pairwise_byRank rs) (pairwise_byRank qs)

/-! ## The rule that decides -/

/-- The rules that apply to an element. -/
def matching (s : Sheet) (name : String) (classes : List String) : List Rule :=
  s.rules.filter (·.selector.applies name classes)

/-- The `i`-th rule of the sheet decides about a property of an element, with this value: it applies and declares the
property, and every other rule that does so has a lower rank, or the same rank and stands further up. -/
structure Decides (s : Sheet) (name : String) (classes : List String) (k : String) (i : Nat) (r : Rule) (v : Value) :
    Prop where
  rule : s.rules[i]? = some r
  applies : r.selector.applies name classes = true
  declares : r.get? k = some v
  others : ∀ j q, j ≠ i → s.rules[j]? = some q → q.selector.applies name classes = true → (q.get? k).isSome →
    q.rank < r.rank ∨ q.rank = r.rank ∧ j < i

theorem inline_eq (s : Sheet) (name : String) (classes : List String) :
    s.inline name classes = (((byRank (s.matching name classes)).flatMap Rule.properties).foldl
      (fun ps p => Properties.put ps p.1 p.2) []).map fun p => (p.1, p.2.raw) := by
  rw [List.foldl_flatMap]
  rfl

theorem lookup_map_raw (k : String) : ∀ ps : Properties,
    (ps.map fun p => (p.1, p.2.raw)).lookup k = (ps.lookup k).map Value.raw
  | [] => rfl
  | (m, v) :: rest => by
    rw [List.map_cons, List.lookup_cons, List.lookup_cons, lookup_map_raw k rest]
    cases k == m <;> rfl

theorem lookup_flatMap_reverse (k : String) (rs : List Rule) :
    (rs.flatMap Rule.properties).reverse.lookup k = rs.reverse.findSome? (·.get? k) := by
  induction rs with
  | nil => rfl
  | cons r rs ih =>
    rw [List.flatMap_cons, List.reverse_append, List.lookup_append, ih, List.reverse_cons, List.findSome?_append,
      List.findSome?_singleton]
    rfl

/-- An element has what the last ranked rule says about a property. -/
theorem lookup_inline (s : Sheet) (name : String) (classes : List String) (k : String) :
    (s.inline name classes).lookup k =
      ((byRank (s.matching name classes)).reverse.findSome? (·.get? k)).map Value.raw := by
  rw [inline_eq, lookup_map_raw, Properties.lookup_foldl_put, lookup_flatMap_reverse, List.lookup_nil, Option.or_none]

/-- In a sheet where some rules are left out, a rule still stands where it stood among the others. -/
theorem exists_getElem?_of_filter {p : Rule → Bool} {front behind : List Rule}
    (h : rs.filter p = front ++ r :: behind) : ∃ i : Nat, rs[i]? = some r ∧ p r = true ∧
      ∀ (j : Nat) (q : Rule), j ≠ i → rs[j]? = some q → p q = true → q ∈ front ∧ j < i ∨ q ∈ behind := by
  obtain ⟨before, rest, rfl, hbefore, hrest⟩ := List.filter_eq_append_iff.1 h
  obtain ⟨skipped, after, rfl, hskipped, hr, hafter⟩ := List.filter_eq_cons_iff.1 hrest
  refine ⟨before.length + skipped.length, by simp, hr, fun j q hne hj hq => ?_⟩
  rw [← List.append_assoc] at hj
  rcases Nat.lt_or_gt_of_ne hne with hlt | hgt
  · rw [List.getElem?_append_left (by simpa using hlt)] at hj
    rcases List.mem_append.1 (List.mem_of_getElem? hj) with hm | hm
    · exact .inl ⟨hbefore ▸ List.mem_filter.2 ⟨hm, hq⟩, hlt⟩
    · exact absurd hq (hskipped q hm)
  · rw [List.getElem?_append_right (by simpa using Nat.le_of_lt hgt)] at hj
    obtain ⟨m, hm⟩ : ∃ m, j - (before ++ skipped).length = m + 1 :=
      ⟨j - (before ++ skipped).length - 1, by simp; omega⟩
    rw [hm, List.getElem?_cons_succ] at hj
    exact .inr (hafter ▸ List.mem_filter.2 ⟨List.mem_of_getElem? hj, hq⟩)

theorem Decides.unique {s : Sheet} {i j : Nat} {r q : Rule} {v w : Value} (h : s.Decides name classes k i r v)
    (h' : s.Decides name classes k j q w) : i = j ∧ r = q ∧ v = w := by
  have hij : i = j := by
    by_contra hne
    have hq := h.others j q (Ne.symm hne) h'.rule h'.applies (by simp [h'.declares])
    have hr := h'.others i r hne h.rule h.applies (by simp [h.declares])
    omega
  subst hij
  have hrq : r = q := Option.some.inj (h.rule.symm.trans h'.rule)
  subst hrq
  exact ⟨rfl, rfl, Option.some.inj (h.declares.symm.trans h'.declares)⟩

/-- The last ranked rule that declares a property decides about it. -/
theorem exists_decides {s : Sheet} {v : Value}
    (h : (byRank (s.matching name classes)).reverse.findSome? (·.get? k) = some v) :
    ∃ i r, s.Decides name classes k i r v := by
  obtain ⟨behind, r, front, hsplit, hr, hbehind⟩ := List.findSome?_eq_some_iff.1 h
  have hranked : byRank (s.matching name classes) = front.reverse ++ r :: behind.reverse := by
    rw [← List.reverse_reverse (byRank _), hsplit]
    simp
  have hsorted := pairwise_byRank (s.matching name classes)
  have hsame := sameRanks_byRank (s.matching name classes)
  rw [hranked] at hsorted hsame
  have hfilter := hsame r.rank
  rw [List.filter_append, List.filter_cons_of_pos (by simp), matching, List.filter_filter] at hfilter
  obtain ⟨i, hi, hpr, hothers⟩ := exists_getElem?_of_filter hfilter.symm
  refine ⟨i, r, hi, (Bool.and_eq_true_iff.1 hpr).2, hr, fun j q hne hj happlies hq => ?_⟩
  have hq_behind : q ∉ behind := fun hm => by simp [hbehind q hm] at hq
  have hle : q.rank ≤ r.rank := by
    have hm := hsame.mem_iff.2 (List.mem_filter.2 ⟨List.mem_of_getElem? hj, happlies⟩)
    rcases List.mem_append.1 hm with hm | hm
    · exact (List.pairwise_append.1 hsorted).2.2 q hm r List.mem_cons_self
    · rcases List.mem_cons.1 hm with rfl | hm
      · exact Nat.le_refl _
      · exact absurd (List.mem_reverse.1 hm) hq_behind
  rcases Nat.lt_or_eq_of_le hle with hlt | heq
  · exact .inl hlt
  · rcases hothers j q hne hj (by simp [heq, happlies]) with ⟨-, hji⟩ | hm
    · exact .inr ⟨heq, hji⟩
    · exact absurd (List.mem_reverse.1 (List.mem_filter.1 hm).1) hq_behind

theorem lookup_inline_eq_none_iff {s : Sheet} : (s.inline name classes).lookup k = none ↔
    ∀ r ∈ s.rules, r.selector.applies name classes = true → r.get? k = none := by
  rw [lookup_inline, Option.map_eq_none_iff, List.findSome?_eq_none_iff]
  simp only [List.mem_reverse, (sameRanks_byRank _).mem_iff, matching, List.mem_filter, and_imp]

theorem lookup_inline_eq_some_iff {s : Sheet} {text : String} : (s.inline name classes).lookup k = some text ↔
    ∃ i r v, s.Decides name classes k i r v ∧ v.raw = text := by
  constructor
  · intro h
    rw [lookup_inline, Option.map_eq_some_iff] at h
    obtain ⟨v, hv, rfl⟩ := h
    obtain ⟨i, r, hdecides⟩ := exists_decides hv
    exact ⟨i, r, v, hdecides, rfl⟩
  · rintro ⟨i, r, v, h, rfl⟩
    -- Some rule declares the property, so one decides, and there is only one that can.
    cases hfound : (byRank (s.matching name classes)).reverse.findSome? (·.get? k) with
    | none =>
      have hnone : (s.inline name classes).lookup k = none := by rw [lookup_inline, hfound, Option.map_none]
      have hr := lookup_inline_eq_none_iff.1 hnone r (List.mem_of_getElem? h.rule) h.applies
      cases hr.symm.trans h.declares
    | some w =>
      obtain ⟨j, q, h'⟩ := exists_decides hfound
      obtain ⟨-, -, rfl⟩ := h.unique h'
      rw [lookup_inline, hfound, Option.map_some]

/-! ## Two sheets -/

section Append

variable {s t : Sheet} {i : Nat} {v : Value}

theorem rules_append (s t : Sheet) : (s.append t).rules = s.rules ++ t.rules := List.filterMap_append

/-- A rule of the second sheet decides unless one of the first has a higher rank. -/
theorem Decides.append_right (h : t.Decides name classes k i r v)
    (hs : ∀ q ∈ s.rules, q.selector.applies name classes = true → (q.get? k).isSome → q.rank ≤ r.rank) :
    (s.append t).Decides name classes k (s.rules.length + i) r v where
  rule := by rw [rules_append, List.getElem?_append_right (Nat.le_add_right _ _), Nat.add_sub_cancel_left, h.rule]
  applies := h.applies
  declares := h.declares
  others j q hne hj happlies hq := by
    rw [rules_append] at hj
    rcases Nat.lt_or_ge j s.rules.length with hlt | hge
    · rw [List.getElem?_append_left hlt] at hj
      have hle := hs q (List.mem_of_getElem? hj) happlies hq
      omega
    · rw [List.getElem?_append_right hge] at hj
      have hother := h.others _ q (by omega) hj happlies hq
      omega

/-- A rule of the first sheet decides if those of the second have lower ranks. -/
theorem Decides.append_left (h : s.Decides name classes k i r v)
    (ht : ∀ q ∈ t.rules, q.selector.applies name classes = true → (q.get? k).isSome → q.rank < r.rank) :
    (s.append t).Decides name classes k i r v where
  rule := by rw [rules_append, List.getElem?_append_left (List.getElem?_eq_some_iff.1 h.rule).1, h.rule]
  applies := h.applies
  declares := h.declares
  others j q hne hj happlies hq := by
    rw [rules_append] at hj
    rcases Nat.lt_or_ge j s.rules.length with hlt | hge
    · rw [List.getElem?_append_left hlt] at hj
      exact h.others j q hne hj happlies hq
    · rw [List.getElem?_append_right hge] at hj
      exact .inl (ht q (List.mem_of_getElem? hj) happlies hq)

theorem inline_congr (h : SameRanks s.rules t.rules) (name : String) (classes : List String) :
    s.inline name classes = t.inline name classes := by
  rw [inline_eq, inline_eq, matching, matching, byRank_congr (h.filter _)]

end Append

/-- A property of an element has a text if and only if one rule decides so, and none if no rule that applies declares
it. Of two sheets the second wins at equal rank, the first at a higher rank. Rules of different rank may change
places. -/
theorem inline_cascades (s : Sheet) (name : String) (classes : List String) (k : String) :
    (∀ text, (s.inline name classes).lookup k = some text ↔
      ∃ i r v, s.Decides name classes k i r v ∧ v.raw = text) ∧
    ((s.inline name classes).lookup k = none ↔
      ∀ r ∈ s.rules, r.selector.applies name classes = true → r.get? k = none) ∧
    (∀ t i r v, t.Decides name classes k i r v →
      (∀ q ∈ s.rules, q.selector.applies name classes = true → (q.get? k).isSome → q.rank ≤ r.rank) →
      ((s.append t).inline name classes).lookup k = some v.raw) ∧
    (∀ t i r v, s.Decides name classes k i r v →
      (∀ q ∈ t.rules, q.selector.applies name classes = true → (q.get? k).isSome → q.rank < r.rank) →
      ((s.append t).inline name classes).lookup k = some v.raw) ∧
    ∀ t : Sheet, SameRanks s.rules t.rules → s.inline name classes = t.inline name classes := by
  refine ⟨fun text => lookup_inline_eq_some_iff, lookup_inline_eq_none_iff, fun t i r v h hs => ?_,
    fun t i r v h ht => ?_, fun t h => inline_congr h name classes⟩
  · exact lookup_inline_eq_some_iff.2 ⟨_, r, v, h.append_right hs, rfl⟩
  · exact lookup_inline_eq_some_iff.2 ⟨i, r, v, h.append_left ht, rfl⟩

/-- Two rules of different rank. -/
def twoRanks : Sheet :=
  (({} : Sheet).add ".d-red" [("fill", "red")]).add "rect" [("fill", "white"), ("stroke", "black")]

/-- The same rules in the other order. -/
def twoRanksSwapped : Sheet :=
  (({} : Sheet).add "rect" [("fill", "white"), ("stroke", "black")]).add ".d-red" [("fill", "red")]

/-- Another rule of the lower rank. -/
def lowRank : Sheet := ({} : Sheet).add "rect" [("fill", "gray"), ("stroke", "gray")]

/-- The rule for the class decides about the fill, also of an appended sheet, which decides about the stroke. -/
theorem inline_cascades_appended :
    (∃ i r v, twoRanks.Decides "rect" ["d-red"] "fill" i r v ∧ v.raw = "red") ∧
      (∀ r ∈ twoRanks.rules, r.selector.applies "rect" ["d-red"] = true → r.get? "opacity" = none) ∧
      ((twoRanks.append lowRank).inline "rect" ["d-red"]).lookup "stroke" = some "gray" ∧
      ((twoRanks.append lowRank).inline "rect" ["d-red"]).lookup "fill" = some "red" ∧
      twoRanks.inline "rect" ["d-red"] = twoRanksSwapped.inline "rect" ["d-red"] := by
  have fill := inline_cascades twoRanks "rect" ["d-red"] "fill"
  have stroke := inline_cascades twoRanks "rect" ["d-red"] "stroke"
  obtain ⟨i, q, v, red, hv⟩ := (fill.1 "red").1 (by decide +kernel)
  obtain ⟨j, r, w, gray, hw⟩ :=
    ((inline_cascades lowRank "rect" ["d-red"] "stroke").1 "gray").1 (by decide +kernel)
  have low : ∀ r ∈ lowRank.rules, r.rank = 1 := by decide +kernel
  have black : ∀ r ∈ twoRanks.rules, r.selector.applies "rect" ["d-red"] = true → (r.get? "stroke").isSome →
      r.rank ≤ 1 := by decide +kernel
  -- the rule that gives red is that for the class
  have high : ∀ r ∈ twoRanks.rules, ((r.get? "fill").map Value.raw) = some "red" → 1 < r.rank := by decide +kernel
  have hq : 1 < q.rank := high q (List.mem_of_getElem? red.rule) (by rw [red.declares, Option.map_some, hv])
  refine ⟨⟨i, q, v, red, hv⟩, (inline_cascades twoRanks "rect" ["d-red"] "opacity").2.1.1 (by decide +kernel), ?_, ?_,
    fill.2.2.2.2 twoRanksSwapped (.swap ?_ [] [])⟩
  · rw [← hw]
    refine stroke.2.2.1 lowRank j r w gray fun q hq happlies hdeclares => ?_
    rw [low r (List.mem_of_getElem? gray.rule)]
    exact black q hq happlies hdeclares
  · rw [← hv]
    refine fill.2.2.2.1 lowRank i q v red fun r hr _ _ => ?_
    rw [low r hr]
    exact hq
  · decide +kernel

end Sheet

end DiagramMarkup.Css
