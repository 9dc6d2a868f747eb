import Mathlib.Data.List.Induction
import Mathlib.Data.List.Infix
import DiagramMarkup.Document.Context

/-!
# The hierarchy of places

Places in a document are lists of positions. They are compared position by position, and written with points between the
positions.

1. Comparing places is the lexicographic comparison of lists, so it is a total order (`Order.compare_eq`). Positions in
   front that two places share do not count (`Order.compareIndices_append`), and children are ordered as their positions
   are (`Order.compare_sub`).
2. Where two places part, what is appended to them does not count either (`Order.compareIndices_append_append`). So the
   subtrees of two places of which neither lies below the other are ordered as the places are (`Order.compare_below`).
3. No position holds a point in its text, so the positions can be read off the text of a place (`Order.splitOn_key`),
   and different places have different texts (`Order.key_inj`). So elements could be registered by the texts of their
   places as well (`Registry.lookup_key`).
-/

namespace DiagramMarkup

namespace Order

/-! ## Comparing -/

theorem compareIndices_append (is as bs : List Int) :
    compareIndices (is ++ as) (is ++ bs) = compareIndices as bs := by
  induction is with
  | nil => rfl
  | cons i is ih => simp [compareIndices, ih]

theorem compareIndices_eq (as bs : List Int) : compareIndices as bs = List.compareLex Ord.compare as bs := by
  fun_induction compareIndices as bs with
  | case1 => rfl
  | case2 => rfl
  | case3 => rfl
  | case4 a as b bs hab =>
    rw [List.compareLex_cons_cons, Int.compare_eq_lt.2 hab]
    rfl
  | case5 a as b bs hab hba =>
    rw [List.compareLex_cons_cons, Int.compare_eq_gt.2 hba]
    rfl
  | case6 a as b bs hab hba ih =>
    obtain rfl : a = b := by omega
    rw [List.compareLex_cons_cons, Int.compare_eq_eq.2 rfl, ih]
    rfl

theorem compare_eq (o p : Order) : o.compare p = List.compareLex Ord.compare o.indices p.indices :=
  compareIndices_eq o.indices p.indices

instance : Std.TransCmp Order.compare where
  eq_swap {a b} := by
    rw [compare_eq, compare_eq]
    exact Std.OrientedCmp.eq_swap
  isLE_trans {a b c} hab hbc := by
    rw [compare_eq] at *
    exact Std.TransCmp.isLE_trans hab hbc

instance : Std.LawfulEqCmp Order.compare where
  compare_self {a} := by
    rw [compare_eq]
    exact Std.ReflCmp.compare_self
  eq_of_compare {a b} h := by
    rw [compare_eq] at h
    exact congrArg Order.mk (Std.LawfulEqCmp.eq_of_compare h)

theorem isLE_compare_total (o p : Order) : (o.compare p).isLE || (p.compare o).isLE := by
  have swap : p.compare o = (o.compare p).swap := Std.OrientedCmp.eq_swap
  rw [swap]
  cases o.compare p <;> rfl

/-- Siblings are ordered as their positions are. -/
theorem compare_sub (o : Order) (i j : Int) : (o.sub i).compare (o.sub j) = Ord.compare i j := by
  refine (compareIndices_append o.indices [i] [j]).trans ?_
  rw [compareIndices_eq, List.compareLex_cons_cons]
  cases Ord.compare i j <;> rfl

theorem isLE_compare_sub (o : Order) (i j : Int) : ((o.sub i).compare (o.sub j)).isLE ↔ i ≤ j := by
  rw [compare_sub, Int.isLE_compare]

/-- A place comes in front of its children. -/
theorem compare_sub_self (o : Order) (i : Int) : o.compare (o.sub i) = .lt := by
  have shared := compareIndices_append o.indices [] [i]
  rwa [List.append_nil] at shared

/-! ## Subtrees -/

/-- The place is `o`, or it is reached from `o` by going down to children. -/
inductive Below (o : Order) : Order → Prop
  | self : Below o o
  | sub {c : Order} (h : Below o c) (i : Int) : Below o (c.sub i)

theorem below_iff {o c : Order} : o.Below c ↔ o.indices <+: c.indices := by
  constructor
  · intro h
    induction h with
    | self => exact List.prefix_rfl
    | sub _ i ih => exact ih.trans (List.prefix_append _ [i])
  · rintro ⟨is, his⟩
    obtain rfl : Order.mk (o.indices ++ is) = c := congrArg Order.mk his
    clear his
    induction is using List.reverseRecOn with
    | nil => simpa using Below.self
    | append_singleton is i ih => simpa [sub] using ih.sub i

/-- Lists that part are compared where they do, whatever follows. -/
theorem compareIndices_append_append {as bs : List Int} (h : compareIndices as bs = .lt) (hp : ¬ as <+: bs)
    (cs ds : List Int) : compareIndices (as ++ cs) (bs ++ ds) = .lt := by
  fun_induction compareIndices as bs with
  | case1 => cases h
  | case2 => exact absurd List.nil_prefix hp
  | case3 => cases h
  | case4 a as b bs hab => simp [compareIndices, hab]
  | case5 => cases h
  | case6 a as b bs hab hba ih =>
    obtain rfl : a = b := by omega
    rw [List.prefix_cons_inj] at hp
    simpa [compareIndices] using ih h hp

/-- Of two places that part, all of the first subtree comes in front of all of the second. -/
theorem compare_below {a b c d : Order} (h : a.compare b = .lt) (hab : ¬ a.indices <+: b.indices) (hc : a.Below c)
    (hd : b.Below d) : c.compare d = .lt := by
  obtain ⟨cs, hcs⟩ := below_iff.1 hc
  obtain ⟨ds, hds⟩ := below_iff.1 hd
  rw [compare, ← hcs, ← hds]
  exact compareIndices_append_append h hab cs ds

/-! ## Text forms -/

/-- A position is written with a minus sign, if it is negative, and digits. -/
theorem toList_toString (i : Int) :
    (toString i).toList = (if i < 0 then ['-'] else []) ++ Nat.toDigits 10 i.natAbs := by
  rw [Int.toString_eq_repr, Int.repr_eq_if]
  by_cases hi : 0 ≤ i
  · have habs : i.toNat = i.natAbs := by omega
    rw [if_pos hi, if_neg (by omega), habs, Nat.toList_repr]
    rfl
  · have habs : (-i).toNat = i.natAbs := by omega
    rw [if_neg hi, if_pos (by omega), habs, String.toList_append, Nat.toList_repr]
    rfl

theorem isDigit_of_mem_toDigits {n : Nat} {c : Char} (h : c ∈ Nat.toDigits 10 n) : c.isDigit = true :=
  Nat.isDigit_of_mem_toDigits (by decide) (by decide) h

theorem point_not_mem_toString (i : Int) : '.' ∉ (toString i).toList := by
  have digits : '.' ∉ Nat.toDigits 10 i.natAbs := fun h => absurd (isDigit_of_mem_toDigits h) (by decide)
  rw [toList_toString]
  split <;> simp [digits]

theorem toString_ne_nil (i : Int) : (toString i).toList ≠ [] := by
  rw [toList_toString]
  simp [Nat.toDigits_ne_nil]

theorem toString_inj {i j : Int} : toString i = toString j ↔ i = j := by
  refine ⟨fun h => ?_, congrArg toString⟩
  rw [← String.toList_inj, toList_toString, toList_toString] at h
  have minus : ∀ n : Nat, '-' ∉ Nat.toDigits 10 n := fun n hn => absurd (isDigit_of_mem_toDigits hn) (by decide)
  have value : Nat.toDigits 10 i.natAbs = Nat.toDigits 10 j.natAbs → i.natAbs = j.natAbs := fun hd => by
    simpa using congrArg (Nat.ofDigitChars 10 · 0) hd
  by_cases hi : i < 0 <;> by_cases hj : j < 0
  · simp only [if_pos hi, if_pos hj] at h
    have := value (List.append_cancel_left h)
    omega
  · simp only [if_pos hi, if_neg hj, List.nil_append] at h
    exact absurd (h ▸ List.mem_cons_self) (minus j.natAbs)
  · simp only [if_neg hi, if_pos hj, List.nil_append] at h
    exact absurd (h ▸ List.mem_cons_self) (minus i.natAbs)
  · simp only [if_neg hi, if_neg hj, List.nil_append] at h
    have := value h
    omega

/-- The positions can be read off the text of a place. -/
theorem splitOn_key {o : Order} (h : o.indices ≠ []) :
    o.key.toList.splitOn '.' = o.indices.map fun i => (toString i).toList := by
  have parts : o.key.toList = ['.'].intercalate (o.indices.map fun i => (toString i).toList) := by
    rw [key, String.toList_intercalate, List.map_map]
    rfl
  rw [parts]
  refine List.splitOn_intercalate '.' (fun cs hcs => ?_) (by simpa using h)
  obtain ⟨i, -, rfl⟩ := List.mem_map.1 hcs
  exact point_not_mem_toString i

theorem key_eq_empty {o : Order} : o.key = "" ↔ o.indices = [] := by
  refine ⟨fun hk => ?_, fun h => by simp [key, h]⟩
  by_contra h
  have parts := splitOn_key h
  obtain ⟨i, is, his⟩ := List.exists_cons_of_ne_nil h
  rw [hk, his] at parts
  exact toString_ne_nil i (List.cons.inj parts).1.symm

theorem key_inj {a b : Order} : a.key = b.key ↔ a = b := by
  refine ⟨fun h => ?_, congrArg key⟩
  suffices a.indices = b.indices from congrArg Order.mk this
  by_cases ha : a.indices = []
  · rw [ha, key_eq_empty.1 (h ▸ key_eq_empty.2 ha)]
  · have hb : b.indices ≠ [] := fun hb => ha (key_eq_empty.1 (h.trans (key_eq_empty.2 hb)))
    have parts : (a.indices.map fun i => (toString i).toList) = b.indices.map fun i => (toString i).toList := by
      rw [← splitOn_key ha, ← splitOn_key hb, h]
    exact List.map_injective_iff.2 (fun i j hij => toString_inj.1 (String.toList_inj.1 hij)) parts

/-! ## The hierarchy -/

/-- The text of a place tells which place it is. Places are totally ordered: each comes in front of its children, the
children follow one another as their positions do, and if a place comes in front of another that does not lie below it,
then so does all that lies below the one with all that lies below the other. -/
theorem faithful_hierarchy :
    (∀ a b : Order, a.key = b.key ↔ a = b) ∧
      ((∀ a b : Order, a.compare b = .eq ↔ a = b) ∧ (∀ a b : Order, b.compare a = (a.compare b).swap) ∧
        ∀ a b c : Order, (a.compare b).isLE → (b.compare c).isLE → (a.compare c).isLE) ∧
      (∀ (o : Order) (i : Int), o.compare (o.sub i) = .lt) ∧
      (∀ (o : Order) (i j : Int), i < j → (o.sub i).compare (o.sub j) = .lt) ∧
      ∀ a b : Order, a.compare b = .lt → ¬ a.indices <+: b.indices → ¬ b.indices <+: a.indices →
        ∀ c d : Order, a.Below c → b.Below d → c.compare d = .lt := by
  refine ⟨fun _ _ => key_inj, ⟨fun _ _ => Std.LawfulEqCmp.compare_eq_iff_eq, fun _ _ => Std.OrientedCmp.eq_swap,
    fun _ _ _ => Std.TransCmp.isLE_trans⟩, compare_sub_self, fun o i j h => ?_,
    fun a b h hab _ c d hc hd => compare_below h hab hc hd⟩
  rw [compare_sub]
  exact Int.compare_eq_lt.2 h

/-- The second child of a place, with a child of its own, and the eleventh with one further down. -/
theorem faithful_hierarchy_cousins :
    let a : Order := ⟨[0, 2]⟩
    let b : Order := ⟨[0, 11]⟩
    (a.compare b = .lt ∧ ¬ a.indices <+: b.indices ∧ ¬ b.indices <+: a.indices) ∧
      (a.Below (a.sub 40) ∧ b.Below ((b.sub (-1)).sub 3)) ∧ (a.sub 40).compare ((b.sub (-1)).sub 3) = .lt := by
  intro a b
  have parted : a.compare b = .lt ∧ ¬ a.indices <+: b.indices ∧ ¬ b.indices <+: a.indices := by decide
  have below : a.Below (a.sub 40) ∧ b.Below ((b.sub (-1)).sub 3) := ⟨Below.self.sub 40, (Below.self.sub (-1)).sub 3⟩
  obtain ⟨-, -, -, -, subtrees⟩ := faithful_hierarchy
  exact ⟨parted, below, subtrees a b parted.1 parted.2.1 parted.2.2 _ _ below.1 below.2⟩

end Order

/-- The registry finds the same element when it goes by the texts of the places. -/
theorem Registry.lookup_key (r : Registry) (o : Order) :
    (r.byOrder.map fun p => (p.1.key, p.2)).lookup o.key = r.byOrder.lookup o := by
  induction r.byOrder with
  | nil => rfl
  | cons p ps ih =>
    have same : (o.key == p.1.key) = (o == p.1) := by
      rw [Bool.eq_iff_iff, beq_iff_eq, beq_iff_eq]
      exact Order.key_inj
    rw [List.map_cons, List.lookup_cons, List.lookup_cons, same, ih]

end DiagramMarkup
