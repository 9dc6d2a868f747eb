import DiagramMarkup.Number.Reader

/-!
# Natural order

Names are ordered as people count, so `fig2` comes before `fig10`.

The comparison is that of the `natural` package, which documents that digits are read as decimal numbers:

1. What two names have in common does not matter, up to the first digit or difference.
2. Runs of digits compare as numbers if both fit in 64 bits, and otherwise as text.
3. Equal numbers leave the decision to what follows, if something follows both, and otherwise to the text from the
   numbers on. So names that differ only in leading zeros inside are equal in this order.

A sort of names is documented to rearrange them, and to sort them where the comparison orders them. Names that are equal
in the order may come in any order, and so may names that it does not order, such as `a1b`, `a01c` and `a1`.
-/

namespace DiagramMarkup.Files

/-! ## The comparison -/

/-- What follows the longest common part of two names that holds no digit. -/
def skipCommon : List Char → List Char → List Char × List Char
  | a :: as, b :: bs =>
    if a == b && !Number.isDigit a then skipCommon as bs else (a :: as, b :: bs)
  | as, bs => (as, bs)

/-- The number of a run of digits, if it is small enough to count. -/
def countable? (digits : List Char) : Option Nat :=
  let n := Number.natOfDigits 10 digits
  if digits.isEmpty || Nat.pow 2 64 ≤ n then none else some n

/-- Does the first name come before the second? Each step takes at least one digit off both. -/
def naturalLessFuel : Nat → List Char → List Char → Bool
  | 0, _, _ => false
  | fuel + 1, a, b =>
    let (a, b) := skipCommon a b
    let (da, ra) := (a.takeWhile Number.isDigit, a.dropWhile Number.isDigit)
    let (db, rb) := (b.takeWhile Number.isDigit, b.dropWhile Number.isDigit)
    match countable? da, countable? db with
    | some m, some n =>
      if m != n then m < n
      else if !ra.isEmpty && !rb.isEmpty then naturalLessFuel fuel ra rb
      else a < b
    | _, _ => a < b

/-- Does the first name come before the second in natural order? -/
def naturalLess (a b : String) : Bool := naturalLessFuel (a.toList.length + 1) a.toList b.toList

/-- Natural order is an order of these names, if perhaps not of all. -/
structure Ordered (ns : List String) : Prop where
  asymm : ∀ m ∈ ns, ∀ n ∈ ns, naturalLess m n = true → naturalLess n m = false
  trans : ∀ l ∈ ns, ∀ m ∈ ns, ∀ n ∈ ns, naturalLess l m = false → naturalLess m n = false → naturalLess l n = false

/-! ## Sorting -/

section Sorting

variable {α : Type} (name : α → String)

/-- Put something behind what it does not come before; `back` holds what was sorted so far, the last of it first. -/
def insertNatural (x : α) : (back : List α) → List α
  | [] => [x]
  | y :: ys => if naturalLess (name x) (name y) then y :: insertNatural x ys else x :: y :: ys

/-- Sort by names in natural order; equals keep their order. -/
def naturalSort (xs : List α) : List α := (xs.foldl (fun back x => insertNatural name x back) []).reverse

theorem perm_insertNatural (x : α) (back : List α) : (insertNatural name x back).Perm (x :: back) := by
  induction back with
  | nil => exact .refl _
  | cons y ys ih =>
    unfold insertNatural
    split
    · exact (ih.cons y).trans (.swap x y ys)
    · exact .refl _

theorem perm_foldl_insertNatural (xs : List α) : ∀ back : List α,
    (xs.foldl (fun back x => insertNatural name x back) back).Perm (xs ++ back) := by
  induction xs with
  | nil => exact fun back => .refl back
  | cons x xs ih =>
    exact fun back => (ih _).trans (((perm_insertNatural name x back).append_left xs).trans List.perm_middle)

/-- Sorting leaves nothing out and adds nothing, in whatever order. -/
theorem perm_naturalSort (xs : List α) : (naturalSort name xs).Perm xs :=
  (List.reverse_perm _).trans ((perm_foldl_insertNatural name xs []).trans (.of_eq (List.append_nil xs)))

@[simp] theorem mem_naturalSort {xs : List α} {x : α} : x ∈ naturalSort name xs ↔ x ∈ xs :=
  (perm_naturalSort name xs).mem_iff

@[simp] theorem naturalSort_singleton (x : α) : naturalSort name [x] = [x] := rfl

variable {name} {ns : List String} (hns : Ordered ns)

include hns

theorem pairwise_insertNatural {x : α} (hx : name x ∈ ns) {back : List α} (hback : ∀ y ∈ back, name y ∈ ns)
    (h : back.Pairwise fun y z => naturalLess (name y) (name z) = false) :
    (insertNatural name x back).Pairwise fun y z => naturalLess (name y) (name z) = false := by
  induction back with
  | nil => exact List.pairwise_singleton _ x
  | cons y ys ih =>
    obtain ⟨hy, hys⟩ := List.forall_mem_cons.1 hback
    obtain ⟨hfirst, hrest⟩ := List.pairwise_cons.1 h
    unfold insertNatural
    split
    · next hless =>
      refine List.pairwise_cons.2 ⟨fun z hz => ?_, ih hys hrest⟩
      rcases List.mem_cons.1 ((perm_insertNatural name x ys).mem_iff.1 hz) with rfl | hz
      · exact hns.asymm _ hx _ hy hless
      · exact hfirst z hz
    · next hless =>
      have hless : naturalLess (name x) (name y) = false := by simpa using hless
      refine List.pairwise_cons.2 ⟨fun z hz => ?_, h⟩
      rcases List.mem_cons.1 hz with rfl | hz
      · exact hless
      · exact hns.trans _ hx _ hy _ (hys z hz) hless (hfirst z hz)

theorem pairwise_foldl_insertNatural {xs : List α} (hxs : ∀ x ∈ xs, name x ∈ ns) : ∀ {back : List α},
    (∀ y ∈ back, name y ∈ ns) → back.Pairwise (fun y z => naturalLess (name y) (name z) = false) →
    (xs.foldl (fun back x => insertNatural name x back) back).Pairwise
      fun y z => naturalLess (name y) (name z) = false := by
  induction xs with
  | nil => exact fun _ h => h
  | cons x xs ih =>
    intro back hback h
    obtain ⟨hx, hxs⟩ := List.forall_mem_cons.1 hxs
    refine ih hxs (fun y hy => ?_) (pairwise_insertNatural hns hx hback h)
    rcases List.mem_cons.1 ((perm_insertNatural name x back).mem_iff.1 hy) with rfl | hy
    · exact hx
    · exact hback y hy

/-- Names that are ordered are sorted. -/
theorem pairwise_naturalSort {xs : List α} (hxs : ∀ x ∈ xs, name x ∈ ns) :
    (naturalSort name xs).Pairwise fun x y => naturalLess (name y) (name x) = false :=
  List.pairwise_reverse.2 (pairwise_foldl_insertNatural hns hxs nofun .nil)

end Sorting

/-- A way to sort names in natural order. Only what is documented of the sort is known. -/
structure Sorting where
  sort : List String → List String
  /-- Names are only rearranged. -/
  perm : ∀ ns, (sort ns).Perm ns
  /-- No name comes before an earlier one, if natural order is an order of them. -/
  sorted : ∀ ns, Ordered ns → (sort ns).Pairwise fun m n => naturalLess n m = false

/-- Equals keep their order. -/
def Sorting.stable : Sorting where
  sort := naturalSort id
  perm := perm_naturalSort id
  sorted _ h := pairwise_naturalSort h fun _ hn => hn

end DiagramMarkup.Files
