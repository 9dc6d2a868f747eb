import Mathlib.Data.List.Forall2
import Mathlib.Data.List.Lex
import DiagramMarkup.Document.Context

/-!
# Stalled documents

A deferral lists what it waits for, and so deferrals are trees. A place in a forest of them is the way to it, as the
numbers of the branches from the top on, and the order of the text is the lexicographic order of the places.

1. The leaves of one tree and those of the trees behind it are the leaves of all (`Deferral.Lists.cons`). So
   `leavesAll` lists the leaf of every place in order (`Deferral.lists_leavesAll`).
2. An identifier has been met if it was marked and is not empty (`Context.hasSeen_foldl_markSeen`).
3. The error of a leaf has the place of the leaf, and its kind says whether the reference is to such an identifier
   (`Context.exists_stalledError_eq`).
-/

namespace DiagramMarkup

namespace Deferral

/-! ## Leaves and their places -/

/-- The way down a tree ends at a deferral without causes. -/
inductive LeafAt : Deferral → List Nat → Deferral → Prop
  | here (el r : String) : LeafAt (.mk el r []) [] (.mk el r [])
  | cause {el r : String} {cs : List Deferral} {i : Nat} {c leaf : Deferral} {p : List Nat} (hi : cs[i]? = some c)
      (h : LeafAt c p leaf) : LeafAt (.mk el r cs) (i :: p) leaf

/-- The way down the trees of a list ends at a deferral without causes. -/
def LeafAmong (ds : List Deferral) : List Nat → Deferral → Prop
  | [], _ => False
  | i :: p, leaf => ∃ d, ds[i]? = some d ∧ d.LeafAt p leaf

theorem leafAt_mk_nil {el r : String} {p : List Nat} {leaf : Deferral} :
    (mk el r []).LeafAt p leaf ↔ p = [] ∧ leaf = mk el r [] := by
  constructor
  · rintro (_ | ⟨hi, -⟩)
    · exact ⟨rfl, rfl⟩
    · cases hi
  · rintro ⟨rfl, rfl⟩
    exact .here el r

theorem leafAt_mk_cons {el r : String} {c : Deferral} {cs : List Deferral} {p : List Nat} {leaf : Deferral} :
    (mk el r (c :: cs)).LeafAt p leaf ↔ LeafAmong (c :: cs) p leaf := by
  constructor
  · rintro (_ | ⟨hi, h⟩)
    exact ⟨_, hi, h⟩
  · cases p with
    | nil => exact False.elim
    | cons i p =>
      rintro ⟨d, hi, h⟩
      exact .cause hi h

/-- The place of a tree with one more in front of it. -/
def behind : List Nat → List Nat
  | [] => []
  | i :: p => (i + 1) :: p

theorem behind_lt_behind {p q : List Nat} (h : p < q) : behind p < behind q := by
  cases h with
  | nil => exact .nil
  | rel h => exact .rel (Nat.succ_lt_succ h)
  | cons h => exact .cons h

theorem leafAmong_cons {d : Deferral} {ds : List Deferral} {p : List Nat} {leaf : Deferral} :
    LeafAmong (d :: ds) p leaf ↔
      (∃ q, p = 0 :: q ∧ d.LeafAt q leaf) ∨ ∃ q, p = behind q ∧ LeafAmong ds q leaf := by
  constructor
  · rcases p with _ | ⟨_ | i, p⟩
    · exact False.elim
    · rintro ⟨_, ⟨⟩, h⟩
      exact .inl ⟨p, rfl, h⟩
    · rintro ⟨e, hi, h⟩
      exact .inr ⟨i :: p, rfl, e, hi, h⟩
  · rintro (⟨q, rfl, h⟩ | ⟨q, rfl, h⟩)
    · exact ⟨d, rfl, h⟩
    · cases q with
      | nil => exact h
      | cons i q => exact h

/-! ## Lists of leaves -/

/-- The places come in order, they are all that a leaf is at, and the leaves are listed along them. -/
structure Lists (At : List Nat → Deferral → Prop) (ps : List (List Nat)) (leaves : List Deferral) : Prop where
  ordered : ps.Pairwise (· < ·)
  mem_iff (p : List Nat) : p ∈ ps ↔ ∃ leaf, At p leaf
  along : List.Forall₂ At ps leaves

namespace Lists

variable {At At' : List Nat → Deferral → Prop} {ps qs : List (List Nat)} {xs ys : List Deferral}

theorem congr (h : Lists At ps xs) (hiff : ∀ p leaf, At' p leaf ↔ At p leaf) : Lists At' ps xs :=
  (funext fun p => funext fun leaf => propext (hiff p leaf) : At' = At) ▸ h

/-- The leaves of a tree and then those of the trees behind it are the leaves of all. -/
theorem cons {d : Deferral} {ds : List Deferral} (h : Lists d.LeafAt ps xs) (hs : Lists (LeafAmong ds) qs ys) :
    Lists (LeafAmong (d :: ds)) (ps.map (0 :: ·) ++ qs.map behind) (xs ++ ys) where
  ordered := by
    refine List.pairwise_append.2 ⟨?_, ?_, ?_⟩
    · exact List.pairwise_map.2 (h.ordered.imp .cons)
    · exact List.pairwise_map.2 (hs.ordered.imp behind_lt_behind)
    · intro a ha b hb
      obtain ⟨p, -, rfl⟩ := List.mem_map.1 ha
      obtain ⟨q, hq, rfl⟩ := List.mem_map.1 hb
      obtain ⟨leaf, hleaf⟩ := (hs.mem_iff q).1 hq
      cases q with
      | nil => exact hleaf.elim
      | cons i q => exact .rel (Nat.succ_pos i)
  mem_iff p := by
    simp only [List.mem_append, List.mem_map, h.mem_iff, hs.mem_iff, leafAmong_cons]
    constructor
    · rintro (⟨q, ⟨leaf, hq⟩, rfl⟩ | ⟨q, ⟨leaf, hq⟩, rfl⟩)
      · exact ⟨leaf, .inl ⟨q, rfl, hq⟩⟩
      · exact ⟨leaf, .inr ⟨q, rfl, hq⟩⟩
    · rintro ⟨leaf, ⟨q, rfl, hq⟩ | ⟨q, rfl, hq⟩⟩
      · exact .inl ⟨q, ⟨leaf, hq⟩, rfl⟩
      · exact .inr ⟨q, ⟨leaf, hq⟩, rfl⟩
  along := by
    refine List.rel_append ?_ ?_
    · exact List.forall₂_map_left_iff.2 (h.along.imp fun p leaf hp => leafAmong_cons.2 (.inl ⟨p, rfl, hp⟩))
    · exact List.forall₂_map_left_iff.2 (hs.along.imp fun q leaf hq => leafAmong_cons.2 (.inr ⟨q, rfl, hq⟩))

end Lists

mutual

/-- The leaves of a tree are listed. -/
theorem lists_leaves : ∀ d : Deferral, ∃ ps, Lists d.LeafAt ps d.leaves
  | .mk el r [] => by
    refine ⟨[[]], ⟨List.pairwise_singleton _ _, fun p => ?_, .cons (.here el r) .nil⟩⟩
    simp [leafAt_mk_nil]
  | .mk _ _ (c :: cs) => by
    obtain ⟨ps, hps⟩ := lists_leaves c
    obtain ⟨qs, hqs⟩ := lists_leavesAll cs
    exact ⟨_, (hps.cons hqs).congr fun _ _ => leafAt_mk_cons⟩

/-- The leaves of several trees are listed. -/
theorem lists_leavesAll : ∀ ds : List Deferral, ∃ ps, Lists (LeafAmong ds) ps (leavesAll ds)
  | [] => by
    refine ⟨[], ⟨.nil, fun p => ?_, .nil⟩⟩
    cases p <;> simp [LeafAmong]
  | d :: ds => by
    obtain ⟨ps, hps⟩ := lists_leaves d
    obtain ⟨qs, hqs⟩ := lists_leavesAll ds
    exact ⟨_, hps.cons hqs⟩

end

theorem leaves_ne_nil : ∀ d : Deferral, d.leaves ≠ []
  | .mk _ _ [] => by simp [leaves]
  | .mk _ _ (c :: cs) => by simp [leaves, leaves_ne_nil c]

end Deferral

namespace Context

variable {c : Context} {ids : List String}

/-! ## Identifiers that were met -/

theorem hasSeen_markSeen {id m : String} : (c.markSeen m).hasSeen id ↔ c.hasSeen id ∨ id = m ∧ m ≠ "" := by
  unfold markSeen hasSeen
  split
  · next h => simp [eq_of_beq h]
  · next h =>
    simp only [List.contains_cons, Bool.or_eq_true, beq_iff_eq] at h ⊢
    tauto

/-- The identifiers that were marked have been met, but for the empty one. -/
theorem hasSeen_foldl_markSeen {id : String} :
    (ids.foldl markSeen c).hasSeen id ↔ c.hasSeen id ∨ id ∈ ids ∧ id ≠ "" := by
  induction ids generalizing c with
  | nil => simp
  | cons m ids ih =>
    rw [List.foldl_cons, ih, hasSeen_markSeen, List.mem_cons]
    constructor
    · rintro ((h | ⟨rfl, h⟩) | ⟨h, hne⟩)
      · exact .inl h
      · exact .inr ⟨.inl rfl, h⟩
      · exact .inr ⟨.inr h, hne⟩
    · rintro (h | ⟨rfl | h, hne⟩)
      · exact .inl (.inl h)
      · exact .inl (.inr ⟨rfl, hne⟩)
      · exact .inr ⟨h, hne⟩

/-! ## Errors of leaves -/

theorem unresolved_eq_nil {ds : List Deferral} : c.unresolved ds = [] ↔ ds = [] := by
  cases ds with
  | nil => simp [unresolved, Deferral.leavesAll]
  | cons d ds => simp [unresolved, Deferral.leavesAll, d.leaves_ne_nil]

/-- The error has the place of the deferral. It is one of a bad reference if the reference is to an identifier that has
not been met. -/
theorem exists_stalledError_eq (c : Context) (d : Deferral) : ∃ kind fault,
    c.stalledError d = { kind := kind, element := d.element, attr := d.ref, cause := some (.fault fault) } ∧
      (kind = .reference ∨ kind = .document) ∧
      (kind = .reference ↔ ∃ id, d.ref = "#" ++ id ∧ ¬ c.hasSeen id) := by
  have hash : ∀ id, d.ref = "#" ++ id ↔ d.ref.toList = '#' :: id.toList := by
    intro id
    rw [← String.toList_inj, String.toList_append]
    rfl
  simp only [hash]
  unfold stalledError
  simp only
  split
  · next h => exact ⟨_, _, rfl, .inr rfl, by simp [h]⟩
  · next rest h =>
    have hid : ∀ id : String, d.ref.toList = '#' :: id.toList ↔ id = String.ofList rest := by
      intro id
      rw [h, List.cons.injEq, ← String.toList_inj, String.toList_ofList]
      exact ⟨fun h => h.2.symm, fun h => ⟨rfl, h.symm⟩⟩
    simp only [hid, exists_eq_left]
    split
    · next hseen => exact ⟨_, _, rfl, .inr rfl, by simp [hseen]⟩
    · next hseen => exact ⟨_, _, rfl, .inl rfl, by simp [hseen]⟩
  · next hne =>
    refine ⟨_, _, rfl, .inr rfl, iff_of_false nofun ?_⟩
    rintro ⟨id, h, -⟩
    exact hne _ h

end Context

open Deferral

/-- What is reported of a stall: one error for each leaf, from left to right, and one of a bad reference exactly if that
is a hash and an identifier that was never marked. The empty one is never recorded, so a lone hash is always bad. -/
theorem Context.unresolved_lists {c : Context} (hc : c.seen = []) (ids : List String) (ds : List Deferral) :
    let es := (ids.foldl markSeen c).unresolved ds
    (es = [] ↔ ds = []) ∧
      ∃ ps : List (List Nat), ps.Pairwise (· < ·) ∧ (∀ p, p ∈ ps ↔ ∃ leaf, LeafAmong ds p leaf) ∧
        List.Forall₂ (fun p e => ∃ leaf, LeafAmong ds p leaf ∧ e.element = leaf.element ∧ e.attr = leaf.ref ∧
          (e.kind = .reference ∨ e.kind = .document) ∧
          (e.kind = .reference ↔ ∃ id, leaf.ref = "#" ++ id ∧ (id = "" ∨ id ∉ ids))) ps es := by
  intro es
  have hseen : ∀ id, ¬ (ids.foldl markSeen c).hasSeen id ↔ id = "" ∨ id ∉ ids := by
    intro id
    have hno : ¬ c.hasSeen id := by simp [hasSeen, hc]
    rw [hasSeen_foldl_markSeen, or_iff_right hno]
    tauto
  obtain ⟨ps, ordered, mem_iff, along⟩ := lists_leavesAll ds
  refine ⟨unresolved_eq_nil, ps, ordered, mem_iff, List.forall₂_map_right_iff.2 (along.imp fun p leaf hleaf => ?_)⟩
  obtain ⟨kind, fault, heq, hkind, href⟩ := (ids.foldl markSeen c).exists_stalledError_eq leaf
  simp only [hseen] at href
  rw [heq]
  exact ⟨leaf, hleaf, rfl, rfl, hkind, href⟩

/-- A leaf on top and two below a group: one waits for an element that was met, the others do not. -/
theorem Context.unresolved_lists_nested :
    let ids := ["a", "b"]
    let ds := [.mk "<path>" "#b" [], .mk "<g>" "" [.mk "<rect>" "#nowhere" [], .mk "<use>" "#" []]]
    let es := (ids.foldl markSeen (.new {})).unresolved ds
    es.map DocError.kind = [.document, .reference, .reference] ∧ (Context.new {}).seen = [] ∧
      ∃ ps : List (List Nat), ps.Pairwise (· < ·) ∧ (∀ p, p ∈ ps ↔ ∃ leaf, LeafAmong ds p leaf) ∧
        List.Forall₂ (fun p e => ∃ leaf, LeafAmong ds p leaf ∧ e.element = leaf.element ∧ e.attr = leaf.ref ∧
          (e.kind = .reference ∨ e.kind = .document) ∧
          (e.kind = .reference ↔ ∃ id, leaf.ref = "#" ++ id ∧ (id = "" ∨ id ∉ ids))) ps es :=
  ⟨by decide, rfl, (Context.unresolved_lists (c := .new {}) rfl ["a", "b"] _).2⟩

/-- A lone hash is a bad reference though the empty identifier was marked. -/
theorem Context.unresolved_hash_of_empty_marked :
    let es := ([""].foldl markSeen (.new {})).unresolved [.mk "<rect>" "#" []]
    es.map DocError.kind = [.reference] ∧ ¬ ∃ id, "#" = "#" ++ id ∧ id ∉ [""] := by
  refine ⟨by decide, ?_⟩
  rintro ⟨id, h, hid⟩
  have hempty : id.toList = [] := by
    have := congrArg String.toList h
    rw [String.toList_append] at this
    exact (List.cons.inj this).2.symm
  exact hid (List.mem_singleton.2 (String.toList_eq_nil_iff.1 hempty))

end DiagramMarkup
