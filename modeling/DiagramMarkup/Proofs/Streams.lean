import DiagramMarkup.Proofs.Nesting
import DiagramMarkup.Xml.Writer

/-!
# Streams and trees

Streams and trees are two views of one document.

1. A stream that is accepted nests, and the trees are those that it spells (`Node.ofEvents_eq_ok_iff`). Behind open
   elements, what is accepted closes them one after the other (`Node.Closes`).
2. The writer keeps the names of the open elements only, and accepts the same streams (`Xml.pieces_ok_iff`).
3. A tree does not tell whether an element without content was written as two tags or as one. So the stream of the trees
   of a stream has one tag where that has two with nothing between them (`Node.Nests.fuse_append`).
4. A template is copied before an instance of it is drawn, and the copy is the same tree (`Node.copyAll_eq`).
-/

namespace DiagramMarkup

/-! ## Accepted streams -/

namespace Node

/-- The stream closes the open elements, the innermost first, and nests in between. -/
inductive Closes : List (Element × List Node) → List Event → Prop where
  | done {evs : List Event} {ns : List Node} (h : Nests evs ns) : Closes [] evs
  | close (el : Element) (before : List Node) {stack : List (Element × List Node)} {inner rest : List Event}
    {cs : List Node} (hi : Nests inner cs) (h : Closes stack rest) :
    Closes ((el, before) :: stack) (inner ++ .close el.name :: rest)

/-- In front of it there may be more that nests. -/
theorem Closes.append {evs fvs : List Event} {ns : List Node} {stack : List (Element × List Node)}
    (hc : Closes stack fvs) (h : Nests evs ns) : Closes stack (evs ++ fvs) := by
  cases hc with
  | done hd => exact .done (h.append hd)
  | close el before hi hrest =>
    rw [← List.append_assoc]
    exact .close el before (h.append hi) hrest

theorem closes_of_nest {evs : List Event} {stack : List (Element × List Node)} {siblings out : List Node}
    (h : nest evs stack siblings = .ok out) : Closes stack evs := by
  fun_induction nest evs stack siblings with
  | case1 siblings => exact .done .nil
  | case2 => cases h
  | case3 el evs stack siblings ih =>
    -- what the open elements wait for starts with the end of this one
    cases ih h with
    | close _ _ hi hrest =>
      have h := hrest.append (.tags el hi .nil)
      rwa [List.cons_append, List.append_assoc, List.singleton_append] at h
  | case4 el evs stack siblings ih => exact (ih h).append (.empty el .nil)
  | case5 l evs stack siblings ih => exact (ih h).append (.leaf l .nil)
  | case6 => cases h
  | case7 name evs el before stack siblings hname ih =>
    rw [← eq_of_beq hname]
    exact .close el before .nil (ih h)
  | case8 => cases h

/-- A stream is accepted if and only if it nests. -/
theorem ofEvents_eq_ok_iff {evs : List Event} {ns : List Node} : ofEvents evs = .ok ns ↔ Nests evs ns := by
  refine ⟨fun h => ?_, Nests.ofEvents_eq⟩
  cases closes_of_nest h with
  | done hms =>
    rw [hms.ofEvents_eq] at h
    cases h
    exact hms

end Node

/-! ## The writer -/

namespace Xml

section Outcomes

variable {ε α β : Type}

theorem not_exists_ok {e : ε} : ¬ ∃ a : α, (.error e : Except ε α) = .ok a := by
  rintro ⟨a, h⟩
  cases h

theorem except_map_ok_iff {f : α → β} {r : Except ε α} : (∃ b, r.map f = .ok b) ↔ ∃ a, r = .ok a := by
  cases r with
  | error e => exact iff_of_false not_exists_ok not_exists_ok
  | ok a => exact ⟨fun _ => ⟨a, rfl⟩, fun _ => ⟨f a, rfl⟩⟩

end Outcomes

/-- With the same elements open, the writer and the tree builder accept the same streams. -/
theorem pieces_ok_iff {evs : List Event} (hnames : ∀ el, .start el ∈ evs → writtenName el.name = el.name)
    (stack : List (Element × List Node)) (pending : Bool) (siblings : List Node) :
    (∃ ps, pieces (stack.map (·.1.name)) pending evs = .ok ps) ↔ ∃ ns, Node.nest evs stack siblings = .ok ns := by
  induction evs generalizing stack pending siblings with
  | nil =>
    cases stack with
    | nil => exact ⟨fun _ => ⟨_, rfl⟩, fun _ => ⟨_, rfl⟩⟩
    | cons p stack => exact iff_of_false not_exists_ok not_exists_ok
  | cons ev evs ih =>
    have ih := ih fun el hel => hnames el (List.mem_cons_of_mem ev hel)
    cases ev with
    | start el =>
      rw [pieces, except_map_ok_iff, hnames el List.mem_cons_self, Node.nest]
      exact ih ((el, siblings) :: stack) true []
    | empty el =>
      rw [pieces, except_map_ok_iff, Node.nest]
      exact ih stack false _
    | leaf l =>
      rw [pieces, except_map_ok_iff, Node.nest]
      exact ih stack false _
    | close name =>
      cases stack with
      | nil => exact iff_of_false not_exists_ok not_exists_ok
      | cons p stack =>
        obtain ⟨el, before⟩ := p
        rw [List.map_cons, pieces, Node.nest]
        split
        · rw [except_map_ok_iff]
          exact ih stack false _
        · exact iff_of_false not_exists_ok not_exists_ok

/-- If the names of elements are written as they are, the writer accepts what the tree builder accepts. -/
theorem write_ok_iff {evs : List Event} (hnames : ∀ el, .start el ∈ evs → writtenName el.name = el.name) :
    (∃ text, write evs = .ok text) ↔ ∃ ns, Node.ofEvents evs = .ok ns :=
  except_map_ok_iff.trans (pieces_ok_iff hnames [] false [])

end Xml

/-! ## Streams of trees -/

namespace Event

/-- A stream with one tag where it has a tag that opens and right behind it one that closes. In a stream that nests,
these are the tags of an element without content. -/
def fuse : List Event → List Event
  | .start el :: .close _ :: evs => .empty el :: fuse evs
  | ev :: evs => ev :: fuse evs
  | [] => []

end Event

namespace Node

open Event

namespace Nests

variable {evs : List Event} {ns : List Node}

theorem nil_iff (h : Nests evs ns) : evs = [] ↔ ns = [] := by
  cases h <;> simp

/-- What nests does not start with a tag that closes. -/
theorem fuse_start (h : Nests evs ns) (hne : evs ≠ []) (el : Element) (rest : List Event) :
    fuse (.start el :: (evs ++ rest)) = .start el :: fuse (evs ++ rest) := by
  cases h with
  | nil => exact absurd rfl hne
  | leaf | empty | tags => rfl

/-- The stream of the trees that a stream spells, with other events behind. -/
theorem fuse_append (h : Nests evs ns) : ∀ rest, fuse (evs ++ rest) = eventsAll ns ++ fuse rest := by
  induction h with
  | nil => intro rest; rfl
  | leaf l _ ih => 
    intro rest
    rw [List.cons_append, fuse, ih, eventsAll, events, List.append_assoc, List.singleton_append]
    simp
  | empty el _ ih =>
    intro rest
    rw [List.cons_append, fuse, ih, eventsAll, events, List.append_assoc, List.singleton_append]
    simp
  | @tags el inner evs cs ns hi _ ihi ih =>
    intro rest
    rw [List.cons_append, List.append_assoc, List.cons_append]
    cases cs with
    | nil =>
      rw [hi.nil_iff.2 rfl, List.nil_append, fuse, ih, eventsAll, events, List.append_assoc, List.singleton_append]
    | cons c cs =>
      have hne : inner ≠ [] := fun h => List.cons_ne_nil c cs (hi.nil_iff.1 h)
      have hevents : eventsAll (.element el (c :: cs) :: ns) =
          .start el :: (eventsAll (c :: cs) ++ .close el.name :: eventsAll ns) := by simp [eventsAll, events]
      rw [hi.fuse_start hne, ihi, fuse, ih, hevents]
      · simp
      · simp

theorem eventsAll_eq (h : Nests evs ns) : eventsAll ns = fuse evs := by
  have := h.fuse_append []
  rwa [fuse, List.append_nil, List.append_nil, eq_comm] at this

end Nests

/-! ## Two views of a document -/

/-- A stream is accepted if and only if it nests, and the writer accepts the same streams if it keeps the names of
elements. The stream of the trees is the stream they come from, but for elements without content in two tags. Any trees
are the trees of their stream, and so are their copies. -/
theorem streams_are_trees (evs : List Event) (ns : List Node) :
    (ofEvents evs = .ok ns ↔ Nests evs ns) ∧
    ((∀ el, .start el ∈ evs → Xml.writtenName el.name = el.name) →
      ((∃ text, Xml.write evs = .ok text) ↔ ∃ ms, ofEvents evs = .ok ms)) ∧
    (ofEvents evs = .ok ns → eventsAll ns = Event.fuse evs) ∧
    ofEvents (eventsAll ns) = .ok ns ∧ copyAll ns = ns ∧ ofEvents (eventsAll (copyAll ns)) = .ok ns := by
  have hstream : ofEvents (eventsAll ns) = .ok ns := (nests_eventsAll ns).ofEvents_eq
  refine ⟨ofEvents_eq_ok_iff, Xml.write_ok_iff, fun h => (ofEvents_eq_ok_iff.1 h).eventsAll_eq, hstream,
    copyAll_eq ns, ?_⟩
  rw [copyAll_eq]
  exact hstream

/-- A group with an element in two tags, and a comment beside it. -/
theorem streams_are_trees_group :
    let evs : List Event :=
      [.start { name := "g" }, .text "\n", .start { name := "p" }, .close "p", .close "g", .leaf (.comment "c")]
    let ns : List Node :=
      [.element { name := "g" } [.leaf (.text "\n"), .element { name := "p" } []], .leaf (.comment "c")]
    ofEvents evs = .ok ns ∧ (∀ el, .start el ∈ evs → Xml.writtenName el.name = el.name) ∧
      (∃ text, Xml.write evs = .ok text) ∧
      eventsAll ns =
        [.start { name := "g" }, .text "\n", .empty { name := "p" }, .close "g", .leaf (.comment "c")] := by
  intro evs ns
  have hns : ofEvents evs = .ok ns := rfl
  have hnames : ∀ el, .start el ∈ evs → Xml.writtenName el.name = el.name := by
    intro el hel
    have hel : el = { name := "g" } ∨ el = { name := "p" } := by simpa [evs, Event.text] using hel
    rcases hel with rfl | rfl <;> decide
  obtain ⟨-, hwrite, hstream, -⟩ := streams_are_trees evs ns
  exact ⟨hns, hnames, (hwrite hnames).2 ⟨ns, hns⟩, hstream hns⟩

end Node

end DiagramMarkup
