import DiagramMarkup.Proofs.References

/-!
# Looking up attributes

What an element answers when it is asked for an attribute after one of its attributes was given a value or removed.
-/

namespace DiagramMarkup

namespace Attrs

variable {name value : String}

theorem lookup_put_self : ∀ es : List (String × String), (put name value es).lookup name = some value
  | [] => by rw [put, List.lookup_cons, beq_self_eq_true]
  | (m, v) :: rest => by
    by_cases hm : m = name
    · subst hm
      rw [put_cons_self, List.lookup_cons, beq_self_eq_true]
    · rw [put_cons_of_ne hm, List.lookup_cons, beq_false_of_ne (Ne.symm hm), lookup_put_self rest]

theorem lookup_filter_self (es : List (String × String)) : (es.filter (·.1 != name)).lookup name = none := by
  rw [List.lookup_eq_none_iff]
  intro p hp
  have hne : p.1 ≠ name := by simpa using (List.mem_filter.1 hp).2
  simpa using hne.symm

theorem get?_eq_none_iff {a : Attrs} : a.get? name = none ↔ a.has name = false := by
  unfold get? has names
  rw [List.lookup_eq_none_iff, List.contains_eq_mem, decide_eq_false_iff_not, List.mem_map]
  simp only [not_exists, not_and, bne_iff_ne, ne_eq]
  exact forall_congr' fun p => imp_congr_right fun _ => not_congr eq_comm

theorem has_eq_isSome (a : Attrs) (name : String) : a.has name = (a.get? name).isSome := by
  cases h : a.get? name with
  | none => exact get?_eq_none_iff.1 h
  | some v =>
    cases hhas : a.has name with
    | false => cases h.symm.trans (get?_eq_none_iff.2 hhas)
    | true => rfl

end Attrs

namespace Element

theorem has_eq_isSome (el : Element) (name : String) : el.has name = (el.get? name).isSome :=
  el.attrs.has_eq_isSome name

theorem get?_set (el : Element) (m n value : String) :
    (el.set n value).get? m = if m = n then some value else el.get? m := by
  split
  · next h =>
    subst h
    exact Attrs.lookup_put_self el.attrs.entries
  · next h => exact Attrs.get?_set_of_ne h

theorem get?_erase (el : Element) (m n : String) :
    (el.erase n).get? m = if m = n then none else el.get? m := by
  split
  · next h =>
    subst h
    exact Attrs.lookup_filter_self el.attrs.entries
  · next h => exact Attrs.get?_erase_of_ne h

/-- Nothing is removed with an attribute that is missing. -/
theorem erase_eq_self {el : Element} {name : String} (h : el.get? name = none) : el.erase name = el := by
  have hentries : el.attrs.entries.filter (·.1 != name) = el.attrs.entries := by
    rw [List.filter_eq_self]
    intro p hp
    have hne : name ≠ p.1 := by simpa using List.lookup_eq_none_iff.1 h p hp
    simpa using hne.symm
  obtain ⟨tag, attrs, classes, order⟩ := el
  unfold erase Attrs.erase
  simp only [hentries]

@[simp] theorem shape?_set (el : Element) (n value : String) : (el.set n value).shape? = el.shape? := rfl

end Element

end DiagramMarkup
