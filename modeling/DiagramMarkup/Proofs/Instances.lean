import DiagramMarkup.Proofs.Openings
import DiagramMarkup.Proofs.Streams

/-!
# Attributes of instances

An instance of a shape template is prepared like every element, and hands its attributes to the element of the template,
which is prepared in turn.

1. An attribute of the instance goes over that of the template, unless it composes with it or the template refers to it
   as a variable (`beside_merge`). Placing the element writes only what an instance with `x` or `y` composes
   (`Placement.beside_applyShape`).
2. The merged element is drawn with the attributes of the instance as variables (`draws_instance`).
-/

namespace DiagramMarkup

open Element Compile DiagramMarkup.Expr

/-- The context inside of a frame. -/
def Context.within (c : Context) (vars : Frame) : Context := { c with scope := c.scope.push vars }

namespace Compile

variable {α : Type} {m : Compile α} {c c' : Context} {a : α}

theorem of_exec_withDepth {el : Element} (h : exec (withDepth el m) c = (.ok a, c')) :
    ∃ c₁ c₂, c.Beside c₁ ∧ exec m c₁ = (.ok a, c₂) := by
  unfold withDepth at h
  obtain ⟨_, c₁, hupdate, h⟩ := exec_bind_eq_ok h
  rw [exec_update] at hupdate
  cases henter : c.enter (some el) with
  | error e =>
    rw [henter] at hupdate
    cases hupdate
  | ok d =>
    rw [henter] at hupdate
    cases hupdate
    rw [exec_bracket] at h
    refine ⟨c₁, (exec m c₁).2, ?_, Prod.ext (Prod.mk.inj h).1 rfl⟩
    rw [Context.enter_eq_ok henter]
    exact ⟨rfl, rfl, rfl, rfl⟩

theorem of_exec_withFrame {vars : Frame} (h : exec (withFrame vars m) c = (.ok a, c')) :
    ∃ c₂, exec m (c.within vars) = (.ok a, c₂) := by
  unfold withFrame at h
  obtain ⟨_, c₁, hupdate, h⟩ := exec_bind_eq_ok h
  rw [exec_update] at hupdate
  cases hpush : c.pushFrame vars with
  | error e =>
    rw [hpush] at hupdate
    cases hupdate
  | ok d =>
    rw [hpush] at hupdate
    cases hupdate
    rw [exec_bracket] at h
    have hwithin : c₁ = c.within vars := Context.pushFrame_eq_ok hpush
    rw [← hwithin]
    exact ⟨(exec m c₁).2, Prod.ext (Prod.mk.inj h).1 rfl⟩

end Compile

theorem Context.Beside.within {c d : Context} (h : c.Beside d) (vars : Frame) :
    (c.within vars).Beside (d.within vars) :=
  ⟨congrArg (·.push vars) h.scope, h.options, h.templates, h.written⟩

namespace Reuse

variable {c : Context} {inst t : Element} {used : List String} {a : String}

/-! ## Merging -/

/-- The attributes of an instance that compose with the template instead of going over its attributes. -/
def composing : List String := ["id", "transform", "rotate", "style", "x", "y"]

theorem beside_number (el : Element) (attr v : String) : Ensures c.Beside (number el attr v) fun _ => True :=
  .bind (beside_expand _ _ _) fun _ _ => .ofExcept fun _ _ => trivial

/-- What an instance has gone over a template after some of its attributes. -/
structure Merged (used : List String) (es : List (String × String)) (t : Element) (p : Placement)
    (r : Element × Placement) : Prop where
  name : r.1.name = t.name
  attr : ∀ a ∉ composing, r.1.get? a = (if used.contains a then none else es.lookup a).or (t.get? a)
  x : r.2.x.isSome → p.x.isSome ∨ "x" ∈ es.map Prod.fst
  y : r.2.y.isSome → p.y.isSome ∨ "y" ∈ es.map Prod.fst

/-- An attribute that composes leaves the others of the template. -/
theorem Merged.composed {p : Placement} {e : String × String} {r : Element × Placement} (he : e.1 ∈ composing)
    (hname : r.1.name = t.name) (hattr : ∀ a ∉ composing, r.1.get? a = t.get? a)
    (hx : r.2.x.isSome → p.x.isSome ∨ e.1 = "x") (hy : r.2.y.isSome → p.y.isSome ∨ e.1 = "y") :
    Merged used [e] t p r := by
  refine ⟨hname, fun a ha => ?_, fun h => (hx h).imp_right fun h => ?_, fun h => (hy h).imp_right fun h => ?_⟩
  · have hne : a ≠ e.1 := fun heq => ha (heq ▸ he)
    rw [hattr a ha, List.lookup_cons, beq_false_of_ne hne, List.lookup_nil, ite_self, Option.none_or]
  · rw [← h]
    exact List.mem_singleton_self _
  · rw [← h]
    exact List.mem_singleton_self _

/-- One attribute goes over the template, or composes with it. -/
theorem beside_mergeAttr (p : Placement) (e : String × String) :
    Ensures c.Beside (mergeAttr inst used (t, p) e) (Merged used [e] t p) := by
  obtain ⟨n, v⟩ := e
  unfold mergeAttr
  simp only
  split
  · exact .pure (.composed (by simp [composing]) rfl (fun _ _ => rfl) .inl .inl)
  · exact .pure (.composed (by simp [composing]) rfl (fun _ _ => rfl) .inl .inl)
  · exact .bind (beside_number _ _ _) fun _ _ => .pure (.composed (by simp [composing]) rfl (fun _ _ => rfl) .inl .inl)
  · refine .pure (.composed (by simp [composing]) rfl (fun a ha => ?_) .inl .inl)
    rw [get?_set, if_neg]
    rintro rfl
    exact ha (by simp [composing])
  · exact .bind (beside_number _ _ _) fun _ _ =>
      .pure (.composed (by simp [composing]) rfl (fun _ _ => rfl) (fun _ => .inr rfl) .inl)
  · exact .bind (beside_number _ _ _) fun _ _ =>
      .pure (.composed (by simp [composing]) rfl (fun _ _ => rfl) .inl fun _ => .inr rfl)
  · refine .pure ⟨?_, fun a ha => ?_, .inl, .inl⟩
    · split <;> rfl
    · rw [List.lookup_cons, List.lookup_nil]
      by_cases hn : a = n
      · subst hn
        rw [beq_self_eq_true]
        split
        · rfl
        · rw [get?_set, if_pos rfl]
          exact (Option.some_or ..).symm
      · rw [beq_false_of_ne hn]
        simp only [ite_self, Option.none_or]
        split
        · rfl
        · rw [get?_set, if_neg hn]

theorem beside_mergeAttrs : ∀ {es : List (String × String)} {t : Element} {p : Placement}, (es.map Prod.fst).Nodup →
    Ensures c.Beside (es.foldlM (mergeAttr inst used) (t, p)) (Merged used es t p)
  | [], t, p, _ => .pure ⟨rfl, fun a _ => by simp, .inl, .inl⟩
  | e :: es, t, p, hdistinct => by
    obtain ⟨hnot, hdistinct⟩ := List.nodup_cons.1 hdistinct
    rw [List.foldlM_cons]
    refine .bind (beside_mergeAttr p e) fun r hr => (beside_mergeAttrs hdistinct).mono fun s hs => ?_
    have hcons : ∀ {n : String}, n ∈ [e].map Prod.fst ∨ n ∈ es.map Prod.fst → n ∈ (e :: es).map Prod.fst := by
      intro n hn
      simpa [eq_comm] using hn
    refine ⟨hs.name.trans hr.name, fun a ha => ?_, fun h => ?_, fun h => ?_⟩
    · rw [hs.attr a ha, hr.attr a ha, List.lookup_cons, List.lookup_cons, List.lookup_nil]
      by_cases hn : a = e.1
      · have hlookup : es.lookup a = none :=
          Attrs.get?_eq_none_of_not_mem (a := ⟨es, hdistinct⟩) (by rw [hn]; exact hnot)
        rw [hlookup, ite_self, Option.none_or, hn, beq_self_eq_true]
      · simp [beq_false_of_ne hn]
    · rcases hs.x h with h | h
      · exact (hr.x h).imp_right fun h => hcons (.inl h)
      · exact .inr (hcons (.inr h))
    · rcases hs.y h with h | h
      · exact (hr.y h).imp_right fun h => hcons (.inl h)
      · exact .inr (hcons (.inr h))

/-- The attributes of a template under the identifier of the instance. -/
theorem get?_ownAttrs (ha : a ∉ composing) :
    (Attrs.ofList (if inst.id == "" then t.attrs.entries.filter (·.1 != "id")
      else ("id", inst.id) :: t.attrs.entries.filter (·.1 != "id"))).get? a = t.get? a := by
  have hid : a ≠ "id" := by
    rintro rfl
    exact ha (by simp [composing])
  have hown : ((t.attrs.entries.filter (·.1 != "id")).map Prod.fst).Nodup :=
    t.attrs.distinct.sublist (List.filter_sublist.map Prod.fst)
  have hlookup : (t.attrs.entries.filter (·.1 != "id")).lookup a = t.get? a := Attrs.lookup_filter_of_ne hid _
  have hentries : ∀ {es : List (String × String)}, (es.map Prod.fst).Nodup → (Attrs.ofList es).entries = es :=
    fun h => Attrs.entries_setAll h
  unfold Attrs.get?
  split
  · rw [hentries hown, hlookup]
  · have hnot : "id" ∉ (t.attrs.entries.filter (·.1 != "id")).map Prod.fst := by simp
    have hcons : ((("id", inst.id) :: t.attrs.entries.filter (·.1 != "id")).map Prod.fst).Nodup :=
      List.nodup_cons.2 ⟨hnot, hown⟩
    rw [hentries hcons, List.lookup_cons, beq_false_of_ne hid]
    exact hlookup

/-- The attributes of the instance go over those of the template, apart from those that compose. -/
theorem beside_merge : Ensures c.Beside (merge inst t used) fun r => Merged used inst.attrs.entries t {} r := by
  unfold merge
  simp only
  refine .bind (R := fun _ => True) ?_ fun turn _ => .bind (beside_mergeAttrs inst.attrs.distinct) fun r hr =>
    .pure ⟨(name_addClasses _ _).trans hr.name, fun a ha => ?_, hr.x, hr.y⟩
  · unfold ownTurn
    split
    · exact .pure trivial
    · exact beside_number _ _ _
  · have hrotate : a ≠ "rotate" := by
      rintro rfl
      exact ha (by simp [composing])
    rw [get?_addClasses, hr.attr a ha]
    exact congrArg _ ((Attrs.get?_erase_of_ne hrotate).trans (get?_ownAttrs ha))

/-! ## Placing -/

/-- Placing the element of a template leaves the attribute alone. -/
structure Placement.Spares (p : Placement) (a : String) : Prop where
  composing : a ∉ composing
  x : p.x.isSome → a ∉ ["cx", "dx"]
  y : p.y.isSome → a ∉ ["cy", "dy"]

/-- The element is that of the template, apart from what placing it writes. -/
def Placement.Placed (p : Placement) (t fl : Element) : Prop :=
  fl.name = t.name ∧ ∀ a, p.Spares a → fl.get? a = t.get? a

namespace Placement

variable {p : Placement} {fl : Element}

theorem Placed.set (h : p.Placed t fl) {n : String} (hn : ¬ p.Spares n) (v : String) : p.Placed t (fl.set n v) :=
  ⟨h.1, fun a ha => (Attrs.get?_set_of_ne fun heq : a = n => hn (heq ▸ ha)).trans (h.2 a ha)⟩

theorem not_spares_of_mem {n : String} (hn : n ∈ Reuse.composing) : ¬ p.Spares n := fun h => h.composing hn

theorem Placed.setGiven (h : p.Placed t fl) {n : String} {v : Option Float} (hn : v.isSome → ¬ p.Spares n) :
    p.Placed t (setGiven fl n v) := by
  cases v with
  | none => exact h
  | some v => exact h.set (hn rfl) _

theorem beside_shift (h : p.Placed t fl) {n : String} {v : Option Float} (hn : v.isSome → ¬ p.Spares n) :
    Ensures c.Beside (shift fl n v) (p.Placed t) := by
  unfold shift
  split
  · exact .pure h
  split
  · exact .pure (h.set (hn rfl) _)
  · exact .bind (R := fun _ => True) (.ofExcept fun _ _ => trivial) fun _ _ => .pure (h.set (hn rfl) _)

theorem beside_applyShape (p : Placement) (t : Element) : Ensures c.Beside (p.applyShape t) (p.Placed t) := by
  have hx : ∀ {n : String}, n ∈ ["cx", "dx"] → p.x.isSome → ¬ p.Spares n := fun hn hx h => h.x hx hn
  have hy : ∀ {n : String}, n ∈ ["cy", "dy"] → p.y.isSome → ¬ p.Spares n := fun hn hy h => h.y hy hn
  have htransform : p.Placed t (if p.transform == "" then t else t.prependTransform p.transform) := by
    have hself : p.Placed t t := ⟨rfl, fun _ _ => rfl⟩
    unfold Element.prependTransform
    split
    · exact hself
    · split <;> exact hself.set (not_spares_of_mem (by simp [composing])) _
  unfold applyShape
  extract_lets t₁ t₂
  have hplaced : p.Placed t t₂ := by
    unfold t₂
    split
    · exact htransform
    · exact htransform.set (not_spares_of_mem (by simp [composing])) _
  clear_value t₂
  split
  · exact .pure ((hplaced.setGiven fun _ => not_spares_of_mem (by simp [composing])).setGiven fun _ =>
      not_spares_of_mem (by simp [composing]))
  split
  · exact .pure ((hplaced.setGiven (hx (by simp))).setGiven (hy (by simp)))
  · exact .bind (beside_shift hplaced (hx (by simp))) fun _ h => beside_shift h (hy (by simp))

end Placement

/-! ## Instances -/

/-- The attributes that an instance composes with those of its template, or that name the template. -/
def composed (inst : Element) : List String :=
  composing ++ ["href", "xlink:href"] ++ (if inst.has "x" then ["cx", "dx"] else []) ++
    if inst.has "y" then ["cy", "dy"] else []

/-- What an instance and its template write for an attribute: the instance goes first, unless the attribute is a
variable of the template. -/
def carried? (inst t : Element) (children : List Node) (a : String) : Option String :=
  (if (varsUsed (.element t children)).contains a then none else inst.get? a).or (t.get? a)

/-- The context in which the template of an instance is drawn. -/
def inside (c : Context) (inst : Element) : Context := c.within (target inst).2.attrs.entries

/-- The element is an instance of a template: prepared, it names one that is known. -/
structure Instantiates (c : Context) (el inst t : Element) (children : List Node) : Prop where
  filled : ∀ a, Filled c.env (el.get? a) (c.scope.default? el.name a) (inst.get? a)
  known : ∃ id, (target inst).1 = some id ∧ c.template? id = some (.element t children)

theorem get?_target (inst : Element) : ∀ a ∉ ["href", "xlink:href"], (target inst).2.get? a = inst.get? a := by
  have herase : ∀ {n : String}, n ∈ ["href", "xlink:href"] → ∀ a ∉ ["href", "xlink:href"],
      (inst.erase n).get? a = inst.get? a :=
    fun hn a ha => Attrs.get?_erase_of_ne fun heq : a = _ => ha (heq ▸ hn)
  unfold target
  cases inst.get? "href" with
  | none =>
    simp only
    split
    · exact herase (by simp)
    · exact herase (by simp)
  | some v =>
    simp only
    split
    · exact herase (by simp)
    · exact herase (by simp)

/-- An attribute that the instance does not compose is spared when the element of the template is placed. -/
theorem spares_of_not_mem_composed {bare : Element} (hbare : ∀ a ∉ ["href", "xlink:href"], bare.get? a = inst.get? a)
    {r : Element × Placement} (hr : Merged used bare.attrs.entries t {} r) (ha : a ∉ composed inst) :
    r.2.Spares a := by
  have hgiven : ∀ n ∉ ["href", "xlink:href"], n ∈ bare.attrs.entries.map Prod.fst → inst.has n := fun n hn hmem => by
    have hhas : bare.has n = true := List.contains_iff_mem.2 hmem
    rwa [Element.has_eq_isSome, hbare n hn, ← Element.has_eq_isSome] at hhas
  unfold composed at ha
  simp only [List.mem_append, not_or] at ha
  obtain ⟨⟨⟨hcomposing, -⟩, hx⟩, hy⟩ := ha
  refine ⟨hcomposing, fun h => ?_, fun h => ?_⟩
  · have hmem := (hr.x h).resolve_left (by simp)
    rwa [if_pos (hgiven "x" (by decide) hmem)] at hx
  · have hmem := (hr.y h).resolve_left (by simp)
    rwa [if_pos (hgiven "y" (by decide) hmem)] at hy

/-- A merged and placed element has what the instance and the template write. -/
theorem get?_merged {bare t' : Element} {children : List Node}
    (hbare : ∀ a ∉ ["href", "xlink:href"], bare.get? a = inst.get? a) {r : Element × Placement}
    (hr : Merged (varsUsed (.element t children)) bare.attrs.entries t {} r) (hplaced : r.2.Placed r.1 t') :
    ∀ a ∉ composed inst, t'.get? a = carried? inst t children a := by
  intro a ha
  have halways : a ∉ composing ++ ["href", "xlink:href"] := fun hmem =>
    ha (List.mem_append_left _ (List.mem_append_left _ hmem))
  rw [List.mem_append, not_or] at halways
  obtain ⟨hcomposing, hlink⟩ := halways
  rw [hplaced.2 a (spares_of_not_mem_composed hbare hr ha), hr.attr a hcomposing, carried?, ← hbare a hlink]
  rfl

variable {drawOne drawGroup : Element → List Node → Order → Compile Drawing} {el : Element} {order : Order}
  {c' : Context} {d : Drawing}

/-- An instance of a shape draws the element of the template with what the instance and the template write. -/
theorem draws_instance (h : exec (draw drawOne drawGroup el order) c = (.ok d, c')) :
    ∃ inst t children, Instantiates c el inst t children ∧
      (draw.isGroup t = false → ∃ t' c₁ c₂, (inside c inst).Beside c₁ ∧ t'.name = t.name ∧
        (∀ a ∉ composed inst, t'.get? a = carried? inst t children a) ∧
        exec (drawOne t' children order) c₁ = (.ok d, c₂)) := by
  unfold Reuse.draw at h
  obtain ⟨inst, c₁, hinst, h⟩ := exec_bind_eq_ok h
  obtain ⟨hbeside, hfilled⟩ := (beside_prepare el order).of_exec (.refl c) hinst
  have hspared := get?_target inst
  refine ⟨inst, ?_⟩
  simp only at h
  rcases htarget : target inst with ⟨id?, bare⟩
  rw [htarget] at h hspared
  obtain ⟨_, c₂, hcurrent, h⟩ := exec_bind_eq_ok h
  have hbeside := ((beside_setCurrent bare).of_exec hbeside hcurrent).1
  cases id? with
  | none => cases h
  | some id =>
    obtain ⟨c₃, _, hget, h⟩ := exec_bind_eq_ok h
    cases hget
    split at h
    · next t children htemplate =>
      rw [Node.map_copy, hbeside.template? id] at htemplate
      refine ⟨t, children, ⟨hfilled, id, congrArg Prod.fst htarget, htemplate⟩, fun hgroup => ?_⟩
      have hrename : draw.rename t = t := if_neg (by rw [hgroup]; decide)
      obtain ⟨c₄, _, hdepth, h⟩ := of_exec_withDepth h
      obtain ⟨_, h⟩ := of_exec_withFrame h
      have hbeside := (hbeside.trans hdepth).within bare.attrs.entries
      obtain ⟨⟨merged, p⟩, c₅, hmerge, h⟩ := exec_bind_eq_ok h
      rw [hrename] at hmerge
      obtain ⟨hbeside, hmerged⟩ := beside_merge.of_exec hbeside hmerge
      simp only [hgroup, Bool.false_eq_true, if_false] at h
      obtain ⟨t', c₆, hshape, h⟩ := exec_bind_eq_ok h
      obtain ⟨hbeside, hplaced⟩ := (p.beside_applyShape merged).of_exec hbeside hshape
      have hinside : inside c inst = c.within bare.attrs.entries := by rw [inside, htarget]
      exact ⟨t', c₆, _, hinside ▸ hbeside, hplaced.1.trans hmerged.name, get?_merged hspared hmerged hplaced, h⟩
    · cases h

end Reuse

/-! ## Where attributes come from -/

section Sources

open Reuse

variable {turns levels : Nat} {el : Element} {children : List Node} {order : Order} {c c' : Context} {d : Drawing}

/-- The element of the template is one that opens its drawing, and no group. -/
def IsShapeTemplate (t : Element) : Prop := (Role.ofName t.name).opens ∧ draw.isGroup t = false

/-- An instance of a shape template opens its drawing with what the instance and the template write, expanded inside of
the instance. -/
theorem opens_instance (hrole : Role.ofName el.name = .reuse)
    (h : exec (drawElement turns levels el children order) c = (.ok d, c')) :
    ∃ inst t content, Instantiates c el inst t content ∧ (IsShapeTemplate t → ∃ fl, Opens fl d ∧ ∀ a ∉ composed inst,
      Filled (inside c inst).env (carried? inst t content a) (c.scope.default? t.name a) (fl.get? a)) := by
  cases levels with
  | zero => cases h
  | succ levels =>
    unfold drawElement at h
    simp only [hrole] at h
    obtain ⟨inst, t, content, hinst, hdraws⟩ := draws_instance h
    refine ⟨inst, t, content, hinst, fun hshape => ?_⟩
    obtain ⟨t', c₁, c₂, hbeside, hname, hcarried, h⟩ := hdraws hshape.2
    obtain ⟨fl, hfilled, hopens⟩ := opens_drawElement (by rw [hname]; exact hshape.1) h
    refine ⟨fl, hopens, fun a ha => ?_⟩
    have hfilled := hfilled a
    rwa [hcarried a ha, hname, hbeside.env, hbeside.scope] at hfilled

/-- Where the attributes of a drawn element come from.

An element that is no instance has the expansion of what it writes, and the latest matching default for the rest. An
instance of a shape template is filled in first: it hands what it writes, or else the default for instances, over what
the template writes, unless the template uses the attribute as a variable. What comes of it is expanded inside of the
instance, and the latest matching default for the template fills the rest. -/
theorem attributes_filled (h : exec (drawElement turns levels el children order) c = (.ok d, c')) :
    ((Role.ofName el.name).opens → ∃ fl, Opens fl d ∧
      ∀ a, Filled c.env (el.get? a) (c.scope.default? el.name a) (fl.get? a)) ∧
    (Role.ofName el.name = .reuse → ∃ inst t content, Instantiates c el inst t content ∧
      (IsShapeTemplate t → ∃ fl, Opens fl d ∧ ∀ a ∉ composed inst,
        Filled (inside c inst).env (carried? inst t content a) (c.scope.default? t.name a) (fl.get? a))) := by
  refine ⟨fun hrole => ?_, fun hrole => opens_instance hrole h⟩
  obtain ⟨fl, hfilled, hopens⟩ := opens_drawElement hrole h
  exact ⟨fl, hopens, hfilled⟩

/-- A square with a colour. -/
def tile (fill : String) : Element := .ofAttrs "rect" [("width", "2"), ("height", "2"), ("fill", fill)]

/-- Defaults for all elements and for rectangles, a variable that names another, and a green square as a template. -/
def shelf : Context :=
  { Context.new {} with
    scope := { globals := [("shade", "gray"), ("a", "$b"), ("b", "black")]
               defaults := [.ofAttrs "_" [("fill", "red")], .ofAttrs "rect" [("stroke", "blue")]] }
    templates := [("t", .element (tile "green") [])] }

/-- An attribute of the element that is drawn on the shelf. -/
def onShelf (el : Element) (a : String) : Option String :=
  (exec (drawElement 0 3 el [] ⟨[0]⟩) shelf).1.toOption.bind fun d => d.opening?.bind (·.get? a)

theorem exists_exec_of_onShelf {el : Element} {a v : String} (h : onShelf el a = some v) :
    ∃ d c', exec (drawElement 0 3 el [] ⟨[0]⟩) shelf = (.ok d, c') := by
  unfold onShelf at h
  rcases hrun : exec (drawElement 0 3 el [] ⟨[0]⟩) shelf with ⟨_ | d, c'⟩
  · rw [hrun] at h
    cases h
  · exact ⟨d, c', rfl⟩

/-- An instance of the square with an outline of its own. -/
def outlined : Element := .ofAttrs "reuse" [("href", "#t"), ("stroke", "$shade")]

theorem exec_outlined : ∃ d c', exec (drawElement 0 3 outlined [] ⟨[0]⟩) shelf = (.ok d, c') :=
  exists_exec_of_onShelf (a := "stroke") (v := "gray") (by decide +kernel)

theorem template_outlined {inst t : Element} {content : List Node} (h : Instantiates shelf outlined inst t content) :
    t = tile "green" ∧ content = [] := by
  obtain ⟨v, hhref, hv⟩ := Filled.of_written (s := "#t") (h.filled "href")
  rw [hv.eq_self (by decide)] at hhref
  obtain ⟨id, hid, htemplate⟩ := h.known
  have htarget : (target inst).1 = some "t" := by
    unfold target
    rw [hhref]
    rfl
  rw [htarget] at hid
  cases hid
  cases htemplate
  exact ⟨rfl, rfl⟩

theorem stroke_not_mem_composed (inst : Element) : "stroke" ∉ composed inst := by
  unfold composed
  split <;> split <;> decide

theorem attributes_filled_outlined :
    ∃ d c' inst t content fl, exec (drawElement 0 3 outlined [] ⟨[0]⟩) shelf = (.ok d, c') ∧
      Instantiates shelf outlined inst t content ∧ Opens fl d ∧
      Filled (inside shelf inst).env (carried? inst t content "stroke") (some "blue") (fl.get? "stroke") := by
  obtain ⟨d, c', h⟩ := exec_outlined
  obtain ⟨inst, t, content, hinst, hshape⟩ := (attributes_filled h).2 (by decide +kernel)
  obtain ⟨rfl, rfl⟩ := template_outlined hinst
  obtain ⟨fl, hopens, hfilled⟩ := hshape ⟨by decide +kernel, by decide +kernel⟩
  exact ⟨d, c', inst, _, _, fl, h, hinst, hopens, hfilled "stroke" (stroke_not_mem_composed inst)⟩

/-- The colour that the template writes is drawn for a square as such, but not for its instance, which is given the
default for all elements. -/
theorem exists_default_over_template :
    onShelf (tile "green") "fill" = some "green" ∧
      onShelf (.ofAttrs "reuse" [("href", "#t")]) "fill" = some "red" := by
  constructor <;> decide +kernel

/-! ## How often instances are expanded -/

/-- What an instance of a shape template writes is expanded twice, once in the scope of the instance and once more
inside of it. The second expansion changes nothing if the first leaves nothing to replace, and without regions it
replaces the variables known inside of the instance. -/
theorem instance_expanded_twice (hrole : Role.ofName el.name = .reuse)
    (h : exec (drawElement turns levels el children order) c = (.ok d, c')) :
    ∃ inst t content, Instantiates c el inst t content ∧ (IsShapeTemplate t → ∃ fl, Opens fl d ∧
      ∀ a ∉ composed inst, a ∉ varsUsed (.element t content) → ∀ s, el.get? a = some s →
        ∃ v w, inst.get? a = some v ∧ Expands c.env s v ∧ fl.get? a = some w ∧ Expands (inside c inst).env v w ∧
          (Text.occurs openMark v.toList = false → w = substitute (inside c inst).env.var? v) ∧
          (hasTemplate v = false → w = v)) := by
  obtain ⟨inst, t, content, hinst, hshape⟩ := opens_instance hrole h
  refine ⟨inst, t, content, hinst, fun ht => ?_⟩
  obtain ⟨fl, hopens, hfilled⟩ := hshape ht
  refine ⟨fl, hopens, fun a ha hfree s hs => ?_⟩
  have hfirst := hinst.filled a
  rw [hs] at hfirst
  obtain ⟨v, hv, hexpands⟩ := hfirst.of_written
  have hcarried : carried? inst t content a = some v := by
    unfold carried?
    rw [if_neg (by simpa using hfree), hv, Option.some_or]
  have hsecond := hfilled a ha
  rw [hcarried] at hsecond
  obtain ⟨w, hw, hagain⟩ := hsecond.of_written
  exact ⟨v, w, hv, hexpands, hw, hagain, hagain.eq_substitute, hagain.eq_self⟩

theorem instance_expanded_twice_outlined :
    ∃ d c' inst t content fl v w, exec (drawElement 0 3 outlined [] ⟨[0]⟩) shelf = (.ok d, c') ∧
      Instantiates shelf outlined inst t content ∧ Opens fl d ∧ inst.get? "stroke" = some v ∧
      Expands shelf.env "$shade" v ∧ fl.get? "stroke" = some w ∧ Expands (inside shelf inst).env v w := by
  obtain ⟨d, c', h⟩ := exec_outlined
  obtain ⟨inst, t, content, hinst, hshape⟩ := instance_expanded_twice (by decide +kernel) h
  obtain ⟨rfl, rfl⟩ := template_outlined hinst
  obtain ⟨fl, hopens, htwice⟩ := hshape ⟨by decide +kernel, by decide +kernel⟩
  obtain ⟨v, w, hv, hfirst, hw, hsecond, -⟩ :=
    htwice "stroke" (stroke_not_mem_composed inst) (by decide +kernel) "$shade" rfl
  exact ⟨d, c', inst, _, _, fl, v, w, h, hinst, hopens, hv, hfirst, hw, hsecond⟩

/-- A square carries the text of the variable, and an instance what becomes of that text in a second expansion. -/
theorem exists_expanded_twice :
    onShelf (tile "$a") "fill" = some "$b" ∧
      onShelf (.ofAttrs "reuse" [("href", "#t"), ("fill", "$a")]) "fill" = some "black" := by
  constructor <;> decide +kernel

end Sources

end DiagramMarkup
