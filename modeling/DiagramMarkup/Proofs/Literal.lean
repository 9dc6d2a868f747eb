import DiagramMarkup.Compile.Draw
import DiagramMarkup.Proofs.Places
import DiagramMarkup.Proofs.Texts

/-!
# Drawing literal shapes

In a shape with literal attributes nothing is replaced, so what it draws is what settling it gives. A call of the
drawing step does one of three things (`Drawn`): it draws the shape and records it, it waits and leaves the context as
it was, or it fails for good.

1. Literal attributes expand to themselves (`exec_expandElement`).
2. The steps of a shape lead through the stages of `Figure.settle` (`exec_shape`).
3. What only messages and templates look at is left out of account (`Context.core`).
-/

namespace DiagramMarkup

open Element Compile

/-! ## Literal elements -/

/-- The text has nothing to replace in it, and no `^`. -/
def isPlain (s : String) : Bool := !Expr.hasTemplate s && !Text.hasChar '^' s

/-- The attributes and classes of the element are literal. -/
structure Element.Literal (el : Element) : Prop where
  attrs : ∀ p ∈ el.attrs.entries, isPlain p.2
  classes : ∀ c ∈ el.classes, isPlain c

/-- The element with the words of its classes as classes. -/
def Element.spread (el : Element) : Element :=
  ({ el with classes := [] } : Element).addClasses (el.classes.flatMap Text.words)

/-! ### References in plain texts -/

theorem not_mem_of_isPlain {s : String} (h : isPlain s) : '^' ∉ s.toList := by
  simpa [Text.hasChar] using (Bool.and_eq_true_iff.1 h).2

theorem target?_ne {v t : String} (hv : isPlain v) (ht : Position.target? v = some t) : t ≠ "^" := by
  unfold Position.target? at ht
  split at ht
  · next r hr =>
    obtain ⟨rest, hsplit, -⟩ := Position.Ref.parse_eq_ok hr
    rw [ht] at hsplit
    unfold Position.Ref.splitTarget at hsplit
    split at hsplit
    · next cs hcs =>
      refine absurd (Text.mem_of_mem_trim ?_) (not_mem_of_isPlain hv)
      rw [hcs]
      exact List.mem_cons_self
    · simp only at hsplit
      split at hsplit
      · cases hsplit
      · rintro rfl
        have := congrArg String.toList (Option.some.inj (Prod.mk.inj (Except.ok.inj hsplit)).1)
        rw [String.toList_ofList] at this
        cases this
    · cases hsplit
  · cases ht

theorem Element.Literal.get? {el : Element} (h : el.Literal) {n v : String} (hv : el.get? n = some v) :
    isPlain v := by
  obtain ⟨before, behind, heq, -⟩ := List.lookup_eq_some_iff.1 hv
  exact h.attrs (n, v) (by simp [heq])

/-- No reference of a literal element is `^`. -/
theorem Element.Literal.references_ne {el : Element} (h : el.Literal) :
    ∀ t ∈ Figure.references el, t ≠ "^" := by
  have target : ∀ n t, t ∈ ((el.get? n).bind Position.target?).toList → t ≠ "^" := by
    intro n t ht
    rw [Option.mem_toList, Option.bind_eq_some_iff] at ht
    obtain ⟨v, hv, ht⟩ := ht
    exact target?_ne (h.get? hv) ht
  have size : ∀ t, t ∈ ((el.get? "wh").bind Position.sizeTarget?).toList → t ≠ "^" := by
    intro t ht
    rw [Option.mem_toList, Option.bind_eq_some_iff] at ht
    obtain ⟨v, hv, ht⟩ := ht
    unfold Position.sizeTarget? at ht
    split at ht
    · exact target?_ne (h.get? hv) ht
    · cases ht
  have words : ∀ n t, t ∈ (el.get? n).toList.flatMap Text.words → t ≠ "^" := by
    intro n t ht
    obtain ⟨v, hv, ht⟩ := List.mem_flatMap.1 ht
    rintro rfl
    exact not_mem_of_isPlain (h.get? (Option.mem_toList.1 hv)) (Text.mem_of_mem_words ht (by simp))
  intro t ht
  rcases List.mem_append.1 ht with ht | ht
  · unfold Connector.references at ht
    split at ht
    · split at ht
      · next start stop hs he =>
        rcases List.mem_append.1 ht with ht | ht
        · exact target "start" t (by rwa [hs, Option.bind_some])
        · exact target "end" t (by rwa [he, Option.bind_some])
      · cases ht
    · cases ht
  · unfold Position.references at ht
    split at ht
    · cases ht
    simp only [List.mem_append] at ht
    rcases ht with (ht | ht | ht) | ht | ht | ht
    · exact words _ t ht
    · exact words _ t ht
    · exact size t ht
    · split at ht
      · rcases List.mem_append.1 ht with ht | ht
        · exact target _ t ht
        · exact target _ t ht
      · cases ht
    · exact target _ t ht
    · exact target _ t ht

section Expansion

variable {el : Element} (hel : el.Literal) (c : Context)

theorem exec_expand {s : String} (h : isPlain s) (el : Element) (attr : String) (c : Context) :
    exec (expand el attr s) c = (.ok s, c) := by
  have hs : Expr.hasTemplate s = false := by simpa using (Bool.and_eq_true_iff.1 h).1
  have hrun : c.expand s = (.ok s, c) := by
    unfold Context.expand Context.runExpr Expr.expand
    rw [hs]
    rfl
  unfold expand
  rw [exec_evaluating, hrun]

theorem exec_expandAttrs (fl : Element) : ∀ {ps : List (String × String)}, (∀ p ∈ ps, isPlain p.2) →
    exec (ps.foldlM expandAttr fl) c = (.ok fl, c)
  | [], _ => rfl
  | p :: ps, h => by
    obtain ⟨hp, hps⟩ := List.forall_mem_cons.1 h
    have hone : exec (expandAttr fl p) c = (.ok fl, c) := by
      unfold expandAttr
      rw [exec_bind_ok (exec_expand hp fl p.1 c)]
      simp
    rw [List.foldlM_cons, exec_bind_ok hone]
    exact exec_expandAttrs fl hps

theorem exec_expandClasses (fl : Element) : ∀ {cs : List String}, (∀ s ∈ cs, isPlain s) →
    exec (cs.mapM fun s => do return Text.words (← expand fl "class" s)) c =
      (.ok (cs.map Text.words), c)
  | [], _ => rfl
  | s :: cs, h => by
    obtain ⟨hs, hcs⟩ := List.forall_mem_cons.1 h
    have hone : exec (do return Text.words (← expand fl "class" s)) c = (.ok (Text.words s), c) := by
      rw [exec_bind_ok (exec_expand hs fl "class" c)]
      rfl
    rw [List.mapM_cons, exec_bind_ok hone, exec_bind_ok (exec_expandClasses fl hcs)]
    rfl

include hel

theorem exec_expandElement : exec (expandElement el) c = (.ok el.spread, c) := by
  unfold expandElement
  rw [exec_bind_ok (exec_expandAttrs c el hel.attrs),
    exec_bind_ok (exec_expandClasses c el hel.classes), List.flatten_eq_flatMap, List.flatMap_map]
  rfl

end Expansion

/-! ## What drawing looks at -/

/-- The context without what only messages, templates and `^` look at. -/
def Context.core (c : Context) : Context :=
  { c with current := none, seen := [], written := [], prev := none }

namespace Context

/-- Record a settled shape. -/
def record (c : Context) (s : Figure.Settled) : Context :=
  ((s.parts.foldl observe c).register s.element s.box).observe s.element

theorem core_markSeen (c : Context) (id : String) : (c.markSeen id).core = c.core := by
  unfold markSeen
  split <;> rfl

theorem core_registerWritten (c : Context) (id : String) (n : Node) :
    (c.registerWritten id n).core = c.core := by
  unfold registerWritten
  split <;> rfl

theorem core_foldl_observe (els : List Element) (c : Context) :
    (els.foldl observe c).core = els.foldl observe c.core := by
  induction els generalizing c with
  | nil => rfl
  | cons el els ih => exact ih (c.observe el)

theorem core_record (c : Context) (s : Figure.Settled) : (c.record s).core = c.core.record s := by
  show ((s.parts.foldl observe c).core.register s.element s.box).observe s.element = _
  rw [core_foldl_observe]
  rfl

theorem foldl_observe_eq (els : List Element) (c : Context) : els.foldl observe c =
    { c with names := (els.foldl observe c).names, classes := (els.foldl observe c).classes } := by
  induction els generalizing c with
  | nil => rfl
  | cons el els ih => exact ih (c.observe el)

/-- A record registers the element; besides, names and classes are noted. -/
theorem record_eq (c : Context) (s : Figure.Settled) : c.record s =
    { c with
      registry := c.registry.register s.element s.box
      names := (c.record s).names
      classes := (c.record s).classes } := by
  unfold record
  rw [foldl_observe_eq]
  rfl

/-! ### References -/

/-- The resolved element with an identifier. -/
def recorded? (c : Context) (id : String) : Option Entry := c.registry.byId.lookup id

/-- A reference is an identifier behind a hash. -/
theorem lookup_hash (c : Context) {id : String} (h : id ≠ "") :
    c.lookup ("#" ++ id) = match c.recorded? id with
      | some e => .ok e
      | none => .error (.waits c.current ("#" ++ id)) := by
  cases hid : id.toList with
  | nil => exact absurd (String.toList_eq_nil_iff.1 hid) h
  | cons d rest =>
    have hlist : ("#" ++ id).toList = '#' :: d :: rest := by
      rw [String.toList_append, hid]
      rfl
    have hne : ("#" ++ id == "^") = false := by
      refine beq_false_of_ne fun heq => ?_
      rw [heq] at hlist
      cases hlist
    have hself : String.ofList (d :: rest) = id := by rw [← hid, String.ofList_toList]
    unfold lookup recorded?
    rw [hne, hlist]
    cases hl : c.registry.byId.lookup id <;> simp only [Bool.false_eq_true, if_false, hself, hl]

theorem boxOf_hash_none {c : Context} {id : String} (h : id ≠ "") (he : c.recorded? id = none) :
    Waits (c.boxOf ("#" ++ id)) := by
  unfold boxOf
  rw [lookup_hash c h, he]
  exact ⟨_, rfl⟩

theorem boxOf_hash_some {c : Context} {id : String} (h : id ≠ "") {e : Entry} (he : c.recorded? id = some e) :
    c.boxOf ("#" ++ id) = match e.box with
      | some b => .ok b
      | none => .error (.raise .reference c.current "" (.fault (.noBox ("#" ++ id)))) := by
  unfold boxOf
  rw [lookup_hash c h, he]
  rfl

/-- Whatever else is no reference fails for good. -/
theorem boxOf_other {t : String} (ht : t ≠ "^") (h : ∀ id, id ≠ "" → t ≠ "#" ++ id) (c : Context) :
    ∃ f : Failure, f.Final ∧ c.boxOf t = .error f := by
  refine ⟨.raise .parse c.current "" (.fault (.badReference t)), Failure.final_error _, ?_⟩
  unfold boxOf lookup
  rw [beq_false_of_ne ht]
  simp only [Bool.false_eq_true, if_false]
  split
  · next d rest hlist =>
    refine absurd ?_ (h (String.ofList (d :: rest)) ?_)
    · rw [← String.toList_inj, hlist, String.toList_append, String.toList_ofList]
      simp
    · intro hnil
      have := congrArg String.toList hnil
      rw [String.toList_ofList] at this
      cases this
  · rfl

theorem boxOf_eq_ok {c : Context} {t : String} (ht : t ≠ "^") {b : Box Float} (h : c.boxOf t = .ok b) :
    ∃ id e, id ≠ "" ∧ t = "#" ++ id ∧ c.recorded? id = some e := by
  by_cases hid : ∃ id, id ≠ "" ∧ t = "#" ++ id
  · obtain ⟨id, hne, rfl⟩ := hid
    cases he : c.recorded? id with
    | none =>
      obtain ⟨w, hw⟩ := boxOf_hash_none hne he
      rw [hw] at h
      cases h
    | some e => exact ⟨id, e, hne, rfl, he⟩
  · obtain ⟨f, -, hf⟩ := boxOf_other ht (fun id hne heq => hid ⟨id, hne, heq⟩) c
    rw [hf] at h
    cases h

theorem waits_boxOf {c : Context} {t : String} (ht : t ≠ "^") (h : Waits (c.boxOf t)) :
    ∃ id, id ≠ "" ∧ t = "#" ++ id ∧ c.recorded? id = none := by
  obtain ⟨w, hw⟩ := h
  by_cases hid : ∃ id, id ≠ "" ∧ t = "#" ++ id
  · obtain ⟨id, hne, rfl⟩ := hid
    cases he : c.recorded? id with
    | none => exact ⟨id, hne, rfl, he⟩
    | some e =>
      rw [boxOf_hash_some hne he] at hw
      split at hw <;> cases hw
  · obtain ⟨f, hfinal, hf⟩ := boxOf_other ht (fun id hne heq => hid ⟨id, hne, heq⟩) c
    rw [hf] at hw
    cases hw
    exact absurd rfl (hfinal w)

/-- What is resolved in the first context is so in the second, with the same box. -/
def Within (c d : Context) : Prop :=
  ∀ id e, c.recorded? id = some e → ∃ f, d.recorded? id = some f ∧ f.box = e.box

theorem recorded?_of_core {c d : Context} (h : d.core = c.core) : d.recorded? = c.recorded? := by
  have hreg : d.registry = c.registry := (congrArg Context.registry h :)
  unfold recorded?
  rw [hreg]

theorem Within.of_core {c d : Context} (h : d.core = c.core) : c.Within d :=
  fun id e he => ⟨e, by rw [recorded?_of_core h, he], rfl⟩

theorem Within.trans {c d e : Context} (h : c.Within d) (h' : d.Within e) : c.Within e := by
  intro id x hx
  obtain ⟨y, hy, hbox⟩ := h id x hx
  obtain ⟨z, hz, hbox'⟩ := h' id y hy
  exact ⟨z, hz, hbox'.trans hbox⟩

/-- References other than `^` that are answered stay so. -/
theorem below_boxOf {c d : Context} (h : c.Within d) {t : String} (ht : t ≠ "^") :
    Below (c.boxOf t) (d.boxOf t) := by
  by_cases hid : ∃ id, id ≠ "" ∧ t = "#" ++ id
  · obtain ⟨id, hne, rfl⟩ := hid
    cases hc : c.recorded? id with
    | none =>
      obtain ⟨w, hw⟩ := boxOf_hash_none hne hc
      rw [hw]
      exact .waits w _
    | some e =>
      obtain ⟨f, hd, hbox⟩ := h id e hc
      rw [boxOf_hash_some hne hc, boxOf_hash_some hne hd, hbox]
      cases e.box with
      | none => exact .fails (Failure.final_error _) (Failure.final_error _)
      | some b => exact .ok b
  · have hother : ∀ id, id ≠ "" → t ≠ "#" ++ id := fun id hne heq => hid ⟨id, hne, heq⟩
    obtain ⟨f, hf, hcf⟩ := boxOf_other ht hother c
    obtain ⟨g, hg, hdg⟩ := boxOf_other ht hother d
    rw [hcf, hdg]
    exact .fails hf hg

end Context

/-! ## Calls for shapes -/

section Calls

variable {el : Element} (hel : el.Literal) {c : Context}

theorem Element.addClasses_placed (k : Order) (cs : List String) (fl : Element) :
    (placed k fl).addClasses cs = placed k (fl.addClasses cs) := by
  induction cs generalizing fl with
  | nil => rfl
  | cons s cs ih =>
    have hone : (placed k fl).addClass s = placed k (fl.addClass s) := by
      unfold addClass
      rw [show (placed k fl).hasClass s = fl.hasClass s from rfl]
      split <;> rfl
    show ((placed k fl).addClass s).addClasses cs = _
    rw [hone]
    exact ih (fl.addClass s)

theorem Element.addClasses_eq (cs : List String) (fl : Element) :
    (fl.addClasses cs).name = fl.name ∧ (fl.addClasses cs).attrs = fl.attrs := by
  induction cs generalizing fl with
  | nil => exact ⟨rfl, rfl⟩
  | cons s cs ih =>
    have hone : (fl.addClass s).name = fl.name ∧ (fl.addClass s).attrs = fl.attrs := by
      unfold addClass
      split <;> exact ⟨rfl, rfl⟩
    exact ⟨(ih (fl.addClass s)).1.trans hone.1, (ih (fl.addClass s)).2.trans hone.2⟩

theorem Element.spread_name (el : Element) : el.spread.name = el.name := (addClasses_eq _ _).1

theorem Element.get?_spread (el : Element) (n : String) : el.spread.get? n = el.get? n :=
  congrArg (·.get? n) (addClasses_eq _ _).2

/-- The references of an element are those of the element made ready. -/
theorem Figure.references_placed_spread (order : Order) (el : Element) :
    Figure.references (placed order el.spread) = Figure.references el := by
  have hget : ∀ n, (placed order el.spread).get? n = el.get? n := get?_spread el
  have hname : (placed order el.spread).name = el.name := spread_name el
  unfold references
  rw [connectorReferences_congr hname (hget _) (hget _), positionReferences_congr hname fun n _ => hget n]

theorem exec_setCurrent (fl : Element) (c : Context) :
    exec (setCurrent fl) c = (.ok (), { c with current := some fl }) := rfl

theorem exec_observe (fl : Element) (c : Context) : exec (observe fl) c = (.ok (), c.observe fl) := rfl

theorem exec_register (fl : Element) (box : Option (Box Float)) (c : Context) :
    exec (register fl box) c = (.ok (), c.register fl box) := rfl

include hel in
theorem exec_prepare (hc : c.scope.defaults = []) (order : Order) :
    ∃ d, exec (prepare el order) c = (.ok (placed order el.spread), d) ∧ d.core = c.core := by
  have hplaced : (placed order el).Literal := ⟨hel.attrs, hel.classes⟩
  have hspread : (placed order el).spread = placed order el.spread :=
    addClasses_placed order _ { el with classes := [] }
  have hfill : ∀ fl, c.scope.applyDefaults fl = fl := by
    intro fl
    unfold Scope.applyDefaults
    rw [hc]
    rfl
  have hexpand : ∀ d, exec (expandElement { el with order := order }) d =
      (.ok (placed order el.spread), d) := fun d => hspread ▸ exec_expandElement hplaced d
  unfold prepare
  rw [exec_bind_ok (exec_setCurrent _ c), exec_bind_ok (hexpand _), exec_bind_ok (exec_get _)]
  simp only [hfill]
  exact ⟨_, rfl, Context.core_markSeen _ _⟩

/-- The drawing of a settled shape. -/
def Figure.Settled.drawing (s : Figure.Settled) : Drawing :=
  ⟨Event.wrap s.element s.content ++ s.beside, s.box⟩

theorem exec_observeAll (els : List Element) (c : Context) :
    exec (els.forM observe) c = (.ok (), els.foldl Context.observe c) := by
  induction els generalizing c with
  | nil => rfl
  | cons el els ih =>
    show exec (observe el >>= fun _ => els.forM observe) c = _
    rw [exec_bind_ok (exec_observe el c)]
    exact ih (c.observe el)

/-- The run draws and records what is settled, or fails in the same way and leaves the context. -/
def Follows (c : Context) (run : Except Failure Drawing × Context) (r : Except Failure Figure.Settled) :
    Prop :=
  match r with
  | .ok s => run.1 = .ok s.drawing ∧ run.2.core = (c.record s).core
  | .error f => run.1 = .error f ∧ run.2.core = c.core

theorem Follows.bind {α : Type} {c d : Context} (hd : d.core = c.core) {r : Except Failure α}
    {f : α → Compile Drawing} {g : α → Except Failure Figure.Settled}
    (h : ∀ a, Follows c (exec (f a) d) (g a)) : Follows c (exec (ofExcept r >>= f) d) (r >>= g) := by
  cases r with
  | error e => exact ⟨rfl, hd⟩
  | ok a => exact h a

theorem Follows.last {c d : Context} (hd : d.core = c.core) {r : Except Failure Figure.Settled}
    {f : Figure.Settled → Compile Drawing} (h : ∀ s, Follows c (exec (f s) d) (.ok s)) :
    Follows c (exec (ofExcept r >>= f) d) r := by
  have := Follows.bind (r := r) hd h
  rwa [show r >>= .ok = r from bind_pure r] at this

/-- Drawing a shape without content goes through the stages of settling it. -/
theorem follows_shape {inside : Inside} (hinside : ∀ order c, exec (inside [] order) c = (.ok ({}, []), c))
    (el : Element) (c : Context) :
    Follows c (exec (Figure.shape setCurrent inside el []) c)
      (Figure.settle c.options (fun e => ({ c with current := some e } : Context).boxOf) el) := by
  have hempty : ∀ (el : Element) (order : Order) (d : Context),
      exec (inside.of el [] order) d = (.ok {}, d) := by
    intro el order d
    unfold Inside.of
    rw [exec_bind_ok (hinside order d)]
    rfl
  unfold Figure.settle Figure.shape
  rw [exec_bind_ok (exec_get c)]
  refine .bind (by rfl) fun el => ?_
  rw [exec_bind_ok (exec_setCurrent el _), exec_bind_ok (exec_get _)]
  refine .bind (by rfl) fun el => ?_
  rw [exec_bind_ok (exec_setCurrent el _), exec_bind_ok (exec_get _)]
  refine .bind (by rfl) fun el => .bind (by rfl) fun r => ?_
  obtain ⟨label, el⟩ := r
  rw [exec_bind_ok (exec_setCurrent el _), exec_bind_ok (hempty el _ _), exec_bind_ok (exec_get _)]
  refine .last (by rfl) fun s => ?_
  rw [exec_bind_ok (exec_observeAll s.parts _), exec_bind_ok (exec_register _ _ _),
    exec_bind_ok (exec_observe _ _), exec_pure]
  refine ⟨rfl, ?_⟩
  rw [Context.core_record]
  exact Context.core_record _ s

/-- The drawing of a shape as written. Debugging puts a comment in front of it. -/
def picture (o : Options) (el : Element) (s : Figure.Settled) : Drawing :=
  if o.debug then { s.drawing with events := debugComment el :: s.drawing.events } else s.drawing

/-- What a call for a shape does: it draws and records what is settled, it waits and leaves the context as it was, or
it fails for good. -/
inductive Drawn (el : Element) (c d : Context) : Except Failure Figure.Settled → Except Failure Drawing → Prop
  | settled (s : Figure.Settled) (h : d.core = (c.record s).core) :
    Drawn el c d (.ok s) (.ok (picture c.options el s))
  | waits (v w : Deferral) (h : d.core = c.core) : Drawn el c d (.error (.deferred v)) (.error (.deferred w))
  | fails {f g : Failure} (hf : f.Final) (hg : g.Final) : Drawn el c d (.error f) (.error g)

theorem exec_withCurrent {β : Type} (fl : Element) (m : Compile β) (c : Context) :
    exec (withCurrent fl m) c = ((exec m { c with current := some fl }).1,
      { (exec m { c with current := some fl }).2 with current := c.current }) := by
  unfold withCurrent
  rw [exec_bind_ok (exec_get c), exec_bind_ok (exec_setCurrent fl c), exec_bracket]

/-- A node is drawn as its element is, but for debugging. -/
theorem exec_drawNode (element : Element → List Node → Order → Compile Drawing) (el : Element)
    (children : List Node) (order : Order) (c : Context) :
    ∃ d, d.core = c.core ∧
      exec (drawNode element (.element el children) order) c = match exec (element el children order) d with
        | (.ok x, e) => (.ok (if e.options.debug && !x.events.isEmpty then
            { x with events := debugComment el :: x.events } else x), { e with current := c.current })
        | (.error f, e) => (.error f, { e with current := c.current }) := by
  have body : ∀ d : Context, exec (withCurrent el do
      let x ← element el children order
      if (← get).options.debug && !x.events.isEmpty then
        return { x with events := debugComment el :: x.events }
      return x) d = match exec (element el children order) { d with current := some el } with
        | (.ok x, e) => (.ok (if e.options.debug && !x.events.isEmpty then
            { x with events := debugComment el :: x.events } else x), { e with current := d.current })
        | (.error f, e) => (.error f, { e with current := d.current }) := by
    intro d
    rw [exec_withCurrent, exec_bind]
    rcases exec (element el children order) { d with current := some el } with ⟨_ | x, e⟩
    · rfl
    · simp only [exec_bind_ok (exec_get e)]
      split <;> rfl
  unfold drawNode
  simp only
  split
  · refine ⟨{ c.registerWritten el.id (.element el children) with current := some el },
      Context.core_registerWritten c _ _, ?_⟩
    have hcurrent : (c.registerWritten el.id (.element el children)).current = c.current := by
      unfold Context.registerWritten
      split <;> rfl
    rw [exec_bind_ok (exec_modify _ c), body, hcurrent]
  · exact ⟨{ c with current := some el }, rfl, body c⟩

/-- Nothing is drawn of no content. -/
theorem exec_draw_nil (step : Siblings.Step) (base : Order) (c : Context) :
    exec (Siblings.draw step [] base) c = (.ok ({}, []), c) := by
  have hnone : Siblings.assemble [] = {} := by
    unfold Siblings.assemble Siblings.inOrder
    rw [List.mergeSort_nil]
    rfl
  show (Except.ok (Siblings.assemble [], []), c) = _
  rw [hnone]

/-- Outcomes that are below each other are the same, up to errors. -/
theorem Drawn.of_below {el : Element} {c d : Context} {q r : Except Failure Figure.Settled}
    {x : Except Failure Drawing} (h : Drawn el c d q x) (hqr : Below q r) (hrq : Below r q) :
    Drawn el c d r x := by
  cases h with
  | settled s hd =>
    cases hqr
    exact .settled s hd
  | waits v w hd =>
    cases hrq with
    | waits u => exact .waits u w hd
    | fails hf hg => exact absurd rfl (hg v)
  | fails hf hg =>
    cases hqr with
    | waits u => exact absurd rfl (hf u)
    | fails _ hr => exact .fails hr hg

include hel in
/-- A call for a literal shape does what settling the shape says. -/
theorem drawn_drawNode (hshape : Role.ofName el.name = .shape) (hc : c.scope.defaults = []) (turns levels : Nat)
    (order : Order) :
    Drawn el c (exec (drawNode (drawElement turns (levels + 1)) (.element el []) order) c).2
      (Figure.settle c.options (fun _ => c.boxOf) (placed order el.spread))
      (exec (drawNode (drawElement turns (levels + 1)) (.element el []) order) c).1 := by
  obtain ⟨d, hd, hnode⟩ := exec_drawNode (drawElement turns (levels + 1)) el [] order c
  have hscope : d.scope = c.scope := (congrArg Context.scope hd :)
  obtain ⟨e, hprep, he⟩ := exec_prepare hel (c := d) (by rw [hscope, hc]) order
  have hcore : e.core = c.core := he.trans hd
  have hoptions : e.options = c.options := (congrArg Context.options hcore :)
  have hrun := follows_shape (exec_draw_nil (drawNode (drawElement turns levels)))
    (placed order el.spread) e
  have hstep : exec (drawElement turns (levels + 1) el [] order) d =
      exec (Figure.shape setCurrent (Siblings.draw (drawNode (drawElement turns levels)))
        (placed order el.spread) []) e := by
    simp only [drawElement, hshape]
    rw [exec_bind_ok hprep]
  rw [← hstep] at hrun
  rw [hnode, ← hoptions]
  -- The questions are answered alike, whatever element is at hand.
  have hask := Figure.asks_settle e.options (placed order el.spread)
  have hne : ∀ t ∈ Figure.references (placed order el.spread), t ≠ "^" := by
    rw [Figure.references_placed_spread]
    exact hel.references_ne
  have hsame : ∀ fl, ({ e with current := some fl } : Context).core = c.core := fun _ => hcore
  refine Drawn.of_below ?_
    (hask.below (fun fl => ({ e with current := some fl } : Context).boxOf) (fun _ => c.boxOf)
      fun t ht fl => Context.below_boxOf (.of_core (hsame fl).symm) (hne t ht))
    (hask.below _ _ fun t ht fl => Context.below_boxOf (.of_core (hsame fl)) (hne t ht))
  generalize Figure.settle e.options (fun fl => ({ e with current := some fl } : Context).boxOf)
    (placed order el.spread) = q at hrun
  generalize exec (drawElement turns (levels + 1) el [] order) d = run at hrun ⊢
  obtain ⟨r, f⟩ := run
  cases q with
  | ok s =>
    obtain ⟨hr, hf⟩ := hrun
    have hdebug : f.options.debug = c.options.debug := by
      have hrecord : (e.record s).options = e.options := by rw [Context.record_eq]
      exact congrArg Options.debug ((congrArg Context.options hf :).trans (hrecord.trans hoptions))
    have hsome : s.drawing.events.isEmpty = false := by
      unfold Figure.Settled.drawing Event.wrap
      split <;> rfl
    cases hr
    simp only [hdebug, hsome, Bool.not_false, Bool.and_true]
    refine .settled s ?_
    rw [Context.core_record, ← hcore, ← Context.core_record]
    exact hf
  | error g =>
    obtain ⟨hr, hf⟩ := hrun
    cases hr
    rcases g.deferred_or_final with ⟨v, rfl⟩ | hg
    · exact .waits v v (hf.trans hcore)
    · exact .fails hg hg

end Calls

end DiagramMarkup
