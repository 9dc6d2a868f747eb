import DiagramMarkup.Proofs.Failures
import DiagramMarkup.Proofs.WellFormed

/-!
# Regimes

What a drawing may change and how it may fail depends on what the document holds. A regime says which element names and
attribute names occur, which options are in force, and whether the drawing may run out of levels and turns. A context
under a regime (`Regime.Holds`) has a fixed nesting depth and a scope of some shape, and everything it can hand out fits
the regime.

1. `Meets` is a small logic over runs: the step keeps an invariant on every way out, its result has a property, and so
   has its failure.
2. The small steps of the compilation keep every regime.
3. A frame is popped by the step that pushed it (`meets_withFrame`): such a step leaves the names of all frames as they
   were (`Regime.Around`), while its content may define new names in the new frame (`Regime.Within`).
4. Siblings keep what each of them keeps (`Siblings.meets_draw`): a waiting node has a scope of the same shape.
-/

namespace DiagramMarkup

/-! ## Steps that meet conditions -/

section Meets

variable {ε σ α β : Type} {E : ε → Prop} {I : σ → Prop} {m : ExceptT ε (StateM σ) α} {Q R : α → Prop}

/-- From a state with the invariant, the step keeps it, its result has the property, and its failure has another. -/
def Meets (E : ε → Prop) (I : σ → Prop) (m : ExceptT ε (StateM σ) α) (Q : α → Prop) : Prop :=
  ∀ s, I s → I (exec m s).2 ∧ match (exec m s).1 with
    | .ok a => Q a
    | .error e => E e

namespace Meets

theorem pure {a : α} (h : Q a) : Meets E I (pure a) Q := fun _ hs => ⟨hs, h⟩

theorem throw {e : ε} (h : E e) : Meets E I (throw e) Q := fun _ hs => ⟨hs, h⟩

theorem get : Meets E I get I := fun _ hs => ⟨hs, hs⟩

theorem set {t : σ} (h : I t) : Meets E I (set t) fun _ => True := fun _ _ => ⟨h, trivial⟩

theorem modify {f : σ → σ} (h : ∀ s, I s → I (f s)) : Meets E I (modify f) fun _ => True :=
  fun s hs => ⟨h s hs, trivial⟩

theorem mono (hm : Meets E I m R) (h : ∀ a, R a → Q a) : Meets E I m Q := by
  intro s hs
  obtain ⟨hi, hr⟩ := hm s hs
  refine ⟨hi, ?_⟩
  split at hr
  · exact h _ hr
  · exact hr

theorem bind {f : α → ExceptT ε (StateM σ) β} {Q : β → Prop} (hm : Meets E I m R)
    (hf : ∀ a, R a → Meets E I (f a) Q) : Meets E I (m >>= f) Q := by
  intro s hs
  obtain ⟨ht, hr⟩ := hm s hs
  rw [exec_bind]
  rcases h : exec m s with ⟨_ | a, t⟩ <;> rw [h] at ht hr
  · exact ⟨ht, hr⟩
  · exact hf a hr t ht

theorem map {f : α → β} {Q : β → Prop} (hm : Meets E I m R) (hf : ∀ a, R a → Q (f a)) :
    Meets E I (f <$> m) Q := by
  rw [map_eq_pure_bind]
  exact hm.bind fun a ha => .pure (hf a ha)

theorem mapM {f : α → ExceptT ε (StateM σ) β} {Q : β → Prop} {as : List α}
    (h : ∀ a ∈ as, Meets E I (f a) Q) : Meets E I (as.mapM f) fun bs => ∀ b ∈ bs, Q b := by
  induction as with
  | nil =>
    rw [List.mapM_nil]
    exact .pure (by simp)
  | cons a as ih =>
    obtain ⟨ha, has⟩ := List.forall_mem_cons.1 h
    rw [List.mapM_cons]
    refine .bind ha fun b hb => .bind (ih has) fun bs hbs => ?_
    exact .pure (List.forall_mem_cons.2 ⟨hb, hbs⟩)

theorem forM {f : α → ExceptT ε (StateM σ) PUnit} {as : List α}
    (h : ∀ a ∈ as, Meets E I (f a) fun _ => True) : Meets E I (as.forM f) fun _ => True := by
  induction as with
  | nil => exact .pure trivial
  | cons a as ih =>
    obtain ⟨ha, has⟩ := List.forall_mem_cons.1 h
    show Meets E I (f a >>= fun _ => as.forM f) _
    exact .bind ha fun _ _ => ih has

theorem foldlM {f : β → α → ExceptT ε (StateM σ) β} {Q : β → Prop} {as : List α}
    (h : ∀ b, Q b → ∀ a ∈ as, Meets E I (f b a) Q) {b : β} (hb : Q b) :
    Meets E I (as.foldlM f b) Q := by
  induction as generalizing b with
  | nil =>
    rw [List.foldlM_nil]
    exact .pure hb
  | cons a as ih =>
    rw [List.foldlM_cons]
    exact .bind (h b hb a (by simp)) fun b' hb' =>
      ih (fun b hb a ha => h b hb a (by simp [ha])) hb'

end Meets

end Meets

section MeetsCompile

variable {α : Type} {E : Failure → Prop} {I : Context → Prop} {m : Compile α} {Q : α → Prop}

theorem Meets.ofExcept {r : Except Failure α} (h : Blames E r) :
    Meets E I (ofExcept r : Compile α) fun a => r = .ok a := by
  intro c hc
  rw [exec_ofExcept]
  cases r with
  | ok a => exact ⟨hc, rfl⟩
  | error e => exact ⟨hc, h e rfl⟩

theorem Meets.attempt (hm : Meets E I m Q) : Meets E I (Compile.attempt m) fun _ => True := by
  intro c hc
  obtain ⟨hd, hr⟩ := hm c hc
  rw [Compile.exec_attempt]
  rcases h : exec m c with ⟨(_ | _ | _) | a, d⟩ <;> rw [h] at hd hr
  · exact ⟨hd, trivial⟩
  · exact ⟨hd, hr⟩
  · exact ⟨hd, hr⟩
  · exact ⟨hd, trivial⟩

theorem Meets.evaluating {el : Option Element} {attr : String}
    {f : Context → Except Expr.Error α × Context} (hE : ∀ e, E (.error e)) (hf : ∀ c, I c → I (f c).2) :
    Meets E I (Compile.evaluating el attr f) fun _ => True := by
  intro c hc
  have := hf c hc
  rw [Compile.exec_evaluating]
  rcases h : f c with ⟨_ | a, d⟩ <;> rw [h] at this
  · exact ⟨this, hE _⟩
  · exact ⟨this, trivial⟩

theorem Meets.update {f : Context → Except Failure Context} (hE : ∀ c, I c → Blames E (f c))
    (h : ∀ c d, I c → f c = .ok d → I d) : Meets E I (Compile.update f) fun _ => True := by
  intro c hc
  rw [Compile.exec_update]
  cases hf : f c with
  | error e => exact ⟨hc, hE c hc e hf⟩
  | ok d => exact ⟨h c d hc hf, trivial⟩

/-- Something is borrowed for a step, which keeps an invariant of its own, and is given back afterwards. -/
theorem Meets.borrow {f : Context → Except Failure Context} {g : Context → Context}
    (hE : ∀ c, I c → Blames E (f c))
    (h : ∀ c d, I c → f c = .ok d → ∃ J, J d ∧ Meets E J m Q ∧ ∀ e, J e → I (g e)) :
    Meets E I (do Compile.update f; Compile.bracket m g) Q := by
  intro c hc
  rw [exec_bind, Compile.exec_update]
  cases hf : f c with
  | error e => exact ⟨hc, hE c hc e hf⟩
  | ok d =>
    obtain ⟨J, hd, hm, hg⟩ := h c d hc hf
    obtain ⟨he, hr⟩ := hm d hd
    exact ⟨hg _ he, hr⟩

end MeetsCompile

/-! ## Shapes of scopes -/

namespace Frame

/-- The variables of a frame. -/
def names (f : Frame) : List String := f.map Prod.fst

theorem names_put_of_defines {name : String} (value : String) : ∀ {f : Frame},
    f.defines name → (f.put name value).names = f.names
  | [], h => by simp [defines] at h
  | (n, v) :: rest, h => by
    by_cases hn : n = name
    · simp [put, names, hn]
    · have hrest : Frame.defines rest name := by
        simpa [defines, List.lookup_cons, beq_false_of_ne (Ne.symm hn)] using h
      have hput : Frame.put ((n, v) :: rest) name value = (n, v) :: Frame.put rest name value := by
        simp [put, hn]
      rw [hput]
      exact congrArg (n :: ·) (names_put_of_defines value hrest)

end Frame

namespace Scope

/-- The variables of all frames, those of the innermost frame first. -/
def names (s : Scope) : List (List String) := (s.inner ++ [s.globals]).map Frame.names

theorem length_names (s : Scope) : s.names.length = s.depth + 1 := by simp [names, depth]

/-- Closing a frame around which there are others leaves the shape of those. -/
theorem names_pop {s : Scope} {K : List (List String)} (h : s.names.tail = K) (hK : K ≠ []) :
    s.pop.names = K := by
  obtain ⟨inner, globals, defaults⟩ := s
  cases inner with
  | nil => exact absurd h.symm hK
  | cons f fs => exact h

theorem names_reassign {name value : String} : ∀ {fs gs : List Frame},
    reassign? name value fs = some gs → gs.map Frame.names = fs.map Frame.names
  | [], _, h => nomatch h
  | f :: fs, gs, h => by
    unfold reassign? at h
    split at h
    · next hf =>
      cases h
      rw [List.map_cons, List.map_cons, Frame.names_put_of_defines value hf]
    · obtain ⟨hs, hhs, rfl⟩ := Option.map_eq_some_iff.1 h
      rw [List.map_cons, List.map_cons, names_reassign hhs]

/-- An assignment changes values; only the innermost frame can get a new name. -/
theorem tail_names_setVar (s : Scope) (name value : String) :
    (s.setVar name value).names.tail = s.names.tail := by
  unfold setVar
  split
  · next fs hfs => simp [names, names_reassign hfs]
  · split
    · next f fs hinner =>
      split
      · next hg => simp [names, hinner, Frame.names_put_of_defines value hg]
      · simp [names, hinner]
    · next hinner => simp [names, hinner]

theorem defaults_setVar (s : Scope) (name value : String) :
    (s.setVar name value).defaults = s.defaults := by
  unfold setVar
  split
  · rfl
  · split
    · split <;> rfl
    · rfl

end Scope

/-! ## Nesting and sizes -/

theorem Context.depth_lt_of_enter {c d : Context} {el : Option Element} (h : c.enter el = .ok d) :
    c.depth < c.options.depthLimit := by
  unfold enter at h
  simp only at h
  split at h
  · cases h
  · omega

theorem Node.size_le_sizeAll {n : Node} {ns : List Node} (h : n ∈ ns) : n.size ≤ sizeAll ns := by
  induction ns with
  | nil => cases h
  | cons m ns ih =>
    rw [sizeAll]
    rcases List.mem_cons.1 h with rfl | h
    · omega
    · have := ih h
      omega

/-! ## Regimes -/

open Element Compile

/-- The attributes that instances give to elements which are drawn again, besides those of the document. -/
def Reuse.given : List String := ["id", "style", "rotate", "dx", "dy"] ++ geometric

/-- What a document holds, and what its options say. -/
structure Regime where
  /-- The names of elements. -/
  tag : String → Prop
  /-- The names of attributes. -/
  attr : String → Prop
  /-- The options that can come into force. -/
  options : Options → Prop
  /-- The random draws that can have been made. -/
  dice : Expr.Dice → Prop
  /-- May the drawing run out of levels or turns? -/
  exhausts : Prop
  /-- How large the trees of the document are. -/
  size : Nat
  /-- How deep elements nest. -/
  nesting : Nat
  /-- How often a loop turns. -/
  turns : Nat
  tag_group : tag "g"
  attr_given : ∀ n ∈ Reuse.given, attr n
  options_set : ∀ {o o' : Options} {name value : String}, tag "config" → attr name → options o →
    o.set name value = .ok o' → options o'
  dice_expand : ∀ {d : Expr.Dice} (env : Expr.Env) (s : String), dice d → dice (exec (Expr.expand env s) d).2
  dice_eval : ∀ {d : Expr.Dice} (env : Expr.Env) (s : String), dice d → dice (exec (Expr.eval env s) d).2
  dice_start : ∀ source, tag "config" → dice { source := source }
  nesting_le : ∀ {o : Options}, options o → exhausts ∨ o.depthLimit ≤ nesting
  turns_le : ∀ {o : Options}, options o → exhausts ∨ o.loopLimit ≤ turns

namespace Regime

variable (R : Regime)

/-- The name and the attribute names of the element occur. -/
structure Admits (el : Element) : Prop where
  tag : R.tag el.name
  named : Named R.attr el

/-- The elements of the tree occur, and it is not too large. -/
structure Fits (n : Node) : Prop where
  fits : n.Fits R.Admits
  small : R.exhausts ∨ n.size ≤ R.size

/-- What becomes of a scope in its innermost frame: no other frame gets or loses a name, and where nothing is assigned
and no defaults are defined, nothing changes. -/
structure Within (s t : Scope) : Prop where
  outer : t.names.tail = s.names.tail
  values : ¬ R.tag "var" → t.inner = s.inner ∧ t.globals = s.globals
  defaults : ¬ R.tag "defaults" → t.defaults = s.defaults

/-- What becomes of a scope around a frame that was opened and closed. -/
structure Around (s t : Scope) : Prop extends R.Within s t where
  names : t.names = s.names

/-- The scope has the shape, and the attributes of the defaults occur. -/
structure Scoped (F : Scope → Prop) (s : Scope) : Prop where
  shape : F s
  attrs : ∀ d ∈ s.defaults, Named R.attr d

/-- The context is under the regime, at a nesting depth and with a shape of its scope. What can be instantiated fits, if
there are instances at all. -/
structure Holds (depth : Nat) (F : Scope → Prop) (c : Context) : Prop where
  depth : c.depth = depth
  options : R.options c.options
  dice : R.dice c.dice
  scope : R.Scoped F c.scope
  written : R.tag "reuse" → ∀ p ∈ c.written, R.Fits p.2
  templates : R.tag "reuse" → ∀ p ∈ c.templates, R.Fits p.2

/-- A way to fail under the regime. -/
def Fails (f : Failure) : Prop := f = .exhausted → R.exhausts

/-- The step keeps the regime, the depth and the shape of the scope, fails only as the regime allows, and its result has
the property. -/
def Meets {α : Type} (depth : Nat) (F : Scope → Prop) (m : Compile α) (Q : α → Prop) : Prop :=
  DiagramMarkup.Meets R.Fails (R.Holds depth F) m Q

variable {R} {depth : Nat} {F : Scope → Prop} {c : Context}

theorem fails_error (e : DocError) : R.Fails (.error e) := nofun

theorem fails_deferred (d : Deferral) : R.Fails (.deferred d) := nofun

/-! ### Elements -/

namespace Admits

variable {el : Element}

theorem stable : Stable R.attr R.Admits :=
  ⟨fun v hn h => ⟨h.tag, h.named.set hn v⟩, fun _ h => ⟨h.tag, h.named.erase _⟩⟩

theorem given {n : String} (hn : n ∈ Reuse.given) (h : R.Admits el) (v : String) : R.Admits (el.set n v) :=
  stable.set v (R.attr_given n hn) h

theorem setNumber {n : String} (hn : n ∈ Reuse.given) (h : R.Admits el) (v : Float) :
    R.Admits (el.setNumber n v) := h.given hn _

theorem prependTransform (h : R.Admits el) (t : String) : R.Admits (el.prependTransform t) :=
  stable.prependTransform (fun n hn => R.attr_given n (List.mem_append_right _ hn)) h t

theorem addClasses (h : R.Admits el) (cs : List String) : R.Admits (el.addClasses cs) :=
  ⟨(name_addClasses el cs).symm ▸ h.tag, h.named.addClasses cs⟩

end Admits

theorem Fits.element {el : Element} {children : List Node} (h : R.Fits (.element el children)) :
    R.Admits el := (Node.fits_element.1 h.fits).1

theorem Fits.named {n : Node} (h : R.Fits n) (el : Element) (hel : n.element? = some el) : Named R.attr el := by
  cases n with
  | leaf l => cases hel
  | element fl children =>
    cases hel
    exact h.element.named

theorem Fits.child {el : Element} {children : List Node} (h : R.Fits (.element el children)) {n : Node}
    (hn : n ∈ children) : R.Fits n := by
  refine ⟨(Node.fits_element.1 h.fits).2 n hn, h.small.imp_right fun hs => ?_⟩
  have := Node.size_le_sizeAll hn
  rw [Node.size] at hs
  omega

/-- The element of a tree may be replaced by another that occurs. -/
theorem Fits.withElement {el fl : Element} {children : List Node} (h : R.Fits (.element el children))
    (hfl : R.Admits fl) : R.Fits (.element fl children) :=
  ⟨Node.fits_element.2 ⟨hfl, (Node.fits_element.1 h.fits).2⟩, h.small⟩

/-! ### Scopes -/

namespace Within

variable {s t u : Scope}

theorem refl (s : Scope) : R.Within s s := ⟨rfl, fun _ => ⟨rfl, rfl⟩, fun _ => rfl⟩

theorem trans (h : R.Within s t) (h' : R.Within t u) : R.Within s u :=
  ⟨h'.outer.trans h.outer, fun hv => ⟨(h'.values hv).1.trans (h.values hv).1, (h'.values hv).2.trans (h.values hv).2⟩,
    fun hd => (h'.defaults hd).trans (h.defaults hd)⟩

theorem setVar (h : R.Within s t) (hv : R.tag "var") (name value : String) : R.Within s (t.setVar name value) :=
  ⟨(t.tail_names_setVar name value).trans h.outer, fun hn => absurd hv hn,
    fun hd => (t.defaults_setVar name value).trans (h.defaults hd)⟩

theorem addDefault (h : R.Within s t) (hd : R.tag "defaults") (d : Element) : R.Within s (t.addDefault d) :=
  ⟨h.outer, h.values, fun hn => absurd hd hn⟩

end Within

namespace Around

variable {s t u : Scope}

theorem refl (s : Scope) : R.Around s s := ⟨.refl s, rfl⟩

theorem trans (h : R.Around s t) (h' : R.Around t u) : R.Around s u :=
  ⟨h.toWithin.trans h'.toWithin, h'.names.trans h.names⟩

theorem pop {vars : Frame} (h : R.Within (s.push vars) t) : R.Around s t.pop := by
  have names : t.pop.names = s.names := Scope.names_pop h.outer (List.ne_nil_of_length_eq_add_one s.length_names)
  exact ⟨⟨congrArg List.tail names, fun hv => ⟨congrArg List.tail (h.values hv).1, (h.values hv).2⟩, h.defaults⟩, names⟩

end Around

/-! ### Contexts -/

namespace Holds

theorem withCurrent (h : R.Holds depth F c) (el : Option Element) :
    R.Holds depth F { c with current := el } := ⟨h.depth, h.options, h.dice, h.scope, h.written, h.templates⟩

theorem withDice (h : R.Holds depth F c) {dice : Expr.Dice} (hd : R.dice dice) :
    R.Holds depth F { c with dice := dice } := ⟨h.depth, h.options, hd, h.scope, h.written, h.templates⟩

theorem expand (h : R.Holds depth F c) (s : String) : R.Holds depth F (c.expand s).2 :=
  h.withDice (R.dice_expand c.env s h.dice)

theorem eval (h : R.Holds depth F c) (s : String) : R.Holds depth F (c.eval s).2 := by
  refine h.withDice ?_
  show R.dice (exec (do
    let s ← if Text.occurs Expr.openMark s.toList then Expr.expand c.env s else pure s
    Expr.eval c.env s) c.dice).2
  split
  · have expanded := R.dice_expand c.env s h.dice
    rw [exec_bind]
    rcases hrun : exec (Expr.expand c.env s) c.dice with ⟨_ | t, d⟩ <;> rw [hrun] at expanded
    · exact expanded
    · exact R.dice_eval c.env t expanded
  · exact R.dice_eval c.env s h.dice

theorem withScope (h : R.Holds depth F c) {G : Scope → Prop} {s : Scope} (hs : R.Scoped G s)
    (prev : Option Order) : R.Holds depth G { c with scope := s, prev := prev } :=
  ⟨h.depth, h.options, h.dice, hs, h.written, h.templates⟩

theorem markSeen (h : R.Holds depth F c) (id : String) : R.Holds depth F (c.markSeen id) := by
  unfold Context.markSeen
  split
  · exact h
  · exact ⟨h.depth, h.options, h.dice, h.scope, h.written, h.templates⟩

theorem registerWritten (h : R.Holds depth F c) (id : String) {n : Node} (hn : R.tag "reuse" → R.Fits n) :
    R.Holds depth F (c.registerWritten id n) := by
  unfold Context.registerWritten
  split
  · exact h
  · exact ⟨h.depth, h.options, h.dice, h.scope, fun hr => List.forall_mem_cons.2 ⟨hn hr, h.written hr⟩, h.templates⟩

theorem addTemplate (h : R.Holds depth F c) (id : String) {n : Node} (hn : R.tag "reuse" → R.Fits n) :
    R.Holds depth F (c.addTemplate id n) :=
  ⟨h.depth, h.options, h.dice, h.scope, h.written, fun hr => List.forall_mem_cons.2 ⟨hn hr, h.templates hr⟩⟩

theorem fits_template (h : R.Holds depth F c) (hr : R.tag "reuse") {id : String} {n : Node}
    (hn : c.template? id = some n) : R.Fits n := by
  have lookup : ∀ {ps : List (String × Node)}, (∀ p ∈ ps, R.Fits p.2) → ps.lookup id = some n → R.Fits n := by
    intro ps hps hl
    obtain ⟨l₁, l₂, rfl, -⟩ := List.lookup_eq_some_iff.1 hl
    exact hps (id, n) (by simp)
  unfold Context.template? at hn
  rcases Option.or_eq_some_iff.1 hn with hn | ⟨-, hn⟩
  · exact lookup (h.templates hr) hn
  · exact lookup (h.written hr) hn

end Holds

/-! ### Small steps -/

section Small

variable {α : Type} {m : Compile α} {Q : α → Prop}

/-- What closes the frames it opens has its effects within the innermost frame. -/
theorem Meets.loosen {s : Scope} (h : ∀ t, R.Meets depth (R.Around t) m Q) : R.Meets depth (R.Within s) m Q := by
  intro c hc
  have shape : R.Scoped (R.Around c.scope) c.scope := ⟨.refl c.scope, hc.scope.attrs⟩
  obtain ⟨hd, hr⟩ := h c.scope c ⟨hc.depth, hc.options, hc.dice, shape, hc.written, hc.templates⟩
  have within : R.Within s (exec m c).2.scope := hc.scope.shape.trans hd.scope.shape.toWithin
  exact ⟨⟨hd.depth, hd.options, hd.dice, ⟨within, hd.scope.attrs⟩, hd.written, hd.templates⟩, hr⟩

theorem meets_raise (kind : ErrorKind) (el : Element) (attr : String) (f : Fault) :
    R.Meets depth F (raise kind el attr f : Compile α) Q := .throw (fails_error _)

theorem meets_orFail (el : Element) (attr : String) (r : Except Fault α) :
    R.Meets depth F (orFail el attr r) fun a => r = .ok a :=
  (Meets.ofExcept (.checked fails_error el attr r)).mono fun _ h => checked_eq_ok h

theorem meets_readNumber (el : Element) (attr s : String) :
    R.Meets depth F (readNumber el attr s) fun _ => True :=
  (Meets.ofExcept (.numberIn fails_error el attr s)).mono fun _ _ => trivial

theorem meets_setCurrent (el : Element) : R.Meets depth F (setCurrent el) fun _ => True :=
  .modify fun _ h => h.withCurrent _

theorem meets_observe (el : Element) : R.Meets depth F (observe el) fun _ => True :=
  .modify fun _ h => ⟨h.depth, h.options, h.dice, h.scope, h.written, h.templates⟩

theorem meets_register (el : Element) (box : Option (Box Float)) :
    R.Meets depth F (register el box) fun _ => True :=
  .modify fun _ h => ⟨h.depth, h.options, h.dice, h.scope, h.written, h.templates⟩

theorem meets_expand (el : Element) (attr s : String) :
    R.Meets depth F (expand el attr s) fun _ => True :=
  .evaluating fails_error fun _ h => h.expand _

theorem meets_eval (el : Element) (attr s : String) : R.Meets depth F (eval el attr s) fun _ => True :=
  .evaluating fails_error fun _ h => h.eval _

theorem meets_condition (el : Element) (attr s : String) :
    R.Meets depth F (condition el attr s) fun _ => True :=
  .bind (meets_eval _ _ _) fun _ _ => .pure trivial

theorem meets_expandElement {el : Element} (h : Named R.attr el) :
    R.Meets depth F (expandElement el) (Named R.attr) := by
  unfold expandElement
  refine .bind (.foldlM (Q := Named R.attr) (fun fl hfl p hp => ?_) h) fun fl hfl => ?_
  · refine .bind (meets_expand _ _ _) fun v _ => .pure ?_
    split
    · exact hfl
    · exact hfl.set (h.entries p hp) v
  · refine .bind (R := fun _ => True) ?_ fun cs _ => .pure ((hfl.withClasses []).addClasses _)
    refine .mono (.mapM (Q := fun _ => True) fun c _ => ?_) fun _ _ => trivial
    exact .bind (meets_expand _ _ _) fun _ _ => .pure trivial

theorem meets_prepare {el : Element} (h : Named R.attr el) (order : Order) :
    R.Meets depth F (prepare el order) (Named R.attr) := by
  unfold prepare
  refine .bind (meets_setCurrent _) fun _ _ => ?_
  refine .bind (meets_expandElement (h.withOrder order)) fun fl hfl => .bind .get fun c hc => ?_
  exact .bind (.modify fun d hd => (hd.markSeen _).withCurrent _) fun _ _ =>
    .pure (named_applyDefaults hfl hc.scope.attrs)

/-- A frame is gone when the step that ran in it is done. -/
theorem meets_withFrame {s : Scope} (vars : Frame) (h : ∀ t, R.Meets depth (R.Within t) m Q) :
    R.Meets depth (R.Around s) (withFrame vars m) Q := by
  refine .borrow (fun c _ => c.blames_pushFrame fails_error vars) fun c d hc hd =>
    ⟨R.Holds depth (R.Within (c.scope.push vars)), ?_, h _, fun e he => ?_⟩
  · rw [Context.pushFrame_eq_ok hd]
    exact hc.withScope (s := c.scope.push vars) ⟨.refl _, hc.scope.attrs⟩ c.prev
  · have popped : R.Scoped (R.Around s) e.scope.pop :=
      ⟨hc.scope.shape.trans (.pop he.scope.shape), he.scope.attrs⟩
    exact he.withScope popped e.prev

/-- The nesting depth is back when the step that ran deeper is done. -/
theorem meets_withDepth (el : Element)
    (h : R.exhausts ∨ depth + 1 ≤ R.nesting → R.Meets (depth + 1) F m Q) :
    R.Meets depth F (withDepth el m) Q := by
  refine .borrow (fun c _ => c.blames_enter fails_error (some el)) fun c d hc hd =>
    ⟨R.Holds (depth + 1) F, ?_, h ?_, fun e he => ?_⟩
  · rw [Context.enter_eq_ok hd]
    exact ⟨congrArg (· + 1) hc.depth, hc.options, hc.dice, hc.scope, hc.written, hc.templates⟩
  · refine (R.nesting_le hc.options).imp_right fun hle => ?_
    have := Context.depth_lt_of_enter hd
    rw [hc.depth] at this
    omega
  · refine ⟨?_, he.options, he.dice, he.scope, he.written, he.templates⟩
    simp [Context.leave, he.depth]

theorem meets_withCurrent (el : Element) (h : R.Meets depth F m Q) :
    R.Meets depth F (withCurrent el m) Q := by
  unfold withCurrent
  refine .bind .get fun old _ => .bind (meets_setCurrent el) fun _ _ => ?_
  intro c hc
  obtain ⟨hd, hr⟩ := h c hc
  exact ⟨hd.withCurrent _, hr⟩

end Small

end Regime

/-! ## Siblings -/

section Siblings

variable {R : Regime} {depth : Nat} {F : Scope → Prop} {P : Node → Prop}

/-- The node has the property, and its scope is under the regime. -/
def Pending.Held (R : Regime) (F : Scope → Prop) (P : Node → Prop) (p : Pending) : Prop :=
  P p.node ∧ R.Scoped F p.scope

namespace Siblings

variable {step : Step} (h : ∀ n order, P n → R.Meets depth F (step n order) fun _ => True)

include h

theorem meets_first {n : Node} (hn : P n) (order : Order) :
    R.Meets depth F (first step n order) (Sibling.Waiting (Pending.Held R F P)) := by
  unfold first
  refine .bind .get fun c hc => .bind (h n order hn).attempt fun r _ => ?_
  refine .bind (.modify fun d hd => ?_) fun _ _ => .pure (Sibling.waiting_ofAttempt (fun _ => ⟨hn, hc.scope⟩) r)
  unfold aim
  split
  · exact hd.withScope hd.scope (some order)
  · exact hd

theorem meets_retry {p : Pending} (hp : p.Held R F P) :
    R.Meets depth F (retry step p) (Sibling.Waiting (Pending.Held R F P)) := by
  unfold retry
  refine .bind .get fun live hl => .bind (.modify fun c hc => hc.withScope hp.2 p.prev) fun _ _ => ?_
  refine .bind (R := fun _ => True) (fun c hc => ?_) fun r _ =>
    .pure (Sibling.waiting_ofAttempt (fun _ => ⟨hp.1, hp.2⟩) r)
  obtain ⟨hd, hr⟩ := (h p.node p.order hp.1).attempt c hc
  exact ⟨hd.withScope hl.scope live.prev, hr⟩

theorem meets_passes (n : Nat) {chunks : List Chunk} {queue : List Pending}
    (hq : ∀ p ∈ queue, p.Held R F P) :
    R.Meets depth F (passes step n chunks queue) fun _ => True := by
  induction n generalizing chunks queue with
  | zero => exact .pure trivial
  | succ n ih =>
    unfold passes
    split
    · exact .pure trivial
    refine .bind (.mapM fun p hp => meets_retry h (hq p hp)) fun tried ht => ?_
    simp only
    split
    · exact .pure trivial
    · exact ih fun _ => Sibling.of_mem_pendings ht

/-- Siblings keep what each of them keeps. -/
theorem meets_draw {nodes : List Node} (hn : ∀ n ∈ nodes, P n) (base : Order) :
    R.Meets depth F (draw step nodes base) fun _ => True := by
  unfold draw
  refine .bind (.mapM (Q := Sibling.Waiting (Pending.Held R F P)) fun p hp => ?_) fun tried ht => ?_
  · exact meets_first h (hn p.1 (List.fst_mem_of_mem_zipIdx hp)) _
  · exact .bind (meets_passes h _ fun _ => Sibling.of_mem_pendings ht) fun _ _ => .pure trivial

end Siblings

theorem Inside.meets_of {inside : Inside} {nodes : List Node} {order : Order}
    (h : R.Meets depth F (inside nodes order) fun _ => True) (el : Element) :
    R.Meets depth F (inside.of el nodes order) fun _ => True := by
  unfold Inside.of
  refine .bind h fun r _ => ?_
  obtain ⟨d, stalled⟩ := r
  simp only
  split
  · exact .pure trivial
  · exact .throw (Regime.fails_deferred _)

end Siblings

end DiagramMarkup
