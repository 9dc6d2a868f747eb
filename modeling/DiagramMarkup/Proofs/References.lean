import DiagramMarkup.Compile.Figure
import DiagramMarkup.Proofs.Elements

/-!
# References of a shape

The references that a shape consults can be read off its attributes (`Figure.references`). `Asks ts m` says that a
computation asks for the references `ts` and for no others: it succeeds only if all of them are answered, it is deferred
only if one of them is, and more answers change nothing but deferrals.

1. What asks for nothing asks for the empty list; sequences ask for what their parts ask for (`Asks.bind`).
2. A part of the position of an element is settled after other attributes have been taken and geometry has been
   written, but the attribute it reads is still as it was (`Stable.keeps`).
3. So settling a shape asks for its references (`asks_resolve`, `asks_connect`).
-/

namespace DiagramMarkup

/-! ## Outcomes -/

section Outcomes

variable {β γ : Type}

/-- The outcome is a deferral. -/
def Waits (r : Except Failure β) : Prop := ∃ d, r = .error (.deferred d)

/-- The second outcome is the first one, or the first one is a deferral. Errors are not told apart. -/
inductive Below : Except Failure β → Except Failure β → Prop
  | waits (d : Deferral) (r : Except Failure β) : Below (.error (.deferred d)) r
  | ok (a : β) : Below (.ok a) (.ok a)
  | fails {f g : Failure} (hf : f.Final) (hg : g.Final) : Below (.error f) (.error g)

theorem Failure.deferred_or_final : ∀ f : Failure, (∃ d, f = .deferred d) ∨ f.Final
  | .deferred d => .inl ⟨d, rfl⟩
  | .error _ => .inr nofun
  | .exhausted => .inr nofun

theorem Below.refl (r : Except Failure β) : Below r r := by
  cases r with
  | ok a => exact .ok a
  | error f =>
    rcases f.deferred_or_final with ⟨d, rfl⟩ | hf
    · exact .waits d _
    · exact .fails hf hf

/-- A result is kept. -/
theorem Below.eq_ok {r r' : Except Failure β} (h : Below r r') {a : β} (hr : r = .ok a) :
    r' = .ok a := by
  cases h with
  | waits => cases hr
  | ok b => exact hr
  | fails => cases hr

theorem Below.waits_of_waits {r r' : Except Failure β} (h : Below r r') (hw : Waits r') : Waits r := by
  obtain ⟨d, hd⟩ := hw
  cases h with
  | waits e => exact ⟨e, rfl⟩
  | ok => cases hd
  | fails _ hg =>
    cases hd
    exact absurd rfl (hg d)

theorem Below.bind {r r' : Except Failure β} (h : Below r r') {f f' : β → Except Failure γ}
    (hf : ∀ a, r = .ok a → Below (f a) (f' a)) : Below (r >>= f) (r' >>= f') := by
  cases h with
  | waits d r' => exact .waits d _
  | ok a => exact hf a rfl
  | fails hr hr' => exact .fails hr hr'

end Outcomes

open Element Position

/-! ## Computations that ask for references -/

section Asking

variable {β γ : Type}

/-- How references are answered. The element at hand is named in errors. -/
abbrev Asker := Element → Referrer Float

/-- The computation asks for these references and for no others, and its result has the property. -/
structure Asks (ts : List String) (m : Asker → Except Failure β) (Q : β → Prop) : Prop where
  ok : ∀ ask a, m ask = .ok a → Q a ∧ ∀ t ∈ ts, ∃ e b, ask e t = .ok b
  waits : ∀ ask, Waits (m ask) → ∃ t ∈ ts, ∃ e, Waits (ask e t)
  below : ∀ ask ask', (∀ t ∈ ts, ∀ e, Below (ask e t) (ask' e t)) → Below (m ask) (m ask')

namespace Asks

theorem ofExcept {r : Except Failure β} {Q : β → Prop}
    (h : match r with | .ok a => Q a | .error f => f.Final) : Asks [] (fun _ => r) Q := by
  refine ⟨fun ask a hr => ⟨?_, by simp⟩, fun ask hw => ?_, fun _ _ _ => .refl r⟩
  · rw [hr] at h
    exact h
  · obtain ⟨d, hd⟩ := hw
    rw [hd] at h
    exact absurd rfl (h d)

theorem pure {a : β} {Q : β → Prop} (h : Q a) : Asks [] (fun _ => .ok a) Q := ofExcept h

/-- The result of a computation that asks for nothing. -/
theorem result {ts : List String} {r : Except Failure β} {Q : β → Prop} (h : Asks ts (fun _ => r) Q)
    {a : β} (hr : r = .ok a) : Q a := (h.ok (fun _ _ => .error .exhausted) a hr).1

/-- What fails whatever the answers are may be said to ask for anything. -/
theorem failing {ts : List String} {f : Failure} (h : f.Final) {Q : β → Prop} :
    Asks ts (fun _ => (.error f : Except Failure β)) Q := by
  refine ⟨fun _ _ hr => (nomatch hr), fun _ hw => ?_, fun _ _ _ => .refl _⟩
  obtain ⟨d, hd⟩ := hw
  cases hd
  exact absurd rfl (h d)

/-- A reference itself. -/
theorem ref (e : Element) (t : String) : Asks [t] (fun ask => ask e t) fun _ => True := by
  refine ⟨fun ask b hb => ⟨trivial, ?_⟩, fun ask hw => ⟨t, by simp, e, hw⟩,
    fun _ _ h => h t (by simp) e⟩
  simpa using ⟨e, b, hb⟩

theorem mono {ts : List String} {m : Asker → Except Failure β} {Q R : β → Prop}
    (h : Asks ts m Q) (hq : ∀ a, Q a → R a) : Asks ts m R :=
  ⟨fun ask a ha => ⟨hq a (h.ok ask a ha).1, (h.ok ask a ha).2⟩, h.waits, h.below⟩

/-- A sequence asks for what its parts ask for. -/
theorem bind {ts us : List String} {m : Asker → Except Failure β} {f : Asker → β → Except Failure γ}
    {Q : β → Prop} {R : γ → Prop} (hm : Asks ts m Q) (hf : ∀ a, Q a → Asks us (fun ask => f ask a) R) :
    Asks (ts ++ us) (fun ask => m ask >>= f ask) R := by
  refine ⟨fun ask b hb => ?_, fun ask hw => ?_, fun ask ask' h => ?_⟩
  · obtain ⟨a, ha, hb⟩ := except_bind_eq_ok hb
    obtain ⟨hq, hts⟩ := hm.ok ask a ha
    obtain ⟨hr, hus⟩ := (hf a hq).ok ask b hb
    exact ⟨hr, List.forall_mem_append.2 ⟨hts, hus⟩⟩
  · cases ha : m ask with
    | error e =>
      have hwaits : Waits (m ask) := by
        obtain ⟨d, hd⟩ := hw
        rw [ha] at hd
        cases hd
        exact ⟨d, ha⟩
      obtain ⟨t, ht, hwt⟩ := hm.waits ask hwaits
      exact ⟨t, List.mem_append_left _ ht, hwt⟩
    | ok a =>
      have hwaits : Waits (f ask a) := by
        obtain ⟨d, hd⟩ := hw
        rw [ha] at hd
        exact ⟨d, hd⟩
      obtain ⟨t, ht, hwt⟩ := (hf a (hm.ok ask a ha).1).waits ask hwaits
      exact ⟨t, List.mem_append_right _ ht, hwt⟩
  · obtain ⟨hts, hus⟩ := List.forall_mem_append.1 h
    exact (hm.below ask ask' hts).bind fun a ha => (hf a (hm.ok ask a ha).1).below ask ask' hus

/-- What asks for nothing in front of another. -/
theorem after {us : List String} {m : Asker → Except Failure β} {f : Asker → β → Except Failure γ}
    {Q : β → Prop} {R : γ → Prop} (hm : Asks [] m Q) (hf : ∀ a, Q a → Asks us (fun ask => f ask a) R) :
    Asks us (fun ask => m ask >>= f ask) R := hm.bind hf

/-- What asks for nothing behind another. -/
theorem before {ts : List String} {m : Asker → Except Failure β} {f : Asker → β → Except Failure γ}
    {Q : β → Prop} {R : γ → Prop} (hm : Asks ts m Q) (hf : ∀ a, Q a → Asks [] (fun ask => f ask a) R) :
    Asks ts (fun ask => m ask >>= f ask) R := by
  have := hm.bind hf
  rwa [List.append_nil] at this

end Asks

/-- The result of an edit with the element it leaves. -/
def outcome (m : Edit Failure β) (el : Element) : Except Failure (β × Element) :=
  match exec m el with
  | (.ok a, fl) => .ok (a, fl)
  | (.error f, _) => .error f

theorem outcome_bind (m : Edit Failure β) (f : β → Edit Failure γ) (el : Element) :
    outcome (m >>= f) el = outcome m el >>= fun r => outcome (f r.1) r.2 := by
  unfold outcome
  rw [exec_bind]
  rcases exec m el with ⟨_ | a, fl⟩ <;> rfl

/-- From elements with the first property the edit asks for the references, and leaves the second property. -/
def Consults (P : Element → Prop) (ts : List String) (m : Referrer Float → Edit Failure β)
    (Q : β → Element → Prop) : Prop :=
  ∀ e el, P el → Asks ts (fun ask => outcome (m (ask e)) el) fun r => Q r.1 r.2

namespace Consults

variable {P : Element → Prop} {ts us : List String} {m : Referrer Float → Edit Failure β}
  {Q : β → Element → Prop}

theorem bind {f : Referrer Float → β → Edit Failure γ} {R : γ → Element → Prop}
    (hm : Consults P ts m Q) (hf : ∀ a, Consults (Q a) us (fun refs => f refs a) R) :
    Consults P (ts ++ us) (fun refs => m refs >>= f refs) R := by
  intro e el hel
  simp only [outcome_bind]
  exact (hm e el hel).bind fun r hr => hf r.1 e r.2 hr

/-- What waits for nothing asks for nothing. -/
theorem ofLocal {m : Edit Failure β} {R : β → Prop} (h : Local P m R) :
    Consults P [] (fun _ => m) fun b el => P el ∧ R b := by
  intro e el hel
  obtain ⟨hp, hr⟩ := h el hel
  refine .ofExcept ?_
  unfold outcome
  rcases hm : exec m el with ⟨_ | a, fl⟩ <;> rw [hm] at hp hr
  · exact hr
  · exact ⟨hp, hr⟩

/-- A local edit in front of another. -/
theorem after {m : Edit Failure β} {R : β → Prop} {f : Referrer Float → β → Edit Failure γ}
    {S : γ → Element → Prop} (h : Local P m R)
    (hf : ∀ a, R a → Consults P ts (fun refs => f refs a) S) :
    Consults P ts (fun refs => m >>= f refs) S :=
  (ofLocal h).bind fun a e el hel => hf a hel.2 e el hel.1

/-- A local edit behind another. -/
theorem before {f : β → Edit Failure γ} {R : γ → Prop} {S : Element → Prop}
    (hm : Consults P ts m fun _ => S) (hf : ∀ a, Local S (f a) R) :
    Consults P ts (fun refs => m refs >>= f) fun _ => S := by
  have hl : ∀ a, Consults S [] (fun _ => f a) fun _ => S :=
    fun a e el hel => (ofLocal (hf a) e el hel).mono fun r hr => hr.1
  have := hm.bind hl
  rwa [List.append_nil] at this

theorem weaken {P' : Element → Prop} {Q' : β → Element → Prop} (h : Consults P ts m Q)
    (hp : ∀ el, P' el → P el) (hq : ∀ b el, Q b el → Q' b el) : Consults P' ts m Q' :=
  fun e el hel => (h e el (hp el hel)).mono fun r hr => hq r.1 r.2 hr

theorem pure {b : β} : Consults P [] (fun _ => (Pure.pure b : Edit Failure β)) fun _ => P :=
  fun _ _ hel => .pure hel

/-- Nothing is asked when nothing can come of it. -/
theorem failing (h : ∀ refs, Local P (m refs) fun _ => False)
    (hm : ∀ refs refs', m refs = m refs') : Consults P ts m Q := by
  intro e el hel
  have final : ∀ refs, ∃ f : Failure, f.Final ∧ outcome (m refs) el = .error f := by
    intro refs
    obtain ⟨-, hr⟩ := h refs el hel
    unfold outcome
    rcases he : exec (m refs) el with ⟨f | a, fl⟩ <;> rw [he] at hr
    · exact ⟨f, hr, rfl⟩
    · exact hr.elim
  refine ⟨fun ask a ha => ?_, fun ask hw => ?_, fun ask ask' _ => ?_⟩
  · obtain ⟨f, -, hf⟩ := final (ask e)
    rw [hf] at ha
    cases ha
  · obtain ⟨f, hfin, hf⟩ := final (ask e)
    obtain ⟨d, hd⟩ := hw
    rw [hf] at hd
    cases hd
    exact absurd rfl (hfin d)
  · rw [hm (ask e) (ask' e)]
    exact .refl _

theorem boxOf (t : String) : Consults P [t] (fun refs => Position.boxOf refs t) fun _ => P := by
  intro e el hel
  have hbind : ∀ refs : Referrer Float,
      outcome (Position.boxOf refs t) el = refs t >>= fun b => .ok (b, el) := by
    intro refs
    unfold outcome Position.boxOf
    cases refs t <;> rfl
  simp only [hbind]
  exact (Asks.ref e t).before fun b _ => .pure hel

theorem mapM {f : Referrer Float → String → Edit Failure β}
    (h : ∀ t, Consults P [t] (fun refs => f refs t) fun _ => P) (ts : List String) :
    Consults P ts (fun refs => ts.mapM (f refs)) fun _ => P := by
  induction ts with
  | nil =>
    simp only [List.mapM_nil]
    exact pure
  | cons t ts ih =>
    simp only [List.mapM_cons]
    exact (h t).bind fun b => ih.before (R := fun _ => True) fun bs => .pure trivial

end Consults

end Asking

/-! ## Attributes that stay -/

namespace Attrs

theorem lookup_put_of_ne {name value n : String} (h : n ≠ name) :
    ∀ es : List (String × String), (put name value es).lookup n = es.lookup n
  | [] => by rw [put, List.lookup_cons, beq_false_of_ne h]
  | (m, v) :: rest => by
    by_cases hm : m = name
    · subst hm
      rw [put_cons_self, List.lookup_cons, List.lookup_cons, beq_false_of_ne h]
    · rw [put_cons_of_ne hm, List.lookup_cons, List.lookup_cons, lookup_put_of_ne h rest]

theorem get?_set_of_ne {a : Attrs} {name value n : String} (h : n ≠ name) :
    (a.set name value).get? n = a.get? n := lookup_put_of_ne h a.entries

theorem lookup_filter_of_ne {name n : String} (h : n ≠ name) (es : List (String × String)) :
    (es.filter (·.1 != name)).lookup n = es.lookup n := by
  induction es with
  | nil => rfl
  | cons e es ih =>
    obtain ⟨m, v⟩ := e
    by_cases hm : m = name
    · subst hm
      rw [List.filter_cons_of_neg (by simp), List.lookup_cons, beq_false_of_ne h, ih]
    · rw [List.filter_cons_of_pos (by simpa using hm), List.lookup_cons, List.lookup_cons, ih]

theorem get?_erase_of_ne {a : Attrs} {name n : String} (h : n ≠ name) :
    (a.erase name).get? n = a.get? n := lookup_filter_of_ne h a.entries

end Attrs

/-- The element has the property, and these attributes of it are those of another. -/
def Element.Kept (I : Element → Prop) (el : Element) (names : List String) (fl : Element) : Prop :=
  I fl ∧ ∀ n ∈ names, fl.get? n = el.get? n

theorem Element.Stable.kept {free : String → Prop} {I : Element → Prop} (hI : Stable free I)
    (el : Element) (names : List String) :
    Stable (fun n => free n ∧ n ∉ names) (Kept I el names) := by
  constructor
  · intro fl n v hn h
    refine ⟨hI.set v hn.1 h.1, fun a ha => ?_⟩
    rw [← h.2 a ha]
    exact Attrs.get?_set_of_ne fun heq => hn.2 (heq ▸ ha)
  · intro fl n hn h
    refine ⟨hI.erase hn.1 h.1, fun a ha => ?_⟩
    rw [← h.2 a ha]
    exact Attrs.get?_erase_of_ne fun heq => hn.2 (heq ▸ ha)

/-! ## Positions -/

namespace Position

/-- The reference with which a position value starts. -/
def target? (v : String) : Option String :=
  match (Ref.parse v : Except Fault (Ref Float)) with
  | .ok r => r.target
  | .error _ => none

/-- The references in a size. -/
def sizeTarget? (v : String) : Option String := if isRef v then target? v else none

/-- The references that settle the position of an element. -/
def references (el : Element) : List String :=
  match el.shape? with
  | none => []
  | some shape =>
    (el.get? "surround").toList.flatMap Text.words ++ ((el.get? "inside").toList.flatMap Text.words ++
        ((el.get? "wh").bind sizeTarget?).toList) ++
      ((if shape == .line then
          ((el.get? "xy1").bind target?).toList ++ ((el.get? "xy2").bind target?).toList
        else []) ++
        (((el.get? "cxy").bind target?).toList ++ ((el.get? "xy").bind target?).toList))

theorem target?_eq {v : String} {r : Ref Float} (h : Ref.parse v = .ok r) :
    target? v = r.target := by
  unfold target?
  rw [h]

theorem Ref.parse_eq_ok {v : String} {r : Ref Float} (h : Ref.parse v = .ok r) :
    ∃ rest, Ref.splitTarget (Text.trim v) = .ok (r.target, rest) ∧
      (r.target = none → r.spot = .implied) := by
  unfold Ref.parse at h
  obtain ⟨⟨target, rest⟩, ht, h⟩ := except_bind_eq_ok h
  obtain ⟨⟨spot, rest'⟩, hs, h⟩ := except_bind_eq_ok h
  simp only at h hs
  split at h
  · cases h
  · cases h
    refine ⟨rest, ht, fun hn => ?_⟩
    simp only at hn
    subst hn
    exact (Prod.mk.inj (Except.ok.inj hs)).1.symm

/-- What starts with a reference has a target. -/
theorem target_isSome_of_isRef {v : String} {r : Ref Float} (hv : isRef v)
    (h : Ref.parse v = .ok r) : r.target.isSome := by
  obtain ⟨rest, ht, -⟩ := Ref.parse_eq_ok h
  have head : ∀ c cs, Text.trimStart v.toList = c :: cs → Text.isBlank c = false →
      ∃ ds, (Text.trim v).toList = c :: ds := by
    intro c cs hc hb
    refine ⟨(Text.trimStart cs.reverse).reverse, ?_⟩
    rw [Text.trim, String.toList_ofList, Text.trimChars, hc, List.reverse_cons, Text.trimStart,
      List.dropWhile_append]
    split
    · next hempty =>
      rw [List.isEmpty_iff] at hempty
      simp [hb, Text.trimStart, hempty]
    · simp [Text.trimStart]
  unfold isRef at hv
  split at hv
  · next cs heq =>
    obtain ⟨ds, hds⟩ := head _ _ heq (by decide)
    unfold Ref.splitTarget at ht
    rw [hds] at ht
    simp only at ht
    split at ht
    · cases ht
    · rw [← (Prod.mk.inj (Except.ok.inj ht)).1]
      rfl
  · next cs heq =>
    obtain ⟨ds, hds⟩ := head _ _ heq (by decide)
    unfold Ref.splitTarget at ht
    rw [hds] at ht
    rw [← (Prod.mk.inj (Except.ok.inj ht)).1]
    rfl
  · cases hv

section Consulting

variable {P : Element → Prop}

theorem consults_boxesOf (attr v : String) :
    Consults P (Text.words v) (fun refs => boxesOf refs attr v) fun _ => P := by
  unfold boxesOf
  refine .after (local_require _ _ _) fun _ _ => ?_
  exact .mapM (fun t => .after (local_require _ _ _) fun _ _ => .boxOf t) _

theorem consults_parseSize (v : String) :
    Consults P (sizeTarget? v).toList (fun refs => parseSize refs v) fun _ => P := by
  unfold parseSize
  cases hv : isRef v with
  | false =>
    simp only [sizeTarget?, hv]
    exact (Consults.ofLocal (local_orFail _ _)).weaken (fun _ h => h) fun _ _ h => h.1
  | true =>
    refine .after (local_orFail _ _) fun ref href => .after (local_require _ _ _) fun _ _ => ?_
    obtain ⟨t, ht⟩ := Option.isSome_iff_exists.1 (target_isSome_of_isRef hv href)
    have hts : (sizeTarget? v).toList = [t] := by
      rw [sizeTarget?, if_pos hv, target?_eq href, ht]
      rfl
    rw [hts, ht]
    exact (Consults.boxOf t).before fun b => local_adjusted _ _ _

theorem consults_pointOf (attr : String) (ref : Ref Float) (implied : Loc) :
    Consults P ref.target.toList (fun refs => pointOf refs attr ref implied) fun _ => P := by
  unfold pointOf
  cases ref.target with
  | none => exact (Consults.ofLocal (local_orFail _ _)).weaken (fun _ h => h) fun _ _ h => h.1
  | some t =>
    exact (Consults.boxOf t).before (R := fun _ => True) fun b =>
      .bind (local_orFail _ _) fun _ _ => .pure trivial

theorem consults_goal (attr v : String) (loc : Loc) :
    Consults P (target? v).toList (fun refs => goal refs attr v loc) fun _ => P := by
  unfold goal
  refine .after (local_orFail _ _) fun ref href => ?_
  rw [target?_eq href]
  obtain ⟨-, -, himplied⟩ := Ref.parse_eq_ok href
  cases hs : ref.spot with
  | beside side =>
    cases ht : ref.target with
    | none =>
      rw [himplied ht] at hs
      cases hs
    | some t =>
      refine (Consults.boxOf t).before (R := fun _ => True) fun b => ?_
      refine .bind (local_orFail _ _) fun gap _ => ?_
      cases side <;> exact .pure trivial
  | implied =>
    exact (consults_pointOf attr ref loc).before (R := fun _ => True) fun _ => .pure trivial
  | anchor a =>
    exact (consults_pointOf attr ref loc).before (R := fun _ => True) fun _ => .pure trivial

variable {free : String → Prop} {I : Element → Prop} (hI : Stable free I)
  (hfree : ∀ n ∈ geometric ++ attributes, free n) (el : Element) {names : List String}

include hI hfree

/-- An attribute is taken as it was. -/
theorem consults_take {a : String} (ha : a ∈ attributes) (hn : a ∉ names) :
    Consults (Kept I el (a :: names)) [] (fun _ => take a)
      fun v fl => Kept I el names fl ∧ v = el.get? a := by
  intro e fl hfl
  have hkept : Kept I el names fl := ⟨hfl.1, fun n hmem => hfl.2 n (List.mem_cons_of_mem _ hmem)⟩
  refine .pure ⟨(hI.kept el names).erase ⟨hfree a (List.mem_append_right _ ha), hn⟩ hkept, ?_⟩
  exact hfl.2 a List.mem_cons_self

/-- What an attribute settles asks for the references in it. -/
theorem consults_taken {β : Type} {a : String} (ha : a ∈ attributes) (hn : a ∉ names)
    {ts : List String} {f : Referrer Float → Option String → Edit Failure β}
    {Q : β → Element → Prop}
    (hf : Consults (Kept I el names) ts (fun refs => f refs (el.get? a)) Q) :
    Consults (Kept I el (a :: names)) ts (fun refs => take a >>= f refs) Q := by
  refine (consults_take hI hfree el ha hn).bind (fun v e fl hfl => ?_)
  obtain ⟨hfl, rfl⟩ := hfl
  exact hf e fl hfl

variable (hnames : ∀ n ∈ geometric, n ∉ names)

include hnames

omit hI in
theorem geometric_free : ∀ n ∈ geometric, free n ∧ n ∉ names :=
  fun n hn => ⟨hfree n (List.mem_append_left _ hn), hnames n hn⟩

theorem consults_encloseBy (shape : Shape) (inside : Bool) {a : String} (ha : a ∈ attributes)
    (hn : a ∉ names) (hm : "margin" ∉ names) :
    Consults (Kept I el (a :: names)) ((el.get? a).toList.flatMap Text.words)
      (fun refs => encloseBy refs shape inside a) fun _ => Kept I el names := by
  refine consults_taken hI hfree el ha hn ?_
  have hstable := hI.kept el names
  cases el.get? a with
  | none => exact .pure
  | some v =>
    have hts : (some v).toList.flatMap Text.words = Text.words v := by simp
    rw [hts]
    refine .after (local_requireSized _ _) fun _ _ => ?_
    refine (consults_boxesOf a v).before (R := fun _ => True) fun boxes => ?_
    refine .bind (local_combined _ _ _) fun b _ => ?_
    refine .bind (local_margined hstable ⟨hfree _ (by decide), hm⟩ _ _) fun b _ => ?_
    exact .modify fun fl hfl => hstable.setBox (geometric_free hfree hnames) hfl _

theorem consults_sizeByPair (shape : Shape) (hn : "wh" ∉ names) :
    Consults (Kept I el ("wh" :: names)) ((el.get? "wh").bind sizeTarget?).toList
      (fun refs => sizeByPair refs shape) fun _ => Kept I el names := by
  refine consults_taken hI hfree el (by decide) hn ?_
  cases el.get? "wh" with
  | none => exact .pure
  | some v =>
    refine .after (local_requireSized _ _) fun _ _ => ?_
    refine (consults_parseSize v).before (R := fun _ => True) fun size => ?_
    exact .modify fun fl hfl =>
      stable_setSize (hI.kept el names) (geometric_free hfree hnames) hfl _ _ _

theorem consults_placeEnd {a nx ny : String} (ha : a ∈ attributes) (hn : a ∉ names)
    (hx : nx ∈ geometric) (hy : ny ∈ geometric) :
    Consults (Kept I el (a :: names)) ((el.get? a).bind target?).toList
      (fun refs => placeEnd refs a nx ny) fun _ => Kept I el names := by
  refine consults_taken hI hfree el ha hn ?_
  have hstable := hI.kept el names
  have hnat := geometric_free hfree hnames
  cases el.get? a with
  | none => exact .pure
  | some v =>
    refine .after (local_orFail _ _) fun ref href => ?_
    have hts : ((some v).bind target?).toList = ref.target.toList := by
      rw [Option.bind_some, target?_eq href]
    rw [hts]
    refine (consults_pointOf a ref .center).before (R := fun _ => True) fun p => ?_
    exact .modify fun fl hfl =>
      hstable.setNumber (hnat _ hy) (hstable.setNumber (hnat _ hx) hfl _) _

theorem consults_placeByEither (shape : Shape) (loc : Loc) (cxy xy : Option String) :
    Consults (Kept I el names) ((cxy.bind target?).toList ++ (xy.bind target?).toList)
      (fun refs => placeByEither refs shape loc cxy xy) fun _ => Kept I el names := by
  have place : ∀ (attr v : String) (loc : Loc), Consults (Kept I el names) (target? v).toList
      (fun refs => placeBy refs shape attr v loc) fun _ => Kept I el names := fun attr v loc =>
    (consults_goal attr v loc).before fun g =>
      local_place (hI.kept el names) (geometric_free hfree hnames) shape attr g.1 g.2
  cases cxy with
  | none =>
    cases xy with
    | none => exact .pure
    | some v =>
      rw [Option.bind_none, Option.bind_some, Option.toList_none, List.nil_append]
      exact place "xy" v loc
  | some w =>
    cases xy with
    | none =>
      rw [Option.bind_none, Option.bind_some, Option.toList_none, List.append_nil]
      exact place "cxy" w .center
    | some v => exact .failing (fun _ => local_failOn _ _) fun _ _ => rfl

omit hnames

theorem consults_sizes (shape : Shape) (hgeometric : ∀ n ∈ geometric, n ∉ "inside" :: "wh" :: names)
    (hsur : "surround" ∉ "inside" :: "wh" :: names) (hins : "inside" ∉ "wh" :: names)
    (hwh : "wh" ∉ names) (hm : "margin" ∉ names) (hdw : "dw" ∉ names) (hdh : "dh" ∉ names) :
    Consults (Kept I el ("surround" :: "inside" :: "wh" :: names))
      ((el.get? "surround").toList.flatMap Text.words ++ ((el.get? "inside").toList.flatMap Text.words ++
        ((el.get? "wh").bind sizeTarget?).toList))
      (fun refs => sizes refs shape) fun _ => Kept I el names := by
  have hnat : ∀ n ∈ geometric, n ∉ names := fun n hn h =>
    hgeometric n hn (List.mem_cons_of_mem _ (List.mem_cons_of_mem _ h))
  have hwhNat : ∀ n ∈ geometric, n ∉ "wh" :: names := fun n hn h => hgeometric n hn (List.mem_cons_of_mem _ h)
  unfold sizes
  refine (consults_encloseBy hI hfree el hgeometric shape false (by decide) hsur (by simpa using hm)).bind
    fun _ => (consults_encloseBy hI hfree el hwhNat shape true (by decide) hins (by simpa using hm)).bind
      fun _ => ?_
  exact (consults_sizeByPair hI hfree el hnat shape hwh).before fun _ =>
    local_sizeByDelta (hI.kept el names) (geometric_free hfree hnat) ⟨hfree _ (by decide), hdw⟩
      ⟨hfree _ (by decide), hdh⟩ shape

theorem consults_placeEnds (shape : Shape) :
    Consults (Kept I el ["xy1", "xy2", "cxy", "xy"])
      (if shape == .line then
        ((el.get? "xy1").bind target?).toList ++ ((el.get? "xy2").bind target?).toList
      else [])
      (fun refs => placeEnds refs shape) fun _ => Kept I el ["cxy", "xy"] := by
  unfold placeEnds
  split
  · exact (consults_placeEnd hI hfree el (by decide) (by decide) (by decide) (by decide)
      (by decide)).bind fun _ => consults_placeEnd hI hfree el (by decide) (by decide) (by decide)
      (by decide) (by decide)
  · refine Consults.pure.weaken (fun fl hfl => ?_) fun _ _ h => h
    exact ⟨hfl.1, fun n hn => hfl.2 n (List.mem_cons_of_mem _ (List.mem_cons_of_mem _ hn))⟩

theorem consults_locate (shape : Shape) :
    Consults (Kept I el ["xy1", "xy2", "cxy", "xy"])
      ((if shape == .line then
          ((el.get? "xy1").bind target?).toList ++ ((el.get? "xy2").bind target?).toList
        else []) ++
        (((el.get? "cxy").bind target?).toList ++ ((el.get? "xy").bind target?).toList))
      (fun refs => locate refs shape) fun _ => Kept I el [] := by
  have hstable := hI.kept el []
  have hnat : ∀ n ∈ geometric, free n ∧ n ∉ ([] : List String) := geometric_free hfree (by simp)
  unfold locate
  refine (consults_placeEnds hI hfree el shape).bind fun _ => ?_
  refine .after (local_ownLoc (hI.kept el _) ⟨hfree _ (by decide), by decide⟩) fun loc _ => ?_
  refine consults_taken hI hfree el (by decide) (by decide) ?_
  refine consults_taken hI hfree el (by decide) (by decide) ?_
  refine (consults_placeByEither hI hfree el (by simp) shape loc _ _).before (R := fun _ => True) fun _ => ?_
  refine .bind (local_shiftOf hstable ⟨hfree _ (by decide), by simp⟩) fun dx _ => ?_
  refine .bind (local_shiftOf hstable ⟨hfree _ (by decide), by simp⟩) fun dy _ => ?_
  exact local_editing (hstable.ensures_translate hnat _ _)

omit hI hfree in
theorem get?_of_not_has (h : has el = false) : ∀ a ∈ attributes, el.get? a = none := by
  intro a ha
  have hnot : el.has a = false := by simpa using List.any_eq_false.1 h a ha
  unfold Element.has Attrs.has Attrs.names at hnot
  unfold Element.get? Attrs.get?
  rw [List.lookup_eq_none_iff]
  intro p hp
  simp only [List.contains_eq_mem, decide_eq_false_iff_not, List.mem_map, not_exists, not_and] at hnot
  simpa using fun heq => hnot p hp heq.symm

omit hI hfree in
theorem resolve_eq_outcome {el : Element} {shape : Shape} (refs : Referrer Float)
    (hshape : el.shape? = some shape) (h : has el = true) :
    resolve refs el = outcome (do sizes refs shape; locate refs shape) el >>= fun r => .ok r.2 := by
  unfold resolve outcome exec
  rw [hshape, h]
  simp only [Bool.not_true, Bool.false_eq_true, if_false]
  rcases (do sizes refs shape; locate refs shape : Edit Failure Unit).run el with ⟨_ | _, fl⟩ <;> rfl

/-- Settling the position of an element asks for its references. -/
theorem asks_resolve (e : Element) (h : I el) :
    Asks (references el) (fun ask => resolve (ask e) el) I := by
  unfold references
  cases hshape : el.shape? with
  | none =>
    unfold resolve
    rw [hshape]
    exact .pure h
  | some shape =>
    cases hhas : has el with
    | false =>
      have hnone := get?_of_not_has el hhas
      have hres : ∀ refs : Referrer Float, resolve refs el = .ok el := by
        intro refs
        unfold resolve
        rw [hshape, hhas]
        rfl
      simp only [hnone "surround" (by decide), hnone "inside" (by decide), hnone "wh" (by decide),
        hnone "xy1" (by decide), hnone "xy2" (by decide), hnone "cxy" (by decide),
        hnone "xy" (by decide), hres]
      simpa using Asks.pure h
    | true =>
      have hrun := ((consults_sizes hI hfree el shape (by decide) (by decide) (by decide) (by decide)
        (by decide) (by decide) (by decide)).bind fun _ => consults_locate hI hfree el shape) e el
        ⟨h, fun _ _ => rfl⟩
      simp only [resolve_eq_outcome _ hshape hhas]
      exact hrun.before fun r hr => .pure hr.1

omit hI hfree in
/-- Settling the position of an element keeps its attribute names fit. -/
theorem named_resolve {ok : String → Prop} (hok : ∀ n, n ≠ "class" → ok n) {refs : Referrer Float}
    {el fl : Element} (h : Named ok el) (hr : resolve refs el = .ok fl) : Named ok fl :=
  ((asks_resolve (stable_named hok) (by decide) el el h).ok (fun _ => refs) fl hr).1

end Consulting

end Position

end DiagramMarkup
