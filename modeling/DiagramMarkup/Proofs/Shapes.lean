import DiagramMarkup.Proofs.References

/-!
# Settling shapes

What a shape without content draws is computed from its attributes and from the boxes of its references
(`Figure.settle`).

1. Each stage keeps what native geometry, path data, connector ends and labels have no part in (`Element.Stable`).
2. So the references of the shape as written (`Figure.references`) are what settling it asks for (`asks_settle`).
-/

namespace DiagramMarkup

open Element

/-! ## Faults of attributes -/

namespace Asks

variable {β γ : Type}

/-- A reading whose fault belongs to an attribute. -/
theorem parsed (el : Option Element) (attr : String) (r : Except Fault β) :
    Asks [] (fun _ => r.mapError (Failure.parse el attr)) fun b => r = .ok b := by
  cases r with
  | ok b => exact .pure rfl
  | error f => exact .failing (Failure.final_error _)

theorem checked (el : Element) (attr : String) (r : Except Fault β) :
    Asks [] (fun _ => Compile.checked el attr r) fun b => r = .ok b := parsed _ _ r

theorem map {ts : List String} {m : Asker → Except Failure β} {f : β → γ} {Q : β → Prop} {R : γ → Prop}
    (h : Asks ts m Q) (hf : ∀ a, Q a → R (f a)) : Asks ts (fun ask => f <$> m ask) R := by
  simp only [map_eq_pure_bind]
  exact h.before fun a ha => .pure (hf a ha)

theorem numberIn (el : Element) (attr s : String) :
    Asks [] (fun _ => Compile.numberIn el attr s) fun _ => True :=
  (checked _ _ _).mono fun _ _ => trivial

end Asks

section Stages

variable {free : String → Prop} {I : Element → Prop} (hI : Stable free I) {el : Element}

include hI

theorem Compile.asks_rotated (hr : free "rotate") (hn : ∀ n ∈ geometric, free n) (h : I el)
    (box : Option (Box Float)) : Asks [] (fun _ => rotated el box) I := by
  unfold rotated
  cases el.get? "rotate" with
  | none => exact .pure h
  | some v =>
    refine (Asks.numberIn _ _ _).after fun a _ => .pure ?_
    split
    · exact hI.erase hr h
    · exact hI.prependTransform hn (hI.erase hr h) _

theorem Label.asks_take (hl : ∀ n ∈ Label.attributes, free n) (h : I el) :
    Asks [] (fun _ => take el) fun r => I r.2 := by
  have bare : I (el.eraseAll Label.attributes) := hI.eraseAll hl h
  unfold take
  simp only
  split
  · exact .pure (hI.erase (hl _ (by decide)) h)
  split
  · exact .pure bare
  have loc : ∀ v, Asks [] (fun _ => locOf (el.eraseAll Label.attributes) v) fun _ => True := by
    intro v
    cases v with
    | none => exact .pure trivial
    | some l => exact (Asks.checked _ _ _).mono fun _ _ => trivial
  have offset : ∀ attr v,
      Asks [] (fun _ => offset (el.eraseAll Label.attributes) attr v) fun _ => True := by
    intro attr v
    unfold Label.offset
    simp only
    split
    · exact .pure trivial
    · exact .numberIn _ _ _
  refine (loc _).after fun _ _ => (offset _ _).after fun _ _ => (offset _ _).after fun _ _ => ?_
  exact .pure bare

/-! ## Connectors -/

namespace Connector

open Position

omit hI in
theorem asks_endpoint (e : Element) (el : Option Element) (attr v : String) :
    Asks (target? v).toList (fun ask => Endpoint.resolve (ask e) el attr v) fun _ => True := by
  unfold Endpoint.resolve
  refine (Asks.parsed _ _ _).after fun ref href => ?_
  rw [target?_eq href]
  cases hspot : ref.spot with
  | beside side => exact .failing (Failure.final_error _)
  | implied =>
    cases htarget : ref.target with
    | none => exact (Asks.parsed _ _ _).after fun p _ => .pure trivial
    | some t => exact (Asks.ref e t).before fun b _ => .pure trivial
  | anchor a =>
    cases htarget : ref.target with
    | none => exact (Asks.parsed _ _ _).after fun p _ => .pure trivial
    | some t =>
      exact (Asks.ref e t).before fun b _ => (Asks.parsed _ _ _).after fun d _ => .pure trivial

omit hI in
theorem asks_cornerOffset (el : Element) : Asks [] (fun _ => cornerOffset el) fun _ => True := by
  unfold cornerOffset
  cases el.get? "corner-offset" with
  | none => exact .pure trivial
  | some v => exact (Asks.checked el _ _).map fun _ _ => trivial

/-- The references at the ends of a connector. -/
def references (el : Element) : List String :=
  if isConnector el then
    match el.get? "start", el.get? "end" with
    | some start, some stop => (target? start).toList ++ (target? stop).toList
    | _, _ => []
  else []

/-- Connecting asks for the references at the ends. -/
theorem asks_connect (hn : ∀ n ∈ ["start", "end", "corner-offset"] ++ geometric, free n) (e : Element)
    (h : I el) : Asks (references el) (fun ask => connect (ask e) el) I := by
  have bare : I (el.eraseAll ["start", "end", "corner-offset"]) :=
    hI.eraseAll (fun n hmem => hn n (List.mem_append_left _ hmem)) h
  have num : ∀ {fl : Element} (n : String) (v : Float), n ∈ geometric → I fl → I (fl.setNumber n v) :=
    fun n v hmem hfl => hI.setNumber (hn n (List.mem_append_right _ hmem)) hfl v
  unfold connect references
  cases hc : isConnector el with
  | false => exact .pure h
  | true =>
    cases el.get? "start" with
    | none =>
      cases el.get? "end" with
      | none => exact .pure h
      | some stop => exact .failing (Failure.final_error _)
    | some start =>
      cases el.get? "end" with
      | none => exact .failing (Failure.final_error _)
      | some stop =>
        refine (asks_endpoint e _ _ start).bind fun s _ => ?_
        refine (asks_endpoint e _ _ stop).before fun t _ => ?_
        refine (asks_cornerOffset el).after fun offset _ => .pure ?_
        unfold joined
        split
        · exact hI.set _ (hn _ (by decide)) bare
        · exact num _ _ (by decide) (num _ _ (by decide) (num _ _ (by decide) (num _ _ (by decide) bare)))

end Connector

/-! ## Shapes -/

namespace Figure

theorem asks_expandPath (hd : free "d") (h : I el) (o : Options) :
    Asks [] (fun _ => expandPath o el) I := by
  unfold expandPath
  split
  · split
    · exact .pure (hI.set _ hd h)
    · exact .failing (Failure.final_error _)
    · exact .failing (Failure.final_error _)
  · exact .pure h

theorem asks_measured (hr : free "rotate") (hn : ∀ n ∈ geometric, free n) (h : I el) (o : Options)
    (label : Option Label) (inner : List Event) :
    Asks [] (fun _ => measured o el label inner) fun s => I s.element := by
  unfold measured
  split
  · exact (Asks.checked _ _ _).after fun box _ => .pure h
  · refine (Asks.checked _ _ _).after fun box _ => ?_
    exact (Compile.asks_rotated hI hr hn h box).after fun fl hfl => .pure hfl

end Figure

end Stages

namespace Figure

/-- The references of a shape. -/
def references (el : Element) : List String := Connector.references el ++ Position.references el

/-- The geometry of a shape without content, settled. The element is in another state at every question. -/
def settle (o : Options) (ask : Asker) (el : Element) : Except Failure Settled := do
  let el ← expandPath o el
  let el ← Connector.connect (ask el) el
  let el ← Position.resolve (ask el) el
  let (label, el) ← Label.take el
  measured o el label []

/-- The attributes with references in them, apart from the ends of connectors. -/
def referring : List String := ["surround", "inside", "wh", "xy1", "xy2", "cxy", "xy"]

theorem positionReferences_congr {el fl : Element} (hname : fl.name = el.name)
    (h : ∀ n ∈ referring, fl.get? n = el.get? n) :
    Position.references fl = Position.references el := by
  unfold Position.references Element.shape?
  rw [hname, h "surround" (by decide), h "inside" (by decide), h "wh" (by decide), h "xy1" (by decide),
    h "xy2" (by decide), h "cxy" (by decide), h "xy" (by decide)]

theorem connectorReferences_congr {el fl : Element} (hname : fl.name = el.name)
    (hs : fl.get? "start" = el.get? "start") (he : fl.get? "end" = el.get? "end") :
    Connector.references fl = Connector.references el := by
  unfold Connector.references Connector.isConnector
  rw [hname, hs, he]

/-- The element has the name and the identifier of another. -/
def Alias (el : Element) : Element → Prop := Kept (fun fl => fl.name = el.name) el ["id"]

theorem stable_alias (el : Element) : Stable (· ≠ "id") (Alias el) := by
  have named : Stable (fun _ => True) fun fl => fl.name = el.name := ⟨fun _ _ h => h, fun _ h => h⟩
  have := named.kept el ["id"]
  exact ⟨fun v hn h => this.set v ⟨trivial, by simpa using hn⟩ h,
    fun hn h => this.erase ⟨trivial, by simpa using hn⟩ h⟩

/-- Settling a shape asks for its references, and leaves its identifier. -/
theorem asks_settle (o : Options) (el : Element) :
    Asks (references el) (fun ask => settle o ask el) fun s => s.element.id = el.id := by
  have hI := stable_alias el
  have hpos := hI.kept el referring
  have hall := hI.kept el ("start" :: "end" :: referring)
  have hself : Kept (Alias el) el ("start" :: "end" :: referring) el :=
    ⟨⟨rfl, fun _ _ => rfl⟩, fun _ _ => rfl⟩
  unfold settle
  refine (asks_expandPath hall (by decide) hself o).after fun fl hfl => ?_
  obtain ⟨⟨hname, -⟩, hkept⟩ := id hfl
  have hcon := connectorReferences_congr hname (hkept _ (by decide)) (hkept _ (by decide))
  have hfl : Kept (Alias el) el referring fl := ⟨hfl.1, fun n hn => hfl.2 n (by simp [hn])⟩
  unfold references
  rw [← hcon]
  refine (Connector.asks_connect hpos (by decide) fl hfl).bind fun fl hfl => ?_
  rw [← positionReferences_congr hfl.1.1 hfl.2]
  refine (Position.asks_resolve hI (by decide) fl fl hfl.1).before fun fl hfl => ?_
  refine (Label.asks_take hI (by decide) hfl).after fun r hr => ?_
  refine (asks_measured hI (by decide) (by decide) hr o r.1 []).mono fun s hs => ?_
  exact congrArg (·.getD "") (hs.2 "id" (by decide))

end Figure

end DiagramMarkup
