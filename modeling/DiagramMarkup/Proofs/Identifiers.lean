import DiagramMarkup.Compile.Reuse
import DiagramMarkup.Proofs.Arguments
import DiagramMarkup.Proofs.Literal
import DiagramMarkup.Proofs.References
import DiagramMarkup.Xml.Name

/-!
# Identifiers in references

A reference is an identifier behind a hash. A position value takes what is made of identifier characters and ends there,
a list of references is cut at blanks, and an instance takes all that follows the hash.

1. No character of a name is blank, and the identifier characters among them are those of ASCII
   (`Xml.isIdChar_iff_of_isNameChar`).
2. So lists of references and instances take every identifier whole, while a position value is read as the reference
   only if all characters are identifier characters (`Ref.parse_hash_iff`).
3. What reads a reference whole depends on nothing but the box of its target (`RefersTo`), and what fails before it
   asks for the box depends on none (`not_refersTo_of_error`).
-/

namespace DiagramMarkup

/-! ## Characters of names -/

namespace Xml

/-- The code points of blanks. -/
def blankPoints : List Nat :=
  [9, 10, 11, 12, 13, 32, 0x85, 0xA0, 0x1680, 0x2000, 0x2001, 0x2002, 0x2003, 0x2004, 0x2005, 0x2006, 0x2007, 0x2008,
    0x2009, 0x200A, 0x2028, 0x2029, 0x202F, 0x205F, 0x3000]

theorem mem_blankPoints {c : Char} (h : Text.isBlank c) : c.toNat ∈ blankPoints := by
  simp only [Text.isBlank, Bool.or_eq_true, Bool.and_eq_true, decide_eq_true_eq, beq_iff_eq] at h
  simp only [blankPoints, List.mem_cons, List.not_mem_nil, or_false]
  omega

/-- Does the code point belong to a character of a name? -/
def isNamePoint (n : Nat) : Bool := (startRanges ++ continueRanges).any fun (lo, hi) => lo ≤ n && n ≤ hi

theorem isNamePoint_of_isNameChar {c : Char} (h : isNameChar c) : isNamePoint c.toNat := by
  unfold isNamePoint
  rw [List.any_append]
  exact h

/-- Neither a blank nor a mark that ends a target belongs to a name. -/
theorem not_isNamePoint : ∀ n ∈ '@'.toNat :: '|'.toNat :: blankPoints, isNamePoint n = false := by decide +kernel

theorem toNat_not_mem_of_isNameChar {c : Char} (h : isNameChar c) :
    c.toNat ∉ '@'.toNat :: '|'.toNat :: blankPoints := by
  intro hmem
  have hnot := not_isNamePoint _ hmem
  rw [isNamePoint_of_isNameChar h] at hnot
  cases hnot

theorem isNameChar_of_isName {cs : List Char} (h : isName cs) : ∀ c ∈ cs, isNameChar c := by
  cases cs with
  | nil => cases h
  | cons d ds =>
    rw [isName, Bool.and_eq_true, List.all_eq_true] at h
    refine List.forall_mem_cons.2 ⟨?_, h.2⟩
    unfold isNameChar
    rw [h.1, Bool.true_or]

/-- Of the characters of names, those of ASCII are characters of identifiers in position values. -/
theorem isIdChar_iff_of_isNameChar {c : Char} (h : isNameChar c) (hcolon : c ≠ ':') :
    Position.isIdChar c ↔ c.toNat < 128 := by
  have hpoints : ∀ n < 128, isNamePoint n → n ≠ 58 → Position.isIdChar (Char.ofNat n) := by decide +kernel
  refine ⟨fun hid => by have := (Position.Ref.visible_of_isIdChar hid).2; omega, fun hlt => ?_⟩
  have hid := hpoints _ hlt (isNamePoint_of_isNameChar h) fun heq => hcolon (Char.toNat_inj.1 heq)
  rwa [Char.ofNat_toNat] at hid

end Xml

namespace Position

open Element

/-! ## References by identifier -/

/-- A text that may stand behind a hash: it has no blanks and none of the marks that end a target. -/
structure IsIdentifier (id : String) : Prop where
  nonempty : id ≠ ""
  bare : ∀ c ∈ id.toList, Text.isBlank c = false ∧ c ∉ ['@', '|', ':']

/-- A name without a colon is an identifier. -/
theorem IsIdentifier.of_isName {id : String} (h : Xml.isName id.toList) (hcolon : ':' ∉ id.toList) :
    IsIdentifier id := by
  refine ⟨?_, fun c hc => ?_⟩
  · rintro rfl
    cases h
  have hpoint := Xml.toNat_not_mem_of_isNameChar (Xml.isNameChar_of_isName h c hc)
  constructor
  · exact Bool.eq_false_iff.2 fun hblank =>
      hpoint (List.mem_cons_of_mem _ (List.mem_cons_of_mem _ (Xml.mem_blankPoints hblank)))
  · simp only [List.mem_cons, List.not_mem_nil, or_false, not_or]
    refine ⟨?_, ?_, ?_⟩
    · rintro rfl
      exact hpoint List.mem_cons_self
    · rintro rfl
      exact hpoint (List.mem_cons_of_mem _ List.mem_cons_self)
    · rintro rfl
      exact hcolon hc

/-- All characters are identifier characters. -/
def IsSimple (id : String) : Prop := ∀ c ∈ id.toList, isIdChar c

/-- A name without a colon is simple if and only if it is ASCII. -/
theorem isSimple_iff_ascii {id : String} (h : Xml.isName id.toList) (hcolon : ':' ∉ id.toList) :
    IsSimple id ↔ ∀ c ∈ id.toList, c.toNat < 128 :=
  forall₂_congr fun c hc => Xml.isIdChar_iff_of_isNameChar (Xml.isNameChar_of_isName h c hc) fun heq =>
    hcolon (heq ▸ hc)

theorem not_isGap_of_not_isBlank {c : Char} (h : Text.isBlank c = false) : isGap c = false := by
  refine Bool.eq_false_iff.2 fun hgap => ?_
  simp only [isGap, Bool.or_eq_true, beq_iff_eq] at hgap
  rcases hgap with ((rfl | rfl) | rfl) | rfl <;> cases h

section Hash

variable {id : String} (h : IsIdentifier id)

theorem toList_hash (id : String) : ("#" ++ id).toList = '#' :: id.toList := by
  rw [String.toList_append]
  rfl

theorem isRef_hash (id : String) : isRef ("#" ++ id) = true := by
  have hstart : Text.trimStart ("#" ++ id).toList = '#' :: id.toList := by
    rw [toList_hash]
    exact List.dropWhile_cons_of_neg (by decide)
  unfold isRef
  split
  · rfl
  · rfl
  · next hhash _ => exact absurd hstart (hhash _)

include h

theorem not_isBlank_hash : ∀ c ∈ ("#" ++ id).toList, Text.isBlank c = false := by
  rw [toList_hash]
  exact List.forall_mem_cons.2 ⟨by decide, fun c hc => (h.bare c hc).1⟩

theorem trim_hash : Text.trim ("#" ++ id) = "#" ++ id := by
  have hbare := not_isBlank_hash h
  exact Text.Tight.trim_eq
    ⟨fun c hc => hbare c (List.mem_of_mem_head? hc), fun c hc => hbare c (List.mem_of_mem_getLast? hc)⟩

/-- A list of one reference. -/
theorem words_hash : Text.words ("#" ++ id) = ["#" ++ id] := by
  have hword : Text.IsWord Text.isBlank ("#" ++ id).toList := by
    refine ⟨?_, not_isBlank_hash h⟩
    rw [toList_hash]
    exact List.cons_ne_nil _ _
  unfold Text.words
  rw [Text.wordsWhere_word hword, List.map_singleton, String.ofList_toList]

variable {α : Type} [Scalar α]

omit h in
/-- The identifier characters at the start are the target. -/
theorem Ref.splitTarget_hash {target : Option String} {rest : List Char}
    (hsplit : splitTarget ("#" ++ id) = .ok (target, rest)) :
    target = some (String.ofList ('#' :: id.toList.takeWhile isIdChar)) ∧ rest = id.toList.dropWhile isIdChar := by
  unfold splitTarget at hsplit
  rw [toList_hash] at hsplit
  simp only at hsplit
  split at hsplit
  · cases hsplit
  · cases hsplit
    exact ⟨rfl, rfl⟩

/-- Identifier characters behind a hash are a target as a whole. -/
theorem Ref.splitTarget_hash_of_isSimple (hid : IsSimple id) :
    splitTarget ("#" ++ id) = .ok (some ("#" ++ id), []) := by
  have hne : id.toList.isEmpty = false := by
    rw [List.isEmpty_eq_false_iff, ne_eq, String.toList_eq_nil_iff]
    exact h.nonempty
  unfold splitTarget
  rw [toList_hash]
  simp only [List.takeWhile_eq_self_iff.2 hid, List.dropWhile_eq_nil_iff.2 hid, hne, Bool.false_eq_true, if_false]
  rw [← toList_hash, String.ofList_toList]

/-- No spot starts with a character of an identifier. -/
theorem Ref.eq_nil_of_splitSpot {s : String} {cs rest : List Char} {spot : Spot α}
    (hmem : ∀ c ∈ cs, c ∈ id.toList) (hspot : splitSpot s cs = .ok (spot, rest)) : cs = [] := by
  cases cs with
  | nil => rfl
  | cons c cs =>
    obtain ⟨hblank, hmark⟩ := h.bare c (hmem c List.mem_cons_self)
    have hbar : (c == '|' || c == ':') = false := by
      simp only [List.mem_cons, List.not_mem_nil, or_false, not_or] at hmark
      rw [beq_false_of_ne hmark.2.1, beq_false_of_ne hmark.2.2]
      rfl
    unfold splitSpot at hspot
    split at hspot
    · next heq => exact heq
    · next heq =>
      cases heq
      exact absurd List.mem_cons_self hmark
    · next heq =>
      cases heq
      rw [hbar, not_isGap_of_not_isBlank hblank] at hspot
      cases hspot

/-- An identifier behind a hash is read as a position value if and only if it has identifier characters only. -/
theorem Ref.parse_hash_iff {ref : Ref α} :
    Ref.parse ("#" ++ id) = .ok ref ↔ IsSimple id ∧ ref = ⟨some ("#" ++ id), .implied, []⟩ := by
  have hwhole : IsSimple id → Ref.parse ("#" ++ id) = .ok (⟨some ("#" ++ id), .implied, []⟩ : Ref α) := fun hid => by
    have htarget := splitTarget_hash_of_isSimple h hid
    rw [← trim_hash h] at htarget
    have hparse : Ref.parse ("#" ++ id) = .ok (⟨some (Text.trim ("#" ++ id)), .implied, _⟩ : Ref α) :=
      parse_of_parts htarget rfl nofun
    rw [hparse, trim_hash h]
    rfl
  constructor
  · intro hparse
    obtain ⟨cs, rest, htarget, hspot, -⟩ := parse_cases hparse
    rw [trim_hash h] at htarget
    obtain ⟨htarget, hcs⟩ := splitTarget_hash htarget
    rw [htarget] at hspot
    have hnil := eq_nil_of_splitSpot h (fun c hc => (List.dropWhile_sublist _).mem (hcs ▸ hc)) hspot
    have hid := List.dropWhile_eq_nil_iff.1 (hcs.symm.trans hnil)
    exact ⟨hid, Except.ok.inj (hparse.symm.trans (hwhole hid))⟩
  · rintro ⟨hid, rfl⟩
    exact hwhole hid

end Hash

/-! ## Consumers of references -/

section Consumers

variable {α β γ : Type} {t : String}

/-- The computation needs the box of the target, and nothing else about references. -/
def RefersTo (t : String) (m : Referrer α → Except Failure β) : Prop :=
  ∃ f : Box α → β, ∀ refs, m refs = (refs t).map f

/-- What fails before it asks for the box does not refer to it. -/
theorem not_refersTo_of_error {m : Referrer α → Except Failure β} {el : Option Element} {attr : String} {f : Fault}
    (hm : ∀ refs, m refs = .error (.parse el attr f)) : ¬ RefersTo t m := by
  rintro ⟨g, hg⟩
  cases (hm fun _ => .error .exhausted).symm.trans (hg _)

theorem outcome_orFail_bind {attr : String} {r : Except Fault β} {f : β → Edit Failure γ} {el : Element} :
    outcome (orFail attr r >>= f) el = r.mapError (Failure.parse (some el) attr) >>= fun b => outcome (f b) el := by
  cases r <;> rfl

theorem outcome_boxOf_bind {refs : Referrer α} {f : Box α → Edit Failure γ} {el : Element} :
    outcome (boxOf refs t >>= f) el = refs t >>= fun b => outcome (f b) el := by
  rw [outcome_bind]
  unfold boxOf
  cases refs t <;> rfl

variable [Scalar α] {id : String} (h : IsIdentifier id) (el : Element) (attr : String)

include h

/-- What reads a position value first refers to the target if and only if all characters are identifier characters. -/
theorem refersTo_hash_iff {m : Referrer α → Except Failure β} {f : Referrer α → Ref α → Except Failure β}
    {el : Option Element} {attr : String}
    (hm : ∀ refs, m refs = (Ref.parse ("#" ++ id)).mapError (Failure.parse el attr) >>= f refs)
    (hf : RefersTo ("#" ++ id) fun refs => f refs ⟨some ("#" ++ id), .implied, []⟩) :
    RefersTo ("#" ++ id) m ↔ IsSimple id := by
  constructor
  · intro hrefers
    cases hparse : (Ref.parse ("#" ++ id) : Except Fault (Ref α)) with
    | error e =>
      have herror : ∀ refs, m refs = .error (.parse el attr e) := fun refs => by
        rw [hm, hparse]
        rfl
      exact absurd hrefers (not_refersTo_of_error herror)
    | ok ref => exact ((Ref.parse_hash_iff h).1 hparse).1
  · intro hid
    obtain ⟨g, hg⟩ := hf
    refine ⟨g, fun refs => ?_⟩
    rw [hm, (Ref.parse_hash_iff h).2 ⟨hid, rfl⟩]
    exact hg refs

omit h in
theorem outcome_pointOf (implied : Loc) (refs : Referrer α) :
    outcome (pointOf refs attr ⟨some t, .implied, []⟩ implied) el =
      (refs t).map fun b => (⟨(b.locate implied).x + Scalar.zero, (b.locate implied).y + Scalar.zero⟩, el) := by
  refine outcome_boxOf_bind.trans ?_
  cases refs t <;> rfl

/-- The place of an element. -/
theorem goal_refersTo_iff (loc : Loc) :
    RefersTo ("#" ++ id) (fun refs : Referrer α => outcome (goal refs attr ("#" ++ id) loc) el) ↔
      IsSimple id := by
  refine refersTo_hash_iff h (fun refs => outcome_orFail_bind)
    ⟨fun b => ((loc, ⟨(b.locate loc).x + Scalar.zero, (b.locate loc).y + Scalar.zero⟩), el), fun refs => ?_⟩
  refine (outcome_bind _ _ _).trans ?_
  rw [outcome_pointOf]
  cases refs ("#" ++ id) <;> rfl

/-- The end of a line. -/
theorem placeEnd_refersTo_iff (nx ny : String) (hel : el.get? attr = some ("#" ++ id)) :
    RefersTo ("#" ++ id) (fun refs : Referrer α => outcome (placeEnd refs attr nx ny) el) ↔
      IsSimple id := by
  have htake : ∀ refs : Referrer α, outcome (placeEnd refs attr nx ny) el = outcome (do
      let p ← pointOf refs attr (← orFail attr (Ref.parse ("#" ++ id))) .center
      modify fun el => (el.setNumber nx p.x).setNumber ny p.y) (el.erase attr) := fun refs => by
    unfold placeEnd outcome
    rw [exec_take_bind, hel]
  refine refersTo_hash_iff h (fun refs => (htake refs).trans outcome_orFail_bind)
    ⟨fun b => ((), ((el.erase attr).setNumber nx ((b.locate .center).x + Scalar.zero)).setNumber ny
      ((b.locate .center).y + Scalar.zero)), fun refs => ?_⟩
  refine (outcome_bind _ _ _).trans ?_
  rw [outcome_pointOf]
  cases refs ("#" ++ id) <;> rfl

/-- The size of an element. -/
theorem parseSize_refersTo_iff :
    RefersTo ("#" ++ id) (fun refs : Referrer α => outcome (parseSize refs ("#" ++ id)) el) ↔
      IsSimple id := by
  have hread : ∀ refs : Referrer α, parseSize refs ("#" ++ id) = (do
      let ref : Ref α ← orFail "wh" (Ref.parse ("#" ++ id))
      require ref.spot.isImplied "wh" (.locatedSize ("#" ++ id))
      let b ← boxOf refs (ref.target.getD "")
      adjusted ("#" ++ id) (extentOf b) ref.args) := fun refs => by
    unfold parseSize
    rw [isRef_hash]
    rfl
  refine refersTo_hash_iff h (fun refs => (congrArg (outcome · el) (hread refs)).trans outcome_orFail_bind)
    ⟨fun b => (extentOf b, el), fun refs => ?_⟩
  refine outcome_boxOf_bind.trans ?_
  rw [Option.getD_some]
  cases refs ("#" ++ id) <;> rfl

/-- The end of a connector. -/
theorem endpoint_refersTo_iff (el : Option Element) :
    RefersTo ("#" ++ id) (fun refs : Referrer α => Endpoint.resolve refs el attr ("#" ++ id)) ↔
      IsSimple id := by
  refine refersTo_hash_iff h (fun refs => rfl) ⟨fun b => .box b.normalized, fun refs => ?_⟩
  simp only
  cases refs ("#" ++ id) <;> rfl

omit [Scalar α] in
/-- A list of references. -/
theorem boxesOf_refersTo :
    RefersTo ("#" ++ id) fun refs : Referrer α => outcome (boxesOf refs attr ("#" ++ id)) el := by
  have hread : ∀ refs : Referrer α,
      boxesOf refs attr ("#" ++ id) = boxOf refs ("#" ++ id) >>= fun b => pure [b] := fun refs => by
    unfold boxesOf
    rw [words_hash h]
    simp [isRef_hash, require]
  refine ⟨fun b => ([b], el), fun refs => ?_⟩
  simp only [hread, outcome_boxOf_bind]
  cases refs ("#" ++ id) <;> rfl

omit [Scalar α] in
/-- An instance. -/
theorem target_hash (hel : el.get? "href" = some ("#" ++ id)) : Reuse.target el = (some id, el.erase "href") := by
  obtain ⟨c, cs, hid⟩ := List.exists_cons_of_ne_nil (mt String.toList_eq_nil_iff.1 h.nonempty)
  have hself : String.ofList (c :: cs) = id := by rw [← hid, String.ofList_toList]
  unfold Reuse.target
  simp only [hel, Option.map_some, Option.getD_some, trim_hash h, toList_hash, hid, hself]

omit h

variable (α) in
/-- An identifier behind a hash names the same element wherever a reference may stand, if it has identifier characters
only. Position values do not take any other: only lists of references and instances do. -/
theorem hash_read_alike (h : IsIdentifier id) :
    (∀ ref : Ref α, Ref.parse ("#" ++ id) = .ok ref ↔ IsSimple id ∧ ref = ⟨some ("#" ++ id), .implied, []⟩) ∧
    (∀ el attr loc, RefersTo ("#" ++ id) (fun refs : Referrer α => outcome (goal refs attr ("#" ++ id) loc) el) ↔
      IsSimple id) ∧
    (∀ el attr nx ny, el.get? attr = some ("#" ++ id) →
      (RefersTo ("#" ++ id) (fun refs : Referrer α => outcome (placeEnd refs attr nx ny) el) ↔ IsSimple id)) ∧
    (∀ el, RefersTo ("#" ++ id) (fun refs : Referrer α => outcome (parseSize refs ("#" ++ id)) el) ↔ IsSimple id) ∧
    (∀ el attr, RefersTo ("#" ++ id) (fun refs : Referrer α => Endpoint.resolve refs el attr ("#" ++ id)) ↔
      IsSimple id) ∧
    (∀ el attr, RefersTo ("#" ++ id) fun refs : Referrer α => outcome (boxesOf refs attr ("#" ++ id)) el) ∧
    (∀ el, el.get? "href" = some ("#" ++ id) → Reuse.target el = (some id, el.erase "href")) ∧
    (∀ c : Context, c.lookup ("#" ++ id) = match c.recorded? id with
      | some e => .ok e
      | none => .error (.waits c.current ("#" ++ id))) ∧
    (Xml.isName id.toList → (IsSimple id ↔ ∀ c ∈ id.toList, c.toNat < 128)) :=
  ⟨fun _ => Ref.parse_hash_iff h, fun el attr => goal_refersTo_iff h el attr,
    fun el attr => placeEnd_refersTo_iff h el attr, parseSize_refersTo_iff h,
    fun el attr => endpoint_refersTo_iff h attr el, boxesOf_refersTo h, target_hash h,
    fun c => c.lookup_hash h.nonempty, fun hname => isSimple_iff_ascii hname fun hc => (h.bare _ hc).2 (by simp)⟩

/-- A hyphen and a digit are identifier characters. -/
theorem hash_read_alike_hyphen :
    (Ref.parse "#part-1" : Except Fault (Ref Float)) = .ok ⟨some "#part-1", .implied, []⟩ ∧
      RefersTo "#part-1" (fun refs : Referrer Float => outcome (goal refs "xy" "#part-1" .topLeft) default) ∧
      RefersTo "#part-1" (fun refs : Referrer Float => Endpoint.resolve refs none "start" "#part-1") ∧
      RefersTo "#part-1" (fun refs : Referrer Float => outcome (boxesOf refs "surround" "#part-1") default) ∧
      Reuse.target (.ofAttrs "reuse" [("href", "#part-1")]) = (some "part-1", .ofAttrs "reuse" []) := by
  have hname : Xml.isName "part-1".toList := by decide +kernel
  have hid : IsIdentifier "part-1" := .of_isName hname (by decide)
  obtain ⟨hparse, hplace, -, -, hend, hboxes, htarget, -, hascii⟩ := hash_read_alike Float hid
  have hsimple : IsSimple "part-1" := (hascii hname).2 (by simp)
  exact ⟨(hparse _).2 ⟨hsimple, rfl⟩, (hplace _ _ _).2 hsimple, (hend _ _).2 hsimple, hboxes _ _,
    htarget (.ofAttrs "reuse" [("href", "#part-1")]) rfl⟩

/-- A box for every reference. -/
def anySquare : Referrer Float := fun _ => .ok ⟨0, 0, 6, 6⟩

/-- A letter beyond ASCII is read around an element, and not as its place. -/
theorem exists_name_unread :
    Xml.isName "é".toList ∧ ':' ∉ "é".toList ∧
      (Ref.parse "#é" : Except Fault (Ref Float)).toOption.isNone ∧
      (resolve anySquare (.ofAttrs "rect" [("surround", "#é")])).toOption =
        some (.ofAttrs "rect" [("x", "0"), ("y", "0"), ("width", "6"), ("height", "6")]) ∧
      (resolve anySquare (.ofAttrs "rect" [("xy", "#é")])).toOption = none ∧
      (Reuse.target (.ofAttrs "reuse" [("href", "#é")])).1 = some "é" := by
  refine ⟨by decide +kernel, by decide, by decide +kernel, by decide +kernel, by decide +kernel, by decide +kernel⟩

end Consumers

end Position

end DiagramMarkup
