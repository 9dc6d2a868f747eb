import DiagramMarkup.Proofs.Sessions
import DiagramMarkup.Proofs.Wholes

/-!
# Usable options

Options are usable if the measures in them are those of a drawing and the limits leave room for something. What is
checked is that no measure is below its bound, and NaN is not below anything.

1. Apart from NaN, one double is below another exactly if the other is not below or equal to it
   (`Number.lt_iff_not_le`). So checked options are usable if no measure is NaN (`Options.usable_iff`).
2. A text is read as NaN only if it says so (`Number.read_eq_nan_iff`). So usable options stay usable unless such a text
   is given for a measure (`Options.Usable.set`), and then they never do (`Options.set_nan`).
3. Options in a session are changed by what sets one of them, and only if it succeeds (`Session.options_perform`).
-/

namespace DiagramMarkup

open Compile

namespace Number

open Float.Model UnpackedFloat

variable {x y : Float}

/-! ## Comparisons with NaN -/

theorem compare_nan (u : UnpackedFloat) : u.compare nan.toModel.unpack = none := by
  have hnan : nan.toModel.unpack = .notANumber := rfl
  rw [hnan]
  cases u <;> rfl

theorem lt_def : x < y ↔ x.toModel.unpack.compare y.toModel.unpack = some .lt :=
  decide_eq_true_iff.trans beq_iff_eq

theorem le_def : x ≤ y ↔ (x.toModel.unpack.compare y.toModel.unpack).any (·.isLE) = true := decide_eq_true_iff

/-- Apart from NaN, doubles can be compared. -/
theorem lt_iff_not_le (hx : x ≠ nan) (hy : y ≠ nan) : x < y ↔ ¬ y ≤ x := by
  by_cases h : body x ≠ 0 ∨ body y ≠ 0
  · have hle : y ≤ x ↔ place y ≤ place x := by
      rw [le_def, compare_unpack hy hx h.symm, ← compare_le_iff_le]
      cases compare (place y) (place x) <;> decide
    rw [lt_iff hx hy h, hle, not_le]
  · have hzeros : x.toModel.unpack.compare y.toModel.unpack = some .eq ∧
        y.toModel.unpack.compare x.toModel.unpack = some .eq := by
      rw [unpack_zero (by omega), unpack_zero (by omega)]
      exact ⟨rfl, rfl⟩
    rw [lt_def, le_def, hzeros.1, hzeros.2]
    decide

theorem pos_iff : 0 < x ↔ ¬ x ≤ 0 ∧ x ≠ nan := by
  by_cases hx : x = nan
  · rw [hx, lt_def, compare_nan]
    simp
  · rw [lt_iff_not_le (by decide) hx, and_iff_left hx]

theorem nonneg_iff : 0 ≤ x ↔ ¬ x < 0 ∧ x ≠ nan := by
  by_cases hx : x = nan
  · rw [hx, le_def, compare_nan]
    simp
  · rw [lt_iff_not_le hx (by decide), not_not, and_iff_left hx]

/-! ## Texts that are read as NaN -/

theorem ne_nan_of_ofRatio? {neg : Bool} {num den : Nat} (h : ofRatio? neg num den = some x) : x ≠ nan := by
  unfold ofRatio? at h
  simp only at h
  split at h
  · next hlt =>
    cases h
    have hinf : infinityBits = 2047 * 2 ^ 52 := rfl
    have hbits : (Float.ofBits (UInt64.ofNat (ratioBits num den + if neg then Nat.pow 2 63 else 0))).toBits.toNat =
        ratioBits num den + if neg then Nat.pow 2 63 else 0 := by
      refine toBits_ofBits ?_ ?_ <;> simp only [Nat.pow_eq] <;> split <;> omega
    intro hnan
    have hnanBits : nan.toBits.toNat = 2047 * 2 ^ 52 + 2 ^ 51 := by decide
    rw [hnan, hnanBits] at hbits
    simp only [Nat.pow_eq] at hbits
    split at hbits <;> omega
  · cases h

theorem ne_nan_of_scale {neg : Bool} {n base : Nat} {e : Int} (h : scale neg n base e = .ok x) : x ≠ nan := by
  unfold scale at h
  split at h
  · next y hy =>
    cases h
    exact ne_nan_of_ofRatio? hy
  · cases h

theorem ne_nan_of_readDecimal {neg : Bool} {cs : List Char} (h : readDecimal neg cs = .ok x) : x ≠ nan := by
  unfold readDecimal at h
  simp only at h
  split at h
  · cases h
  · split at h
    · cases h
    · split at h
      · cases h
      · split at h
        · exact ne_nan_of_scale h
        · split at h
          · cases h
          · exact ne_nan_of_scale h

theorem ne_nan_of_readHex {neg : Bool} {all cs : List Char} (h : readHex neg all cs = .ok x) : x ≠ nan := by
  unfold readHex at h
  simp only at h
  split at h
  · cases h
  · split at h
    · split at h
      · cases h
      · split at h
        · cases h
        · split at h
          · cases h
          · split at h
            · exact ne_nan_of_scale h
            · split at h
              · cases h
              · exact ne_nan_of_scale h
    · cases h

theorem ne_nan_of_readUnsigned {neg : Bool} {cs : List Char} (h : readUnsigned neg cs = .ok x) : x ≠ nan := by
  unfold readUnsigned at h
  split at h
  · split at h
    · exact ne_nan_of_readHex h
    · exact ne_nan_of_readDecimal h
  · exact ne_nan_of_readDecimal h

/-- Only the word is read as NaN. -/
theorem read_eq_nan_iff {s : String} : read s = .ok nan ↔ s.toList.map lowerAscii = "nan".toList := by
  unfold read readChars
  simp only
  split
  · next h => simpa using h
  · next h =>
    refine iff_of_false (fun hread => ?_) (by simpa using h)
    split at hread
    all_goals
      split at hread
      · have hinf : ∀ neg, infinity neg ≠ nan := by decide
        exact hinf _ (Except.ok.inj hread)
      · exact ne_nan_of_readUnsigned hread rfl

end Number

namespace Options

variable {o p : Options} {name text value : String}

/-! ## Checked options -/

/-- The measures are those of a drawing, and the limits leave room for something. -/
structure Usable (o : Options) : Prop where
  scale : 0 < o.scale
  border : 0 ≤ o.border
  fontSize : 0 < o.fontSize
  loopLimit : 1 ≤ o.loopLimit
  varLimit : 1 ≤ o.varLimit
  depthLimit : 1 ≤ o.depthLimit
  pathRepeatLimit : 1 ≤ o.pathRepeatLimit

theorem Usable.validate (h : o.Usable) : o.validate = .ok () :=
  validate_eq_ok_iff.2 ⟨(Number.pos_iff.1 h.scale).1, (Number.nonneg_iff.1 h.border).1,
    ⟨h.loopLimit, h.varLimit, h.depthLimit, h.pathRepeatLimit⟩, (Number.pos_iff.1 h.fontSize).1⟩

/-- Checked options are usable as far as no measure is NaN. -/
theorem usable_iff (h : o.validate = .ok ()) :
    o.Usable ↔ o.scale ≠ Number.nan ∧ o.border ≠ Number.nan ∧ o.fontSize ≠ Number.nan := by
  obtain ⟨hscale, hborder, ⟨hloop, hvar, hdepth, hpath⟩, hfont⟩ := validate_eq_ok_iff.1 h
  constructor
  · intro hu
    exact ⟨(Number.pos_iff.1 hu.scale).2, (Number.nonneg_iff.1 hu.border).2, (Number.pos_iff.1 hu.fontSize).2⟩
  · rintro ⟨hs, hb, hf⟩
    exact ⟨Number.pos_iff.2 ⟨hscale, hs⟩, Number.nonneg_iff.2 ⟨hborder, hb⟩, Number.pos_iff.2 ⟨hfont, hf⟩,
      hloop, hvar, hdepth, hpath⟩

/-! ## Setting one option -/

/-- A measure changes only by its name, and then it is what the text is read as. -/
theorem measures_of_assign (h : o.assign name text = .ok p) :
    (p.scale = o.scale ∨ name = "scale" ∧ Number.read text = .ok p.scale) ∧
      (p.border = o.border ∨ name = "border" ∧ Number.read text = .ok p.border) ∧
      (p.fontSize = o.fontSize ∨ name = "font-size" ∧ Number.read text = .ok p.fontSize) := by
  unfold assign at h
  simp only at h
  split at h
  case h_2 =>
    obtain ⟨x, hx, h⟩ := except_bind_eq_ok h
    cases h
    exact ⟨.inr ⟨rfl, readValue_eq_ok hx⟩, .inl rfl, .inl rfl⟩
  case h_3 =>
    obtain ⟨x, hx, h⟩ := except_bind_eq_ok h
    cases h
    exact ⟨.inl rfl, .inr ⟨rfl, readValue_eq_ok hx⟩, .inl rfl⟩
  case h_13 =>
    obtain ⟨x, hx, h⟩ := except_bind_eq_ok h
    cases h
    exact ⟨.inl rfl, .inl rfl, .inr ⟨rfl, readValue_eq_ok hx⟩⟩
  case h_7 | h_14 | h_16 =>
    cases h
    exact ⟨.inl rfl, .inl rfl, .inl rfl⟩
  case h_17 => cases h
  all_goals
    obtain ⟨x, -, hx⟩ := except_bind_eq_ok h
    cases hx
    exact ⟨.inl rfl, .inl rfl, .inl rfl⟩

/-- The options that are measures. -/
def measures : List String := ["scale", "border", "font-size"]

/-- A text that is read as NaN is given for a measure. -/
def SetsNaN (name value : String) : Prop :=
  name ∈ measures ∧ (Text.trim value).toList.map Number.lowerAscii = "nan".toList

/-- Usable options stay usable as long as no measure is given as NaN. -/
theorem Usable.set (ho : o.Usable) (h : o.set name value = .ok p) (hb : ¬ SetsNaN name value) : p.Usable := by
  obtain ⟨hassign, hvalid⟩ := set_eq_ok_iff.1 h
  have keeps : ∀ {x y : Float} {measure : String}, measure ∈ measures →
      x = y ∨ name = measure ∧ Number.read (Text.trim value) = .ok x → y ≠ Number.nan → x ≠ Number.nan := by
    rintro x y measure hm (rfl | ⟨rfl, hread⟩) hy rfl
    · exact hy rfl
    · exact hb ⟨hm, Number.read_eq_nan_iff.1 hread⟩
  obtain ⟨hscale, hborder, hfont⟩ := (usable_iff ho.validate).1 ho
  obtain ⟨hscale', hborder', hfont'⟩ := measures_of_assign hassign
  exact (usable_iff hvalid).2
    ⟨keeps (by decide) hscale' hscale, keeps (by decide) hborder' hborder, keeps (by decide) hfont' hfont⟩

/-- A measure that is given as NaN passes the check. -/
theorem set_nan (ho : o.validate = .ok ()) (hb : SetsNaN name value) :
    ∃ p, o.set name value = .ok p ∧ ¬ p.Usable := by
  obtain ⟨hname, htext⟩ := hb
  have hread := Number.read_eq_nan_iff.2 htext
  obtain ⟨hscale, hborder, hlimits, hfont⟩ := validate_eq_ok_iff.1 ho
  have hle : ¬ Number.nan ≤ 0 := by decide
  have hlt : ¬ Number.nan < 0 := by decide
  simp only [measures, List.mem_cons, List.not_mem_nil, or_false] at hname
  rcases hname with rfl | rfl | rfl
  · refine ⟨{ o with scale := Number.nan }, set_eq_ok_iff.2 ⟨?_, ?_⟩, fun h => (Number.pos_iff.1 h.scale).2 rfl⟩
    · simp [assign, readValue, hread, Except.mapError]
    · exact validate_eq_ok_iff.2 ⟨hle, hborder, hlimits, hfont⟩
  · refine ⟨{ o with border := Number.nan }, set_eq_ok_iff.2 ⟨?_, ?_⟩, fun h => (Number.nonneg_iff.1 h.border).2 rfl⟩
    · simp [assign, readValue, hread, Except.mapError]
    · exact validate_eq_ok_iff.2 ⟨hscale, hlt, hlimits, hfont⟩
  · refine ⟨{ o with fontSize := Number.nan }, set_eq_ok_iff.2 ⟨?_, ?_⟩, fun h => (Number.pos_iff.1 h.fontSize).2 rfl⟩
    · simp [assign, readValue, hread, Except.mapError]
    · exact validate_eq_ok_iff.2 ⟨hscale, hborder, hlimits, hle⟩

end Options

/-! ## Options in a session -/

namespace Operation

/-- The operation gives a measure as NaN. -/
def SetsNaN : Operation → Prop
  | .setOption _ name value => Options.SetsNaN name value
  | _ => False

end Operation

namespace Session

variable {o : Options} {s : Session}

theorem options_step {f : Context → Except Failure Context} (hf : ∀ c d, f c = .ok d → d.options = c.options)
    (s : Session) (r : Memory × Handle) : (s.step f r).2.context.options = s.context.options :=
  step_induction (P := fun t => t.context.options = s.context.options) rfl fun d hd => hf _ d hd

/-- What sets an option succeeds if the option can be set, and otherwise leaves the options as they were. -/
theorem perform_setOption (s : Session) (el : Element) (name value : String) :
    match s.context.options.set name value with
    | .ok p => (s.perform (.setOption el name value)).1 = .ok () ∧
        (s.perform (.setOption el name value)).2.context.options = p
    | .error _ => (s.perform (.setOption el name value)).2.context.options = s.context.options := by
  unfold perform
  simp only [step, Context.setOption, checked]
  cases s.context.options.set name value with
  | ok p => exact ⟨rfl, rfl⟩
  | error e => rfl

/-- Options are changed only by what sets one of them, and only if it succeeds. -/
theorem options_perform (s : Session) (op : Operation) :
    (s.perform op).2.context.options = s.context.options ∨
      ∃ el name value, op = .setOption el name value ∧
        s.context.options.set name value = .ok (s.perform op).2.context.options := by
  cases op with
  | push visit vars =>
    exact .inl (options_step (fun c d h => by cases Context.pushFrame_eq_ok h; rfl) s _)
  | setVar name value => exact .inl (options_step (fun c d h => by cases Context.setVar_eq_ok h; rfl) s _)
  | setGlobal name value =>
    refine .inl (options_step (fun c d h => ?_) s _)
    obtain ⟨-, -, h⟩ := except_bind_eq_ok h
    cases h
    rfl
  | enter el => exact .inl (options_step (fun c d h => by cases Context.enter_eq_ok h; rfl) s _)
  | pop | leave | snapshot | keep => exact .inl rfl
  | copy i =>
    unfold perform
    dsimp only
    split <;> exact .inl rfl
  | restore i =>
    refine .inl ?_
    show (s.restore i).context.options = _
    unfold restore
    split <;> rfl
  | setOption el name value =>
    have hset := s.perform_setOption el name value
    cases h : s.context.options.set name value with
    | ok p =>
      rw [h] at hset
      rw [hset.2]
      exact .inr ⟨el, name, value, rfl, h⟩
    | error e =>
      rw [h] at hset
      exact .inl hset

theorem validate_perform (h : s.context.options.validate = .ok ()) (op : Operation) :
    (s.perform op).2.context.options.validate = .ok () := by
  rcases options_perform s op with heq | ⟨el, name, value, -, hset⟩
  · rw [heq]
    exact h
  · exact (Options.set_eq_ok_iff.1 hset).2

/-- A measure that is given as NaN is accepted, and the options are not usable with it. -/
theorem perform_nan (h : s.context.options.validate = .ok ()) {op : Operation} (hop : op.SetsNaN) :
    (s.perform op).1 = .ok () ∧ ¬ (s.perform op).2.context.options.Usable := by
  cases op with
  | setOption el name value =>
    obtain ⟨p, hp, hnot⟩ := Options.set_nan h hop
    have hset := s.perform_setOption el name value
    rw [hp] at hset
    exact ⟨hset.1, hset.2 ▸ hnot⟩
  | _ => exact hop.elim

theorem usable_perform (h : s.context.options.Usable) {op : Operation} (hop : ¬ op.SetsNaN) :
    (s.perform op).2.context.options.Usable := by
  rcases options_perform s op with heq | ⟨el, name, value, rfl, hset⟩
  · rw [heq]
    exact h
  · exact h.set hset hop

theorem validate_run (h : s.context.options.validate = .ok ()) (ops : List Operation) :
    (s.run ops).context.options.validate = .ok () :=
  run_induction (P := fun t => t.context.options.validate = .ok ()) h fun op _ _ ht => validate_perform ht op

theorem usable_run {ops : List Operation} (h : s.context.options.Usable) (hops : ∀ op ∈ ops, ¬ op.SetsNaN) :
    (s.run ops).context.options.Usable :=
  run_induction (P := fun t => t.context.options.Usable) h fun op hop _ ht => usable_perform ht (hops op hop)

/-- Checked options stay checked whatever is done: all limits leave room for something, and each measure is as it should
be unless it is NaN. What fails changes nothing. Options stay usable as long as no measure is given as NaN, which is
always accepted. -/
theorem options_run (ho : o.validate = .ok ()) (chance : Chance) (room : Nat → Nat) (ops : List Operation) :
    let s := (Session.new o chance room).run ops
    let p := s.context.options
    (1 ≤ p.loopLimit ∧ 1 ≤ p.varLimit ∧ 1 ≤ p.depthLimit ∧ 1 ≤ p.pathRepeatLimit) ∧
      (0 < p.scale ↔ p.scale ≠ Number.nan) ∧ (0 ≤ p.border ↔ p.border ≠ Number.nan) ∧
      (0 < p.fontSize ↔ p.fontSize ≠ Number.nan) ∧
      (o.Usable → (∀ op ∈ ops, ¬ op.SetsNaN) → p.Usable) ∧
      ∀ op, (∀ e t, s.perform op = (.error e, t) → t = s) ∧
        (p.Usable → ¬ op.SetsNaN → (s.perform op).2.context.options.Usable) ∧
        (op.SetsNaN → (s.perform op).1 = .ok () ∧ ¬ (s.perform op).2.context.options.Usable) := by
  intro s p
  have hp : p.validate = .ok () := validate_run (s := .new o chance room) ho ops
  obtain ⟨hscale, hborder, hlimits, hfont⟩ := Options.validate_eq_ok_iff.1 hp
  refine ⟨hlimits, ?_, ?_, ?_, fun hu hops => usable_run (s := .new o chance room) hu hops, fun op => ⟨?_, ?_, ?_⟩⟩
  · exact Number.pos_iff.trans (and_iff_right hscale)
  · exact Number.nonneg_iff.trans (and_iff_right hborder)
  · exact Number.pos_iff.trans (and_iff_right hfont)
  · exact fun e t h => perform_eq_error h
  · exact fun hu hop => usable_perform hu hop
  · exact fun hop => perform_nan hp hop

/-- The default options are usable, and so are those that are left when a scale is set and another one refused. -/
theorem options_run_scaled :
    let ops : List Operation :=
      [.setOption { name := "config" } "scale" " 2 ", .setOption { name := "config" } "scale" "-0",
        .setOption { name := "config" } "font-size" "Inf"]
    let p := ((Session.new {} {} id).run ops).context.options
    ({} : Options).validate = .ok () ∧ ({} : Options).Usable ∧ (∀ op ∈ ops, ¬ op.SetsNaN) ∧ p.scale = 2 ∧ p.Usable := by
  intro ops p
  have ho : ({} : Options).validate = .ok () := rfl
  have hu : ({} : Options).Usable := by constructor <;> decide
  have hops : ∀ op ∈ ops, ¬ op.SetsNaN := by simp [ops, Operation.SetsNaN, Options.SetsNaN]; decide
  obtain ⟨-, -, -, -, hkeeps, -⟩ := options_run ho {} id ops
  exact ⟨ho, hu, hops, by decide +kernel, hkeeps hu hops⟩

/-- A scale that is not a number passes the check, and it is not above zero. -/
theorem options_perform_nan :
    ({} : Options).validate = .ok () ∧ ∃ d, (Context.new {}).setOption "scale" "nan" = .ok d ∧ ¬ 0 < d.options.scale :=
  ⟨rfl, { Context.new {} with options := { scale := Number.nan } }, rfl, by decide⟩

end Session

end DiagramMarkup
