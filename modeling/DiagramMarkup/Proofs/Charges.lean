import DiagramMarkup.Element.Segment
import DiagramMarkup.Proofs.Renderings

/-!
# What the repeat limit bounds

The limit on repeat groups is charged for the command letters of the copies. Work that needs no letter is not charged:
copies of a body without letters, and segments that go on with the command before them.

1. Every other copy is charged at least once (`Groups.turns_le`), and every letter of a copy (`Groups.countP_marks_le`).
2. The tokens of a path fall into pieces, one for each segment (`length_pieces`), and at most as many pieces have a
   letter of a copy as there are such letters (`countP_pieces_le`).
3. So path data is expanded within the limit but for the copies without letters and the segments that have no letter of
   their own (`repeats_within`).
-/

namespace DiagramMarkup.Path

/-- The letter of a command. -/
def Token.letter? {α : Type} : Token α → Option Char
  | .command c => some c
  | .number _ => none

/-- The place of a token: its letter if it is a command, and whether it stands in a copy. -/
structure Mark where
  letter : Option Char
  copied : Bool

namespace Mark

/-- The same token in a copy. -/
def copy (m : Mark) : Mark := { m with copied := true }

/-- The token is a command in a copy. -/
def charged (m : Mark) : Bool := m.letter.isSome && m.copied

end Mark

namespace Groups

variable {α : Type}

/-- The number of copies that are made. -/
def turns : Groups α → Nat
  | .nil => 0
  | .token _ rest => rest.turns
  | .group n body rest => body.turns + n + rest.turns

/-- The number of copies that are made of bodies without commands. -/
def idleTurns : Groups α → Nat
  | .nil => 0
  | .token _ rest => rest.idleTurns
  | .group n body rest => body.idleTurns + (if body.letters = 0 then n else 0) + rest.idleTurns

/-- The tokens of the expansion, with their origin. -/
def marks : Groups α → List Mark
  | .nil => []
  | .token t rest => ⟨t.letter?, false⟩ :: rest.marks
  | .group n body rest => (List.replicate n (body.marks.map Mark.copy)).flatten ++ rest.marks

/-- Copies with commands are charged. -/
theorem turns_le (g : Groups α) : g.turns ≤ g.charge + g.idleTurns := by
  induction g with
  | nil => exact le_rfl
  | token t rest ih => exact ih
  | group n body rest ihbody ih =>
    have hcopies : n ≤ n * body.letters + if body.letters = 0 then n else 0 := by
      split
      · omega
      · exact (Nat.le_mul_of_pos_right n (by omega)).trans (Nat.le_add_right _ _)
    simp only [turns, charge, idleTurns]
    omega

theorem letter_marks (g : Groups α) : g.marks.map Mark.letter = g.expanded.map Token.letter? := by
  induction g with
  | nil => rfl
  | token t rest ih => simp [marks, expanded, ih]
  | group n body rest ihbody ih =>
    have hcopy : (body.marks.map Mark.copy).map Mark.letter = body.expanded.map Token.letter? := by
      rw [List.map_map, ← ihbody]
      rfl
    simp only [marks, expanded, List.map_append, List.map_flatten, List.map_replicate, hcopy, ih]

/-- Commands in copies are charged. -/
theorem countP_marks_le (g : Groups α) : g.marks.countP Mark.charged ≤ g.charge := by
  induction g with
  | nil => exact le_rfl
  | token t rest ih =>
    have hplain : Mark.charged ⟨t.letter?, false⟩ = false := Bool.and_false _
    simpa [marks, charge, hplain] using ih
  | group n body rest ihbody ih =>
    have hletters : (body.marks.map Mark.copy).countP Mark.charged = body.letters := by
      have hmarks : (body.marks.map Mark.copy).countP Mark.charged =
          (body.marks.map Mark.letter).countP Option.isSome := by
        rw [List.countP_map, List.countP_map]
        refine List.countP_congr fun m _ => ?_
        simp [Mark.charged, Mark.copy]
      rw [hmarks, letter_marks, List.countP_map]
      refine List.countP_congr fun t _ => ?_
      cases t <;> rfl
    simp only [marks, charge, List.countP_append, List.countP_flatten, List.map_replicate, List.sum_replicate, hletters,
      smul_eq_mul]
    omega

end Groups

/-! ## Pieces -/

/-- The pieces of tokens that belong to one segment each, when the tokens in hand, last first, belong to a command. -/
def pieces (c : Char) (held : List Mark) : List Mark → List (List Mark)
  | [] => []
  | m :: ms =>
    match m.letter with
    | some k => if k == 'Z' || k == 'z' then [m] :: pieces k [] ms else pieces k [m] ms
    | none =>
      if (m :: held).countP (·.letter.isNone) < arity c then pieces c (m :: held) ms
      else (m :: held).reverse :: pieces (following c) [] ms

/-- There are not more pieces of a kind than tokens that make them so. -/
theorem countP_pieces_le (p : Mark → Bool) (c : Char) (held ms : List Mark) :
    (pieces c held ms).countP (·.any p) ≤ held.countP p + ms.countP p := by
  have hone : ∀ piece : List Mark, (if piece.any p then 1 else 0) ≤ piece.countP p := by
    intro piece
    split
    · next h => exact List.countP_pos_iff.2 (List.any_eq_true.1 h)
    · exact Nat.zero_le _
  fun_induction pieces c held ms with
  | case1 => simp
  | case2 c held m ms k hm hz ih =>
    have hfirst := hone [m]
    rw [List.countP_cons (a := [m]), List.countP_cons]
    simp only [List.countP_cons, List.countP_nil] at hfirst ih
    omega
  | case3 c held m ms k hm hz ih =>
    rw [List.countP_cons]
    simp only [List.countP_cons, List.countP_nil] at ih
    omega
  | case4 c held m ms hm hlt ih =>
    rw [List.countP_cons]
    simp only [List.countP_cons] at ih
    omega
  | case5 c held m ms hm hlt ih =>
    have hfirst := hone (m :: held).reverse
    rw [List.countP_cons (a := (m :: held).reverse), List.countP_cons]
    simp only [List.countP_reverse, List.countP_cons, List.countP_nil] at hfirst ih
    omega

theorem exists_ofArgs? {α : Type} [Scalar α] {c : Char} {args : List α} (h : args.length = arity c)
    (hpos : 0 < arity c) : ∃ s, Segment.ofArgs? c args = some s := by
  generalize hk : arity c = k at h hpos
  unfold arity at hk
  -- One case for each letter, which leaves the length of its numbers.
  split at hk <;> subst hk
  case h_19 => cases hpos
  all_goals
    rcases args with _ | ⟨a, _ | ⟨b, _ | ⟨c, _ | ⟨d, _ | ⟨e, _ | ⟨f, _ | ⟨g, _ | ⟨k, args⟩⟩⟩⟩⟩⟩⟩⟩
    all_goals first | exact ⟨_, rfl⟩ | simp at h

/-- How far a segment has been read, in terms of the tokens in hand. -/
inductive Progress.Fits {α : Type} : Progress α → Char → List Mark → Prop
  | begin (c : Char) : Fits .begin c []
  | complete (c : Char) : Fits (.complete c) c []
  | within (c : Char) (args : List α) (held : List Mark) (hheld : held.countP (·.letter.isNone) = args.length)
    (hlt : args.length < arity c) : Fits (.within c args) c held

/-- One more number completes a segment in hand, or is held with it. -/
theorem exists_feed {α : Type} [Scalar α] {c : Char} {args : List α} {held : List Mark} {m : Mark}
    (hm : m.letter = none) (hheld : held.countP (·.letter.isNone) = args.length) (hlt : args.length < arity c) (v : α) :
    ∃ (next : Progress α) (s : Option (Segment α)) (c' : Char) (held' : List Mark), feed c args v = (next, s) ∧
      next.Fits c' held' ∧ ∀ ms, (pieces c held (m :: ms)).length = s.toList.length + (pieces c' held' ms).length := by
  have hcount : (m :: held).countP (·.letter.isNone) = args.length + 1 := by
    rw [List.countP_cons_of_pos (by simp [hm]), hheld]
  unfold feed
  simp only [List.length_cons]
  by_cases h : args.length + 1 < arity c
  · rw [if_pos h]
    refine ⟨_, _, c, m :: held, rfl, .within _ _ _ (by simpa using hcount) (by simpa using h), fun ms => ?_⟩
    rw [pieces]
    simp only [hm, hcount, if_pos h]
    simp
  · obtain ⟨s, hs⟩ : ∃ s, Segment.ofArgs? c (v :: args).reverse = some s :=
      exists_ofArgs? (by simp; omega) (by omega)
    rw [if_neg h]
    refine ⟨_, _, following c, [], rfl, .complete _, fun ms => ?_⟩
    rw [pieces]
    simp only [hm, hcount, if_neg h, hs]
    simp [add_comm]

theorem arity_pos {c : Char} (h : isCommandChar c) (hgroup : ¬ (c == 'r' || c == '[' || c == ']') = true)
    (hclose : ¬ (c == 'Z' || c == 'z') = true) : 0 < arity c := by
  unfold isCommandChar at h
  have hmem := List.contains_iff_mem.1 h
  fin_cases hmem <;> first | decide | exact absurd rfl hgroup | exact absurd rfl hclose

/-- There is one piece for each segment. -/
theorem length_pieces {α : Type} [Scalar α] {d : String} {p : Progress α} {c : Char} {held : List Mark}
    (hp : p.Fits c held) {ts : List (Token α)} {ms : List Mark} (hms : ms.map Mark.letter = ts.map Token.letter?)
    (hts : ∀ k, .command k ∈ ts → isCommandChar k) {ss : List (Segment α)} (h : segmentsFrom d p ts = .ok ss) :
    (pieces c held ms).length = ss.length := by
  have htail : ∀ {t : Token α} {ts}, (∀ k, .command k ∈ t :: ts → isCommandChar k) → ∀ k, .command k ∈ ts →
      isCommandChar k := fun h k hk => h k (List.mem_cons_of_mem _ hk)
  have hmap : ∀ {f : List (Segment α) → List (Segment α)} {r : Except Fault (List (Segment α))} {ss}, r.map f = .ok ss →
      ∃ us, r = .ok us ∧ f us = ss := by
    rintro f (e | us) ss heq
    · cases heq
    · cases heq
      exact ⟨us, rfl, rfl⟩
  -- A piece is completed where a segment is: by a close, or by the last number of a command.
  fun_induction segmentsFrom d p ts generalizing c held ms ss with
  | case1 | case3 | case4 | case7 | case8 => cases h
  | case2 =>
    obtain rfl : ms = [] := by simpa using hms
    cases h
    rfl
  | case5 p k ts hnot hgroup hclose ih =>
    obtain ⟨m, ms, rfl, hm, hms⟩ := List.map_eq_cons_iff.1 hms
    obtain ⟨us, hus, rfl⟩ := hmap h
    rw [pieces]
    simp only [hm, Token.letter?, if_pos hclose]
    rw [List.length_cons, ih (.complete k) hms (htail hts) hus, List.length_cons]
  | case6 p k ts hnot hgroup hclose ih =>
    obtain ⟨m, ms, rfl, hm, hms⟩ := List.map_eq_cons_iff.1 hms
    rw [pieces]
    simp only [hm, Token.letter?, if_neg hclose]
    refine ih (.within k [] [m] ?_ (arity_pos (hts k List.mem_cons_self) hgroup hclose)) hms (htail hts) h
    simp [hm, Token.letter?]
  | case9 k v ts hzero next s hfeed ih =>
    obtain ⟨m, ms, rfl, hm, hms⟩ := List.map_eq_cons_iff.1 hms
    obtain ⟨us, hus, rfl⟩ := hmap h
    cases hp
    have hlt : 0 < arity k := Nat.pos_of_ne_zero fun h => hzero (beq_iff_eq.2 h)
    have hheld : ([] : List Mark).countP (·.letter.isNone) = ([] : List α).length := rfl
    obtain ⟨next', s', c', held', hfeed', hnext, hpieces⟩ := exists_feed hm hheld hlt v
    cases hfeed.symm.trans hfeed'
    rw [hpieces, ih hnext hms (htail hts) hus, List.length_append]
  | case10 k args v ts next s hfeed ih =>
    obtain ⟨m, ms, rfl, hm, hms⟩ := List.map_eq_cons_iff.1 hms
    obtain ⟨us, hus, rfl⟩ := hmap h
    obtain _ | _ | ⟨_, _, _, hheld, hlt⟩ := hp
    obtain ⟨next', s', c', held', hfeed', hnext, hpieces⟩ := exists_feed hm hheld hlt v
    cases hfeed.symm.trans hfeed'
    rw [hpieces, ih hnext hms (htail hts) hus, List.length_append]

/-! ## The limit -/

theorem map_letter?_of_rendered {ts us : List (Token Float)} (h : List.Forall₂ Token.Rendered ts us) :
    ts.map Token.letter? = us.map Token.letter? := by
  induction h with
  | nil => rfl
  | cons hrendered _ ih =>
    rw [List.map_cons, List.map_cons, ih]
    cases hrendered <;> rfl

/-- Some of the piece stands in a copy. -/
def isCopied (piece : List Mark) : Bool := piece.any Mark.copied

/-- The piece has a letter that stands in a copy. -/
def isCharged (piece : List Mark) : Bool := piece.any Mark.charged

/-- Among the pieces with something of a copy, those without a letter of a copy are not charged. -/
theorem countP_isCopied_le (ps : List (List Mark)) :
    ps.countP isCopied ≤ ps.countP isCharged + ps.countP fun piece => isCopied piece && !isCharged piece := by
  induction ps with
  | nil => exact le_rfl
  | cons piece ps ih =>
    simp only [List.countP_cons]
    cases isCopied piece <;> cases isCharged piece <;> simp <;> omega

/-- When groups are expanded within the limit, then at most as many copies are made, apart from those without commands,
and at most as many segments have something of a copy, apart from those without a letter of a copy. -/
theorem repeats_within {d s : String} {limit : Int} (hlimit : 0 < limit) (hd : Text.hasAny "r[]" d = true)
    (hs : expandRepeats Float d limit = .ok s) :
    ∃ g, Writes d g ∧ s = text g.expanded ∧ (g.turns : Int) ≤ limit + g.idleTurns ∧
      ∀ ss : List (Segment Float), segments s = .ok ss →
        let ps := pieces 'M' [] g.marks
        ps.length = ss.length ∧
          (ps.countP isCopied : Int) ≤ limit + ps.countP fun piece => isCopied piece && !isCharged piece := by
  obtain ⟨g, hg⟩ := exists_writes hd hs
  have hle : (g.charge : Int) ≤ limit := by
    by_contra hlt
    obtain ⟨count, -, hrefused⟩ := expandRepeats_of_lt hd hg hlimit (not_le.1 hlt)
    cases hs.symm.trans hrefused
  obtain rfl : text g.expanded = s := by
    cases (expandRepeats_of_le hd hg hle).symm.trans hs
    rfl
  have hturns := g.turns_le
  refine ⟨g, hg, rfl, by omega, fun ss hss => ⟨?_, ?_⟩⟩
  · obtain ⟨us, hus, hrendered⟩ := exists_tokenize_text fun t ht => (hg.readable t ht).1
    obtain ⟨us', hus', hss⟩ := except_bind_eq_ok hss
    cases hus.symm.trans hus'
    refine length_pieces (.begin 'M') ?_ (fun k hk => readable_of_tokenize hus _ hk) hss
    rw [g.letter_marks, map_letter?_of_rendered hrendered]
  · have hcopied := countP_isCopied_le (pieces 'M' [] g.marks)
    have hcharged : (pieces 'M' [] g.marks).countP isCharged ≤ g.charge :=
      (countP_pieces_le Mark.charged 'M' [] g.marks).trans (by simpa using g.countP_marks_le)
    omega

theorem repeats_within_nestedLines :
    ∃ g, Writes "M1 2r2[r2[h1]v1]" g ∧ "M 1 2 h 1 h 1 v 1 h 1 h 1 v 1" = text g.expanded ∧
      (g.turns : Int) ≤ 8 + g.idleTurns ∧
      ∃ ss : List (Segment Float), segments "M 1 2 h 1 h 1 v 1 h 1 h 1 v 1" = .ok ss ∧
        (pieces 'M' [] g.marks).length = ss.length ∧ ((pieces 'M' [] g.marks).countP isCopied : Int) ≤
          8 + (pieces 'M' [] g.marks).countP fun piece => isCopied piece && !isCharged piece := by
  have hexpanded : expandRepeats Float "M1 2r2[r2[h1]v1]" 8 = .ok (text nestedLines.expanded) :=
    expandRepeats_of_le rfl writes_nestedLines (by decide)
  have htext : text nestedLines.expanded = "M 1 2 h 1 h 1 v 1 h 1 h 1 v 1" := by decide +kernel
  rw [htext] at hexpanded
  obtain ⟨g, hg, heq, hturns, hsegments⟩ := repeats_within (by decide) rfl hexpanded
  obtain ⟨ss, hss⟩ : ∃ ss : List (Segment Float), segments "M 1 2 h 1 h 1 v 1 h 1 h 1 v 1" = .ok ss := ⟨_, rfl⟩
  exact ⟨g, hg, heq, hturns, ss, hss, hsegments ss hss⟩

/-- A line, and five copies of the numbers of two lines more. -/
def bareLines : Groups Float :=
  let zero : Token Float := .number (Float.ofBits 0)
  let one : Token Float := .number (Float.ofBits 0x3FF0000000000000)
  let two : Token Float := .number (Float.ofBits 0x4000000000000000)
  let three : Token Float := .number (Float.ofBits 0x4008000000000000)
  .token (.command 'M') <| .token zero <| .token zero <| .token (.command 'L') <| .token one <| .token one <|
    .group 5 (.token two <| .token two <| .token three <| .token three .nil) .nil

theorem writes_bareLines : Writes "M 0 0 L 1 1 r 5 [ 2 2 3 3 ]" bareLines := by
  have hfive : Counts (Float.ofBits 0x4014000000000000) 5 :=
    ⟨⟨⟨false, 5 * 2 ^ 50, -50⟩, by decide +kernel, by norm_num [Number.Exact.value]⟩, by norm_num⟩
  have hwritten : Written bareLines _ := .command (by decide) <| .number <| .number <| .command (by decide) <|
    .number <| .number <| .group hfive (.number <| .number <| .number <| .number .nil) .nil
  exact ⟨_, rfl, hwritten⟩

/-- Five copies are made under a limit of one, and ten segments are copied: none of them has a letter. -/
theorem exceeds_repeat_limit :
    ∃ (s : String) (ss : List (Segment Float)), expandRepeats Float "M 0 0 L 1 1 r 5 [ 2 2 3 3 ]" 1 = .ok s ∧
      Writes "M 0 0 L 1 1 r 5 [ 2 2 3 3 ]" bareLines ∧ s = text bareLines.expanded ∧ bareLines.turns = 5 ∧
      segments s = .ok ss ∧ (pieces 'M' [] bareLines.marks).length = ss.length ∧
      (pieces 'M' [] bareLines.marks).countP isCopied = 10 := by
  have hcharge : bareLines.charge = 0 := rfl
  have hexpanded : expandRepeats Float "M 0 0 L 1 1 r 5 [ 2 2 3 3 ]" 1 = .ok (text bareLines.expanded) :=
    expandRepeats_of_le rfl writes_bareLines (by rw [hcharge]; decide)
  have htext : text bareLines.expanded = "M 0 0 L 1 1 2 2 3 3 2 2 3 3 2 2 3 3 2 2 3 3 2 2 3 3" := by decide +kernel
  obtain ⟨ss, hss, hlength⟩ : ∃ ss : List (Segment Float),
      segments "M 0 0 L 1 1 2 2 3 3 2 2 3 3 2 2 3 3 2 2 3 3 2 2 3 3" = .ok ss ∧ 12 = ss.length := ⟨_, rfl, rfl⟩
  exact ⟨_, ss, hexpanded, writes_bareLines, rfl, rfl, htext ▸ hss, hlength ▸ rfl, by decide +kernel⟩

end DiagramMarkup.Path
