import DiagramMarkup.Element.Path
import DiagramMarkup.Proofs.Steps
import DiagramMarkup.Proofs.Wholes

/-!
# Repeat groups

Path data with groups is a tree, written as tokens with brackets.

1. The tree says what stands in place of the groups (`Groups.expanded`) and what they cost (`Groups.charge`): each
   group, for each of its copies, the command letters of its body.
2. Tokens that write a tree are expanded to what stands in its place, if the limit allows the cost
   (`expandTokens_of_le`), and refused otherwise (`expandTokens_of_lt`). Both are by induction on the tree, with
   anything behind it.
3. Only tokens that write a tree are expanded (`exists_written`): whatever is open when they are read is closed
   (`Closes`).
-/

namespace DiagramMarkup.Path

/-! ## Trees -/

/-- Tokens and groups, one after the other. -/
inductive Groups (α : Type) where
  | nil
  | token (t : Token α) (rest : Groups α)
  | group (n : Nat) (body rest : Groups α)

namespace Groups

variable {α : Type}

/-- What stands in place of the groups: as many copies of the body as the count says. -/
def expanded : Groups α → List (Token α)
  | .nil => []
  | .token t rest => t :: rest.expanded
  | .group n body rest => (List.replicate n body.expanded).flatten ++ rest.expanded

/-- The number of command letters. -/
def letters (g : Groups α) : Nat := g.expanded.countP Token.isCommand

/-- The cost of the groups: each is charged the letters of all its copies. -/
def charge : Groups α → Nat
  | .nil => 0
  | .token _ rest => rest.charge
  | .group n body rest => body.charge + n * body.letters + rest.charge

theorem charge_group (n : Nat) (body rest : Groups α) :
    ((Groups.group n body rest).charge : Int) = body.charge + n * body.letters + rest.charge := by
  simp [charge]

end Groups

/-- The token is no part of the brackets around a group. -/
def Token.Plain {α : Type} : Token α → Prop
  | .command c => c ≠ 'r' ∧ c ≠ '[' ∧ c ≠ ']'
  | .number _ => True

/-- The number is a whole number that is not negative and less than `2 ^ 63`. -/
def Counts (v : Float) (n : Nat) : Prop := Number.Denotes v n ∧ n < 2 ^ 63

/-- The tokens write the tree, a group as `r N [ … ]`. -/
inductive Written : Groups Float → List (Token Float) → Prop
  | nil : Written .nil []
  | token {t : Token Float} {rest : Groups Float} {ts : List (Token Float)} (ht : t.Plain) (hrest : Written rest ts) :
    Written (.token t rest) (t :: ts)
  | group {v : Float} {n : Nat} {body rest : Groups Float} {us ts : List (Token Float)} (hn : Counts v n)
    (hbody : Written body us) (hrest : Written rest ts) :
    Written (.group n body rest) (.command 'r' :: .number v :: .command '[' :: (us ++ .command ']' :: ts))

theorem Written.number {v : Float} {rest : Groups Float} {ts : List (Token Float)} (hrest : Written rest ts) :
    Written (.token (.number v) rest) (.number v :: ts) := .token trivial hrest

theorem Written.command {c : Char} {rest : Groups Float} {ts : List (Token Float)}
    (hc : c ≠ 'r' ∧ c ≠ '[' ∧ c ≠ ']') (hrest : Written rest ts) :
    Written (.token (.command c) rest) (.command c :: ts) := .token hc hrest

theorem repeatCount_eq_ok_iff {v : Float} {n : Nat} : repeatCount v = .ok n ↔ Counts v n := by
  have hdef : repeatCount v = if Number.toInt v < 0 || Number.ofInt (Number.toInt v) != v then
    .error (.repeatCount (Number.generalText v)) else .ok (Number.toInt v).toNat := rfl
  unfold Counts
  rw [← Number.toInt_eq_and_beq_iff, hdef]
  constructor
  · intro h
    split at h
    · cases h
    · next hcheck =>
      simp only [bne, Bool.or_eq_true, decide_eq_true_eq, Bool.not_eq_true', not_or, Int.not_lt,
        Bool.not_eq_false] at hcheck
      cases h
      rw [Int.toNat_of_nonneg hcheck.1]
      exact ⟨rfl, hcheck.2⟩
  · rintro ⟨hn, heq⟩
    have hnot : ¬ (n : Int) < 0 := by omega
    rw [hn]
    simp [bne, heq, hnot]

/-! ## Expansion -/

theorem copies_reverse (n : Nat) (body : List (Token Float)) :
    copies n body.reverse = (List.replicate n body).flatten.reverse := by
  unfold copies
  rw [List.reverse_flatten, List.map_replicate, List.reverse_replicate]
  split
  · next hnil =>
    rw [List.isEmpty_iff.1 hnil]
    simp
  · rfl

section Expansion

variable {d : String} {limit used : Int} {g : Groups Float} {ts : List (Token Float)}

/-- Copies that the limit allows are charged. -/
theorem charge_of_le {n commands : Nat} (h : used + n * commands ≤ limit) :
    charge limit used commands n = .ok (used + n * commands) := by
  unfold charge
  dsimp only
  rw [if_neg]
  simp only [Bool.and_eq_true, decide_eq_true_eq, not_and, Int.not_lt]
  exact fun _ => h

/-- The first copy beyond the limit is refused, with the charge up to it. -/
theorem charge_of_lt {n commands : Nat} (hpos : 0 < limit) (hused : used ≤ limit) (h : limit < used + n * commands) :
    ∃ count, limit < count ∧ charge limit used commands n = .error (.repeatLimit count limit) := by
  have hcommands : 0 < (commands : Int) := by
    rcases Nat.eq_zero_or_pos commands with rfl | hpos
    · omega
    · exact_mod_cast hpos
  refine ⟨used + ((limit - used) / commands + 1) * commands, ?_, ?_⟩
  · have := Int.lt_ediv_add_one_mul_self (limit - used) hcommands
    omega
  · unfold charge
    dsimp only
    rw [if_pos]
    simp [hpos, h]

/-- A group is read, then what stands behind its bracket. -/
theorem expandTokens_group {v : Float} {n : Nat} (hn : Counts v n) (ts : List (Token Float))
    (stack : List (OpenGroup Float)) (out : List (Token Float)) :
    expandTokens d limit (.command 'r' :: .number v :: .command '[' :: ts) stack used out =
      expandTokens d limit ts (⟨n, out⟩ :: stack) used [] := by
  rw [expandTokens.eq_def]
  simp [repeatCount_eq_ok_iff.2 hn]

theorem expandTokens_plain {t : Token Float} (ht : t.Plain) (ts : List (Token Float))
    (stack : List (OpenGroup Float)) (out : List (Token Float)) :
    expandTokens d limit (t :: ts) stack used out = expandTokens d limit ts stack used (t :: out) := by
  cases t with
  | number v => rw [expandTokens.eq_def]
  | command c =>
    obtain ⟨hr, hopen, hclose⟩ := ht
    rw [expandTokens.eq_def]
    simp [hr, hopen, hclose]

/-- At the end of a group its copies are charged and written. -/
theorem expandTokens_close (g : OpenGroup Float) (ts : List (Token Float)) (stack : List (OpenGroup Float))
    (body : List (Token Float)) :
    expandTokens d limit (.command ']' :: ts) (g :: stack) used body.reverse =
      (charge limit used (body.countP Token.isCommand : Nat) g.count).bind fun used =>
        expandTokens d limit ts stack used ((List.replicate g.count body).flatten.reverse ++ g.before) := by
  rw [expandTokens.eq_def]
  simp only [beq_self_eq_true, if_true, List.countP_reverse, copies_reverse]
  cases charge limit used (body.countP Token.isCommand : Nat) g.count <;> rfl

/-- A tree within the limit is expanded, then what stands behind it. -/
theorem expandTokens_of_le (h : Written g ts) (rest : List (Token Float)) (stack : List (OpenGroup Float))
    (out : List (Token Float)) (hle : used + g.charge ≤ limit) :
    expandTokens d limit (ts ++ rest) stack used out =
      expandTokens d limit rest stack (used + g.charge) (g.expanded.reverse ++ out) := by
  induction h generalizing rest stack used out with
  | nil => simp [Groups.charge, Groups.expanded]
  | @token t rest' ts ht _ ih =>
    rw [List.cons_append, expandTokens_plain ht, ih _ _ _ hle]
    simp [Groups.charge, Groups.expanded]
  | @group v n body rest' us ts hn _ _ ihbody ih =>
    rw [Groups.charge_group] at hle ⊢
    have hcopies : (0 : Int) ≤ n * body.letters := by positivity
    have hclose : Path.charge limit (used + body.charge) body.letters n =
        .ok (used + body.charge + n * body.letters) := charge_of_le (by omega)
    rw [List.cons_append, List.cons_append, List.cons_append, expandTokens_group hn, List.append_assoc,
      ihbody _ _ _ (by omega), List.append_nil, List.cons_append, expandTokens_close]
    show (charge _ _ (body.letters : Nat) n).bind _ = _
    rw [hclose]
    show expandTokens d limit (ts ++ rest) stack _ _ = _
    rw [ih _ _ _ (by omega)]
    simp [Groups.expanded, add_assoc]

/-- A tree beyond the limit is refused. -/
theorem expandTokens_of_lt (h : Written g ts) (rest : List (Token Float)) (stack : List (OpenGroup Float))
    (out : List (Token Float)) (hpos : 0 < limit) (hused : used ≤ limit) (hlt : limit < used + g.charge) :
    ∃ count, limit < count ∧ expandTokens d limit (ts ++ rest) stack used out = .error (.repeatLimit count limit) := by
  induction h generalizing rest stack used out with
  | nil => simp [Groups.charge] at hlt; omega
  | @token t rest' ts ht _ ih =>
    rw [List.cons_append, expandTokens_plain ht]
    exact ih _ _ _ hused hlt
  | @group v n body rest' us ts hn hbody _ ihbody ih =>
    rw [Groups.charge_group] at hlt
    rw [List.cons_append, List.cons_append, List.cons_append, expandTokens_group hn, List.append_assoc]
    rcases lt_or_ge limit (used + body.charge) with hover | hwithin
    · exact ihbody _ _ _ hused hover
    rw [expandTokens_of_le hbody _ _ _ hwithin, List.append_nil, List.cons_append, expandTokens_close]
    show ∃ count, _ ∧ (charge _ _ (body.letters : Nat) n).bind _ = _
    rcases lt_or_ge limit (used + body.charge + n * body.letters) with hover | hcopies
    · obtain ⟨count, hcount, hrefused⟩ := charge_of_lt hpos hwithin hover
      exact ⟨count, hcount, by rw [hrefused]; rfl⟩
    · rw [charge_of_le hcopies]
      exact ih _ _ _ hcopies (by omega)

/-! ## What is expanded -/

/-- The tokens close so many groups that are open, and what stands between the brackets writes trees. -/
def Closes : Nat → List (Token Float) → Prop
  | 0, ts => ∃ g, Written g ts
  | k + 1, ts => ∃ g us rest, Written g us ∧ ts = us ++ .command ']' :: rest ∧ Closes k rest

theorem Closes.token {k : Nat} {t : Token Float} (ht : t.Plain) (h : Closes k ts) : Closes k (t :: ts) := by
  cases k with
  | zero =>
    obtain ⟨g, hg⟩ := h
    exact ⟨_, .token ht hg⟩
  | succ k =>
    obtain ⟨g, us, rest, hg, rfl, hrest⟩ := h
    exact ⟨_, t :: us, rest, .token ht hg, rfl, hrest⟩

theorem Closes.close {k : Nat} (h : Closes k ts) : Closes (k + 1) (.command ']' :: ts) :=
  ⟨_, [], ts, .nil, rfl, h⟩

theorem Closes.group {k n : Nat} {v : Float} (hn : Counts v n) (h : Closes (k + 1) ts) :
    Closes k (.command 'r' :: .number v :: .command '[' :: ts) := by
  obtain ⟨body, us, rest, hbody, rfl, hrest⟩ := h
  cases k with
  | zero =>
    obtain ⟨g, hg⟩ := hrest
    exact ⟨_, .group hn hbody hg⟩
  | succ k =>
    obtain ⟨g, vs, rest, hg, rfl, hrest⟩ := hrest
    exact ⟨_, _, rest, .group hn hbody hg, by simp, hrest⟩

/-- Tokens that are expanded close the groups that are open. -/
theorem closes_of_expandTokens {stack : List (OpenGroup Float)} {out result : List (Token Float)}
    (h : expandTokens d limit ts stack used out = .ok result) : Closes stack.length ts := by
  fun_induction expandTokens d limit ts stack used out with
  | case1 => exact ⟨.nil, .nil⟩
  | case3 v ts stack used out ih => exact .token trivial (ih h)
  | case6 c ts used out hc g stack total hcharge ih =>
    obtain rfl := beq_iff_eq.1 hc
    exact .close (ih h)
  | case8 c stack used out hclose hc v b rest hb n hn ih =>
    obtain rfl := beq_iff_eq.1 hc
    obtain rfl := beq_iff_eq.1 hb
    exact .group (repeatCount_eq_ok_iff.1 hn) (ih h)
  | case12 c ts stack used out hclose hr hopen ih =>
    exact .token ⟨by simpa using hr, by simpa using hopen, by simpa using hclose⟩ (ih h)
  | case2 | case4 | case5 | case7 | case9 | case10 | case11 => cases h

/-- Only tokens that write a tree are expanded. -/
theorem exists_written {result : List (Token Float)} (h : expandTokens d limit ts [] used [] = .ok result) :
    ∃ g, Written g ts := closes_of_expandTokens h

/-- The tokens of the expansion are plain tokens of the text. -/
theorem Written.of_mem_expanded (h : Written g ts) {t : Token Float} (ht : t ∈ g.expanded) : t ∈ ts ∧ t.Plain := by
  induction h with
  | nil => cases ht
  | @token u rest us hu _ ih =>
    rcases List.mem_cons.1 ht with rfl | ht
    · exact ⟨List.mem_cons_self, hu⟩
    · exact ⟨List.mem_cons_of_mem _ (ih ht).1, (ih ht).2⟩
  | @group v n body rest us vs hn _ _ ihbody ih =>
    rcases List.mem_append.1 ht with ht | ht
    · obtain ⟨copy, hcopy, ht⟩ := List.mem_flatten.1 ht
      obtain ⟨hmem, hplain⟩ := ihbody ((List.eq_of_mem_replicate hcopy) ▸ ht)
      exact ⟨by simp [hmem], hplain⟩
    · obtain ⟨hmem, hplain⟩ := ih ht
      exact ⟨by simp [hmem], hplain⟩

end Expansion

end DiagramMarkup.Path
