import DiagramMarkup.Expr.Term

/-!
# The grammar of expressions

The parser takes exactly the lexemes that the grammar derives, with the tree of the derivation:

    list    = logic (',' logic)*
    logic   = compare (('and' | 'or' | 'xor') compare)*
    compare = sum (('eq' | 'ne' | 'lt' | 'le' | 'gt' | 'ge') sum)*
    sum     = product (('+' | '-') product)*
    product = unary (('*' | '/' | '//' | '%') unary)*
    unary   = '-' unary | primary
    primary = number | string | var | '(' list ')' | symbol '(' [list] ')'

1. A parser reads a category of the grammar if it takes a word of it off the front, as far as the word goes: no token
   that could continue it may follow (`Reads`).
2. Chains of operators and lists read if their operands do (`Reads.chain`, `Reads.items`); what follows an operand
   grows the tree to the left (`Tail`).
3. By induction on the nesting, signed operands read (`reads_unary`), and so does the whole (`parseLexemes_spells`).
-/

namespace DiagramMarkup.Expr

/-! ## The grammar -/

/-- Operands joined by operators of a level, grouped to the left. -/
inductive Chain (level : Op → Bool) (Operand : List Lexeme → Term → Prop) : List Lexeme → Term → Prop where
  | operand {w : List Lexeme} {x : Term} (h : Operand w x) : Chain level Operand w x
  | join {w v : List Lexeme} {x y : Term} {o : Op} (ho : level o) (hx : Chain level Operand w x)
    (hy : Operand v y) : Chain level Operand (w ++ .op o :: v) (.binary o x y)

/-- Items separated by commas. -/
inductive Listing (Item : List Lexeme → Term → Prop) : List Lexeme → List Term → Prop where
  | one {w : List Lexeme} {x : Term} (h : Item w x) : Listing Item w [x]
  | more {w v : List Lexeme} {x : Term} {xs : List Term} (h : Item w x) (hs : Listing Item v xs) :
    Listing Item (w ++ .comma :: v) (x :: xs)

mutual

/-- Operands with minus signs. -/
inductive Unary : List Lexeme → Term → Prop where
  | neg {w : List Lexeme} {x : Term} (h : Unary w x) : Unary (.op .sub :: w) (.neg x)
  | primary {w : List Lexeme} {x : Term} (h : Primary w x) : Unary w x

/-- Operands: numbers, strings, variables, lists in parentheses, and calls. -/
inductive Primary : List Lexeme → Term → Prop where
  | number (text : String) (v : Float) : Primary [.number text v] (.number v)
  | string (s : String) : Primary [.string s] (.string s)
  | var (name : String) : Primary [.var name] (.var name)
  | parens {w : List Lexeme} {xs : List Term}
    (h : Listing (Chain Op.isLogic (Chain Op.isCompare (Chain Op.isSum (Chain Op.isProduct Unary)))) w xs) :
    Primary (.lparen :: w ++ [.rparen]) (.ofItems xs)
  | call (name : String) {w : List Lexeme} {xs : List Term}
    (h : Listing (Chain Op.isLogic (Chain Op.isCompare (Chain Op.isSum (Chain Op.isProduct Unary)))) w xs) :
    Primary (.symbol name :: .lparen :: w ++ [.rparen]) (.call name xs)
  | bareCall (name : String) : Primary [.symbol name, .lparen, .rparen] (.call name [])

end

/-- Products and quotients. -/
abbrev Product : List Lexeme → Term → Prop := Chain Op.isProduct Unary

/-- Sums and differences. -/
abbrev Sum : List Lexeme → Term → Prop := Chain Op.isSum Product

/-- Comparisons. -/
abbrev Compare : List Lexeme → Term → Prop := Chain Op.isCompare Sum

/-- Conditions: everything that binds tighter than a comma. -/
abbrev Logic : List Lexeme → Term → Prop := Chain Op.isLogic Compare

/-! ## How words start -/

/-- The word starts, and not with a closing parenthesis. -/
def Starts (w : List Lexeme) : Prop := ∃ t v, w = t :: v ∧ t ≠ .rparen

theorem Starts.append {w : List Lexeme} (h : Starts w) (v : List Lexeme) : Starts (w ++ v) := by
  obtain ⟨t, u, rfl, ht⟩ := h
  exact ⟨t, u ++ v, rfl, ht⟩

theorem Unary.starts {w : List Lexeme} {x : Term} (h : Unary w x) : Starts w := by
  cases h with
  | neg h => exact ⟨_, _, rfl, nofun⟩
  | primary h => cases h <;> exact ⟨_, _, rfl, nofun⟩

section Words

variable {level : Op → Bool} {D : List Lexeme → Term → Prop} (hD : ∀ {w x}, D w x → Starts w)

include hD

theorem Chain.starts {w : List Lexeme} {x : Term} (h : Chain level D w x) : Starts w := by
  induction h with
  | operand h => exact hD h
  | join _ _ _ ih => exact ih.append _

theorem Listing.starts {w : List Lexeme} {xs : List Term} (h : Listing D w xs) : Starts w := by
  cases h with
  | one h => exact hD h
  | more h _ => exact (hD h).append _

end Words

/-! ## Reading -/

/-- The text does not start with one of the tokens. -/
def Stops (S : Lexeme → Prop) (rest : List Lexeme) : Prop := ∀ t r, rest = t :: r → ¬ S t

theorem Stops.nil {S : Lexeme → Prop} : Stops S [] := nofun

theorem Stops.left {S T : Lexeme → Prop} {rest : List Lexeme} (h : Stops (fun t => S t ∨ T t) rest) :
    Stops S rest := fun t r hr hS => h t r hr (.inl hS)

/-- The token is an operator of the level. -/
def Lexeme.OfLevel (level : Op → Bool) (t : Lexeme) : Prop := ∃ o, t = .op o ∧ level o

@[simp] theorem Lexeme.ofLevel_op {level : Op → Bool} {o : Op} : (Lexeme.op o).OfLevel level ↔ level o := by
  simp [Lexeme.OfLevel]

/-- On texts up to a length, the parser takes words of a category off the front, up to where none of the tokens in `S`
follows. -/
def Reads {α : Type} (p : Parser α) (D : List Lexeme → α → Prop) (S : Lexeme → Prop) (n : Nat) : Prop :=
  ∀ toks, toks.length ≤ n → ∀ x rest, p toks = .ok (x, rest) ↔ ∃ w, toks = w ++ rest ∧ D w x ∧ Stops S rest

theorem Reads.congr {α : Type} {p : Parser α} {D : List Lexeme → α → Prop} {S T : Lexeme → Prop} {n : Nat}
    (h : Reads p D S n) (hS : ∀ t, S t ↔ T t) : Reads p D T n := by
  obtain rfl : S = T := funext fun t => propext (hS t)
  exact h

/-- What may follow an operand in a chain, and the tree that it makes of the operand. -/
inductive Tail (level : Op → Bool) (D : List Lexeme → Term → Prop) : Term → List Lexeme → Term → Prop where
  | done (x : Term) : Tail level D x [] x
  | more {x y z : Term} {v w : List Lexeme} {o : Op} (ho : level o) (hy : D v y)
    (h : Tail level D (.binary o x y) w z) : Tail level D x (.op o :: (v ++ w)) z

section Chains

variable {level : Op → Bool} {D : List Lexeme → Term → Prop}

theorem Tail.snoc {x y z : Term} {v w : List Lexeme} {o : Op} (h : Tail level D x w z) (ho : level o) (hy : D v y) :
    Tail level D x (w ++ .op o :: v) (.binary o z y) := by
  induction h with
  | done x => simpa using Tail.more ho hy (.done _)
  | more ho' hy' _ ih => simpa using Tail.more ho' hy' ih

theorem Chain.append {x z : Term} {u w : List Lexeme} (hx : Chain level D u x) (h : Tail level D x w z) :
    Chain level D (u ++ w) z := by
  induction h generalizing u with
  | done x => simpa using hx
  | more ho hy _ ih => simpa using ih (.join ho hx hy)

theorem chain_iff_tail {w : List Lexeme} {z : Term} :
    Chain level D w z ↔ ∃ u v x, w = u ++ v ∧ D u x ∧ Tail level D x v z := by
  constructor
  · intro h
    induction h with
    | operand h => exact ⟨_, [], _, by simp, h, .done _⟩
    | join ho _ hy ih =>
      obtain ⟨u, v, x, rfl, hx, ht⟩ := ih
      exact ⟨u, _, x, by simp, hx, ht.snoc ho hy⟩
  · rintro ⟨u, v, x, rfl, hx, ht⟩
    exact (Chain.operand hx).append ht

variable {S : Lexeme → Prop} {operand : Parser Term} {n : Nat}

/-- Where a chain goes on with an operator, the operand before it is at its end. -/
theorem Tail.stops {x z : Term} {w rest : List Lexeme} (h : Tail level D x w z) (hS : ∀ o, level o → ¬ S (.op o))
    (hr : Stops S rest) : Stops S (w ++ rest) := by
  cases h with
  | done => exact hr
  | more ho _ _ =>
    rintro t r ⟨⟩
    exact hS _ ho

/-- Where no operator of the level follows, a chain is at its end. -/
theorem tail_ended_iff {toks : List Lexeme} (hs : Stops S toks) (ht : Stops (Lexeme.OfLevel level) toks) (x z : Term)
    (rest : List Lexeme) :
    (Except.ok (x, toks) : Except Cause _) = .ok (z, rest) ↔
      ∃ w, toks = w ++ rest ∧ Tail level D x w z ∧ Stops (fun t => S t ∨ t.OfLevel level) rest := by
  constructor
  · intro he
    cases he
    exact ⟨[], rfl, .done x, fun t r hr => not_or.2 ⟨hs t r hr, ht t r hr⟩⟩
  · rintro ⟨w, rfl, hw, -⟩
    cases hw with
    | done => rfl
    | more ho _ _ => exact absurd ⟨_, rfl, ho⟩ (ht _ _ rfl)

/-- A chain goes on as long as operators of its level follow; `fuel` is enough for all tokens. -/
theorem chainFrom_eq_ok_iff (h : Reads operand D S n) (hS : ∀ o, level o → ¬ S (.op o)) (fuel : Nat) :
    ∀ {toks : List Lexeme}, toks.length ≤ fuel → toks.length ≤ n → Stops S toks → ∀ x z rest,
      chainFrom level operand fuel x toks = .ok (z, rest) ↔
        ∃ w, toks = w ++ rest ∧ Tail level D x w z ∧ Stops (fun t => S t ∨ t.OfLevel level) rest := by
  induction fuel with
  | zero =>
    intro toks hf _ hs x z rest
    obtain rfl := List.length_eq_zero_iff.1 (Nat.le_zero.1 hf)
    exact tail_ended_iff hs .nil x z rest
  | succ fuel ih =>
    intro toks hf hn hs x z rest
    by_cases hop : ∃ o r, toks = .op o :: r ∧ level o
    · obtain ⟨o, toks, rfl, ho⟩ := hop
      simp only [List.length_cons] at hf hn
      have read := h toks (by omega)
      rw [chainFrom, if_pos ho]
      constructor
      · intro hr
        split at hr
        · cases hr
        next y toks' hy =>
        obtain ⟨v, rfl, hv, hs'⟩ := (read y toks').1 hy
        simp only [List.length_append] at hf hn
        obtain ⟨w, rfl, hw, hr⟩ := (ih (by omega) (by omega) hs' _ z rest).1 hr
        exact ⟨.op o :: (v ++ w), by simp, .more ho hv hw, hr⟩
      · rintro ⟨w, hw, ht, hr⟩
        cases ht with
        | done =>
          obtain rfl : Lexeme.op o :: toks = rest := hw
          exact absurd (.inr ⟨o, rfl, ho⟩) (hr _ _ rfl)
        | @more _ y _ v w o' _ hy ht =>
          simp only [List.cons_append, List.cons.injEq, Lexeme.op.injEq, List.append_assoc] at hw
          obtain ⟨rfl, rfl⟩ := hw
          simp only [List.length_append] at hf hn
          have hs' := ht.stops hS hr.left
          rw [(read y (w ++ rest)).2 ⟨v, rfl, hy, hs'⟩]
          refine (ih ?_ ?_ hs' _ z rest).2 ⟨w, rfl, ht, hr⟩
          all_goals
            simp only [List.length_append]
            omega
    · have stops : Stops (Lexeme.OfLevel level) toks := by
        rintro t r rfl ⟨o, rfl, ho⟩
        exact hop ⟨o, r, rfl, ho⟩
      have : chainFrom level operand (fuel + 1) x toks = .ok (x, toks) := by
        rw [chainFrom.eq_def]
        split
        · exact if_neg fun ho => hop ⟨_, _, rfl, ho⟩
        · rfl
      rw [this]
      exact tail_ended_iff hs stops x z rest

theorem Reads.chain (level : Op → Bool) (h : Reads operand D S n) (hS : ∀ o, level o → ¬ S (.op o)) :
    Reads (chain level operand) (Chain level D) (fun t => S t ∨ t.OfLevel level) n := by
  intro toks hn z rest
  unfold Expr.chain
  constructor
  · intro hr
    split at hr
    · cases hr
    next x toks' hx =>
    obtain ⟨u, rfl, hu, hs⟩ := (h toks hn x toks').1 hx
    rw [List.length_append] at hn
    obtain ⟨w, rfl, hw, hr⟩ := (chainFrom_eq_ok_iff h hS _ (Nat.le_refl _) (by omega) hs x z rest).1 hr
    exact ⟨u ++ w, by simp, (Chain.operand hu).append hw, hr⟩
  · rintro ⟨w, rfl, hw, hr⟩
    obtain ⟨u, v, x, rfl, hu, ht⟩ := chain_iff_tail.1 hw
    have hs := ht.stops hS hr.left
    have hx := (h (u ++ (v ++ rest)) (by simpa using hn) x (v ++ rest)).2 ⟨u, rfl, hu, hs⟩
    rw [List.append_assoc, hx]
    refine (chainFrom_eq_ok_iff h hS _ (Nat.le_refl _) ?_ hs x z rest).2 ⟨v, rfl, ht, hr⟩
    simp only [List.length_append] at hn ⊢
    omega

end Chains

/-! ## Lists -/

/-- What may follow an item in a list: more items. -/
inductive Further (D : List Lexeme → Term → Prop) : List Lexeme → List Term → Prop where
  | done : Further D [] []
  | more {v w : List Lexeme} {x : Term} {xs : List Term} (hx : D v x) (h : Further D w xs) :
    Further D (.comma :: (v ++ w)) (x :: xs)

section Lists

variable {D : List Lexeme → Term → Prop}

theorem listing_iff_further {w : List Lexeme} {xs : List Term} :
    Listing D w xs ↔ ∃ u v x ys, w = u ++ v ∧ xs = x :: ys ∧ D u x ∧ Further D v ys := by
  constructor
  · intro h
    induction h with
    | one h => exact ⟨_, [], _, [], by simp, rfl, h, .done⟩
    | more h _ ih =>
      obtain ⟨u, v, x, ys, rfl, rfl, hx, hf⟩ := ih
      exact ⟨_, _, _, _, rfl, rfl, h, .more hx hf⟩
  · rintro ⟨u, v, x, ys, rfl, rfl, hx, hf⟩
    induction hf generalizing u x with
    | done => simpa using Listing.one hx
    | more hy _ ih => exact .more hx (ih _ _ hy)

theorem Further.stops {S : Lexeme → Prop} {w rest : List Lexeme} {xs : List Term} (h : Further D w xs)
    (hS : ¬ S .comma) (hr : Stops S rest) : Stops S (w ++ rest) := by
  cases h with
  | done => exact hr
  | more _ _ =>
    rintro t r ⟨⟩
    exact hS

/-- The tokens that may go on with a list: operators and commas. -/
def Lexeme.Joins (t : Lexeme) : Prop := (∃ o, t = .op o) ∨ t = .comma

variable {unary : Parser Term} {n : Nat}

/-- Each operator is of one of the four levels, so none may follow an item. -/
theorem reads_item (h : Reads unary Unary (fun _ => False) n) :
    Reads (item unary) Logic (fun t => ∃ o, t = .op o) n := by
  have products := h.chain Op.isProduct fun _ _ => id
  have sums := products.chain Op.isSum fun o ho => by cases o <;> simp_all [Op.isSum, Op.isProduct]
  have compares := sums.chain Op.isCompare fun o ho => by
    cases o <;> simp_all [Op.isCompare, Op.isSum, Op.isProduct]
  have logics := compares.chain Op.isLogic fun o ho => by
    cases o <;> simp_all [Op.isLogic, Op.isCompare, Op.isSum, Op.isProduct]
  refine logics.congr fun t => ⟨?_, ?_⟩
  · rintro ((((h | ⟨o, rfl, -⟩) | ⟨o, rfl, -⟩) | ⟨o, rfl, -⟩) | ⟨o, rfl, -⟩)
    · exact h.elim
    all_goals exact ⟨o, rfl⟩
  · rintro ⟨o, rfl⟩
    simp only [Lexeme.ofLevel_op]
    cases o <;> simp [Op.isLogic, Op.isCompare, Op.isSum, Op.isProduct]

/-- Where neither an operator nor a comma follows, a list is at its end. -/
theorem further_ended_iff {toks : List Lexeme} (hs : Stops Lexeme.Joins toks) (xs : List Term) (rest : List Lexeme) :
    (Except.ok ([], toks) : Except Cause _) = .ok (xs, rest) ↔
      ∃ w, toks = w ++ rest ∧ Further D w xs ∧ Stops Lexeme.Joins rest := by
  constructor
  · intro he
    cases he
    exact ⟨[], rfl, .done, hs⟩
  · rintro ⟨w, rfl, hw, -⟩
    cases hw with
    | done => rfl
    | more _ _ => exact absurd (.inr rfl) (hs _ _ rfl)

theorem itemsFrom_eq_ok_iff (h : Reads (item unary) D (fun t => ∃ o, t = .op o) n) (fuel : Nat) :
    ∀ {toks : List Lexeme}, toks.length ≤ fuel → toks.length ≤ n → Stops (fun t => ∃ o, t = .op o) toks →
      ∀ xs rest, itemsFrom unary fuel toks = .ok (xs, rest) ↔
        ∃ w, toks = w ++ rest ∧ Further D w xs ∧ Stops Lexeme.Joins rest := by
  induction fuel with
  | zero =>
    intro toks hf _ hs xs rest
    obtain rfl := List.length_eq_zero_iff.1 (Nat.le_zero.1 hf)
    exact further_ended_iff .nil xs rest
  | succ fuel ih =>
    intro toks hf hn hs xs rest
    by_cases hop : ∃ r, toks = .comma :: r
    · obtain ⟨toks, rfl⟩ := hop
      simp only [List.length_cons] at hf hn
      have read := h toks (by omega)
      rw [itemsFrom]
      constructor
      · intro hr
        split at hr
        · cases hr
        next x toks' hx =>
        obtain ⟨v, rfl, hv, hs'⟩ := (read x toks').1 hx
        simp only [List.length_append] at hf hn
        split at hr
        · cases hr
        next ys rest' hys =>
        cases hr
        obtain ⟨w, rfl, hw, hr⟩ := (ih (by omega) (by omega) hs' ys rest).1 hys
        exact ⟨.comma :: (v ++ w), by simp, .more hv hw, hr⟩
      · rintro ⟨w, hw, ht, hr⟩
        cases ht with
        | done =>
          obtain rfl : Lexeme.comma :: toks = rest := hw
          exact absurd (.inr rfl) (hr _ _ rfl)
        | @more v w x ys hx ht =>
          simp only [List.cons_append, List.cons.injEq, List.append_assoc, true_and] at hw
          obtain rfl := hw
          simp only [List.length_append] at hf hn
          have hs' := ht.stops (by simp) hr.left
          rw [(read x (w ++ rest)).2 ⟨v, rfl, hx, hs'⟩]
          have hlen : (w ++ rest).length ≤ fuel ∧ (w ++ rest).length ≤ n := by
            simp only [List.length_append]
            omega
          have hys := (ih hlen.1 hlen.2 hs' ys rest).2 ⟨w, rfl, ht, hr⟩
          simp only [hys]
    · have : itemsFrom unary (fuel + 1) toks = .ok ([], toks) := by
        rw [itemsFrom.eq_def]
        split
        · exact absurd ⟨_, rfl⟩ hop
        · rfl
      rw [this]
      refine further_ended_iff (fun t r ht => ?_) xs rest
      rintro (ho | rfl)
      · exact hs t r ht ho
      · exact hop ⟨r, ht⟩

theorem reads_items (h : Reads (item unary) D (fun t => ∃ o, t = .op o) n) :
    Reads (items unary) (Listing D) Lexeme.Joins n := by
  intro toks hn xs rest
  unfold items
  constructor
  · intro hr
    split at hr
    · cases hr
    next x toks' hx =>
    obtain ⟨u, rfl, hu, hs⟩ := (h toks hn x toks').1 hx
    rw [List.length_append] at hn
    split at hr
    · cases hr
    next ys rest' hys =>
    cases hr
    obtain ⟨w, rfl, hw, hr⟩ := (itemsFrom_eq_ok_iff h _ (Nat.le_refl _) (by omega) hs ys rest).1 hys
    exact ⟨u ++ w, by simp, listing_iff_further.2 ⟨u, w, x, ys, rfl, rfl, hu, hw⟩, hr⟩
  · rintro ⟨w, rfl, hw, hr⟩
    obtain ⟨u, v, x, ys, rfl, rfl, hu, hv⟩ := listing_iff_further.1 hw
    have hs := hv.stops (S := fun t => ∃ o, t = .op o) (by simp) hr.left
    have hx := (h (u ++ (v ++ rest)) (by simpa using hn) x (v ++ rest)).2 ⟨u, rfl, hu, hs⟩
    have hys := (itemsFrom_eq_ok_iff h _ (Nat.le_refl _) (by simp only [List.length_append] at hn ⊢; omega) hs
      ys rest).2 ⟨v, rfl, hv, hr⟩
    rw [List.append_assoc, hx]
    simp only [hys]

end Lists

/-! ## Operands and whole expressions -/

section Operands

variable {fuel : Nat} (ih : ∀ {n}, n < fuel → Reads (unary fuel) Unary (fun _ => False) n)

include ih

theorem unary_of_spells {w : List Lexeme} {x : Term} (hx : Unary w x) (rest : List Lexeme)
    (hn : (w ++ rest).length ≤ fuel) : unary (fuel + 1) (w ++ rest) = .ok (x, rest) := by
  have closed : ∀ {w : List Lexeme} {xs : List Term}, Listing Logic w xs → (w ++ .rparen :: rest).length < fuel →
      items (unary fuel) (w ++ .rparen :: rest) = .ok (xs, .rparen :: rest) := by
    intro w xs h hlen
    refine (reads_items (reads_item (ih hlen)) _ (Nat.le_refl _) xs _).2 ⟨w, rfl, h, ?_⟩
    rintro t r ⟨⟩ (⟨o, ho⟩ | ho) <;> cases ho
  cases hx with
  | @neg w x h =>
    have := (ih (n := (w ++ rest).length) hn _ (Nat.le_refl _) x rest).2 ⟨w, rfl, h, fun _ _ _ => id⟩
    rw [List.cons_append, unary, this]
    rfl
  | primary h =>
    cases h with
    | number text v => rfl
    | string s => rfl
    | var name => rfl
    | bareCall name => rfl
    | @parens w xs h =>
      have hitems := closed h (by simp at hn ⊢; omega)
      simp only [List.cons_append, List.append_assoc, List.nil_append, unary, sequence, hitems]
      rfl
    | @call name w xs h =>
      have hitems := closed h (by simp at hn ⊢; omega)
      obtain ⟨t, v, rfl, ht⟩ := h.starts (·.starts (·.starts (·.starts (·.starts Unary.starts))))
      simp only [List.cons_append, List.append_assoc, List.nil_append] at hitems ⊢
      rw [unary]
      · simp only [hitems]
      · rintro rest' ⟨⟩
        exact ht rfl

theorem spells_of_unary {toks rest : List Lexeme} {x : Term} (hx : unary (fuel + 1) toks = .ok (x, rest))
    (hn : toks.length ≤ fuel) : ∃ w, toks = w ++ rest ∧ Unary w x := by
  have closed : ∀ {toks rest : List Lexeme} {xs : List Term}, toks.length < fuel →
      items (unary fuel) toks = .ok (xs, .rparen :: rest) →
      ∃ w, toks = w ++ .rparen :: rest ∧ Listing Logic w xs := by
    intro toks rest xs hlen hitems
    obtain ⟨w, hw, hxs, -⟩ := (reads_items (reads_item (ih hlen)) _ (Nat.le_refl _) xs _).1 hitems
    exact ⟨w, hw, hxs⟩
  unfold unary at hx
  split at hx
  · cases hx
  · next toks =>
    cases hneg : unary fuel toks with
    | error c => rw [hneg] at hx; cases hx
    | ok r =>
      rw [hneg] at hx
      cases hx
      obtain ⟨w, rfl, hw, -⟩ := (ih hn _ (Nat.le_refl _) r.1 r.2).1 hneg
      exact ⟨_, rfl, .neg hw⟩
  · cases hx
    exact ⟨[_], rfl, .primary (.number _ _)⟩
  · cases hx
    exact ⟨[_], rfl, .primary (.string _)⟩
  · cases hx
    exact ⟨[_], rfl, .primary (.var _)⟩
  · next toks =>
    unfold sequence at hx
    cases hitems : items (unary fuel) toks with
    | error c => rw [hitems] at hx; cases hx
    | ok r =>
      obtain ⟨xs, toks'⟩ := r
      simp only [hitems, Except.map] at hx
      split at hx
      · cases hx
      · next he =>
        cases he
        cases hx
        obtain ⟨w, rfl, hw⟩ := closed (by simp at hn; omega) hitems
        exact ⟨_, by simp, .primary (.parens hw)⟩
      · cases hx
  · cases hx
    exact ⟨[_, _, _], rfl, .primary (.bareCall _)⟩
  · next toks _ =>
    split at hx
    · cases hx
    · next args rest' hitems =>
      cases hx
      obtain ⟨w, rfl, hw⟩ := closed (by simp at hn; omega) hitems
      exact ⟨_, by simp, .primary (.call _ hw)⟩
    · cases hx
  · cases hx
  · cases hx

end Operands

/-- Signed operands read, whatever follows. -/
theorem reads_unary (fuel : Nat) {n : Nat} (hn : n < fuel) : Reads (unary fuel) Unary (fun _ => False) n := by
  induction fuel generalizing n with
  | zero => omega
  | succ fuel ih =>
    intro toks hlen x rest
    constructor
    · intro hr
      obtain ⟨w, rfl, hw⟩ := spells_of_unary ih hr (by omega)
      exact ⟨w, rfl, hw, fun _ _ _ => id⟩
    · rintro ⟨w, rfl, hx, -⟩
      exact unary_of_spells ih hx rest (by omega)

theorem sequence_eq_ok_iff (toks : List Lexeme) (t : Term) (rest : List Lexeme) :
    sequence (unary (toks.length + 1)) toks = .ok (t, rest) ↔
      ∃ w xs, toks = w ++ rest ∧ Listing Logic w xs ∧ Stops Lexeme.Joins rest ∧ t = .ofItems xs := by
  have read := reads_items (reads_item (reads_unary (toks.length + 1) (Nat.lt_succ_self _))) toks (Nat.le_refl _)
  unfold sequence
  constructor
  · intro h
    cases hitems : items (unary (toks.length + 1)) toks with
    | error c => rw [hitems] at h; cases h
    | ok r =>
      rw [hitems] at h
      cases h
      obtain ⟨w, hw, hxs, hs⟩ := (read r.1 r.2).1 hitems
      exact ⟨w, r.1, hw, hxs, hs, rfl⟩
  · rintro ⟨w, xs, hw, hxs, hs, rfl⟩
    rw [(read xs rest).2 ⟨w, hw, hxs, hs⟩]
    rfl

/-! ## Parse errors -/

/-- The parser fails only because the tokens are out of order. -/
def Complains {α : Type} (p : Parser α) : Prop := ∀ toks c, p toks = .error c → c.kind = .parse

section Complaints

variable {level : Op → Bool} {operand : Parser Term}

theorem complains_chain (h : Complains operand) : Complains (chain level operand) := by
  have further : ∀ fuel x, Complains (chainFrom level operand fuel x) := by
    intro fuel x toks c hc
    fun_induction chainFrom level operand fuel x toks with
    | case1 fuel x o toks ho e he =>
      cases hc
      exact h _ _ he
    | case2 _ _ _ _ _ _ _ _ ih => exact ih hc
    | case3 => cases hc
    | case4 => cases hc
  intro toks c hc
  unfold chain at hc
  split at hc
  · next he =>
    cases hc
    exact h _ _ he
  · exact further _ _ _ _ hc

theorem complains_items (h : Complains operand) : Complains (items operand) := by
  have hitem : Complains (item operand) :=
    complains_chain (complains_chain (complains_chain (complains_chain h)))
  have further : ∀ fuel, Complains (itemsFrom operand fuel) := by
    intro fuel toks c hc
    fun_induction itemsFrom operand fuel toks generalizing c with
    | case1 fuel toks e he =>
      cases hc
      exact hitem _ _ he
    | case2 fuel toks x toks' hx e he ih =>
      cases hc
      exact ih _ he
    | case3 => cases hc
    | case4 => cases hc
  intro toks c hc
  unfold items at hc
  split at hc
  · next he =>
    cases hc
    exact hitem _ _ he
  · split at hc
    · next he =>
      cases hc
      exact further _ _ _ he
    · cases hc

theorem complains_sequence (h : Complains operand) : Complains (sequence operand) := by
  intro toks c hc
  unfold sequence at hc
  cases hitems : items operand toks with
  | error c' =>
    rw [hitems] at hc
    cases hc
    exact complains_items h _ _ hitems
  | ok r => rw [hitems] at hc; cases hc

theorem complains_unary (fuel : Nat) : Complains (unary fuel) := by
  induction fuel with
  | zero =>
    intro toks c hc
    cases hc
    rfl
  | succ fuel ih =>
    intro toks c hc
    unfold unary at hc
    split at hc
    · cases hc
      rfl
    · next toks =>
      cases hneg : unary fuel toks with
      | error c' =>
        rw [hneg] at hc
        cases hc
        exact ih _ _ hneg
      | ok r => rw [hneg] at hc; cases hc
    · cases hc
    · cases hc
    · cases hc
    · split at hc
      · next he =>
        cases hc
        exact complains_sequence ih _ _ he
      · cases hc
      · cases hc
        rfl
    · cases hc
    · split at hc
      · next he =>
        cases hc
        exact complains_items ih _ _ he
      · cases hc
      · cases hc
        rfl
    · cases hc
      rfl
    · cases hc
      rfl

end Complaints

theorem kind_of_parseLexemes {toks : List Lexeme} {c : Cause} (h : parseLexemes toks = .error c) : c.kind = .parse := by
  unfold parseLexemes at h
  split at h
  · cases h
    rfl
  · split at h
    · next he =>
      cases h
      exact complains_sequence (complains_unary _) _ _ he
    · cases h
    · cases h
      rfl

/-! ## Whole expressions -/

theorem parseLexemes_eq_ok_iff (toks : List Lexeme) (t : Term) :
    parseLexemes toks = .ok t ↔ ∃ xs, Listing Logic toks xs ∧ t = .ofItems xs := by
  have whole := sequence_eq_ok_iff toks
  unfold parseLexemes
  constructor
  · intro h
    split at h
    · cases h
    · split at h
      · cases h
      · next x hx =>
        cases h
        obtain ⟨w, xs, hw, hxs, -, rfl⟩ := (whole t []).1 hx
        rw [List.append_nil] at hw
        exact ⟨xs, hw ▸ hxs, rfl⟩
      · cases h
  · rintro ⟨xs, hxs, rfl⟩
    obtain ⟨a, v, rfl, -⟩ := hxs.starts (·.starts (·.starts (·.starts (·.starts Unary.starts))))
    rw [(whole _ []).2 ⟨_, xs, by simp, hxs, .nil, rfl⟩]
    rfl

/-- Every lexeme list that the grammar derives is parsed into the tree of its derivation, and exactly the others are
parse errors. -/
theorem parseLexemes_spells (toks : List Lexeme) :
    (∀ t, parseLexemes toks = .ok t ↔ ∃ xs, Listing Logic toks xs ∧ t = .ofItems xs) ∧
      ((∃ c, parseLexemes toks = .error c ∧ c.kind = .parse) ↔ ¬ ∃ xs, Listing Logic toks xs) := by
  have accepts := parseLexemes_eq_ok_iff toks
  refine ⟨accepts, ?_, fun h => ?_⟩
  · rintro ⟨c, hc, -⟩ ⟨xs, hxs⟩
    rw [(accepts _).2 ⟨xs, hxs, rfl⟩] at hc
    cases hc
  · cases hp : parseLexemes toks with
    | ok t =>
      obtain ⟨xs, hxs, -⟩ := (accepts t).1 hp
      exact absurd ⟨xs, hxs⟩ h
    | error c => exact ⟨c, rfl, kind_of_parseLexemes hp⟩

/-- `1 - 2 - 3 * 4` is `(1 - 2) - (3 * 4)`. -/
example : parseLexemes [.number "1" 1, .op .sub, .number "2" 2, .op .sub, .number "3" 3, .op .mul, .number "4" 4] =
    .ok (.binary .sub (.binary .sub (.number 1) (.number 2)) (.binary .mul (.number 3) (.number 4))) := rfl

end DiagramMarkup.Expr
