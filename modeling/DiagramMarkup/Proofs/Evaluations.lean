import DiagramMarkup.Expr.Eval
import DiagramMarkup.Proofs.Steps

/-!
# Evaluations

The text of a variable is read where the variable occurs, so what an evaluation consists of shows only as it goes on.
`Evaluates env depth t d r e` is the tree of a whole evaluation: inside `depth` variables and with the dice `d`, the
term `t` comes to the outcome `r` and leaves the dice `e`.

1. The trees describe what `evalLevel` computes with the levels that are left (`evaluates_iff`). Every term has one in
   every environment, also where variables lead back to themselves, and then the limit ends it (`exec_evalLevel_cycle`).
2. No fallback takes an exceeded limit for a value, so more levels change no other outcome (`outlasts_evalLevel`).
-/

namespace DiagramMarkup.Expr

/-! ## Trees of evaluation -/

mutual

/-- The evaluation of a term inside so many variables: its outcome, and the dice before and behind it. -/
inductive Evaluates (env : Env) : Nat → Term → Dice → Except Cause Value → Dice → Prop where
  | number {depth x d} : Evaluates env depth (.number x) d (.ok (.number x)) d
  | string {depth s d} : Evaluates env depth (.string s) d (.ok (.string s)) d
  | unknownVariable {depth name d} (hvar : env.var? name = none) :
      Evaluates env depth (.var name) d (.error (.unknownVariable name)) d
  | tooDeep {depth name raw d} (hvar : env.var? name = some raw) (hdepth : env.limit ≤ depth) :
      Evaluates env depth (.var name) d (.error (.tooDeep name env.limit)) d
  | varNumber {depth name raw x d} (hvar : env.var? name = some raw) (hdepth : depth < env.limit)
      (hraw : meaning raw = .number x) : Evaluates env depth (.var name) d (.ok (.number x)) d
  | varText {depth name raw d} (hvar : env.var? name = some raw) (hdepth : depth < env.limit)
      (hraw : meaning raw = .text) : Evaluates env depth (.var name) d (.ok (.string raw)) d
  | varTerm {depth name raw t d r e} (hvar : env.var? name = some raw) (hdepth : depth < env.limit)
      (hraw : meaning raw = .term t) (inner : Evaluates env (depth + 1) t d r e) :
      Evaluates env depth (.var name) d r e
  | neg {depth x d r e} (operand : Evaluates env depth x d r e) :
      Evaluates env depth (.neg x) d (r >>= fun v => v.mapNumber fun n => .ok (-n)) e
  | leftFails {depth op x y d c e} (left : Evaluates env depth x d (.error c) e) :
      Evaluates env depth (.binary op x y) d (.error c) e
  | binary {depth op x y d v e r f} (left : Evaluates env depth x d (.ok v) e)
      (right : Evaluates env depth y e r f) : Evaluates env depth (.binary op x y) d (r >>= applyBinary op v) f
  | unknownFunction {depth name args d} (hname : Builtin.find? name = none) :
      Evaluates env depth (.call name args) d (.error (.unknownFunction name)) d
  | argumentFails {depth name g args d c e} (hname : Builtin.find? name = some g)
      (arguments : EvaluatesAll env depth args d (.error c) e) :
      Evaluates env depth (.call name args) d (.error c) e
  | call {depth name g args d vs e r f} (hname : Builtin.find? name = some g)
      (arguments : EvaluatesAll env depth args d (.ok vs) e) (hcall : exec (callBuiltin name vs) e = (r, f)) :
      Evaluates env depth (.call name args) d r f
  | list {depth items d r e} (parts : EvaluatesAll env depth items d r e) :
      Evaluates env depth (.list items) d (r.map .ofItems) e

/-- The evaluation of terms from left to right. -/
inductive EvaluatesAll (env : Env) : Nat → List Term → Dice → Except Cause (List Value) → Dice → Prop where
  | nil {depth d} : EvaluatesAll env depth [] d (.ok []) d
  | headFails {depth t ts d c e} (head : Evaluates env depth t d (.error c) e) :
      EvaluatesAll env depth (t :: ts) d (.error c) e
  | cons {depth t ts d v e r f} (head : Evaluates env depth t d (.ok v) e)
      (tail : EvaluatesAll env depth ts e r f) : EvaluatesAll env depth (t :: ts) d (r.map (v :: ·)) f

end

/-! ## What is computed -/

variable {env : Env}

/-- The value of a variable with so many levels left. -/
def Env.deref (env : Env) (levels : Nat) (name : String) : EvalM Value :=
  match env.var? name with
  | none => throw (.unknownVariable name)
  | some raw =>
    match levels with
    | 0 => throw (.tooDeep name env.limit)
    | levels + 1 =>
      match meaning raw with
      | .number x => return .number x
      | .text => return .string raw
      | .term t => evalLevel env levels t

theorem deref_unknown {name : String} (hvar : env.var? name = none) (levels : Nat) :
    env.deref levels name = throw (.unknownVariable name) := by
  simp only [Env.deref, hvar]

theorem deref_zero {name raw : String} (hvar : env.var? name = some raw) :
    env.deref 0 name = throw (.tooDeep name env.limit) := by
  simp only [Env.deref, hvar]

theorem deref_succ {name raw : String} (hvar : env.var? name = some raw) (levels : Nat) :
    env.deref (levels + 1) name = match meaning raw with
      | .number x => return .number x
      | .text => return .string raw
      | .term t => evalLevel env levels t := by
  simp only [Env.deref, hvar]

theorem evalLevel_eq (levels : Nat) : evalLevel env levels = evalTerm (env.deref levels) := by
  funext t
  cases levels with
  | zero =>
    rw [evalLevel]
    refine congrArg (evalTerm · t) (funext fun name => ?_)
    cases hvar : env.var? name with
    | none => rw [deref_unknown hvar]
    | some raw => rw [deref_zero hvar]
  | succ levels =>
    rw [evalLevel]
    refine congrArg (evalTerm · t) (funext fun name => ?_)
    cases hvar : env.var? name with
    | none => rw [deref_unknown hvar]
    | some raw => cases hraw : meaning raw <;> simp only [deref_succ hvar, hraw]

/-- A sequence of a step and a computation that draws nothing. -/
theorem exec_bind_except {α β : Type} (m : EvalM α) (f : α → Except Cause β) (d : Dice) :
    exec (m >>= fun a => (f a : EvalM β)) d = ((exec m d).1 >>= f, (exec m d).2) := by
  rw [exec_bind]
  rcases exec m d with ⟨_ | a, e⟩ <;> rfl

section Terms

variable (deref : String → EvalM Value)

theorem exec_evalTerm_neg (x : Term) (d : Dice) :
    exec (evalTerm deref (.neg x)) d =
      ((exec (evalTerm deref x) d).1 >>= fun v => v.mapNumber fun n => .ok (-n), (exec (evalTerm deref x) d).2) :=
  exec_bind_except _ _ d

theorem exec_evalTerm_binary (op : Op) (x y : Term) (d : Dice) :
    exec (evalTerm deref (.binary op x y)) d = match exec (evalTerm deref x) d with
      | (.ok v, e) => ((exec (evalTerm deref y) e).1 >>= applyBinary op v, (exec (evalTerm deref y) e).2)
      | (.error c, e) => (.error c, e) := by
  rw [evalTerm, exec_bind]
  rcases exec (evalTerm deref x) d with ⟨_ | v, e⟩
  · rfl
  · exact exec_bind_except _ _ e

theorem exec_evalTerm_call {name : String} {g : Builtin} (hname : Builtin.find? name = some g) (args : List Term)
    (d : Dice) : exec (evalTerm deref (.call name args)) d = match exec (evalTerms deref args) d with
      | (.ok vs, e) => exec (callBuiltin name vs) e
      | (.error c, e) => (.error c, e) := by
  rw [evalTerm, hname, Option.isNone_some, if_neg Bool.false_ne_true, exec_bind]
  rcases exec (evalTerms deref args) d with ⟨_ | vs, e⟩ <;> rfl

theorem exec_evalTerm_list (ts : List Term) (d : Dice) :
    exec (evalTerm deref (.list ts)) d =
      ((exec (evalTerms deref ts) d).1.map .ofItems, (exec (evalTerms deref ts) d).2) := by
  rw [evalTerm, exec_bind]
  rcases exec (evalTerms deref ts) d with ⟨_ | vs, e⟩ <;> rfl

theorem exec_evalTerms_cons (t : Term) (ts : List Term) (d : Dice) :
    exec (evalTerms deref (t :: ts)) d = match exec (evalTerm deref t) d with
      | (.ok v, e) => ((exec (evalTerms deref ts) e).1.map (v :: ·), (exec (evalTerms deref ts) e).2)
      | (.error c, e) => (.error c, e) := by
  rw [evalTerms, exec_bind]
  rcases exec (evalTerm deref t) d with ⟨_ | v, e⟩
  · rfl
  · simp only [exec_bind]
    rcases exec (evalTerms deref ts) e with ⟨_ | vs, f⟩ <;> rfl

end Terms

/-! ## Trees and what is computed

Over the term, given that the two agree on variables; then by induction on the levels left, which the term of a variable
has one less of.
-/

section Variables

variable {depth : Nat} {deref : String → EvalM Value}

mutual

theorem exec_of_evaluates
    (hderef : ∀ name d r e, Evaluates env depth (.var name) d r e → exec (deref name) d = (r, e)) : ∀ (t : Term) {d e : Dice} {r : Except Cause Value},
    Evaluates env depth t d r e → exec (evalTerm deref t) d = (r, e)
  | .number _, _, _, _, .number => rfl
  | .string _, _, _, _, .string => rfl
  | .var name, _, _, _, h => hderef name _ _ _ h
  | .neg x, _, _, _, .neg operand => by rw [exec_evalTerm_neg, exec_of_evaluates hderef x operand]
  | .binary _ x _, _, _, _, .leftFails left => by rw [exec_evalTerm_binary, exec_of_evaluates hderef x left]
  | .binary _ x y, _, _, _, .binary left right => by
    simp only [exec_evalTerm_binary, exec_of_evaluates hderef x left, exec_of_evaluates hderef y right]
  | .call _ _, _, _, _, .unknownFunction hname => by
    rw [evalTerm, hname]
    rfl
  | .call _ args, _, _, _, .argumentFails hname arguments => by
    rw [exec_evalTerm_call _ hname, exec_of_evaluatesAll hderef args arguments]
  | .call _ args, _, _, _, .call hname arguments hcall => by
    simp only [exec_evalTerm_call _ hname, exec_of_evaluatesAll hderef args arguments, hcall]
  | .list ts, _, _, _, .list parts => by rw [exec_evalTerm_list, exec_of_evaluatesAll hderef ts parts]

theorem exec_of_evaluatesAll
    (hderef : ∀ name d r e, Evaluates env depth (.var name) d r e → exec (deref name) d = (r, e)) : ∀ (ts : List Term) {d e : Dice} {r : Except Cause (List Value)},
    EvaluatesAll env depth ts d r e → exec (evalTerms deref ts) d = (r, e)
  | [], _, _, _, .nil => rfl
  | t :: _, _, _, _, .headFails head => by rw [exec_evalTerms_cons, exec_of_evaluates hderef t head]
  | t :: ts, _, _, _, .cons head tail => by
    simp only [exec_evalTerms_cons, exec_of_evaluates hderef t head, exec_of_evaluatesAll hderef ts tail]

end

mutual

theorem evaluates_evalTerm
    (hderef : ∀ name d, Evaluates env depth (.var name) d (exec (deref name) d).1 (exec (deref name) d).2) : ∀ (t : Term) (d : Dice),
    Evaluates env depth t d (exec (evalTerm deref t) d).1 (exec (evalTerm deref t) d).2
  | .number _, _ => .number
  | .string _, _ => .string
  | .var name, d => hderef name d
  | .neg x, d => by
    rw [exec_evalTerm_neg]
    exact .neg (evaluates_evalTerm hderef x d)
  | .binary op x y, d => by
    have left := evaluates_evalTerm hderef x d
    rw [exec_evalTerm_binary]
    rcases hx : exec (evalTerm deref x) d with ⟨c | v, e⟩ <;> rw [hx] at left
    · exact .leftFails left
    · exact .binary left (evaluates_evalTerm hderef y e)
  | .call name args, d => by
    have arguments := evaluates_evalTerms hderef args d
    cases hname : Builtin.find? name with
    | none =>
      rw [evalTerm, hname]
      exact .unknownFunction hname
    | some g =>
      rw [exec_evalTerm_call _ hname]
      rcases hargs : exec (evalTerms deref args) d with ⟨c | vs, e⟩ <;> rw [hargs] at arguments
      · exact .argumentFails hname arguments
      · exact .call hname arguments rfl
  | .list ts, d => by
    rw [exec_evalTerm_list]
    exact .list (evaluates_evalTerms hderef ts d)

theorem evaluates_evalTerms
    (hderef : ∀ name d, Evaluates env depth (.var name) d (exec (deref name) d).1 (exec (deref name) d).2) : ∀ (ts : List Term) (d : Dice),
    EvaluatesAll env depth ts d (exec (evalTerms deref ts) d).1 (exec (evalTerms deref ts) d).2
  | [], _ => .nil
  | t :: ts, d => by
    have head := evaluates_evalTerm hderef t d
    rw [exec_evalTerms_cons]
    rcases ht : exec (evalTerm deref t) d with ⟨c | v, e⟩ <;> rw [ht] at head
    · exact .headFails head
    · exact .cons head (evaluates_evalTerms hderef ts e)

end

end Variables

theorem exec_deref_of_evaluates (levels : Nat) : ∀ depth, env.limit - depth = levels → ∀ name d r e,
    Evaluates env depth (.var name) d r e → exec (env.deref levels name) d = (r, e) := by
  induction levels with
  | zero =>
    intro depth hdepth name d r e h
    cases h with
    | unknownVariable hvar => rw [deref_unknown hvar, exec_throw]
    | tooDeep hvar _ => rw [deref_zero hvar, exec_throw]
    | varNumber | varText | varTerm => omega
  | succ levels ih =>
    intro depth hdepth name d r e h
    cases h with
    | unknownVariable hvar => rw [deref_unknown hvar, exec_throw]
    | tooDeep => omega
    | varNumber hvar _ hraw | varText hvar _ hraw => rw [deref_succ hvar, hraw, exec_pure]
    | varTerm hvar _ hraw inner =>
      rw [deref_succ hvar, hraw, evalLevel_eq]
      exact exec_of_evaluates (ih (depth + 1) (by omega)) _ inner

theorem evaluates_deref (levels : Nat) : ∀ depth, env.limit - depth = levels → ∀ name d,
    Evaluates env depth (.var name) d (exec (env.deref levels name) d).1 (exec (env.deref levels name) d).2 := by
  induction levels with
  | zero =>
    intro depth hdepth name d
    cases hvar : env.var? name with
    | none =>
      rw [deref_unknown hvar]
      exact .unknownVariable hvar
    | some raw =>
      rw [deref_zero hvar]
      exact .tooDeep hvar (by omega)
  | succ levels ih =>
    intro depth hdepth name d
    cases hvar : env.var? name with
    | none =>
      rw [deref_unknown hvar]
      exact .unknownVariable hvar
    | some raw =>
      have hlt : depth < env.limit := by omega
      rw [deref_succ hvar]
      cases hraw : meaning raw with
      | number x => exact .varNumber hvar hlt hraw
      | text => exact .varText hvar hlt hraw
      | term t =>
        rw [evalLevel_eq]
        exact .varTerm hvar hlt hraw (evaluates_evalTerm (ih (depth + 1) (by omega)) t d)

/-- The evaluations are those that are computed with the levels left. -/
theorem evaluates_iff {depth : Nat} {t : Term} {d e : Dice} {r : Except Cause Value} :
    Evaluates env depth t d r e ↔ exec (evalLevel env (env.limit - depth) t) d = (r, e) := by
  rw [evalLevel_eq]
  refine ⟨exec_of_evaluates (exec_deref_of_evaluates _ depth rfl) t, fun h => ?_⟩
  have := evaluates_evalTerm (evaluates_deref (env.limit - depth) depth rfl) t d
  rwa [h] at this

theorem EvaluatesAll.exec_eq {depth : Nat} {ts : List Term} {d e : Dice} {r : Except Cause (List Value)}
    (h : EvaluatesAll env depth ts d r e) : exec (evalTerms (env.deref (env.limit - depth)) ts) d = (r, e) :=
  exec_of_evaluatesAll (exec_deref_of_evaluates _ depth rfl) ts h

theorem exec_eval_unreadable {s : String} {c : Cause} (hs : parse s = .error c) (d : Dice) :
    exec (eval env s) d = (.error ⟨c, s⟩, d) := by
  unfold exec eval
  rw [hs]
  rfl

theorem exec_eval_term {s : String} {t : Term} (hs : parse s = .ok t) (d : Dice) :
    exec (eval env s) d =
      ((exec (evalLevel env env.limit t) d).1.mapError (⟨·, s⟩), (exec (evalLevel env env.limit t) d).2) := by
  unfold exec eval ExceptT.run ExceptT.mk
  simp only [hs]
  rcases evalLevel env env.limit t d with ⟨_ | v, e⟩ <;> rfl

theorem Evaluates.exec_eval {s : String} {t : Term} {d e : Dice} {r : Except Cause Value} (hs : parse s = .ok t)
    (whole : Evaluates env 0 t d r e) : exec (eval env s) d = (r.mapError (⟨·, s⟩), e) := by
  have hrun : exec (evalLevel env env.limit t) d = (r, e) := evaluates_iff.1 whole
  rw [exec_eval_term hs, hrun]

/-- The evaluation of the text of an expression. -/
inductive EvaluatesText (env : Env) (s : String) (d : Dice) : Except Cause Value → Dice → Prop where
  | unreadable {c} (hs : parse s = .error c) : EvaluatesText env s d (.error c) d
  | term {t r e} (hs : parse s = .ok t) (whole : Evaluates env 0 t d r e) : EvaluatesText env s d r e

/-- The text has one evaluation, and its outcome is the one that is computed. -/
theorem exists_evaluatesText (env : Env) (s : String) (d : Dice) :
    ∃ r e, (∀ q f, EvaluatesText env s d q f ↔ q = r ∧ f = e) ∧
      exec (eval env s) d = (r.mapError (⟨·, s⟩), e) := by
  cases hs : parse s with
  | error c =>
    refine ⟨.error c, d, fun q f => ⟨fun h => ?_, ?_⟩, exec_eval_unreadable hs d⟩
    · cases h with
      | unreadable hc =>
        cases hs.symm.trans hc
        exact ⟨rfl, rfl⟩
      | term ht => cases hs.symm.trans ht
    · rintro ⟨rfl, rfl⟩
      exact .unreadable hs
  | ok t =>
    refine ⟨_, _, fun q f => ⟨fun h => ?_, ?_⟩, exec_eval_term hs d⟩
    · cases h with
      | unreadable hc => cases hs.symm.trans hc
      | term ht whole =>
        cases hs.symm.trans ht
        have hrun : exec (evalLevel env env.limit t) d = (q, f) := evaluates_iff.1 whole
        rw [hrun]
        exact ⟨rfl, rfl⟩
    · rintro ⟨rfl, rfl⟩
      exact .term hs (evaluates_iff.2 rfl)

/-- A variable that leads to variables forever, as in a cycle, exceeds every limit. -/
theorem exec_evalLevel_cycle {loop : String → Prop} (hloop : ∀ a, loop a → ∃ raw b, env.var? a = some raw ∧
      meaning raw = .term (.var b) ∧ loop b) (levels : Nat) (d : Dice) :
    ∀ a, loop a → ∃ b, loop b ∧ exec (evalLevel env levels (.var a)) d = (.error (.tooDeep b env.limit), d) := by
  induction levels with
  | zero =>
    intro a ha
    obtain ⟨raw, b, hvar, -⟩ := hloop a ha
    refine ⟨a, ha, ?_⟩
    rw [evalLevel_eq, evalTerm, deref_zero hvar, exec_throw]
  | succ levels ih =>
    intro a ha
    obtain ⟨raw, b, hvar, hraw, hb⟩ := hloop a ha
    rw [evalLevel_eq, evalTerm, deref_succ hvar, hraw]
    exact ih b hb

/-! ## More levels -/

section Outlasts

variable {α β : Type}

/-- The outcome is no exceeded limit. -/
def Settled (r : Except Cause α) : Prop := ∀ c, r = .error c → c.kind ≠ .recursion

/-- The second step does what the first one does, unless that exceeds the limit. -/
def Outlasts (m n : EvalM α) : Prop := ∀ d, Settled (exec m d).1 → exec n d = exec m d

theorem Outlasts.refl (m : EvalM α) : Outlasts m m := fun _ _ => rfl

theorem Outlasts.tooDeep (name : String) (limit : Int) (n : EvalM α) : Outlasts (throw (.tooDeep name limit)) n :=
  fun _ h => absurd rfl (h _ rfl)

/-- An exceeded limit in the first part of a sequence ends the sequence. -/
theorem Outlasts.bind {m n : EvalM α} {f g : α → EvalM β} (hm : Outlasts m n) (hf : ∀ a, Outlasts (f a) (g a)) :
    Outlasts (m >>= f) (n >>= g) := by
  intro d hd
  rw [exec_bind] at hd
  have first : exec n d = exec m d := by
    refine hm d fun c hc => ?_
    rcases h : exec m d with ⟨_ | a, e⟩ <;> rw [h] at hd hc <;> cases hc
    exact hd c rfl
  rw [exec_bind, exec_bind, first]
  rcases h : exec m d with ⟨_ | a, e⟩
  · rfl
  · rw [h] at hd
    exact hf a e hd

end Outlasts

mutual

theorem outlasts_evalTerm {f g : String → EvalM Value} (h : ∀ name, Outlasts (f name) (g name)) :
    ∀ t : Term, Outlasts (evalTerm f t) (evalTerm g t)
  | .number _ | .string _ => .refl _
  | .var name => h name
  | .neg x => (outlasts_evalTerm h x).bind fun _ => .refl _
  | .binary _ x y => (outlasts_evalTerm h x).bind fun _ => (outlasts_evalTerm h y).bind fun _ => .refl _
  | .call name args => by
    rw [evalTerm, evalTerm]
    split
    · exact .refl _
    · exact (outlasts_evalTerms h args).bind fun _ => .refl _
  | .list ts => (outlasts_evalTerms h ts).bind fun _ => .refl _

theorem outlasts_evalTerms {f g : String → EvalM Value} (h : ∀ name, Outlasts (f name) (g name)) :
    ∀ ts : List Term, Outlasts (evalTerms f ts) (evalTerms g ts)
  | [] => .refl _
  | t :: ts => (outlasts_evalTerm h t).bind fun _ => (outlasts_evalTerms h ts).bind fun _ => .refl _

end

/-- More levels do the same, unless the limit is exceeded. -/
theorem outlasts_evalLevel (env env' : Env) (hvar : env'.var? = env.var?) {levels levels' : Nat}
    (hle : levels ≤ levels') (t : Term) : Outlasts (evalLevel env levels t) (evalLevel env' levels' t) := by
  induction levels generalizing levels' t with
  | zero =>
    rw [evalLevel_eq, evalLevel_eq]
    refine outlasts_evalTerm (fun name => ?_) t
    cases h : env.var? name with
    | none =>
      rw [deref_unknown h, deref_unknown (hvar ▸ h)]
      exact .refl _
    | some raw =>
      rw [deref_zero h]
      exact .tooDeep _ _ _
  | succ levels ih =>
    obtain ⟨more, rfl⟩ : ∃ more, levels' = more + 1 := ⟨levels' - 1, by omega⟩
    rw [evalLevel_eq, evalLevel_eq]
    refine outlasts_evalTerm (fun name => ?_) t
    cases h : env.var? name with
    | none =>
      rw [deref_unknown h, deref_unknown (hvar ▸ h)]
      exact .refl _
    | some raw =>
      rw [deref_succ h, deref_succ (hvar ▸ h)]
      cases meaning raw with
      | number | text => exact .refl _
      | term u => exact ih (by omega) u

theorem limit_le (var? : String → Option String) {l k : Int} (hl : 0 < l) (hle : l ≤ k) :
    (⟨var?, l⟩ : Env).limit ≤ (⟨var?, k⟩ : Env).limit := by
  unfold Env.limit
  rw [if_neg (by simpa using hl), if_neg (by simpa using Int.lt_of_lt_of_le hl hle)]
  exact Int.toNat_le_toNat hle

/-- Under a greater limit an expression comes to the same value by the same draws, and fails in the same way, unless it
failed by exceeding the limit. Under every limit its evaluation ends. -/
theorem eval_limit (var? : String → Option String) (s : String) (d : Dice) :
    (∀ l k : Int, 0 < l → l ≤ k → (∀ e, (exec (eval ⟨var?, l⟩ s) d).1 = .error e → e.kind ≠ .recursion) →
      exec (eval ⟨var?, k⟩ s) d = exec (eval ⟨var?, l⟩ s) d) ∧
    ∀ k : Int, ∃ r e, (∀ q f, EvaluatesText ⟨var?, k⟩ s d q f ↔ q = r ∧ f = e) ∧
      exec (eval ⟨var?, k⟩ s) d = (r.mapError (⟨·, s⟩), e) := by
  refine ⟨fun l k hl hle hd => ?_, fun k => exists_evaluatesText _ s d⟩
  cases hs : parse s with
  | error c => rw [exec_eval_unreadable hs, exec_eval_unreadable hs]
  | ok t =>
    have settled : Settled (exec (evalLevel ⟨var?, l⟩ (Env.limit ⟨var?, l⟩) t) d).1 := by
      intro c hc
      refine hd ⟨c, s⟩ ?_
      rw [exec_eval_term hs, hc]
      rfl
    have same : exec (evalLevel ⟨var?, k⟩ (Env.limit ⟨var?, k⟩) t) d =
        exec (evalLevel ⟨var?, l⟩ (Env.limit ⟨var?, l⟩) t) d :=
      outlasts_evalLevel ⟨var?, l⟩ ⟨var?, k⟩ rfl (limit_le var? hl hle) t d settled
    rw [exec_eval_term hs, exec_eval_term hs, same]

/-- A variable leads to another one, whose text is no expression. -/
theorem eval_limit_twoVariables :
    let var? := fun name => if name = "a" then some "$b" else if name = "b" then some "red" else none
    exec (eval ⟨var?, 2⟩ "$a") {} = (.ok (.string "red"), {}) ∧
      exec (eval ⟨var?, 7⟩ "$a") {} = exec (eval ⟨var?, 2⟩ "$a") {} := by
  intro var?
  have hrun : exec (eval ⟨var?, 2⟩ "$a") {} = (.ok (.string "red"), {}) := rfl
  refine ⟨hrun, (eval_limit var? "$a" {}).1 2 7 (by decide) (by decide) fun e he => ?_⟩
  rw [hrun] at he
  cases he

end DiagramMarkup.Expr
