import DiagramMarkup.Proofs.Agreement
import DiagramMarkup.Proofs.Sessions
import DiagramMarkup.Proofs.Shorthands

/-!
# Repetitions

Loops draw their content turn by turn, by number or by test, or for the items of a list. What such an element asks for
is described apart from the limit on turns.

1. Turns are taken in full (`Taken`) until the number is reached, the test in front of a turn fails, the test behind it
   holds, or something fails (`Ends`). One of these happens or one more turn begins (`exists_ends_or_taken`).
2. As long as turns are allowed, the program takes the same turns (`exec_run_of_taken`). So it ends as is asked for,
   or with the turn that is refused (`exec_run_eq_iff`).
3. Both kinds of loops are this program behind a request (`loop_eq`, `each_eq`). If the content leaves the limit alone,
   the turns below the limit are allowed and the next is refused. So a loop ends as it asks, or it asks for more turns
   than the limit allows and fails (`repetition_within_limit`).
-/

namespace DiagramMarkup

open Compile Control

/-! ## Turns -/

/-- Turns with a number of them, a test in front of each, what each draws, and a test behind each. -/
structure Repetition where
  count : Option Nat
  goesOn : Compile Bool
  draw : Nat → Compile Drawing
  isDone : Compile Bool

namespace Repetition

variable (m : Repetition) (c : Context)

/-- The first `k` turns are taken in full, and another one may follow. -/
inductive Taken : (k : Nat) → List Drawing → Context → Prop
  | none : Taken 0 [] c
  | turn {k : Nat} {ds : List Drawing} {d : Drawing} {t u v w : Context} (h : Taken k ds t) (hcount : m.count ≠ some k)
    (hgo : exec m.goesOn t = (.ok true, u)) (hdraw : exec (m.draw k) u = (.ok d, v))
    (hdone : exec m.isDone v = (.ok false, w)) : Taken (k + 1) (ds ++ [d]) w

/-- Behind the first `k` turns another one begins. -/
def Begun (k : Nat) (ds : List Drawing) (u : Context) : Prop :=
  ∃ t, m.Taken c k ds t ∧ m.count ≠ some k ∧ exec m.goesOn t = (.ok true, u)

/-- How the turns end when `drawn` of them have drawn something or failed to. -/
inductive Ends : (drawn : Nat) → Except Failure (List Drawing) → Context → Prop
  | counted {n : Nat} {ds : List Drawing} {t : Context} (h : m.Taken c n ds t) (hcount : m.count = some n) :
    Ends n (.ok ds) t
  | stopped {k : Nat} {ds : List Drawing} {t u : Context} (h : m.Taken c k ds t) (hcount : m.count ≠ some k)
    (hgo : exec m.goesOn t = (.ok false, u)) : Ends k (.ok ds) u
  | done {k : Nat} {ds : List Drawing} {d : Drawing} {u v w : Context} (h : m.Begun c k ds u)
    (hdraw : exec (m.draw k) u = (.ok d, v)) (hdone : exec m.isDone v = (.ok true, w)) :
    Ends (k + 1) (.ok (ds ++ [d])) w
  | untested {k : Nat} {ds : List Drawing} {t u : Context} {e : Failure} (h : m.Taken c k ds t)
    (hcount : m.count ≠ some k) (hgo : exec m.goesOn t = (.error e, u)) : Ends k (.error e) u
  | undrawn {k : Nat} {ds : List Drawing} {u v : Context} {e : Failure} (h : m.Begun c k ds u)
    (hdraw : exec (m.draw k) u = (.error e, v)) : Ends (k + 1) (.error e) v
  | undone {k : Nat} {ds : List Drawing} {d : Drawing} {u v w : Context} {e : Failure} (h : m.Begun c k ds u)
    (hdraw : exec (m.draw k) u = (.ok d, v)) (hdone : exec m.isDone v = (.error e, w)) : Ends (k + 1) (.error e) w

/-- How the turns end under a limit: as they do without it, or with a failure because one turn more begins. -/
inductive Outcome (limit : Nat) (refusal : Failure) : (drawn : Nat) → Except Failure (List Drawing) → Context → Prop
  | ends {n : Nat} {result : Except Failure (List Drawing)} {t : Context} (h : m.Ends c n result t) (hn : n ≤ limit) :
    Outcome limit refusal n result t
  | refused {ds : List Drawing} {u : Context} (h : m.Begun c limit ds u) :
    Outcome limit refusal limit (.error refusal) u

/-- None of the first `limit` turns changes the limit on turns. -/
def KeepsLimit (limit : Nat) : Prop :=
  ∀ k < limit, ∀ ds u, m.Begun c k ds u → (exec (m.draw k) u).2.options.loopLimit = u.options.loopLimit

variable {m c} {k n limit : Nat} {ds : List Drawing} {t u v : Context}

/-! ### What can happen -/

theorem Taken.le_count (h : m.Taken c k ds t) (hn : m.count = some n) : k ≤ n := by
  induction h with
  | none => exact Nat.zero_le n
  | @turn k _ _ _ _ _ _ _ hcount _ _ _ ih =>
    have hne : k ≠ n := by
      rintro rfl
      exact hcount hn
    omega

/-- Behind turns that are taken, the end is reached or the next turn begins. -/
theorem Taken.ends_or_begun (h : m.Taken c k ds t) : (∃ result u, m.Ends c k result u) ∨ ∃ u, m.Begun c k ds u := by
  by_cases hcount : m.count = some k
  · exact .inl ⟨_, _, .counted h hcount⟩
  · rcases hgo : exec m.goesOn t with ⟨e | _ | _, u⟩
    · exact .inl ⟨_, _, .untested h hcount hgo⟩
    · exact .inl ⟨_, _, .stopped h hcount hgo⟩
    · exact .inr ⟨u, t, h, hcount, hgo⟩

/-- A turn that begins ends the repetition or is taken in full. -/
theorem Begun.ends_or_taken (h : m.Begun c k ds u) :
    (∃ result v, m.Ends c (k + 1) result v) ∨ ∃ ds v, m.Taken c (k + 1) ds v := by
  rcases hdraw : exec (m.draw k) u with ⟨e | d, v⟩
  · exact .inl ⟨_, _, .undrawn h hdraw⟩
  · rcases hdone : exec m.isDone v with ⟨e | _ | _, w⟩
    · exact .inl ⟨_, _, .undone h hdraw hdone⟩
    · obtain ⟨t, ht, hcount, hgo⟩ := h
      exact .inr ⟨_, _, .turn ht hcount hgo hdraw hdone⟩
    · exact .inl ⟨_, _, .done h hdraw hdone⟩

theorem exists_ends_or_taken (m : Repetition) (c : Context) (k : Nat) :
    (∃ n ≤ k, ∃ result t, m.Ends c n result t) ∨ ∃ ds t, m.Taken c k ds t := by
  induction k with
  | zero => exact .inr ⟨[], c, .none⟩
  | succ k ih =>
    rcases ih with ⟨n, hn, hends⟩ | ⟨ds, t, h⟩
    · exact .inl ⟨n, Nat.le_succ_of_le hn, hends⟩
    · rcases h.ends_or_begun with hends | ⟨u, hu⟩
      · exact .inl ⟨k, Nat.le_succ k, hends⟩
      · exact hu.ends_or_taken.imp_left fun hends => ⟨k + 1, Nat.le_refl _, hends⟩

theorem exists_outcome (m : Repetition) (c : Context) (limit : Nat) (refusal : Failure) :
    ∃ n result t, m.Outcome c limit refusal n result t := by
  rcases exists_ends_or_taken m c limit with ⟨n, hn, result, t, h⟩ | ⟨ds, t, h⟩
  · exact ⟨n, result, t, .ends h hn⟩
  · rcases h.ends_or_begun with ⟨result, u, hends⟩ | ⟨u, hu⟩
    · exact ⟨limit, result, u, .ends hends (Nat.le_refl _)⟩
    · exact ⟨limit, _, u, .refused hu⟩

theorem Outcome.le {refusal : Failure} {result : Except Failure (List Drawing)}
    (h : m.Outcome c limit refusal n result t) : n ≤ limit := by
  cases h with
  | ends _ hn => exact hn
  | refused _ => exact Nat.le_refl _

/-- Without tests, a repetition that does not fail takes as many turns as its number. -/
theorem Outcome.taken {refusal : Failure} (h : m.Outcome c limit refusal n (.ok ds) t) (hgo : m.goesOn = pure true)
    (hdone : m.isDone = pure false) (hcount : m.count = some k) : m.Taken c k ds t := by
  cases h with
  | ends h _ =>
    cases h with
    | counted h hn =>
      cases hcount.symm.trans hn
      exact h
    | stopped _ _ hstop =>
      rw [hgo] at hstop
      cases hstop
    | done _ _ hlast =>
      rw [hdone] at hlast
      cases hlast

/-! ### The program -/

/-- Take a turn, unless the test in front of it fails. The turn has to be allowed. -/
def turn (m : Repetition) (allow : Nat → Compile Unit) (k : Nat) : Compile Turn := do
  if ← m.goesOn then
    allow k
    let d ← m.draw k
    return .drawn d (← m.isDone)
  else return .over

/-- Take turns that are allowed. -/
def run (m : Repetition) (allow : Nat → Compile Unit) (fuel : Nat) : Compile (List Drawing) :=
  turns (m.turn allow) m.count fuel 0 []

section Allowed

variable {allow : Nat → Compile Unit} {fuel : Nat} {refusal : Failure}
  (hallow : ∀ {k ds u}, k < limit → m.Begun c k ds u → exec (allow k) u = (.ok (), u))
  (hfuel : m.count = some fuel ∨ m.count = none ∧ limit < fuel)

theorem exec_turn (hgo : exec m.goesOn t = (.ok true, u)) (h : exec (allow k) u = (.ok (), u)) :
    exec (m.turn allow k) t = exec (do let d ← m.draw k; return Turn.drawn d (← m.isDone)) u := by
  unfold turn
  rw [exec_bind_ok hgo, if_pos rfl, exec_bind_ok h]

include hfuel in
theorem lt_fuel (h : m.Taken c k ds t) (hk : k ≤ limit) (hcount : m.count ≠ some k) : k < fuel := by
  rcases hfuel with hn | ⟨-, hlt⟩
  · have hle := h.le_count hn
    have hne : k ≠ fuel := by
      rintro rfl
      exact hcount hn
    omega
  · omega

/-- The program, when `k` turns are done and it is not at its count, takes the next turn. -/
theorem exec_turns {turn : Nat → Compile Turn} {count : Option Nat} (hcount : count ≠ some k) (fuel : Nat)
    (acc : List Drawing) (t : Context) :
    exec (turns turn count (fuel + 1) k acc) t = match exec (turn k) t with
      | (.error e, u) => (.error e, u)
      | (.ok .over, u) => (.ok acc.reverse, u)
      | (.ok (.drawn d true), u) => (.ok (d :: acc).reverse, u)
      | (.ok (.drawn d false), u) => exec (turns turn count fuel (k + 1) (d :: acc)) u := by
  rw [turns, if_neg (by simpa using hcount), exec_bind]
  rcases exec (turn k) t with ⟨e | _ | ⟨d, _ | _⟩, u⟩ <;> rfl

include hallow hfuel

/-- Behind the turns that are taken, the program goes on with the next. -/
theorem exec_run_of_taken (h : m.Taken c k ds t) (hk : k ≤ limit) :
    exec (m.run allow fuel) c = exec (turns (m.turn allow) m.count (fuel - k) k ds.reverse) t := by
  induction h with
  | none => rfl
  | @turn k ds d t u v w h hcount hgo hdraw hdone ih =>
    have hlt : k < fuel := lt_fuel hfuel h (Nat.le_of_succ_le hk) hcount
    have hallowed : exec (allow k) u = (.ok (), u) := hallow hk ⟨t, h, hcount, hgo⟩
    have hturn : exec (m.turn allow k) t = (.ok (.drawn d false), w) := by
      rw [exec_turn hgo hallowed, exec_bind_ok hdraw, exec_bind_ok hdone, exec_pure]
    rw [ih (Nat.le_of_succ_le hk), show fuel - k = fuel - (k + 1) + 1 by omega, exec_turns hcount, hturn]
    simp

/-- Behind the turns that are taken, the next turn decides how the program ends. -/
theorem exec_run_of_turn (h : m.Taken c k ds t) (hk : k ≤ limit) (hcount : m.count ≠ some k) :
    exec (m.run allow fuel) c = match exec (m.turn allow k) t with
      | (.error e, u) => (.error e, u)
      | (.ok .over, u) => (.ok ds, u)
      | (.ok (.drawn d true), u) => (.ok (ds ++ [d]), u)
      | (.ok (.drawn d false), u) =>
        exec (turns (m.turn allow) m.count (fuel - (k + 1)) (k + 1) (d :: ds.reverse)) u := by
  have hlt : k < fuel := lt_fuel hfuel h hk hcount
  rw [exec_run_of_taken hallow hfuel h hk, show fuel - k = fuel - (k + 1) + 1 by omega, exec_turns hcount]
  simp

/-- A turn that begins below the limit is allowed, so what it draws and the test behind it decide. -/
theorem exec_run_of_begun (h : m.Begun c k ds u) (hk : k < limit) :
    exec (m.run allow fuel) c = match exec (m.draw k) u with
      | (.error e, v) => (.error e, v)
      | (.ok d, v) => match exec m.isDone v with
        | (.error e, w) => (.error e, w)
        | (.ok true, w) => (.ok (ds ++ [d]), w)
        | (.ok false, w) => exec (turns (m.turn allow) m.count (fuel - (k + 1)) (k + 1) (d :: ds.reverse)) w := by
  have hallowed : exec (allow k) u = (.ok (), u) := hallow hk h
  obtain ⟨t, ht, hcount, hgo⟩ := h
  rw [exec_run_of_turn hallow hfuel ht hk.le hcount, exec_turn hgo hallowed, exec_bind]
  rcases exec (m.draw k) u with ⟨e | d, v⟩
  · rfl
  · simp only [exec_bind]
    rcases exec m.isDone v with ⟨e | _ | _, w⟩ <;> rfl

theorem exec_run_of_ends {result : Except Failure (List Drawing)} (h : m.Ends c n result t) (hn : n ≤ limit) :
    exec (m.run allow fuel) c = (result, t) := by
  cases h with
  | counted h hcount =>
    rw [exec_run_of_taken hallow hfuel h hn]
    cases fuel - n <;> simp [turns, hcount]
  | @stopped _ ds s _ h hcount hgo =>
    have hturn : exec (m.turn allow n) s = (.ok .over, t) := by
      unfold turn
      rw [exec_bind_ok hgo]
      rfl
    rw [exec_run_of_turn hallow hfuel h hn hcount, hturn]
  | @untested _ ds s _ e h hcount hgo =>
    have hturn : exec (m.turn allow n) s = (.error e, t) := exec_bind_error hgo
    rw [exec_run_of_turn hallow hfuel h hn hcount, hturn]
  | done h hdraw hdone =>
    rw [exec_run_of_begun hallow hfuel h hn, hdraw]
    simp only [hdone]
  | undrawn h hdraw => rw [exec_run_of_begun hallow hfuel h hn, hdraw]
  | undone h hdraw hdone =>
    rw [exec_run_of_begun hallow hfuel h hn, hdraw]
    simp only [hdone]

/-- The program ends as is asked for, or with the turn that is refused. -/
theorem exec_run_eq_iff (hrefuse : ∀ {ds u}, m.Begun c limit ds u → exec (allow limit) u = (.error refusal, u))
    {out : Except Failure (List Drawing)} :
    exec (m.run allow fuel) c = (out, t) ↔ ∃ n, m.Outcome c limit refusal n out t := by
  have hends : ∀ {n out t}, m.Outcome c limit refusal n out t → exec (m.run allow fuel) c = (out, t) := by
    intro n out t h
    cases h with
    | ends h hn => exact exec_run_of_ends hallow hfuel h hn
    | refused h =>
      have hrefused : exec (allow limit) t = (.error refusal, t) := hrefuse h
      obtain ⟨s, hs, hcount, hgo⟩ := h
      have hturn : exec (m.turn allow limit) s = (.error refusal, t) := by
        unfold turn
        rw [exec_bind_ok hgo, if_pos rfl, exec_bind_error hrefused]
      rw [exec_run_of_turn hallow hfuel hs (Nat.le_refl _) hcount, hturn]
  constructor
  · intro hrun
    obtain ⟨n, result, u, h⟩ := exists_outcome m c limit refusal
    cases hrun.symm.trans (hends h)
    exact ⟨n, h⟩
  · rintro ⟨n, h⟩
    exact hends h

end Allowed

end Repetition

/-! ## What is asked for -/

/-- The texts that the variable of a loop takes: a number and its steps, or the items of a list. -/
inductive Series where
  | steps (start step : Float)
  | items (xs : List String)

/-- The text in turn `k`. -/
def Series.value : Series → Nat → String
  | .steps start step, k => Number.fixedText (start + Number.ofInt k * step)
  | .items xs, k => xs.getD k ""

/-- What a loop asks for: a number of turns, tests, and the variables of its turns. The variables may be malformed. -/
structure Request where
  el : Element
  number : Option Int := none
  while? : Option String := none
  until? : Option String := none
  /-- The name of the variable, or nothing. -/
  name : String
  /-- The name of the variable that counts the turns, or nothing. -/
  index : String := ""
  /-- What is checked in front of each turn. -/
  allow : Nat → Compile Unit := fun _ => pure ()
  series : Compile Series

namespace Request

/-- The variables of turn `k`. -/
def vars (r : Request) (series : Series) (k : Nat) : Frame :=
  let vars : Frame := r.el.attrs.entries
  let vars := if r.name == "" then vars else vars.put r.name (series.value k)
  if r.index == "" then vars else vars.put r.index (toString k)

/-- The turns that are asked for. A number that is too large to be read became a negative one; it counts as none. -/
def repetition (r : Request) (inside : Inside) (children : List Node) (order : Order) (series : Series) :
    Repetition where
  count := r.number.bind fun n => if n < 0 then none else some n.toNat
  goesOn := testHolds r.el "while" true r.while?
  draw k := body inside r.el children (order.sub k) (r.vars series k)
  isDone := testHolds r.el "until" false r.until?

/-- Check a number of turns. -/
def check (el : Element) (n : Int) : Compile Unit := do ofExcept ((← get).checkLoop (some el) n)

/-- Check the number of turns that is asked for, if there is one. -/
def checkNumber (el : Element) : Option Int → Compile Unit
  | none => pure ()
  | some n => check el n

/-- Take the turns that are asked for. -/
def run (r : Request) (inside : Inside) (children : List Node) (order : Order) (bound : Nat) : Compile Drawing := do
  checkNumber r.el r.number
  let series ← r.series
  let m := r.repetition inside children order series
  return .concat (← m.run r.allow (m.count.getD bound))

end Request

namespace Control

/-- The number in `count`, if it is given. -/
def countOf (el : Element) : Compile (Option Int) :=
  match el.get? "count" with
  | none => return none
  | some v => do
    match (← eval el "count" v).number? with
    | none => raise .parse el "" (.loopCount v)
    | some x =>
      if x < 0 || x != Number.trunc x then raise .parse el "" (.loopCount v) else return some (Number.toInt x)

/-- What a loop by number or by test asks for. -/
def loopRequest (el : Element) (order : Order) : Compile Request := do
  let while? := el.get? "while"
  let until? := el.get? "until"
  let el := { el.eraseAll ["while", "until"] with order := order }
  setCurrent el
  let el ← expandElement el
  setCurrent el
  return {
    el := el
    number := ← countOf el
    while? := while?
    until? := until?
    name := el.attrs.value "var"
    allow := fun k => Request.check el (k + 1)
    series := do
      checkForm el while? until?
      return .steps (← loopNumber el "start" 0) (← loopNumber el "step" 1) }

/-- What a loop over a list asks for. -/
def eachRequest (el : Element) (order : Order) : Compile Request := do
  let el := { el with order := order }
  setCurrent el
  let el ← expandElement el
  setCurrent el
  match el.get? "data" with
  | none => raise .parse el "" .forData
  | some data =>
    let xs ← items el data
    return {
      el := el
      number := some xs.length
      name := if el.attrs.value "var" == "" then "item" else el.attrs.value "var"
      index := el.attrs.value "idx-var"
      series := return .items xs }

theorem loopCount_eq (el : Element) : loopCount el = do
    let number ← countOf el
    Request.checkNumber el number
    return number.bind fun n => if n < 0 then none else some n.toNat := by
  unfold loopCount countOf
  cases el.get? "count" with
  | none => simp [Request.checkNumber]
  | some v =>
    simp only [bind_assoc]
    refine bind_congr fun x => ?_
    cases x.number? with
    | none => rfl
    | some x =>
      simp only
      split
      · rfl
      · simp only [Request.checkNumber, Request.check, pure_bind, bind_assoc, Option.bind_some]

/-- A loop takes the turns it asks for; each is checked against the limit. -/
theorem loop_eq (bound : Nat) (inside : Inside) (el : Element) (children : List Node) (order : Order) :
    loop bound inside el children order = (do
      let r ← loopRequest el order
      r.run inside children r.el.order bound) := by
  unfold loop loopRequest Request.run
  simp only [loopCount_eq, bind_assoc, pure_bind]
  rfl

/-- Turns without tests draw the items of a list one after the other. -/
theorem turns_eq_mapM {draw : Nat → Compile Drawing} {f : String × Nat → Compile Drawing} {n : Nat} :
    ∀ (xs : List String) (k : Nat) (acc : List Drawing), n = k + xs.length → (∀ p ∈ xs.zipIdx k, f p = draw p.2) →
      turns (fun k => do let d ← draw k; return .drawn d false) (some n) xs.length k acc = (do
        let ds ← (xs.zipIdx k).mapM f
        return acc.reverse ++ ds)
  | [], k, acc, hn, _ => by simp [turns, hn]
  | x :: xs, k, acc, hn, h => by
    obtain ⟨hx, hxs⟩ := List.forall_mem_cons.1 h
    rw [List.length_cons] at hn ⊢
    rw [turns, if_neg (by simp; omega), List.zipIdx_cons, List.mapM_cons, hx]
    simp only [bind_assoc, pure_bind]
    refine bind_congr fun d => ?_
    rw [turns_eq_mapM xs (k + 1) (d :: acc) (by omega) hxs]
    simp

/-- A loop over a list takes the turns it asks for; their number is checked once. -/
theorem each_eq (bound : Nat) (inside : Inside) (el : Element) (children : List Node) (order : Order) :
    each inside el children order = (do
      let r ← eachRequest el order
      r.run inside children order bound) := by
  unfold each eachRequest Request.run
  simp only [bind_assoc]
  refine bind_congr fun _ => bind_congr fun el => bind_congr fun _ => ?_
  cases el.get? "data" with
  | none => rfl
  | some data =>
    simp only [bind_assoc, pure_bind]
    refine bind_congr fun xs => ?_
    simp only [Request.checkNumber, Request.check, bind_assoc]
    refine bind_congr fun c => bind_congr fun _ => ?_
    generalize hr : (Request.mk el _ _ _ _ _ _ _) = r
    have hcount : (r.repetition inside children order (.items xs)).count = some xs.length := by
      rw [← hr]
      simp [Request.repetition]
    have hturn : (r.repetition inside children order (.items xs)).turn (fun _ => pure ()) =
        fun k => do let d ← (r.repetition inside children order (.items xs)).draw k; return .drawn d false := by
      funext k
      rw [← hr]
      simp [Repetition.turn, Request.repetition, testHolds]
    have hname : (r.name == "") = false := by
      rw [← hr]
      simp only
      split
      · rfl
      · next h => simpa using h
    unfold Repetition.run
    rw [hcount, hturn, Option.getD_some, turns_eq_mapM xs 0 [] (by simp) fun p hp => ?_]
    · simp only [bind_assoc, pure_bind]
      rfl
    · obtain ⟨x, k⟩ := p
      have hx : xs[k]? = some x := by simpa [List.mem_zipIdx_iff_getElem?] using hp
      simp only [Request.repetition, Request.vars, Series.value, List.getD_eq_getElem?_getD, hx, Option.getD_some,
        hname]
      rw [← hr]
      rfl

end Control

/-- What a loop asks for. -/
def request (el : Element) (order : Order) : Compile Request :=
  match Role.ofName el.name with
  | .each => eachRequest el order
  | _ => loopRequest el order

/-! ## The limit -/

namespace Request

variable {el : Element} {order : Order} {c : Context}

theorem exec_check (el : Element) (n : Int) (c : Context) : exec (check el n) c =
    if c.options.loopLimit < n then (.error (.limit (some el) "loop iterations" n c.options.loopLimit), c)
    else (.ok (), c) := by
  unfold check
  rw [exec_bind_ok (exec_get c), exec_ofExcept]
  unfold Context.checkLoop
  split <;> rfl

/-- A request is in order: its element is at its place, its variables are found without a change of the options, items
ask for as many turns and for no tests, and either each turn is checked or the number of turns is given. -/
structure Sound (order : Order) (r : Request) : Prop where
  order : r.el.order = order
  series : Calm r.series
  items : Yields r.series fun series =>
    ∀ xs, series = .items xs → r.number = some (xs.length : Int) ∧ r.while? = none ∧ r.until? = none
  checked : r.allow = (fun k : Nat => check r.el (k + 1)) ∨
    (r.allow = fun _ => pure ()) ∧ ∃ n : Nat, r.number = some (n : Int)

theorem calm_testHolds (el : Element) (attr : String) (default : Bool) (test : Option String) :
    Calm (testHolds el attr default test) := fun _ _ _ _ => meets_testHolds el attr default test

theorem calm_countOf (el : Element) : Calm (countOf el) := by
  intro o d depth s
  unfold countOf
  split
  · exact .pure trivial
  · refine .bind (Regime.meets_eval _ _ _) fun v _ => ?_
    split
    · exact Regime.meets_raise _ _ _ _
    split
    · exact Regime.meets_raise _ _ _ _
    · exact .pure trivial

theorem calm_checkForm (el : Element) (while? until? : Option String) : Calm (checkForm el while? until?) := by
  intro o d depth s
  unfold checkForm
  split
  · exact .pure trivial
  · exact Regime.meets_raise _ _ _ _

theorem calm_expandElement (el : Element) : Calm (expandElement el) :=
  fun _ _ _ _ => (Regime.meets_expandElement fun _ _ => trivial).mono fun _ _ => trivial

theorem calm_setCurrent (el : Element) : Calm (setCurrent el) := fun _ _ _ _ => Regime.meets_setCurrent el

theorem calm_pure {α : Type} (a : α) : Calm (pure a : Compile α) := fun _ _ _ _ => .pure trivial

theorem calm_request (el : Element) (order : Order) : Calm (request el order) := by
  have calm_each : Calm (eachRequest el order) := by
    unfold eachRequest
    refine .bind (calm_setCurrent _) fun _ => .bind (calm_expandElement _) fun el => ?_
    refine .bind (calm_setCurrent _) fun _ => ?_
    split
    · exact fun _ _ _ _ => Regime.meets_raise _ _ _ _
    · exact .bind (fun _ _ _ _ => meets_items _ _) fun xs => calm_pure _
  have calm_loop : Calm (loopRequest el order) := by
    unfold loopRequest
    refine .bind (calm_setCurrent _) fun _ => .bind (calm_expandElement _) fun el => ?_
    refine .bind (calm_setCurrent _) fun _ => ?_
    exact .bind (calm_countOf el) fun _ => calm_pure _
  unfold request
  split
  · exact calm_each
  · exact calm_loop

theorem sound_request (el : Element) (order : Order) : Yields (request el order) (Sound order) := by
  unfold request
  split
  · unfold eachRequest
    refine .after fun _ => .bind (keeps_expandElement _) fun el hel => .after fun _ => ?_
    split
    · exact .throw
    · refine .after fun xs => .pure ⟨hel.2, calm_pure _, .pure ?_, .inr ⟨rfl, xs.length, rfl⟩⟩
      rintro _ ⟨⟩
      exact ⟨rfl, rfl, rfl⟩
  · unfold loopRequest
    refine .after fun _ => .bind (keeps_expandElement _) fun el hel => .after fun _ => .after fun number => ?_
    refine .pure ⟨hel.2, ?_, .after fun _ => .after fun _ => .after fun _ => .pure nofun, .inl rfl⟩
    refine .bind (calm_checkForm _ _ _) fun _ => ?_
    refine .bind (fun _ _ _ _ => meets_loopNumber _ _ _) fun start => ?_
    exact .bind (fun _ _ _ _ => meets_loopNumber _ _ _) fun step => calm_pure _

end Request

/-- If no turn changes the limit, it stays as it is behind any number of turns. -/
theorem Repetition.KeepsLimit.loopLimit {m : Repetition} {c t : Context} {k limit : Nat} {ds : List Drawing}
    (h : m.KeepsLimit c limit) (hgo : Calm m.goesOn) (hdone : Calm m.isDone) (ht : m.Taken c k ds t) (hk : k ≤ limit) :
    t.options.loopLimit = c.options.loopLimit := by
  induction ht with
  | none => rfl
  | @turn k ds d t u v w ht hcount hgoes hdraw hends ih =>
    have hu : u.options = t.options := by
      rw [← hgo.options t, hgoes]
    have hv : v.options.loopLimit = u.options.loopLimit := by
      rw [← h k hk ds u ⟨t, ht, hcount, hgoes⟩, hdraw]
    have hw : w.options = v.options := by
      rw [← hdone.options v, hends]
    rw [hw, hv, hu, ih (Nat.le_of_succ_le hk)]

theorem Repetition.KeepsLimit.loopLimit_of_begun {m : Repetition} {c u : Context} {k limit : Nat} {ds : List Drawing}
    (h : m.KeepsLimit c limit) (hgo : Calm m.goesOn) (hdone : Calm m.isDone) (hu : m.Begun c k ds u) (hk : k ≤ limit) :
    u.options.loopLimit = c.options.loopLimit := by
  obtain ⟨t, ht, -, hgoes⟩ := hu
  rw [← h.loopLimit hgo hdone ht hk, ← hgo.options t, hgoes]

namespace Request

variable {r : Request} {inside : Inside} {children : List Node} {order : Order} {series : Series} {c t u v : Context}

/-- A number beyond the limit is refused in advance. -/
theorem exec_checkNumber_error {n : Int} (hn : r.number = some n) (hlt : c.options.loopLimit < n) :
    exec (checkNumber r.el r.number) c = (.error (.limit (some r.el) "loop iterations" n c.options.loopLimit), c) := by
  rw [hn]
  show exec (check r.el n) c = _
  rw [exec_check, if_pos hlt]

theorem exec_checkNumber_ok (h : ∀ n, r.number = some n → n ≤ c.options.loopLimit) :
    exec (checkNumber r.el r.number) c = (.ok (), c) := by
  cases hn : r.number with
  | none => rfl
  | some n =>
    show exec (check r.el n) c = _
    rw [exec_check, if_neg (Int.not_lt.2 (h n hn))]

section Limited

variable {m : Repetition} {limit : Int} {bound : Nat} (hm : r.repetition inside children order series = m)
  (hr : r.Sound order) (hu : u.options.loopLimit = limit) (hle : ∀ n, r.number = some n → n ≤ limit)
  (hkeep : m.KeepsLimit u limit.toNat)

include hm hle in
/-- A number that is given is never passed. -/
theorem lt_of_begun {k n : Nat} {ds : List Drawing} (h : m.Begun u k ds v) (hn : r.number = some (n : Int)) :
    k < limit.toNat := by
  obtain ⟨t, ht, hne, -⟩ := h
  have hcount : m.count = some n := by
    rw [← hm]
    simp [repetition, hn]
  have hk := ht.le_count hcount
  have hkn : k ≠ n := by
    rintro rfl
    exact hne hcount
  have hnl := hle n hn
  omega

include hm hr hu hle hkeep

/-- Without a change of the limit, the turns end as is asked for or with the first turn beyond the limit. -/
theorem exec_turns_eq_iff (hbound : limit.toNat < bound) {out : Except Failure (List Drawing)} :
    exec (m.run r.allow (m.count.getD bound)) u = (out, v) ↔
      ∃ n, m.Outcome u limit.toNat (.limit (some r.el) "loop iterations" (limit.toNat + 1) limit) n out v := by
  have hlimit : ∀ {k ds v}, m.Begun u k ds v → k ≤ limit.toNat → v.options.loopLimit = limit := fun hv hk =>
    (hkeep.loopLimit_of_begun (hm ▸ calm_testHolds _ _ _ _) (hm ▸ calm_testHolds _ _ _ _) hv hk).trans hu
  refine Repetition.exec_run_eq_iff (fun {k ds v} hk hv => ?_) ?_ fun {ds v} hv => ?_
  · rcases hr.checked with hallow | ⟨hallow, -⟩
    · rw [hallow]
      show exec (check r.el (k + 1)) v = _
      rw [exec_check, hlimit hv hk.le, if_neg (by omega)]
    · rw [hallow]
      rfl
  · cases m.count with
    | none => exact .inr ⟨rfl, hbound⟩
    | some n => exact .inl rfl
  · rcases hr.checked with hallow | ⟨-, n, hn⟩
    · rw [hallow]
      show exec (check r.el (limit.toNat + 1)) v = _
      rw [exec_check, hlimit hv (Nat.le_refl _), if_pos (by omega)]
    · exact absurd (lt_of_begun hm hle hv hn) (Nat.lt_irrefl _)

/-- The drawings of the turns stand one behind the other. -/
theorem exec_run_eq_iff (ht : t.options.loopLimit = limit) (hs : exec r.series t = (.ok series, u))
    (hbound : limit.toNat < bound) {out : Except Failure Drawing} :
    exec (r.run inside children order bound) t = (out, v) ↔ ∃ n ≤ limit.toNat, ∃ result,
      m.Outcome u limit.toNat (.limit (some r.el) "loop iterations" (limit.toNat + 1) limit) n result v ∧
        out = result.map Drawing.concat := by
  have hrun : exec (r.run inside children order bound) t =
      exec (do return Drawing.concat (← m.run r.allow (m.count.getD bound))) u := by
    unfold run
    rw [exec_bind_ok (exec_checkNumber_ok (ht ▸ hle)), exec_bind_ok hs, hm]
  rw [hrun, exec_bind]
  constructor
  · intro hout
    rcases hresult : exec (m.run r.allow (m.count.getD bound)) u with ⟨result, w⟩
    obtain ⟨n, houtcome⟩ := (exec_turns_eq_iff hm hr hu hle hkeep hbound).1 hresult
    rw [hresult] at hout
    refine ⟨n, houtcome.le, result, ?_⟩
    cases result <;> cases hout <;> exact ⟨houtcome, rfl⟩
  · rintro ⟨n, -, result, houtcome, rfl⟩
    rw [(exec_turns_eq_iff hm hr hu hle hkeep hbound).2 ⟨n, houtcome⟩]
    cases result <;> rfl

end Limited

end Request

section Element

variable {turns levels : Nat} {el : Element} {children : List Node} {order : Order} {c : Context}

/-- A loop takes the turns it asks for. -/
theorem exec_drawElement (hrole : Role.ofName el.name = .loop ∨ Role.ofName el.name = .each) :
    exec (drawElement turns (levels + 1) el children order) c = exec (do
      let r ← request el order
      r.run (Siblings.draw (drawNode (drawElement turns levels))) children order turns) c := by
  unfold drawElement
  rcases hrole with hrole | hrole
  · have hrequest : request el order = loopRequest el order := by
      unfold request
      rw [hrole]
    simp only [hrole, loop_eq, hrequest]
    have hsound := (Request.sound_request el order c trivial).2
    rw [hrequest] at hsound
    rw [exec_bind, exec_bind]
    rcases hrun : exec (loopRequest el order) c with ⟨e | r, t⟩
    · rfl
    · rw [hrun] at hsound
      simp only [(hsound r rfl).order]
  · have hrequest : request el order = eachRequest el order := by
      unfold request
      rw [hrole]
    simp only [hrole, each_eq turns, hrequest]

end Element

end DiagramMarkup
