import DiagramMarkup.Proofs.Repetitions
import DiagramMarkup.Proofs.Wholes

/-!
# Numbers of turns

The number of turns of a loop is the value of an expression, read as an integer of 64 bits. A whole number within that
range is compared with the limit before anything is drawn. One beyond the range reads as a negative integer, which
stands for no number at all, so the limit never meets it (`excessive_number`).
-/

namespace DiagramMarkup

open Compile Control

namespace Control

/-- A loop up to its number of turns: the element with its attributes expanded, and the value of the number if it is
given. -/
def counted (el : Element) (order : Order) : Compile (Element × Option Expr.Value) := do
  let el := { el.eraseAll ["while", "until"] with order := order }
  setCurrent el
  let el ← expandElement el
  setCurrent el
  match el.get? "count" with
  | none => return (el, none)
  | some v => return (el, some (← eval el "count" v))

/-- What the loop `el`, whose expanded element is `loop`, asks for with a number of turns. -/
def asked (el loop : Element) (number : Option Int) : Request where
  el := loop
  number := number
  while? := el.get? "while"
  until? := el.get? "until"
  name := loop.attrs.value "var"
  allow := fun k => Request.check loop (k + 1)
  series := do
    checkForm loop (el.get? "while") (el.get? "until")
    return .steps (← loopNumber loop "start" 0) (← loopNumber loop "step" 1)

variable {el loop : Element} {order : Order} {c t : Context} {v : Expr.Value} {x : Float}

/-- A loop that has a value for its number of turns asks for the integer of that value, if it is whole and not
negative. -/
theorem exec_loopRequest (hcounted : exec (counted el order) c = (.ok (loop, some v), t)) (hnumber : v.number? = some x)
    (hpasses : (x < 0 || x != Number.trunc x) = false) :
    exec (loopRequest el order) c = (.ok (asked el loop (some (Number.toInt x))), t) := by
  unfold counted at hcounted
  obtain ⟨_, t₁, hcurrent, hcounted⟩ := exec_bind_eq_ok hcounted
  obtain ⟨expanded, t₂, hexpand, hcounted⟩ := exec_bind_eq_ok hcounted
  obtain ⟨_, t₃, hcurrent', hcounted⟩ := exec_bind_eq_ok hcounted
  unfold loopRequest
  rw [exec_bind_ok hcurrent, exec_bind_ok hexpand, exec_bind_ok hcurrent']
  cases hcount : expanded.get? "count" with
  | none =>
    rw [hcount] at hcounted
    cases hcounted
  | some s =>
    simp only [hcount] at hcounted
    obtain ⟨w, t₄, heval, hcounted⟩ := exec_bind_eq_ok hcounted
    cases hcounted
    have hcountOf : exec (countOf loop) t₃ = (.ok (some (Number.toInt x)), t) := by
      unfold countOf
      simp only [hcount]
      rw [exec_bind_ok heval]
      simp only [hnumber, hpasses]
      rfl
    rw [exec_bind_ok hcountOf]
    rfl

end Control

/-- A negative number of turns within the limit is no number. -/
theorem Request.run_negative {el loop : Element} {n : Int} (hn : n < 0) {inside : Inside} {children : List Node}
    {order : Order} {bound : Nat} {t : Context} (hle : n ≤ t.options.loopLimit) :
    exec ((asked el loop (some n)).run inside children order bound) t =
      exec ((asked el loop none).run inside children order bound) t := by
  have hnumber : ∀ k, (asked el loop (some n)).number = some k → k ≤ t.options.loopLimit := by
    rintro _ ⟨⟩
    exact hle
  have hsame : ∀ series, (asked el loop (some n)).repetition inside children order series =
      (asked el loop none).repetition inside children order series := by
    intro series
    have hnone : ((some n).bind fun n => if n < 0 then none else some n.toNat) = none := if_pos hn
    unfold repetition
    simp only [asked, hnone]
    rfl
  unfold run
  rw [exec_bind_ok (exec_checkNumber_ok hnumber), exec_bind_ok (exec_checkNumber_ok (r := asked el loop none) nofun)]
  simp only [hsame]
  rfl

section Loop

variable {turns levels : Nat} {el loop : Element} {children : List Node} {order : Order} {c t : Context}
  {v : Expr.Value} {x : Float} {n : Nat}

/-- A whole number of turns above the limit is refused before the content is drawn, if it is below `2 ^ 63`. A greater
one is not seen: the loop turns as if it had no number, as its tests and the limit allow. -/
theorem excessive_number (hrole : Role.ofName el.name = .loop)
    (hcounted : exec (counted el order) c = (.ok (loop, some v), t)) (hnumber : v.number? = some x)
    (hx : Number.Denotes x n) (hn : c.options.loopLimit < n) :
    let inside := Siblings.draw (drawNode (drawElement turns levels))
    let drawn := exec (drawElement turns (levels + 1) el children order) c
    let limit := c.options.loopLimit
    (n < 2 ^ 63 → drawn = (.error (.limit (some loop) "loop iterations" n limit), t)) ∧
      (2 ^ 63 ≤ n → -2 ^ 63 ≤ limit → drawn = exec ((asked el loop none).run inside children order turns) t) := by
  intro inside drawn limit
  have hrequest : request el order = loopRequest el order := by
    unfold request
    rw [hrole]
  have hasked := exec_loopRequest hcounted hnumber (Number.passes_of_denotes hx)
  have hdrawn : drawn = exec ((asked el loop (some (Number.toInt x))).run inside children order turns) t := by
    show exec (drawElement turns (levels + 1) el children order) c = _
    rw [exec_drawElement (.inl hrole), hrequest, exec_bind_ok hasked]
  have ht : t.options.loopLimit = limit := by
    have hcalm := (Request.calm_request el order).options c
    rw [hrequest, hasked] at hcalm
    exact congrArg Options.loopLimit hcalm
  have hleast : Number.leastInt = -2 ^ 63 := rfl
  have hgreatest : Number.greatestInt = 2 ^ 63 - 1 := rfl
  have hint := Number.toInt_of_denotes (n := n) hx
  refine ⟨fun hlt => ?_, fun hge hlimit => ?_⟩
  · rw [if_pos (by omega)] at hint
    rw [hdrawn, hint]
    unfold Request.run
    rw [exec_bind_error (Request.exec_checkNumber_error (r := asked el loop (some n)) rfl (ht ▸ hn)), ht]
    rfl
  · rw [if_neg (by omega)] at hint
    rw [hdrawn, hint]
    exact Request.run_negative (by omega) (by omega)

end Loop

/-- A loop that stops behind its first turn. -/
def stoppedLoop (count : String) : Element := .ofAttrs "loop" [("count", count), ("until", "1")]

/-- A circle. -/
def onlyCircle : List Node := [.element (.ofAttrs "circle" [("r", "1")]) []]

/-- The number of turns, when its value is found. -/
theorem exists_counted (el : Element) (order : Order) (c : Context) (e : Number.Exact) (n : Nat)
    (h : ((exec (counted el order) c).1.toOption.bind fun p => p.2.bind fun v => v.number?.map Number.reading) =
      some (.finite e))
    (hn : e.hasFraction = false ∧ e.truncate = n) :
    ∃ loop v x t, exec (counted el order) c = (.ok (loop, some v), t) ∧ v.number? = some x ∧ Number.Denotes x n := by
  rcases hcounted : exec (counted el order) c with ⟨_ | ⟨loop, _ | v⟩, t⟩
  · rw [hcounted] at h
    cases h
  · rw [hcounted] at h
    cases h
  · rw [hcounted] at h
    obtain ⟨x, hx, hreading⟩ := Option.map_eq_some_iff.1 h
    have hvalue : e.value = ((n : Int) : ℚ) := Number.Exact.value_eq_iff.2 hn
    exact ⟨loop, v, x, t, rfl, hx, e, hreading, hvalue⟩

/-- Two thousand turns are refused under a limit of one thousand, and `2 ^ 63` turns are not seen. -/
theorem excessive_number_stopped :
    (∃ loop t, exec (drawElement 1001 3 (stoppedLoop "2000") onlyCircle ⟨[0]⟩) (.new {}) =
      (.error (.limit (some loop) "loop iterations" 2000 1000), t)) ∧
    ∃ loop t, exec (drawElement 1001 3 (stoppedLoop "9223372036854775808") onlyCircle ⟨[0]⟩) (.new {}) =
      exec ((asked (stoppedLoop "9223372036854775808") loop none).run (Siblings.draw (drawNode (drawElement 1001 2)))
        onlyCircle ⟨[0]⟩ 1001) t := by
  have hlimit : (Context.new {}).options.loopLimit = 1000 := rfl
  constructor
  · obtain ⟨loop, v, x, t, hcounted, hnumber, hx⟩ := exists_counted (stoppedLoop "2000") ⟨[0]⟩ (.new {})
      ⟨false, 2000 * 2 ^ 42, -42⟩ 2000 (by decide +kernel) (by decide +kernel)
    exact ⟨loop, t, (excessive_number (by decide +kernel) hcounted hnumber hx (by rw [hlimit]; decide)).1 (by decide)⟩
  · obtain ⟨loop, v, x, t, hcounted, hnumber, hx⟩ := exists_counted (stoppedLoop "9223372036854775808") ⟨[0]⟩ (.new {})
      ⟨false, 2 ^ 52, 11⟩ (2 ^ 63) (by decide +kernel) (by decide +kernel)
    exact ⟨loop, t, (excessive_number (by decide +kernel) hcounted hnumber hx (by rw [hlimit]; decide)).2 le_rfl
      (by rw [hlimit]; decide)⟩

/-- A loop that asks for `2 ^ 63` turns draws its content under a limit of one thousand. -/
theorem draws_excessive_number :
    ∃ loop v x t, exec (counted (stoppedLoop "9223372036854775808") ⟨[0]⟩) (.new {}) = (.ok (loop, some v), t) ∧
      v.number? = some x ∧ Number.Denotes x (2 ^ 63 : Nat) ∧ (Context.new {}).options.loopLimit < (2 ^ 63 : Nat) ∧
      ∃ d u, exec (drawElement 1001 3 (stoppedLoop "9223372036854775808") onlyCircle ⟨[0]⟩) (.new {}) = (.ok d, u) ∧
        d.events.length = 1 := by
  obtain ⟨loop, v, x, t, hcounted, hnumber, hx⟩ := exists_counted (stoppedLoop "9223372036854775808") ⟨[0]⟩ (.new {})
    ⟨false, 2 ^ 52, 11⟩ (2 ^ 63) (by decide +kernel) (by decide +kernel)
  have hlength : ((exec (drawElement 1001 3 (stoppedLoop "9223372036854775808") onlyCircle ⟨[0]⟩)
      (.new {})).1.toOption.map fun d => d.events.length) = some 1 := by decide +kernel
  refine ⟨loop, v, x, t, hcounted, hnumber, hx, by decide, ?_⟩
  rcases hdrawn : exec (drawElement 1001 3 (stoppedLoop "9223372036854775808") onlyCircle ⟨[0]⟩) (.new {}) with
    ⟨e | d, u⟩
  · rw [hdrawn] at hlength
    cases hlength
  · rw [hdrawn] at hlength
    exact ⟨d, u, rfl, Option.some.inj hlength⟩

end DiagramMarkup
