import DiagramMarkup.Number.Scalar

/-!
# Cheapest paths

A search over a finite graph whose nodes are numbered. Nodes are settled in the order of their distance,
the lowest number first among equals. The path is read off backwards along tight edges, again preferring the
lowest number.
-/

namespace DiagramMarkup.Route

open Scalar

/-- Numbered nodes with the costs of the edges between them. -/
structure Graph (α : Type) where
  size : Nat
  cost? : Nat → Nat → Option α

/-- What the search knows about a node. -/
structure Label (α : Type) where
  dist : Option α
  settled : Bool

namespace Graph

variable {α : Type} [Scalar α]

/-- The distance of a node. -/
def distOf (labels : List (Label α)) (v : Nat) : Option α := labels[v]?.bind Label.dist

/-- The number and distance of the nearest node that is not settled. -/
def nearest? (labels : List (Label α)) : Option (Nat × α) :=
  labels.zipIdx.foldl
    (fun best (l, i) =>
      match l.settled, l.dist, best with
      | false, some d, none => some (i, d)
      | false, some d, some (j, e) => if d < e then some (i, d) else some (j, e)
      | _, _, best => best)
    none

/-- The better of a known distance and a new one. Distances without a proper value are not taken. -/
def better (old : Option α) (new : α) : Option α :=
  match old with
  | none => if isFinite new then some new else none
  | some d => if new < d then some new else some d

/-- Settle a node, and improve the distances of its neighbours. -/
def settle (g : Graph α) (u : Nat) (d : α) (labels : List (Label α)) : List (Label α) :=
  labels.mapIdx fun v l =>
    let dist := match g.cost? u v with
      | some c => better l.dist (d + c)
      | none => l.dist
    { dist := dist, settled := l.settled || v == u }

/-- Settle nodes until the goal is the nearest or nothing is left. -/
def search (g : Graph α) (goal : Nat) : Nat → List (Label α) → List (Label α)
  | 0, labels => labels
  | fuel + 1, labels =>
    match nearest? labels with
    | none => labels
    | some (u, d) => if u == goal then labels else search g goal fuel (g.settle u d labels)

/-- The labels before the search: only the start has a distance. -/
def initial (g : Graph α) (start : Nat) : List (Label α) :=
  (List.range g.size).map fun i => ⟨if i == start then some zero else none, false⟩

/-- How far sums of costs may differ and still count as equal. -/
def tolerance : α := one / ofInt 1000000000

/-- Does the edge from `u` account for the distance of `v`? -/
def isTight (g : Graph α) (labels : List (Label α)) (v u : Nat) : Bool :=
  match distOf labels u, g.cost? u v, distOf labels v with
  | some du, some c, some dv => abs (du + c - dv) < tolerance
  | _, _, _ => false

/-- Walk back from `v` to the start along tight edges; `path` is what lies behind `v`. -/
def walkBack (g : Graph α) (labels : List (Label α)) (start : Nat) :
    Nat → (v : Nat) → (path : List Nat) → Option (List Nat)
  | 0, _, _ => none
  | fuel + 1, v, path =>
    if v == start then some (v :: path)
    else
      match (List.range g.size).find? (g.isTight labels v) with
      | none => none
      | some u => walkBack g labels start fuel u (v :: path)

/-- A cheapest path between two nodes, if there is one. -/
def shortest? (g : Graph α) (start goal : Nat) : Option (List Nat) :=
  let labels := g.search goal (g.size + 1) (g.initial start)
  match distOf labels goal with
  | none => none
  | some _ => g.walkBack labels start (g.size + 1) goal []

end Graph

end DiagramMarkup.Route
