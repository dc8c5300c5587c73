import StencilForge.Json
import StencilForge.NdArray.Window

/-!
# Parameter studies

A run has parameters and a weight that says how much work it is.  `Run.share` divides runs among processes,
`Run.combinations` lists all choices of parameters.
-/

namespace StencilForge.Study

abbrev Parameters := List (String × Json)

structure Run where
  params : Json
  weight : Json := .int 1

/-- Truth values count as 0 and 1. -/
def numberOf : Json → Option Number
  | .int n => some (.ofInt n)
  | .float x => some (.ofFloat x)
  | .bool b => some (.ofInt (if b then 1 else 0))
  | _ => none

/-- A truth value equals its number. -/
def sameValue (a b : Json) : Bool :=
  match numberOf a, numberOf b with
  | some x, some y => x.sameValue y
  | _, _ => a == b

def sum (a b : Json) : Outcome Json :=
  match a, b with
  | .int m, .int n => .ok (.int (m + n))
  | a, b => match a, b, numberOf a, numberOf b with
    | .float _, _, some x, some y | _, .float _, some x, some y => .ok (.float (x.toFloat + y.toFloat))
    | _, _, some x, some y => .ok (.int ((x.floor?.getD 0) + (y.floor?.getD 0)))
    | _, _, _, _ => raise .mistyped

/-! ### Shares -/

/-- In reverse order. -/
def everyNth {α : Type} (xs : List α) (process count : Int) : List α :=
  ((Places.ofRange xs.length (some process) none count).filterMap (xs[·]?)).reverse

/-- Items of great weight are dealt out first, and the lighter ones of a share come first. -/
def share {α : Type} (weight : α → Rat) (xs : List α) (process count : Int) : List α :=
  everyNth (xs.mergeSort fun a b => weight b ≤ weight a) process count

namespace Run

def rat? (r : Run) : Option Rat := (numberOf r.weight).bind Number.toRat?

def text? (r : Run) : Option String :=
  match r.weight with
  | .str s => some s
  | _ => none

def share (runs : List Run) (process count : Int) : Outcome (List Run) :=
  if count = 0 then
    if runs.length > 1 && !(runs.all (·.rat?.isSome) || runs.all (·.text?.isSome)) then raise .mistyped
    else raise .invalid
  else if runs.length ≤ 1 || runs.all (·.rat?.isSome) then .ok (Study.share (fun r => r.rat?.getD 0) runs process count)
  else if runs.all (·.text?.isSome) then
    .ok (everyNth (runs.mergeSort fun a b => (b.text?.getD "") ≤ (a.text?.getD "")) process count)
  else raise .mistyped

/-! ### Combinations -/

/-- The items of a list, the characters of a text or the keys of an object. -/
def choices : Json → Outcome (List Json)
  | .arr xs => .ok xs
  | .str s => .ok (s.toList.map fun c => .str c.toString)
  | .obj ps => .ok (ps.map fun (k, _) => .str k)
  | _ => raise .mistyped

def combinations (constant : Parameters) (free : List (String × Json)) : Outcome (List Parameters) := do
  let names := free.map (·.1)
  let values ← free.mapM fun (_, v) => choices v
  return (Tuples.product values).map fun vs => (names.zip vs).foldl (fun ps (n, v) => Json.put ps n v) constant

end Run

/-! ### Changed parameters -/

def pairOf : Json → Outcome (String × Json)
  | .arr [.str k, v] => .ok (k, v)
  | .arr [_, _] => raise .mistyped
  | .arr _ => raise .invalid
  | .str s => match s.toList with
    | [a, b] => .ok (a.toString, .str b.toString)
    | _ => raise .invalid
  | .obj [(a, _), (b, _)] => .ok (a, .str b)
  | .obj _ => raise .invalid
  | _ => raise .mistyped

/-- A document may also list pairs. -/
def changed (ps : Parameters) (change : Json) : Outcome Parameters := do
  let put := fun (ps : Parameters) (p : String × Json) => Json.put ps p.1 p.2
  match change with
  | .obj us => return us.foldl put ps
  | .arr xs => do return (← xs.mapM pairOf).foldl put ps
  | .str "" => return ps
  | .str _ => raise .invalid
  | _ => raise .mistyped

def arguments (params change : Json) : Outcome Parameters :=
  match params with
  | .obj ps => changed ps change
  | _ => raise .noSuchPart

/-!
## Parameter studies — archives

`Archive.select` finds the results whose parameters have given values; the path of a nested value has dots, and a list
is found by each of its items too.  Numbers are alike if equal, objects with the same keys in any order.
-/

structure Record where
  params : Json
  result : Json
  changed : Json := .obj []

abbrev Archive := List Record

def alike : Json → Json → Bool := Json.alike sameValue

/-- `none` if a key is absent. -/
def valueAt : Strings → Json → Outcome (Option Json)
  | [], v => .ok (some v)
  | k :: path, v => match v with
    | .obj ps => (ps.find? (·.1 == k)).elim (.ok none) fun (_, w) => valueAt path w
    | .arr xs => do
      let part := fun
        | .obj ps => .ok ((ps.find? (·.1 == k)).map (·.2))
        | _ => raise .mistyped
      let parts ← xs.mapM part
      if parts.any Option.isNone then return none
      else valueAt path (.arr (parts.filterMap id))
    | _ => raise .mistyped

def keysOf : Json → List Json
  | .arr xs => .arr xs :: xs
  | v => [v]

def order (a b : Json) : Outcome Ordering :=
  match a, b, numberOf a, numberOf b with
  | .str s, .str t, _, _ => .ok (compare s t)
  | _, _, some x, some y => .ok ((x.compare? y).getD .eq)
  | _, _, _, _ => raise .mistyped

/-- Alike, or as an operator says. -/
def fits (asked v : Json) : Outcome Bool :=
  match asked with
  | .obj [(op, w)] =>
    if !op.startsWith "$" then .ok (alike asked v)
    else match op with
      | "$gt" => do return (← order v w) == .gt
      | "$gte" => do return (← order v w) != .lt
      | "$lt" => do return (← order v w) == .lt
      | "$lte" => do return (← order v w) != .gt
      | "$ne" => .ok (!alike v w)
      | "$in" => match w with
        | .arr ws => .ok (ws.any (alike · v))
        | _ => raise .noSuchPart
      | "$exists" => .ok (match w with
        | .bool b => b
        | _ => true)
      | _ => raise .noSuchPart
  | _ => .ok (alike asked v)

namespace Archive

def having (path : Strings) (asked : Json) (a : Archive) : Outcome Archive := do
  let kept ← a.mapM fun r => do
    match ← valueAt path r.params with
    | none => return asked == .obj [("$exists", .bool false)]
    | some v => do return (← (keysOf v).mapM (fits asked)).any id
  return (a.zip kept).filterMap fun (r, k) => given k r

def select (query : Parameters) (a : Archive) : Outcome Archive := do
  let parts ← query.mapM fun (k, v) => a.zipIdx.mapM fun (r, i) => do
    return (i, !(← having (k.splitOn ".") v [r]).isEmpty)
  return a.zipIdx.filterMap fun (r, i) => given (parts.all (·.contains (i, true))) r

def has (params : Json) (a : Archive) : Outcome Bool := do return !(← having [] params a).isEmpty

/-- The order of keys counts. -/
def missing (a : Archive) (runs : List Run) : List Run :=
  let known := a.map fun r => r.params.compact
  runs.filter fun r => !known.contains r.params.compact

end Archive

end StencilForge.Study
