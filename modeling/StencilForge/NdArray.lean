import StencilForge.Failure

/-!
# Arrays of any dimension

One value for each index within a shape, the last index running fastest.  `NdArray.ofFn` and `NdArray.get?` see an
array as a function of its indices.
-/

namespace StencilForge

structure NdArray (α : Type) where
  shape : Nats
  data : Array α
  deriving Repr, Inhabited

namespace NdArray

variable {α β : Type}

def volume (shape : Nats) : Nat := shape.foldl (· * ·) 1

def indices : Nats → List Nats
  | [] => [[]]
  | n :: r => (List.range n).flatMap fun i => (indices r).map (i :: ·)

def position : Nats → Nats → Nat
  | _ :: ns, i :: is => i * volume ns + position ns is
  | _, _ => 0

def inside : Nats → Nats → Bool
  | [], [] => true
  | n :: ns, i :: is => i < n && inside ns is
  | _, _ => false

def ofFn (shape : Nats) (f : Nats → α) : NdArray α := ⟨shape, ((indices shape).map f).toArray⟩

def constant (shape : Nats) (a : α) : NdArray α := ⟨shape, .replicate (volume shape) a⟩

def get? (a : NdArray α) (i : Nats) : Option α := if inside a.shape i then a.data[position a.shape i]? else none

def getD (a : NdArray α) (i : Nats) (d : α) : α := (a.get? i).getD d

/-- An index outside changes nothing. -/
def set (a : NdArray α) (i : Nats) (v : α) : NdArray α :=
  if inside a.shape i then { a with data := a.data.setIfInBounds (position a.shape i) v } else a

def map (f : α → β) (a : NdArray α) : NdArray β := ⟨a.shape, a.data.map f⟩

def dimensions (a : NdArray α) : Nat := a.shape.length

def toList (a : NdArray α) : List α := a.data.toList

def flip [Inhabited α] (a : NdArray α) (axis : Nat) : NdArray α :=
  ofFn a.shape fun i => a.getD (i.modify axis fun k => a.shape.getD axis 0 - 1 - k) default

/-- Axis `k` of the result is axis `axes[k]` of the array. -/
def transpose [Inhabited α] (a : NdArray α) (axes : Nats) : NdArray α :=
  ofFn (axes.map fun k => a.shape.getD k 0) fun i =>
    a.getD ((List.range a.dimensions).map fun k => i.getD (axes.findIdx (· == k)) 0) default

def swapped (n i j : Nat) : Nats := ((List.range n).set i j).set j i

/-- From the first axis toward the second. -/
def rotate [Inhabited α] (a : NdArray α) (p q : Nat) : NdArray α := (a.flip q).transpose (swapped a.dimensions p q)

/-! ### Boxes around values -/

def anyAlong (a : NdArray Bool) (axis : Nat) : NdArray Bool :=
  ofFn (a.shape.eraseIdx axis) fun i =>
    (List.range (a.shape.getD axis 0)).any fun k => a.getD (i.insertIdx axis k) false

def dropRows (a : NdArray α) (n : Nat) : List α := a.toList.drop (n * volume (a.shape.drop 1))

/-- Where the first true values begin and end, searched in storage order. -/
def firstRun (a : NdArray Bool) : Outcome (Nat × Nat) := do
  if a.toList.isEmpty then raise .invalid
  let start := (a.toList.findIdx? id).getD 0
  let tail := a.dropRows start
  if tail.isEmpty then raise .invalid
  return (start, start + ((tail.findIdx? (!·)).getD 0))

/-- One other axis is left out for each. -/
def boundingBox (a : NdArray Bool) : Outcome (List (Nat × Nat)) := do
  (List.range a.dimensions).mapM fun i => do
    if a.dimensions < 2 then raise .unbound
    let last := a.dimensions - 1
    (a.anyAlong (if i = last then last - 1 else last)).firstRun

end NdArray

/-!
## Tuples

One item of each of several lists, the last choice changing fastest.
-/

namespace Tuples

def product {α : Type} : List (List α) → List (List α)
  | [] => [[]]
  | xs :: r => xs.flatMap fun x => (product r).map (x :: ·)

def below (n bound : Nat) : List Nats := product (.replicate n (.range bound))

/-- Equal neighbours are refused if `strictly`. -/
def isAscending (strictly : Bool) : Nats → Bool
  | a :: b :: r => (if strictly then a < b else a ≤ b) && isAscending strictly (b :: r)
  | _ => true

def ascending {α : Type} (strictly : Bool) (xss : List (List α)) : List (List α) :=
  let chosen := (product (xss.map (·.zipIdx))).filter fun t => isAscending strictly (t.map (·.2))
  chosen.map (·.map (·.1))

end Tuples

end StencilForge
