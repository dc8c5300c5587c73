import StencilForge.NdArray
import StencilForge.Slice

/-!
# Arrays — windows

A window is the part of an array that slices select.  `NdArray.window` reads it and `NdArray.assign` writes into it; a
smaller array is repeated along coordinates of length one.
-/

namespace StencilForge

inductive Places where
  | one (i : Nat)
  | many (is : Nats)
  deriving Repr

namespace Places

def list : Places → Nats
  | one i => [i]
  | many is => is

/-- Ends counted from the end if negative and cut off at the array. -/
def ofRange (n : Nat) (start stop : Option Int) (step : Int) : Nats :=
  let clamp := fun (lo hi x : Int) => max lo (min hi x)
  let shift := fun (x : Int) => if x < 0 then x + n else x
  if 0 < step then
    let a := clamp 0 n ((start.map shift).getD 0)
    let b := clamp 0 n ((stop.map shift).getD n)
    (List.range ((b - a + step - 1) / step).toNat).map fun (k : Nat) => (a + k * step).toNat
  else
    let a := clamp (-1) (n - 1) ((start.map shift).getD (n - 1))
    let b := clamp (-1) (n - 1) ((stop.map shift).getD (-1))
    (List.range ((a - b - step - 1) / (-step)).toNat).map fun (k : Nat) => (a + k * step).toNat

def wholeNumber : Option Slice.Bound → Outcome (Option Int)
  | none => .ok none
  | some (.at e) => match e.int? with
    | some n => .ok (some n)
    | none => raise .mistyped
  | some (.relative _) => raise .mistyped

def ofSlice (n : Nat) : Slice → Outcome Places
  | .point (.at e) => match e.int? with
    | some k =>
      let i := if k < 0 then k + n else k
      if 0 ≤ i && i < n then .ok (.one i.toNat) else raise .outOfRange
    | none => raise .outOfRange
  | .range start stop step => do
    let step := (← wholeNumber step).getD 1
    if step = 0 then raise .invalid
    return .many (ofRange n (← wholeNumber start) (← wholeNumber stop) step)
  | _ => raise .outOfRange

end Places

abbrev Window := List Places

namespace Window

def of (shape : Nats) (ss : Slices) : Outcome Window := do
  if shape.length < ss.length then raise .outOfRange
  let ss := ss ++ .replicate (shape.length - ss.length) .whole
  (shape.zip ss).mapM fun (n, s) => Places.ofSlice n s

/-- Single places make no coordinate. -/
def shape (w : Window) : Nats :=
  w.filterMap fun
    | .one _ => none
    | .many is => some is.length

def index : Window → Nats → Nats
  | [], _ => []
  | .one i :: w, is => i :: index w is
  | .many ps :: w, is => ps.getD (is.headD 0) 0 :: index w (is.drop 1)

end Window

namespace NdArray

variable {α : Type}

def window [Inhabited α] (a : NdArray α) (w : Window) : NdArray α := ofFn w.shape fun i => a.getD (w.index i) default

/-- Also along missing first coordinates. -/
def spread [Inhabited α] (a : NdArray α) (shape : Nats) : Outcome (NdArray α) := do
  -- leading coordinates of length one carry nothing
  let extra := a.shape.length - shape.length
  if (a.shape.take extra).any (· != 1) then raise .invalid
  let own := a.shape.drop extra
  let target := shape.drop (shape.length - own.length)
  if (own.zip target).any fun (n, m) => n != m && n != 1 then raise .invalid
  return ofFn shape fun i =>
    let tail := i.drop (shape.length - own.length)
    a.getD (.replicate extra 0 ++ (own.zip tail).map fun (n, k) => if n = 1 then 0 else k) default

def assign [Inhabited α] (a : NdArray α) (w : Window) (b : NdArray α) : Outcome (NdArray α) := do
  let b ← b.spread w.shape
  return (indices w.shape).foldl (fun a i => a.set (w.index i) (b.getD i default)) a

/-! ### Ghost layers -/

def innerSlices (dimensions : Nat) (indexDimensions ghostLayers : Int) : Slices :=
  let spatial := (dimensions - indexDimensions).toNat
  .replicate spatial (.between (some ghostLayers) (some (-ghostLayers))) ++ .replicate indexDimensions.toNat .whole

def removeGhostLayers [Inhabited α] (a : NdArray α) (indexDimensions ghostLayers : Int) : Outcome (NdArray α) := do
  if ghostLayers ≤ 0 then return a
  return a.window (← Window.of a.shape (innerSlices a.dimensions indexDimensions ghostLayers))

def addGhostLayers [Inhabited α] (a : NdArray α) (indexDimensions ghostLayers : Int) : Outcome (NdArray α) := do
  let spatial := (a.dimensions - indexDimensions).toNat
  let wide := (a.shape.take spatial).map fun (n : Nat) => (n + 2 * ghostLayers).toNat
  let r := constant (wide ++ a.shape.drop spatial) default
  r.assign (← Window.of r.shape (innerSlices a.dimensions indexDimensions ghostLayers)) a

/-- Direction by direction. -/
def copyPeriodic [Inhabited α] (a : NdArray α) (pairs : List (Slices × Slices)) : Outcome (NdArray α) :=
  pairs.foldlM (fun a (source, target) => do
    a.assign (← Window.of a.shape target) (a.window (← Window.of a.shape source))) a

end NdArray

end StencilForge
