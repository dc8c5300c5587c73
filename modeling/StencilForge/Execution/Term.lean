import StencilForge.Execution.Value

/-!
# Execution — memory

A line of items for each array, addressed in bytes; an item is one scalar or a record.  `Line.ofArray` lays an array
out as its strides say.
-/

namespace StencilForge.Execution

structure Line (ρ : Type) where
  size : Nat
  parts : List (Nat × Scalar)
  cells : Array (Value ρ)

abbrev Memory (ρ : Type) := Table String (Line ρ)

namespace Line

variable {ρ : Type}

def partsOf : DataType → List (Nat × Scalar)
  | .basic s _ => [(0, s)]
  | .record ms .. => ms.map fun m => (m.offset, m.scalar)
  | _ => []

def cellAt (l : Line ρ) (place : Int) : Option Nat := do
  if place < 0 || l.size = 0 then none
  let n := place.toNat
  let k ← l.parts.findIdx? (·.1 == n % l.size)
  return n / l.size * l.parts.length + k

def load (l : Line ρ) (place : Int) : Option (Value ρ) := do l.cells[← l.cellAt place]?

def store (l : Line ρ) (place : Int) (v : Value ρ) : Option (Line ρ) := do
  let k ← l.cellAt place
  if k < l.cells.size then return { l with cells := l.cells.setIfInBounds k v } else none

def ofScalars (s : Scalar) (vs : List (Value ρ)) : Line ρ := ⟨s.size, [(0, s)], vs.toArray⟩

def distance (size : Int) (strides : Ints) (i : Nats) : Nat :=
  ((List.zipWith (fun (s : Int) (k : Nat) => s * k) strides i).foldl (· + ·) 0 / size).toNat

def extent (a : DataArray) : Nat :=
  if a.shape.any (· == 0) then 0
  else ((List.zipWith (fun n s => (n - 1) * s) a.shape a.storage.strides).foldl (· + ·) 0 / a.itemSize).toNat + 1

def ofArray [Inhabited ρ] (value : Cell → Value ρ) (a : DataArray) : Line ρ :=
  let parts := partsOf a.dtype
  let cells := (NdArray.indices a.values.shape).zip a.values.toList |>.foldl (fun cs (i, c) =>
    let start := distance a.itemSize a.storage.strides i * parts.length
    let vs := match c with
      | .record ms => ms.map value
      | c => [value c]
    vs.zipIdx.foldl (fun cs (v, k) => cs.setIfInBounds (start + k) v) cs)
    (.replicate (extent a * parts.length) (.whole 0))
  ⟨a.itemSize.toNat, parts, cells⟩

def toArray (cell : Value ρ → Cell) (a : DataArray) (l : Line ρ) : DataArray :=
  let values := (NdArray.indices a.values.shape).map fun i =>
    let start := distance a.itemSize a.storage.strides i * l.parts.length
    let cs := (List.range l.parts.length).map fun k => match l.cells[start + k]? with
      | some v => cell v
      | none => .int 0
    match a.dtype, cs with
    | .record .., cs => .record cs
    | _, [c] => c
    | _, cs => .record cs
  { a with values := ⟨a.values.shape, values.toArray⟩ }

end Line

namespace Memory

variable {ρ : Type}

def load (m : Memory ρ) (memory : String) (place : Int) : Outcome (Value ρ) :=
  match (Table.get? m memory).bind (·.load place) with
  | some v => .ok v
  | none => raise .outOfRange

def store (m : Memory ρ) (memory : String) (place : Int) (v : Value ρ) : Outcome (Memory ρ) :=
  match (Table.get? m memory).bind (·.store place v) with
  | some l => .ok (.insert m memory l)
  | none => raise .outOfRange

end Memory

/-!
## Execution — terms

Every operation says the type that it works in, and conversions between types are operations of their own.
-/

inductive Term where
  | whole (n : Int)
  | real (single : Bool) (q : Rat)
  | infinity
  | undefined
  | var (name : String)
  | convert (target : Scalar) (a : Term)
  | arith (o : Operation) (s : Scalar) (a b : Term)
  | compare (r : Rel) (a b : Term)
  | choose (c a b : Term)
  | call (single : Bool) (name : String) (as : List Term)
  | move (size : Int) (p i : Term)
  | load (p : Term)
  | loadLanes (size width : Nat) (p : Term)
  | spread (width : Nat) (a : Term)
  /-- From lane to lane the second value where the mask holds, else the first. -/
  | blend (a b mask : Term)
  | maskBits (a : Term)
  deriving Inhabited

/-- The latest definition of a name counts. -/
abbrev Variables (ρ : Type) := Table String (Value ρ)

namespace Term

variable {ρ : Type} [Inhabited ρ] (R : Arithmetic ρ) (m : Memory ρ)

def asInt : Value ρ → Outcome Int
  | .whole n => .ok n
  | _ => raise .mistyped

def asReal : Value ρ → Outcome ρ
  | .real x => .ok x
  | _ => raise .mistyped

def apply (single : Bool) (name : String) (vs : List (Value ρ)) : Outcome (Value ρ) := do
  match R.call single name (← vs.mapM asReal) with
  | some x => return .real x
  | none => raise .unsupported

def asAddress : Value ρ → Outcome (String × Int)
  | .address n k => .ok (n, k)
  | _ => raise .mistyped

def blended (a b mask : Value ρ) : Value ρ :=
  .lanes (((a.toLanes.zip b.toLanes).zip mask.toLanes).map fun ((x, y), c) => if c.isTrue then y else x)

def bitsOf (v : Value ρ) : Int := v.toLanes.reverse.foldl (fun n c => 2 * n + if c.isTrue then 1 else 0) 0

mutual

def value (vs : Variables ρ) : Term → Outcome (Value ρ)
  | .whole n => .ok (.whole n)
  | .real single q => .ok (.real (R.ofRat single q))
  | .infinity => .ok (.real R.infinity)
  | .undefined => .ok (.real R.undefined)
  | .var n => match Table.get? vs n with
    | some v => .ok v
    | none => raise .undefinedName
  | .convert t a => do return (← value vs a).each (.convert R t)
  | .arith o s a b => do
    let x ← value vs a
    let y ← value vs b
    Value.each2 (Value.arith R o s) x y
  | .compare r a b => do
    let x ← value vs a
    let y ← value vs b
    Value.each2 (Value.compare R r) x y
  | .choose c a b => do if (← value vs c).isTrue then value vs a else value vs b
  | .call single name as => do
    match ← values vs as with
    | [.lanes xs] => return .lanes (← xs.mapM fun x => apply R single name [x])
    | xs => apply R single name xs
  | .move size p i => do
    let (n, k) ← asAddress (← value vs p)
    return .address n (k + size * (← asInt (← value vs i)))
  | .load p => do
    let (n, k) ← asAddress (← value vs p)
    m.load n k
  | .loadLanes size width p => do
    let (n, k) ← asAddress (← value vs p)
    return .lanes (← (List.range width).mapM fun i => m.load n (k + (size * i : Nat)))
  | .spread width a => do return .lanes (.replicate width (← value vs a))
  | .blend a b mask => do
    let x ← value vs a
    let y ← value vs b
    return blended x y (← value vs mask)
  | .maskBits a => do return .whole (bitsOf (← value vs a))

def values (vs : Variables ρ) : List Term → Outcome (List (Value ρ))
  | [] => .ok []
  | a :: as => do return (← value vs a) :: (← values vs as)

end

end Term

end StencilForge.Execution
