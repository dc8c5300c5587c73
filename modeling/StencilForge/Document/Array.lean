import StencilForge.DataArray
import StencilForge.Document.Expr

/-!
# Documents — arrays with values

An array is given by shape, element type, order of coordinates in memory, and what it is filled with: 0, 1, 2, …, one
number, or nested lists; an array of records by its rows.
-/

namespace StencilForge.Document

variable (c : Names)

def readCell : Json → Outcome Cell
  | .int n => .ok (.int n)
  | .float x => .ok (.real x)
  | .bool b => .ok (.int (if b then 1 else 0))
  | .arr [.str "float", .str s] => .real <$> readFloat s
  | _ => bad

def readFill (shape : Nats) : Option Json → Outcome (NdArray Cell)
  | none | some (.str _) => .ok ⟨shape, ((List.range (NdArray.volume shape)).map fun (n : Nat) => Cell.int n).toArray⟩
  | some (.arr xs) => readArray readCell (.arr xs)
  | some v => do return .constant shape (← readCell v)

def readDataArray (j : Json) : Outcome DataArray := do
  let t ← readElementType j
  match list? j "rows" with
  | some rows => do
    let cells ← rows.mapM fun r => do return .ofType t (.record (← listOf readCell r))
    let n : Int := cells.length
    return { dtype := t, storage := Storage.dense (GridField.elementSize t) [n],
             values := ⟨[cells.length], cells.toArray⟩ }
  | none => do
    let (dtype, storage) ← readStorage j
    let values ← readFill (storage.shape.map Int.toNat) (j.get? "fill")
    return { dtype, storage, values := values.map (.ofType t) }

def readDataArrays : Json → Outcome (Table String DataArray)
  | .obj ps => ps.mapM fun (n, a) => do return (n, ← readDataArray a)
  | _ => .ok []

def ofCell : Cell → Json
  | .int n => .int n
  | .real x => ofFloat x
  | .record cs => .arr (cs.map ofCell)

def ofDataArray (a : DataArray) : Answer := ofArray (fun c => .ok (ofCell c)) a.values

/-!
## Documents — slices
-/

def readBound : Json → Outcome Slice.Bound
  | .int n => .ok (.at (.lit n))
  | .float x => .ok (.relative x)
  | .bool b => .ok (.at (.bool b))
  | j => .at <$> readExpr c j

def readOptBound : Json → Outcome (Option Slice.Bound)
  | .null => .ok none
  | j => some <$> readBound c j

def readSlice : Json → Outcome Slice
  | .null => .ok .missing
  | .arr [.str "slice", a, b, s] => do return .range (← readOptBound c a) (← readOptBound c b) (← readOptBound c s)
  | j => .point <$> readBound c j

def readSlices : Json → Outcome Slices := listOf (readSlice c)

def ofBound : Slice.Bound → Answer
  | .at e => ofExpr e
  | .relative x => .ok (ofFloat x)

def ofOptBound : Option Slice.Bound → Answer
  | none => .ok .null
  | some b => ofBound b

def ofSlice : Slice → Answer
  | .missing => .ok .null
  | .point b => ofBound b
  | .range a b s => do return .arr [.str "slice", ← ofOptBound a, ← ofOptBound b, ← ofOptBound s]

def ofSlices (ss : Slices) : Answer := .arr <$> ss.mapM ofSlice

end StencilForge.Document
