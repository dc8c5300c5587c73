import StencilForge.Boundary.Link
import StencilForge.DataGrid.Block

/-!
# Data grids — periodic continuation

The ghost layers are filled from the opposite side in all directions in which the domain is periodic.
-/

namespace StencilForge.DataGrid

variable {κ : Type}

def neighbours (dim : Nat) (stencil : Option String) : Outcome (List Ints) :=
  let all := fun n => .ok (Tuples.product (List.replicate n [-1, 0, 1]))
  match stencil with
  | none => if dim = 2 || dim = 3 then all dim else unknown
  | some s => if s.startsWith "D2" then all 2 else if s.startsWith "D3" then all 3 else unknown
where
  unknown {α : Type} : Outcome α := raiseWith .invalid "Invalid stencil"

def periodicDirections (g : DataGrid κ) (stencil : Option String) : Outcome (List Ints) := do
  let ds ← neighbours g.dim stencil
  return ds.filter fun d => d.any (· != 0) && (d.zip g.periodicity).all fun (c, periodic) => periodic || c == 0

def copies (g : DataGrid κ) (directions : List Ints) (name : String) :
    Outcome (List (Slices × Slices)) := do
  let p ← g.plan name
  if p.values.length > 1 then raiseWith .unsupported s!"Synchronization of this field is not supported: {name}"
  if directions.isEmpty then return []
  Slice.periodic directions p.ghostLayers none

def exchange (names : Strings) (stencil : Option String) : Action (DataGrid κ) Unit := do
  let g ← get
  let directions ← g.periodicDirections stencil
  let work ← names.mapM fun name => do return (name, ← g.copies directions name)
  if directions.isEmpty then return
  for (name, pairs) in work do
    let _ ← (← get).array name
    for (source, target) in pairs do
      let a ← (← get).array name
      let w ← Window.of a.values.shape target
      setValues name (← a.values.assign w (a.values.window (← Window.of a.values.shape source)))

/-!
## Data grids — images

Arrays as three-dimensional images: a cell holds a number or a vector.
-/

variable {κ : Type} (g : DataGrid κ)

inductive ImageData where
  | scalar (values : NdArray Cell)
  | vector (components : List (NdArray Cell))

def imageLayers : Layers → Option Int
  | .no => some 0
  | .all => none
  | .number n => some n

def imageValues (name : String) (layers : Layers) : Outcome (NdArray Cell) := do
  let v := (← g.withLayers name (imageLayers layers)).values
  return if g.dim = 2 then ⟨v.shape.take 2 ++ 1 :: v.shape.drop 2, v.data⟩ else v

def component (v : NdArray Cell) (i : Nat) : NdArray Cell := .ofFn v.shape.dropLast fun k => v.getD (k ++ [i]) default

def imageOf (layers : Layers) (name : String) : Outcome (Table String ImageData) := do
  let v ← g.imageValues name layers
  match v.shape.length with
  | 3 => return [(name, .scalar v)]
  | 4 =>
    let n := v.shape.getLastD 0
    let parts := (List.range n).map (component v)
    if n = g.dim then
      let zero := .constant v.shape.dropLast (.ofType (← g.array name).dtype (.int 0))
      return [(name, .vector (if n = 2 then parts ++ [zero] else parts))]
    else return parts.zipIdx.map fun (p, i) => (s!"{name}[{i}]", .scalar p)
  | _ => raiseWith .unsupported "VTK export for fields with more than one index coordinate not implemented"

def joined (parts : List (Table String ImageData)) : Outcome (Table String ImageData) :=
  let t := parts.flatten.foldl (fun t (n, d) => Table.insert t n d) ([] : Table String ImageData)
  if t.isEmpty then raise .outOfRange else .ok t

def image (names : Strings) (layers : Layers) : Outcome (Table String ImageData) := do
  joined (← names.mapM (g.imageOf layers))

def flagImage (name : String) (masks : Table Int String) (layers : Layers) :
    Outcome (Table String ImageData) := do
  let v ← g.imageValues name layers
  let scalar ← match (← g.array name).dtype with
    | .basic s _ => pure s
    | _ => raise .mistyped
  if scalar.isFloat then raise .mistyped
  let parts := masks.map fun (mask, label) =>
    let m := scalar.wrap mask
    let set := fun
      | .int w => Cell.int (if Link.common w m > 0 then 1 else 0)
      | _ => .int 0
    [(label, .scalar (v.map set))]
  let t ← joined parts
  if v.shape.length != 3 then raise .violated
  return t

def imageFile (base : String) (step : Int) : String :=
  let digits := toString step.natAbs
  let width := if step < 0 then 7 else 8
  base ++ "_" ++ (if step < 0 then "-" else "") ++ "".pushn '0' (width - digits.length) ++ digits ++ ".vti"

/-!
## Data grids — summary

A table with the smallest and the largest value of each array, with and without ghost layers.
-/

variable {κ : Type}

def padLeft (width : Nat) (s : String) : String := "".pushn ' ' (width - s.length) ++ s

def cellText : Cell → String
  | .int n => padLeft 3 (Decimal.general 3 (Number.ofInt n).toFloat)
  | .real x => padLeft 3 (Decimal.general 3 x)
  | .record _ => ""

def summaryRow (width : Nat) (name inner whole : String) : String :=
  padLeft width name ++ s!"|{padLeft 21 inner}|{padLeft 21 whole}\n"

def summary (A : Algebra) (g : DataGrid κ) : Outcome String := do
  let names := g.fields.map (·.1)
  if names.isEmpty then raise .invalid
  let width := (names.map (·.length)).foldl max 4
  let rows ← (names.mergeSort (· ≤ ·)).mapM fun name => do
    let range := fun (layers : BlockLayers) => do
      let low ← g.extremumOf A true name none layers false
      let high ← g.extremumOf A false name none layers false
      return s!"({cellText low},{cellText high})"
    return summaryRow width name (← range .no) (← range .standard)
  return summaryRow width "Name" "Inner (min/max)" "WithGl (min/max)" ++ "".pushn '-' (width + 44) ++ "\n" ++ .join rows

/-- Saved values go into the arrays of the same name and shape; says which are left out. -/
def restore (saved : Table String DataArray) : Action (DataGrid κ) String := do
  let g ← get
  let lines ← g.arrays.mapM fun (name, a) => do
    match Table.get? saved name with
    | none => return s!"Skipping read data {name} because there is no data with this name in data handling\n"
    | some s =>
      if s.values.shape != a.values.shape then
        let text := fun (v : NdArray Cell) => DataArray.tupleText (v.shape.map fun (n : Nat) => n)
        return s!"Skipping read data {name} because shapes don't match. Read array shape " ++
          text s.values ++ s!", existing array shape {text a.values}\n"
      else do
        setValues name (s.values.map (Cell.ofType a.dtype))
        return ""
  return .join lines

end StencilForge.DataGrid
