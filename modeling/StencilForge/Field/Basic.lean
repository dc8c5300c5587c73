import StencilForge.DataType

/-!
# Field — memory layouts

A layout lists coordinates from the slowest to the fastest; `fzyx` means that the values of a cell are far apart and
the first coordinate is the fastest.
-/

namespace StencilForge

namespace Layout

def descending (dim : Nat) : Ints := (List.range dim).reverse.map Int.ofNat

def ascending (dim : Nat) : Ints := (List.range dim).map Int.ofNat

def normalize (l : Ints) : Outcome Ints :=
  match l with
  | [] => raise .invalid
  | x :: r =>
    let m := r.foldl min x
    .ok (l.map (· - m))

/-- Larger strides first.  Coordinates that are left out do not count, and the others are numbered anew. -/
def ofStrides (strides : Ints) (leftOut : Ints) : Outcome Ints :=
  let used := strides.zipIdx.filterMap fun (s, i) => if leftOut.contains i then none else some s
  let numbered := used.zipIdx
  normalize ((numbered.mergeSort fun a b => b.1 ≤ a.1).map fun p => p.2)

def unknown {α : Type} (name : String) : Outcome α := raiseWith .invalid s!"Unknown layout descriptor {name}"

def spatialOfName (name : String) (dim : Nat) : Outcome Ints :=
  if ["fzyx", "zyxf"].contains name then if dim ≤ 3 then .ok (descending dim) else raise .violated
  else if ["f", "reverse_numpy", "SoA"].contains name then .ok (descending dim)
  else if ["c", "numpy", "AoS"].contains name then .ok (ascending dim)
  else unknown name

def ofName (name : String) (dim : Nat) : Outcome Ints :=
  let name := name.toLower
  if ["fzyx", "soa"].contains name then if dim ≤ 4 then .ok (descending dim) else raise .violated
  else if ["zyxf", "aos"].contains name then
    if dim ≤ 4 then .ok (descending (dim - 1) ++ [(dim : Int) - 1]) else raise .violated
  else if ["f", "reverse_numpy"].contains name then .ok (descending dim)
  else if ["c", "numpy"].contains name then .ok (ascending dim)
  else unknown name

/-- Negative coordinates count from the end. -/
def place (dim : Nat) (j : Int) : Outcome Nat :=
  let k := if j < 0 then j + dim else j
  if 0 ≤ k && k < dim then .ok k.toNat else raise .outOfRange

def strides (shape layout : Ints) : Outcome Ints := do
  let dim := shape.length
  require (layout.length == dim) .violated
  require (layout.eraseDups.length == dim) .violated
  let start := (.replicate dim 0, 1)
  let (out, _) ← layout.reverse.foldlM (fun st j => do
    let k ← place dim j
    return (st.1.set k st.2, st.2 * shape.getD k 1)) start
  return out

/-- The elements at two places are exchanged. -/
def exchange (xs : Ints) (p : Nat × Nat) : Ints := (xs.set p.1 (xs.getD p.2 0)).set p.2 (xs.getD p.1 0)

/-- The exchanges that give coordinates the order of a layout, from the place `i` on. -/
def exchanges (coords : Ints) (i : Nat) : Ints → Outcome (List (Nat × Nat))
  | [] => .ok []
  | j :: layout => match coords[i]? with
    | none => raise .outOfRange
    | some k =>
      if k = j then exchanges coords (i + 1) layout
      else do
        let p := (i, coords.idxOf j)
        return p :: (← exchanges (exchange coords p) (i + 1) layout)

end Layout

/-!
## Field — the arrays kernels work on

A field describes an array: element type, order of coordinates in memory, extents and strides.  An extent or stride
that is unknown until the kernel is called is named by field and coordinate.  The first coordinates are spatial, the
others count the values in one cell.
-/

inductive FieldKind where
  | generic
  | indexed
  /-- A dense list of values, filled in the order of the loops. -/
  | buffer
  | custom
  deriving DecidableEq, Repr, Inhabited

inductive Extent where
  | known (n : Int)
  | shape (fields : Strings) (coord : Nat)
  | stride (field : String) (coord : Nat)
  deriving DecidableEq, Repr, Inhabited

structure GridField where
  name : String
  kind : FieldKind
  dtype : DataType
  layout : Ints
  shape : List Extent
  strides : List Extent
  latexName : Option String := none
  deriving DecidableEq, Repr, Inhabited

abbrev Fields := List GridField

namespace Extent

def int? : Extent → Option Int
  | known n => some n
  | _ => none

def symbolName : Extent → String
  | known n => toString n
  | shape fs i => "_size_" ++ "_".intercalate fs ++ "_" ++ toString i
  | stride f i => "_stride_" ++ f ++ "_" ++ toString i

end Extent

namespace GridField

def spatialDimensions (f : GridField) : Nat := f.layout.length
def indexDimensions (f : GridField) : Nat := f.shape.length - f.layout.length
def dimensions (f : GridField) : Nat := f.shape.length

def spatialShape (f : GridField) : List Extent := f.shape.take f.spatialDimensions
def indexShape (f : GridField) : List Extent := f.shape.drop f.spatialDimensions
def spatialStrides (f : GridField) : List Extent := f.strides.take f.spatialDimensions
def indexStrides (f : GridField) : List Extent := f.strides.drop f.spatialDimensions

def hasFixedShape (f : GridField) : Bool := f.shape.all (·.int?.isSome)
def hasFixedIndexShape (f : GridField) : Bool := f.indexShape.all (·.int?.isSome)

end GridField

/-!
## Field — arrays in memory

Extents and distances in bytes of arrays that are created with a layout, or whose lines start at aligned addresses.
-/

structure Storage where
  shape : Ints
  strides : Ints
  deriving DecidableEq, Repr, Inhabited

namespace Storage

/-- Empty coordinates take the room of one element. -/
def rowStrides (item : Int) : Ints → Ints
  | [] => []
  | _ :: r => (r.foldl (fun n d => if d = 0 then n else n * d) item) :: rowStrides item r

def columnStrides (item : Int) (shape : Ints) : Ints := (rowStrides item shape.reverse).reverse

def dense (item : Int) (shape : Ints) : Storage := ⟨shape, rowStrides item shape⟩

inductive Order where
  | rows
  | columns
  deriving DecidableEq, Repr

def isRowDense (item : Int) (s : Storage) : Bool :=
  let pairs := s.shape.zip (s.strides.zip (rowStrides item s.shape))
  s.shape.any (· == 0) || pairs.all fun (d, a, b) => d == 1 || a == b

/-- Lines along the fastest coordinate are padded.  One-dimensional arrays cannot be created in this way. -/
def paddedLines (item alignment : Int) (order : Order) (shape : Ints) : Outcome Storage := do
  let inner ← match order, shape.getLast?, shape.head? with
    | .rows, some n, _ => .ok n
    | .columns, _, some n => .ok n
    | _, _, _ => raise .outOfRange
  require (alignment ≥ item && alignment % item == 0) .violated
  if shape.length < 2 then raise .mistyped
  let padding := (alignment - (inner * item) % alignment) % alignment
  let wide := inner + padding / item
  let full := match order with
    | .rows => shape.dropLast ++ [wide]
    | .columns => wide :: shape.drop 1
  let strides := match order with
    | .rows => rowStrides item full
    | .columns => columnStrides item full
  let cut := if isRowDense item ⟨full, strides⟩
    then full.dropLast ++ [min (full.getLast?.getD 0) (shape.getLast?.getD 0)]
    else min (full.head?.getD 0) (shape.head?.getD 0) :: full.drop 1
  return ⟨cut, strides⟩

/-- The lines are aligned too if `inner`. -/
def aligned (item alignment : Int) (order : Order) (inner : Bool) (shape : Ints) : Outcome Storage :=
  if inner then paddedLines item alignment order shape
  else if alignment = 0 then raise .divisionByZero
  else .ok ⟨shape, match order with
    | .rows => rowStrides item shape
    | .columns => columnStrides item shape⟩

/-- Coordinates are exchanged until they stand in the order of memory, and the axes of the array are exchanged back. -/
def withLayout (item : Int) (shape layout : Ints) (alignment : Option Int) : Outcome Storage := do
  let coords := Layout.ascending shape.length
  requireWith (layout.all (coords.contains ·) && coords.all (layout.contains ·)) .violated "Wrong layout descriptor"
  let swaps ← Layout.exchanges coords 0 layout
  require (swaps.foldl Layout.exchange coords == layout) .violated
  let ordered := swaps.foldl Layout.exchange shape
  let s ← match alignment with
    | none => .ok (dense item ordered)
    | some a => paddedLines item a .rows ordered
  let back := swaps.reverse.foldl Layout.exchange
  return ⟨back s.shape, back s.strides⟩

end Storage

/-!
## Field — creating fields

The cells of a field of records have one value each, the record.
-/

namespace GridField

def make (name : String) (kind : FieldKind) (dtype : DataType) (layout : Ints)
    (shape strides : List Extent) : Outcome GridField := do
  require (shape.length == strides.length) .violated
  return { name, kind, dtype, layout := ← Layout.normalize layout, shape, strides }

def elementSize : DataType → Int
  | .basic s _ => s.size
  | .record _ n _ => n
  | _ => 1

inductive LayoutChoice where
  | named (name : String)
  | coordinates (cs : Ints)
  deriving DecidableEq, Repr

/-- The record itself counts as one value. -/
def closeRecord (dtype : DataType) (indexDimensions : Nat) (shape strides : List Extent) :
    Outcome (List Extent × List Extent) :=
  if dtype.isRecord then
    if indexDimensions != 0 then
      raiseWith .invalid "Structured arrays/fields are not allowed to have an index dimension"
    else .ok (shape ++ [.known 1], strides ++ [.known 1])
  else .ok (shape, strides)

def generic (name : String) (dim : Nat) (dtype : DataType) (indexDimensions : Nat)
    (layout : LayoutChoice) (indexShape : Option (List Extent)) (kind : FieldKind) : Outcome GridField := do
  let indexDimensions ← match indexShape with
    | some s => do
      require (indexDimensions == 0 || indexDimensions == s.length) .violated
      .ok s.length
    | none => .ok indexDimensions
  let layout ← match layout with
    | .named n => Layout.spatialOfName n dim
    | .coordinates cs => .ok cs
  let total := dim + indexDimensions
  let symbolic := fun n => (List.range n).map fun i => Extent.shape [name] i
  let shape := match indexShape with
    | some (s :: r) => symbolic dim ++ s :: r
    | _ => symbolic total
  let strides := (List.range total).map fun i => Extent.stride name i
  let (shape, strides) ← closeRecord dtype indexDimensions shape strides
  make name kind dtype layout shape strides

def fixed (name : String) (shape : Ints) (indexDimensions : Nat) (dtype : DataType)
    (layout : LayoutChoice) (strides : Option Ints) : Outcome GridField := do
  require (shape.length > indexDimensions) .violated
  let layout ← match layout with
    | .named n => Layout.ofName n shape.length
    | .coordinates cs => .ok cs
  let strides ← match strides with
    | none => Layout.strides shape layout
    | some s => do
      require (s.length == shape.length) .violated
      .ok (s.map fun x => .fdiv x (elementSize dtype))
  let (sh, st) ← closeRecord dtype indexDimensions (shape.map .known) (strides.map .known)
  let dim := shape.length - indexDimensions
  let rest := (List.range layout.length).drop dim
  unless rest.all fun i => layout.contains i do raise .invalid
  let spatial := rest.foldl (fun l i => l.erase i) layout
  make name .generic dtype spatial sh st

def ofStorage (name : String) (s : Storage) (dtype : DataType) (indexDimensions : Nat) :
    Outcome GridField := do
  if s.shape.length < indexDimensions + 1 then
    raiseWith .invalid "Too many index dimensions. At least one spatial dimension required"
  let dim := s.shape.length - indexDimensions
  let layout ← Layout.ofStrides s.strides []
  let spatial := layout.filter fun j => j < (dim : Int)
  let strides := s.strides.map fun x => .known (.fdiv x (elementSize dtype))
  let (sh, st) ← closeRecord dtype indexDimensions (s.shape.map .known) strides
  make name .generic dtype spatial sh st

def renamed (f : GridField) (name : String) : Outcome GridField :=
  if f.hasFixedShape then .ok { f with name, latexName := none }
  else generic name f.spatialDimensions f.dtype f.indexDimensions (.coordinates f.layout) (some f.indexShape) f.kind

end GridField

end StencilForge
