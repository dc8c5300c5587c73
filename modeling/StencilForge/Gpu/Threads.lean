import StencilForge.Kernel.Domain

/-!
# GPU — sizes of thread blocks

The coordinate that runs fastest in memory gets the largest extent of a block of threads.
-/

namespace StencilForge

namespace BlockSize

/-- Until no more than `n` are left; `fuel` bounds the number of extents. -/
def fold : Nat → Nat → Ints → Ints
  | 0, _, bs => bs
  | fuel + 1, n, bs =>
    if bs.length > n then
      match bs with
      | b :: c :: r => fold fuel n ((b * (c :: r).getLastD 1) :: (c :: r).dropLast)
      | bs => fold fuel n bs.dropLast
    else bs

def permute (size layout : Ints) : Outcome Ints := do
  let descending := (size.mergeSort fun a b => b ≤ a)
  let extents := fold size.length layout.length descending
  let result ← (List.zip layout.reverse extents).foldlM (fun r (l, b) => do
    return r.set (← Layout.place r.length l) b) size
  return result.take layout.length

end BlockSize

/-!
## GPU — threads and cells

Either blocks of threads stand for blocks of cells, and threads beyond the last cell do nothing; or a block of threads
is one line of cells.
-/

inductive Threads where
  | blocks (size : Exprs) (compiledIn : Bool) (maximum : Ints) (slice : List Slice.Normal)
      (extents : List Extent)
  | lines (indices : Exprs) (slice : List Slice.Normal) (extents : List Extent)
  deriving Inhabited

namespace Threads

def index (kind axis : String) : Expr := .sym ⟨kind ++ "." ++ axis, .thread .integer⟩

def axes : Strings := ["x", "y", "z"]

def blockIndex : Exprs := axes.map (index "blockIdx")
def threadIndex : Exprs := axes.map (index "threadIdx")
def blockExtent : Exprs := axes.map (index "blockDim")
def gridExtent : Exprs := axes.map (index "gridDim")

def known : Exprs := blockIndex ++ threadIndex ++ blockExtent ++ gridExtent

variable (A : Algebra)

def areNumbers (es : Exprs) : Bool := es.all fun e => e.int?.isSome || e.isFloat

/-- The fastest coordinate gets the largest extent if `permute`. -/
def ofBlocks (f : GridField) (slice : Slices) (size : Exprs := [.lit 16, .lit 16, .lit 1])
    (permute : Bool := true) (compiledIn : Bool := false) (maximum : Ints := [1024, 1024, 64]) :
    Outcome Threads := do
  if f.spatialDimensions > 3 then
    raiseWith .unsupported "This indexing scheme supports at most 3 spatial dimensions"
  let size ← if permute && areNumbers size then do
      pure ((← BlockSize.permute (size.filterMap Expr.int?) f.layout).map Expr.lit)
    else pure size
  let slice ← Slice.normalize A slice (f.spatialShape.map Domain.bound)
  return .blocks size compiledIn maximum slice f.spatialShape

/-- The fastest coordinate is the index of the thread. -/
def ofLines (f : GridField) (slice : Slices) : Outcome Threads := do
  if f.spatialDimensions > 4 then
    raiseWith .unsupported "This indexing scheme supports at most 4 spatial dimensions"
  let indices := ((threadIndex.take 1) ++ blockIndex).take f.spatialDimensions
  let fastest ← Layout.place indices.length (f.layout.getLastD 0)
  let swapped := (indices.set 0 (indices.getD fastest .zero)).set fastest (indices.getD 0 .zero)
  let slice ← Slice.normalize A slice (f.spatialShape.map Domain.bound)
  return .lines swapped slice f.spatialShape

def plainPoint : Expr → Outcome Int
  | .lit n => .ok n
  | _ => raise .violated

def starts (ss : List Slice.Normal) : Outcome Exprs :=
  ss.mapM fun
    | .range a _ _ => .ok a
    | .point e => do return .lit (← plainPoint e)

def stops (ss : List Slice.Normal) (shape : Exprs) : Outcome Exprs := do
  (← Slice.normalize A (ss.map (·.toSlice)) shape).mapM fun s => match s with
    | .range _ b _ => .ok b
    | .point e => do return .lit ((← plainPoint e) + 1)

def coordinates : Threads → Outcome Exprs
  | .blocks size compiledIn _ slice _ => do
    let offsets ← starts slice
    let extents := if compiledIn then size else blockExtent
    let all := (blockIndex.zip extents).zip (threadIndex.zip offsets)
    return (all.map fun ((b, n), (t, o)) => A.add2 (A.add2 (A.mul2 b n.ofPosition) t) o.ofPosition).take slice.length
  | .lines indices slice _ => do return (indices.zip (← starts slice)).map fun (i, o) => A.add2 i o.ofPosition

def guard (t : Threads) (body : Body) (shape : Exprs) : Outcome Body := do
  match t with
  | .blocks _ _ _ slice _ => do
    let ends ← stops A slice (shape.take slice.length)
    let conds ← ((← t.coordinates A).zip ends).mapM fun (c, e) => Build.node A (.rel .lt) [c, e.ofPosition]
    let c :: cs := conds
      | raise .outOfRange
    let cond ← cs.foldlM (fun a b => Build.node A .and [a, b]) c
    return [.branch cond body false []]
  | .lines .. => return body

def maxThreads : Threads → Option Expr
  | .blocks size .. => if areNumbers size then some (A.prod (size.map (·.ofPosition))) else none
  | .lines .. => none

def parameters : Threads → Exprs
  | .blocks size .. => unionNew [] (size.filter fun e => match e with
      | .sym _ => true
      | _ => false)
  | .lines .. => []

structure Launch where
  block : Exprs
  grid : Exprs

def widths (slice : List Slice.Normal) (extents : List Extent) (shape : Ints) : Outcome Exprs := do
  let ends ← stops A slice (shape.map Expr.lit)
  let table : Table Expr Expr := (extents.zip shape).filterMap fun (x, n) => match x with
    | .known _ => none
    | x => some (.ofExtent x, .int n)
  ((← starts slice).zip ends).mapM fun (a, b) => Substitute.algebraicTable A table (A.sub b.ofPosition a.ofPosition)

def least (a b : Expr) : Outcome Expr := Build.node A (.fn .min) [a, b]

/-- No coordinate has more threads than cells; threads not needed in one coordinate go to the next one. -/
def adapt (size widths : Exprs) : Outcome Exprs :=
  widths.zipIdx.foldlM (fun done (w, i) => do
    let some b := size[i]?
      | raise .outOfRange
    let factor ← Build.node A (.fn .divFloor) [A.prod (size.take i), A.prod done]
    return done ++ [← least A (A.mul2 b factor) w]) []

def launch (t : Threads) (shape : Ints) : Outcome Launch := do
  match t with
  | .blocks size compiledIn maximum slice extents => do
    let ws ← widths A slice extents shape
    let one := .replicate (3 - size.length) .one
    let full := size.map (·.ofPosition) ++ one
    let block ← if compiledIn then pure full
      else do
        require (full.length == 3) .violated
        pure ((← adapt A full ws) ++ one)
    let block ← (block.zip maximum).mapM fun (b, m) => least A b (.int m)
    let grid ← (ws.zip block).mapM fun (w, b) => Build.node A (.fn .divCeil) [w, b]
    return ⟨block, grid ++ .replicate (3 - grid.length) .one⟩
  | .lines indices slice extents => do
    let ws ← widths A slice extents shape
    let extent := fun (i : Expr) => match indices.findIdx? (· == i) with
      | some k => ws.getD k .one
      | none => .one
    return ⟨threadIndex.map extent, blockIndex.map extent⟩

end Threads

end StencilForge
