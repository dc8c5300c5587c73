import StencilForge.Query.Steps

/-!
# Questions about fields, accesses and layouts
-/

namespace StencilForge.Query

open Document Layout Access

variable (j : Json)

def fields : Answer := do return .arr (← (← readFields j).mapM ofField)

def fieldRename : Answer := do
  let f ← firstField j
  let g ← f.renamed (strD j "name")
  let h ← g.renamed (strD j "name")
  return .obj [("field", ← ofField g), ("equal", .bool (f == g)), ("same_again", .bool (g == h))]

def fieldEqual : Answer := do
  let one := fun k => do
    match (← listOf readFieldSpec (field j k)).flatten with
    | f :: _ => return f
    | [] => bad
  let a ← one "a"
  let b ← one "b"
  return .obj [("fields", .bool (a == b)), ("centers", .bool (center a == center b)),
    ("other_type", .bool false)]

def describeAccess (a : Expr) : Answer := do
  let plain := isPlain a
  let offsetName := Stencil.directionName (a.offsets.filterMap Expr.int?)
  let orNull := fun v => if plain then v else .null
  return .obj [("expr", ← ofExpr a), ("name", orNull (.str (Text.ofExpr A a))),
    ("str", .str (Text.plain A a)), ("latex", .str (← Latex.ofExpr A a)), ("coords", nat a.offsets.length),
    ("offset_name", orNull (.str offsetName)), ("ghost_layers", orNull (nat (reach a))),
    ("absolute", .bool a.isAbsolute),
    ("indirect", .arr (((indirectFields a).map (·.name)).mergeSort (· ≤ ·) |>.map .str))]

inductive Place where
  | field (f : GridField)
  | access (a : Expr)

def accessStep (c : Names) (start : GridField) (p : Place) (m : String) (as : List Json) : Outcome (Place × Json) := do
  let now := fun a => do return (.access a, ← describeAccess a)
  let positions := listOf (readPosition c)
  let items := listOf (readIndex c)
  match m, as, p with
  | "reset", _, _ => return (.field start, ← ofExpr (.atom (.field start)))
  | "center", _, .field f => now (center f)
  | "getitem", [.str s], .field f => do
    now (← shifted f ((← Stencil.ofDirectionName s f.spatialDimensions).map Expr.lit))
  | "getitem", [.arr os], .field f => do now (← shifted f (← positions (.arr os)))
  | "getitem", [o], .field f => do now (← shifted f [← readPosition c o])
  | "getitem", [.arr os], .access a => do now (← value a [.node .tuple (← positions (.arr os))])
  | "getitem", [o], .access a => do now (← value a [← readIndex c o])
  | "call", [is], .field f => do now (← ofField f (← items is))
  | "call", [is], .access a => do now (← value a (← items is))
  | "neighbor", [.int k, o], .field f => do now (← fieldNeighbor f k (← readPosition c o))
  | "neighbor", [.int k, o], .access a => do now (← neighbor A a k (← readPosition c o))
  | "get_shifted", os, .access a => do now (← move A a (← positions (.arr os)))
  | "at_index", is, .access a => do now (← atIndex a (← items (.arr is)))
  | "absolute", [os, is], .field f => do now (← absolute f (← positions os) (some (← items is)))
  | "absolute", [os], .field f => do now (← absolute f (← positions os) none)
  | "center_vector", _, .field f => do
    match ← centerRows f with
    | none => return (p, .null)
    | some rows => return (p, ← ofRows rows)
  | "neighbors", [.arr ss], .field f => do
    let as ← ss.mapM fun s => match s with
      | .str s => do shifted f ((← Stencil.ofDirectionName s f.spatialDimensions).map Expr.lit)
      | s => do shifted f (← positions s)
    return (p, ← ofExprs as)
  | _, _, _ => raise .noSuchPart

def access (fault : Failure → Json) (j : Json) : Answer := do
  let c ← readNames j
  let f ← c.field (strD j "start")
  return runSteps fault (.field f) (← steps j) fun p m as => keeping p (accessStep c f p m as)

/-- `false` and 0 mean no alignment, `true` means 32. -/
def alignment : Option Int :=
  match j.get? "alignment" with
  | some (.bool true) => some 32
  | some (.int n) => if n = 0 then none else some n
  | _ => none

def layout : Answer := do
  match strD j "fn" with
  | "from_strides" => do
    let left ← (j.get? "index_dimension_ids").mapM asInts
    return ints (← ofStrides (← asInts (j "strides")) (left.getD []))
  | "spatial_string" => return ints (← spatialOfName (strD j "layout") (natD j "dim"))
  | "string" => return ints (← ofName (strD j "layout") (natD j "dim"))
  | "normalize" => return ints (← normalize (← asInts (j "layout")))
  | "strides" => return ints (← strides (← asInts (j "shape")) (← asInts (j "layout")))
  | "array" => do
    let t ← readElementType j
    let s ← Storage.withLayout (GridField.elementSize t) (← asInts (j "shape")) (← asInts (j "layout"))
      (alignment j)
    return .obj [("shape", ints s.shape), ("strides", ints s.strides),
      ("layout", ints (← ofStrides s.strides [])), ("aligned", optional (fun _ => .bool true) (alignment j))]
  | "aligned" => do
    let t ← readElementType j
    let shape ← match j "shape" with
      | .int n => pure [n]
      | v => asInts v
    let order := if strD j "order" "C" == "F" then Storage.Order.columns else .rows
    let s ← Storage.aligned (GridField.elementSize t) (intD j "alignment" 32) order
      (boolD j "align_inner" true && !(j "shape" matches .int _)) shape
    let total := if strD j "kind" "zeros" == "ones" then s.shape.foldl (· * ·) 1 else 0
    return .obj [("shape", ints s.shape), ("strides", ints s.strides),
      ("sum", ofFloat (Number.ofInt total).toFloat), ("aligned", .bool true)]
  | _ => bad

def fieldsFromArrays : Answer := do
  let arrays ← match j "arrays" with
    | .obj ps => ps.mapM fun (n, a) => do
      let (dtype, storage) ← readStorage a
      return { name := n, storage, dtype }
    | _ => pure []
  let fs ← FieldDescription.fieldsWith (strD j "desc") (str? j "layout") (natD j "index_dimensions") arrays
  return .arr (← fs.mapM ofField)
end StencilForge.Query
