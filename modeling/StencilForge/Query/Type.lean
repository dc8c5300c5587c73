import StencilForge.Compile.Commands
import StencilForge.Document.Array
import StencilForge.Kernel.Address
import StencilForge.Query.Steps

/-!
# Questions about types
-/

namespace StencilForge.Query

open Document

variable (j : Json)

def describeType (t : DataType) : Answer := do
  let text := ("str", .str (← t.cName))
  match t with
  | .basic s const => return .obj [text, ("class", .str "BasicType"), ("int", .bool s.isInt), ("uint", .bool s.isUInt),
      ("float", .bool s.isFloat), ("complex", .bool s.isComplex), ("other", .bool s.isOther), ("const", .bool const),
      ("item_size", nat t.itemSize), ("name", .str (← s.cName))]
  | .pointer b const restrict => return .obj [text, ("class", .str "PointerType"), ("const", .bool const),
      ("restrict", .bool restrict), ("alias", .bool !restrict), ("item_size", nat t.itemSize),
      ("base", ← describeType b)]
  | .vector b w => return .obj [text, ("class", .str "VectorType"), ("width", nat w), ("item_size", nat t.itemSize),
      ("base", ← describeType b)]
  | .record ms _ const => do
    let members ← ms.mapM fun m => do return .arr [.str m.name, nat m.offset, .str (← m.scalar.cName)]
    return .obj [text, ("class", .str "StructType"), ("const", .bool const), ("item_size", nat t.itemSize),
      ("members", .arr members), ("has_x", .bool (t.member? "x").isSome)]
  | .written _ => raise .noSuchPart

def encodeNative : NativeType → Json
  | .signed n => .arr [.str ("c_" ++ word n), nat n]
  | .unsigned n => .arr [.str ("c_u" ++ word n), nat n]
  | .floating n => .arr [.str (if n = 4 then "c_float" else "c_double"), nat n]
  | .address t => .arr [.str "ptr", encodeNative t]
where
  word : Nat → String
    | 1 => "byte" | 2 => "short" | 4 => "int" | _ => "long"

def type : Answer := do
  match strD j "fn" with
  | "create" => describeType (← readType (j "type"))
  | "base" => describeType (← readType (j "type")).innermost
  | "collate" => describeType (← DataType.collate (← listOf readType (j "types")))
  | "of_expr" => do
    let c ← readNames j
    describeType (← Typing.typeOf (← readExpr c (j "expr")))
  | "equal" => do
    let same := (← readType (j "a")) == (← readType (j "b"))
    return .obj [("equal", .bool same), ("not_equal", .bool !same)]
  | "ctypes" => return encodeNative (← (← readType (j "type")).native)
  | "symbol" => do
    let t ← if boolD j "raw" then DataType.ofText (strD j "type") else readType (j "type")
    let e := .typedSymbol (strD j "name") t
    let fact := fun f => optional .bool (A.ask f e)
    return .obj [("dtype", ← ofType t), ("integer", fact .integer), ("negative", fact .negative),
      ("nonnegative", fact .nonnegative), ("real", fact .real)]
  | "simd" => do
    let s ← present .missing (InstructionSet.ofNames? (strD j "type") (strD j "set"))
    let pairs := s.templates.map fun (k, v) => (k, optional Json.str v)
    return .obj (pairs ++ [("width", nat s.width), ("headers", texts s.headers),
      ("dataTypePrefix", .obj [("double", .str s!"_{s.stem}d"), ("float", .str s!"_{s.stem}")])])
  | _ => bad

/-!
## Questions about small matters
-/

def readItem : Json → Outcome BasePointer.Item
  | .int n => .ok (.coordinate n)
  | .str s => .ok (.word s)
  | _ => bad

def utility : Answer := do
  match strD j "fn" with
  | "dict_update" => match j "d", j "u" with
    | .obj d, .obj u => do return .obj [("result", .obj (← Json.update d u))]
    | _, _ => raise .noSuchPart
  | "all_equal" => do
    match ← asList (j "seq") with
    | [] => return .bool true
    | x :: xs => return .bool (xs.all (· == x))
  | "fully_contains" => do
    let a ← asList (j "a")
    let b ← asList (j "b")
    return .bool (a.all fun x => (a.filter (· == x)).length ≤ (b.filter (· == x)).length)
  | "bounding_box" => do
    let a ← readArray (fun v => .ok (asBool v)) (j "array")
    return .arr ((← a.boundingBox).map fun (b, e) => .arr [nat b, nat e])
  | "base_pointer_info" => do
    let spec ← listOf (listOf readItem) (j "spec")
    let gs ← BasePointer.groups spec (← asInts (j "loop_order")) (natD j "spatial") (natD j "index")
    return .arr (gs.map ints)
  | "permute_block_size" => do
    return ints (← BlockSize.permute (← asInts (j "block_size")) (← asInts (j "layout")))
  | "compiler_flags" => do
    let add ← match j "add" with
      | .arr xs => xs.mapM asStr
      | v => do pure [← asStr v]
    return .obj [("flags", .str (add.foldl CompilerFlags.add (strD j "flags"))), ("cache", .bool false)]
  | _ => bad

/-!
## Questions — slices
-/

def counting : Outcome (NdArray Int) := do
  let shape := (← asInts (j "shape")).map Int.toNat
  return ⟨shape, ((List.range (NdArray.volume shape)).map Int.ofNat).toArray⟩

def ofCounting (a : NdArray Int) : Answer := ofArray (fun n => .ok (.int n)) a

def slice : Answer := do
  let c ← readNames j
  let ghostLayers := intD j "ghost_layers" 1
  let thickness := int? j "thickness"
  let indexDimensions := intD j "index_dimensions"
  match strD j "fn" with
  | "normalize" => do
    let sizes ← listOf (readPosition c) (j "sizes")
    ofSlices ((← Slice.normalize A (← readSlices c (j "slices")) sizes).map (·.toSlice))
  | "shift" => do
    let ss ← readSlices c (j "slices")
    match j "offset" with
    | .arr os => ofSlices (← (ss.zip (← os.mapM asInt)).mapM fun (s, o) => s.shift o)
    | o => do
      let o ← asInt o
      ofSlices (← ss.mapM (·.shift o))
  | "direction" => do
    ofSlices (← Slice.ofDirection (strD j "name") (natD j "dim") (intD j "normal_offset")
      (intD j "tangential_offset"))
  | "before_ghost" => do
    ofSlices (← Slice.beforeGhost (← asInts (j "d")) ghostLayers thickness (boolD j "full"))
  | "ghost_region" => do
    ofSlices (← Slice.ghostRegion (← asInts (j "d")) ghostLayers thickness (boolD j "full"))
  | "periodic" => do
    let pairs ← Slice.periodic (← asStencil (j "stencil")) ghostLayers thickness
    return .arr (← pairs.mapM fun (a, b) => do return .arr [← ofSlices a, ← ofSlices b])
  | "intersection" => do
    (← Slice.intersection (← readSlices c (j "a")) (← readSlices c (j "b"))).elim (pure .null) ofSlices
  | "remove_gl" => do ofCounting (← (← counting j).removeGhostLayers indexDimensions ghostLayers)
  | "add_gl" => do
    let a ← counting j
    let layout ← match list? j "layout" with
      | some ls => ls.mapM asInt
      | none => Layout.ofStrides (Storage.rowStrides 8 (a.shape.map Int.ofNat)) []
    let spatial := (a.dimensions - indexDimensions).toNat
    let wide := ((a.shape.take spatial).map fun (n : Nat) => n + 2 * ghostLayers) ++ (a.shape.drop spatial).map .ofNat
    let s ← Storage.withLayout 8 wide layout none
    let r ← a.addGhostLayers indexDimensions ghostLayers
    return .obj [("values", ← ofCounting r), ("strides", ints s.strides)]
  | "functor" => do
    let pairs ← Slice.periodic (← asStencil (j "stencil")) ghostLayers thickness
    ofCounting (← (← counting j).copyPeriodic pairs)
  | _ => bad

end StencilForge.Query
