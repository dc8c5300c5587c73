import StencilForge.Document.Array
import StencilForge.Drawing.Fields
import StencilForge.Drawing.Notebook
import StencilForge.Drawing.Stencil
import StencilForge.Query.Steps

/-!
# Questions — drawings

The commands that draw stencils and fields, and those that show animations.
-/

namespace StencilForge.Query

open Document
open Drawing

variable (s : List Ints) (j : Json)

def readDrawingItem : Json → Item :=
  Json.fold (fun
    | .bool b => .truth b
    | .int n => .int n
    | .float x => .real x
    | .str s => .text s
    | _ => .nothing) .list .table

def readDrawingPairs (ps : List (String × Json)) : Keywords := ps.map fun (k, v) => (k, readDrawingItem v)

def readMaskedArray : Outcome MaskedArray := do
  let values := (← readDataArray j).values
  return ⟨values, ← (list? j "mask").mapM fun xs => do return (← readArray readCell (.arr xs)).map (·.toFloat != 0)⟩

def ofMaskedArray (a : MaskedArray) : Answer := do
  match a.mask with
  | none => ofArray (fun c => .ok (ofCell c)) a.values
  | some m => do
    let zero := fun
      | .int _ => .int 0
      | _ => .real 0
    let shown := .ofFn a.shape fun i =>
      let c := a.values.getD i (.int 0)
      if a.hides i then zero c else c
    return .arr [.str "masked", ← ofArray (fun c => .ok (ofCell c)) shown, ← ofArray (fun b => .ok (.bool b)) m]

mutual

def ofDrawingItem : Item → Answer
  | .nothing => .ok .null
  | .truth b => .ok (.bool b)
  | .int n => .ok (.int n)
  | .real x => .ok (ofFloat x)
  | .text s => .ok (.str s)
  | .list xs => .arr <$> xs.mapM ofDrawingItem
  | .table kvs => .obj <$> ofDrawingPairs kvs
  | .array a => ofMaskedArray a
  | .object p => .ok (.arr [.str "obj", .str p])
  | .callable k => .ok (.arr [.str "callable", .str k])
  | .arrow xs ys zs => .ok (.arr [.str "Arrow3D", .arr [ints xs, ints ys, ints zs]])

def ofDrawingPairs : List (String × Item) → Outcome (List (String × Json))
  | [] => .ok []
  | (k, v) :: r => do return (k, ← ofDrawingItem v) :: (← ofDrawingPairs r)

end

def ofDrawingCommand (c : Drawing.Command) : Answer := do
  return .arr [.str c.path, .arr (← c.args.mapM ofDrawingItem), .obj (← ofDrawingPairs c.keywords)]

def readOptions : Keywords := readDrawingPairs (pairs j "options")

def drawn (d : Draw Json) (inOrder : Bool) : Answer := do
  let (commands, value) := d.perform []
  let value ← value
  let calls ← commands.mapM ofDrawingCommand
  return .obj [("calls", .arr (if inOrder then calls else sorted calls)), ("value", value)]

/-! ### Stencils -/

def readLabels (c : Names) : Option Json → Outcome (Option (List Label))
  | some (.arr xs) => do
    let one := fun (x : Json) => match x with
      | .arr _ => .formula <$> readExpr c x
      | x => .ok (.plain (readDrawingItem x))
    return some (← (xs.mapM one : Outcome (List Label)))
  | _ => .ok none

def readTarget : Drawing.Target :=
  match strD j "on" with
  | "axes" => .axes "axes"
  | "figure" => .figure "figure"
  | _ => .current

structure StencilDrawing where
  target : Drawing.Target
  labels : Option (List Label)
  options : Keywords

variable (d : StencilDrawing)

/-- Unknown options play no role. -/
def planeDrawing : Draw Unit := stencil2d A s d.target d.labels (d.options.getD "textsize" (.text "12"))

def spaceDrawing : Draw Unit := do
  if d.options.any (·.1 != "textsize") then raise .mistyped
  stencil3d A s d.target d.labels (d.options.getD "textsize" (.text "8"))

def cutDrawing : Draw Unit := do
  let axis ← match d.options.get? "slice_axis" with
    | none => pure 2
    | some (.int n) => pure n
    | some _ => raise .mistyped
  stencilCuts A s axis d.target d.labels (d.options.getD "textsize" (.text "12"))

def anyDrawing : Draw Unit :=
  match s with
  | [] => raise .outOfRange
  | o :: _ =>
    if o.length = 2 then planeDrawing s d
    else
      let cut := (d.options.getD "slice" (.truth false)).isTrue
      let d := { d with options := d.options.filter (·.1 != "slice") }
      if cut then cutDrawing s d else spaceDrawing s d

def expressionDrawing (e : Expr) (d : StencilDrawing) : Draw Json := do
  let s ← LinearStencil.ofLinear A e
  let offsets ← (s.coefficients.mapM fun (o, _) => o.mapM (present .mistyped ·.int?) : Outcome (List Ints))
  let d := { d with labels := some (s.coefficients.map fun (_, c) => .formula c) }
  match s.field.spatialDimensions with
  | 1 => do
    let a ← s.toArray true
    ofRows (a.toList.map fun x => [x])
  | 2 => do
    planeDrawing offsets d
    return .null
  | 3 => do
    cutDrawing offsets d
    return .null
  | _ => raise .violated

def stencilDrawing : Answer := do
  let c ← readNames j
  let d := ⟨readTarget j, ← readLabels c (j.get? "data"), readOptions j⟩
  match strD j "fn" with
  | "expression" => do
    let e ← readExpr c (j "expr")
    drawn (expressionDrawing e d) false
  | fn => do
    let s ← asStencil (j "stencil")
    let draw := match fn with
      | "plot_2d" => planeDrawing s d
      | "plot_3d" => spaceDrawing s d
      | "plot_3d_slicing" => cutDrawing s d
      | _ => anyDrawing s d
    drawn (do draw; return .null) true

/-! ### Fields -/

def fieldParameters : String → List Parameter × Bool
  | "vector_field" => ([⟨"step", some (.int 2)⟩], true)
  | "scalar_field_alpha_value" => ([⟨"color", none⟩, ⟨"clip", some (.truth false)⟩], true)
  | "phase_plot" => ([⟨"linewidth", some (.real 1)⟩, ⟨"clip", some (.truth true)⟩], false)
  | "vector_field_animation" => ([⟨"step", some (.int 2)⟩, ⟨"rescale", some (.truth true)⟩, ⟨"interval", some (.int 200)⟩,
      ⟨"frames", some (.int 180)⟩], true)
  | "vector_field_magnitude_animation" => ([⟨"rescale", some (.truth false)⟩, ⟨"interval", some (.int 30)⟩,
      ⟨"frames", some (.int 180)⟩], true)
  | "scalar_field_animation" => ([⟨"rescale", some (.truth true)⟩, ⟨"interval", some (.int 30)⟩,
      ⟨"frames", some (.int 180)⟩], true)
  | "surface_plot_animation" => ([⟨"frames", some (.int 90)⟩, ⟨"interval", some (.int 30)⟩, ⟨"zlim", some .nothing⟩], true)
  | _ => ([], true)

def asObject (d : Draw String) : Draw Json := do return .arr [.str "obj", .str (← d)]

def asNothing (d : Draw Unit) : Draw Json := do
  d
  return .null

def arrayDrawing (fn : String) (a : MaskedArray) (values k : Keywords) : Draw Json :=
  let value := fun n => values.getD n .nothing
  match fn with
  | "vector_field" => asObject (vectorField a (value "step") k)
  | "vector_field_magnitude" => asObject (vectorMagnitude a k)
  | "scalar_field" => asObject (image a k)
  | "scalar_field_surface" => asObject (surface a k)
  | "scalar_field_alpha_value" => asObject (opacity a (value "color") (value "clip").isTrue k)
  | "scalar_field_contour" => asObject (contour a k)
  | "multiple_scalar_fields" => asNothing (several a k)
  | "phase_plot" => asNothing (phases a (value "linewidth") (value "clip").isTrue)
  | _ => raise .general

def frameDrawing (fn : String) (frames : List MaskedArray) (values k : Keywords) (h : Hooks) : Draw Json := do
  let first :: rest := frames
    | raise .general
  let animation ← match fn with
    | "vector_field_animation" => vectorAnimation first values k h
    | "vector_field_magnitude_animation" => magnitudeAnimation first values k h
    | "scalar_field_animation" => scalarAnimation first values k h
    | "surface_plot_animation" =>
      let hooks := if h.isOn then [("plot_setup_function", .callable "function"),
        ("plot_update_function", .callable "function")] else []
      surfaceAnimation first values (k ++ hooks)
    | _ => raise .general
  asObject (animation.play rest)

def readSampling : Outcome Sampling :=
  match j.get? "x" with
  | none | some .null => .ok .standard
  | some (.arr xs) => .ok (.evenly (xs.map readDrawingItem))
  | some (.obj ps) => .array <$> readMaskedArray (.obj ps)
  | some _ => .ok .other

def fieldDrawing : Answer := do
  let fn := strD j "fn"
  let options := readOptions j
  let args := ((list? j "args").getD []).map readDrawingItem
  if fn == "sympy_function" then
    let e ← readExpr (← readNames j) (j "expr")
    drawn (asObject (Drawing.graph A e (← readSampling j) options)) true
  else
    let (parameters, takesMore) := fieldParameters fn
    let (values, k) ← Drawing.bind parameters takesMore args options
    match list? j "frames" with
    | some fs => do
      let frames ← fs.mapM readMaskedArray
      drawn (frameDrawing fn frames values k ⟨boolD j "hooks"⟩) true
    | none => do
      let a ← readMaskedArray (j "array")
      drawn (arrayDrawing fn a values k) true

/-! ### Notebooks -/

def doubledPlusOne (a : MaskedArray) : MaskedArray :=
  { a with values := a.values.map fun
    | .int n => .int (n * 2 + 1)
    | c => .real (c.toFloat * 2 + 1) }

def displayName : Option Display → Json
  | none => .null
  | some .video => .str "display_as_html_video"
  | some .window => .str "display_in_extra_window"
  | some .picture => .str "display_as_html_image"

def notebookAction (m : String) (as : List Json) : Page Json := do
  modify fun n => { n with commands := [] }
  let value ← match m, as with
    | "mode", [mode] => do
      Notebook.choose (readDrawingItem mode)
      pure .nothing
    | "activate", _ => do
      Notebook.activate
      pure .nothing
    | "display", frames :: rest => do
      let options := match rest with
        | .obj ps :: _ => readDrawingPairs ps
        | _ => []
      let video := match rest with
        | _ :: .str s :: _ => .inr s
        | _ => .inl "QUJD"
      Notebook.present ⟨(← asInt frames).toNat, video⟩ options
    | "imshow", array :: rest => do
      let frames := match rest with
        | f :: _ => readDrawingItem f
        | [] => .int 90
      Notebook.animate (← readMaskedArray array) doubledPlusOne frames 2
    | _, _ => raise .general
  let n ← get
  let calls ← (n.commands.mapM ofDrawingCommand : Outcome (List Json))
  return .arr [← ofDrawingItem value, ← ofDrawingItem n.mode, displayName n.display?, .arr calls]

def notebook (fault : Failure → Json) (j : Json) : Answer := do
  let n := { running := boolD j "ipython" true }
  return runSteps fault n (← steps j) fun n m as => (notebookAction m as).perform n

end StencilForge.Query
