import StencilForge.Drawing.Basic
import StencilForge.Expr.Evaluate
import StencilForge.Expr.Visit

/-!
# Drawing — fields

Scalar and vector fields as pictures, the second coordinate upwards, and animations.
-/

namespace StencilForge.Drawing

variable (a : MaskedArray) (k : Keywords) (first : MaskedArray)

def undistorted (path : String) (args : List Item) (k : Keywords) : Draw String := do
  let r ← call path args k
  tell "axis" [.text "equal"]
  return r

def upright (a : MaskedArray) (k : Keywords) : Draw String := do
  undistorted "imshow" [.array a] (← Keywords.join [("origin", .text "lower")] k)

def image : Draw String := do upright (← a.swap) k

def stepSlices : Item → Outcome Slices
  | .int n => .ok (every n)
  | .truth b => .ok (every (if b then 1 else 0))
  | .nothing => .ok (.replicate 2 .whole)
  | _ => raise .mistyped
where
  every n := .replicate 2 (.range none none (some (.at (.lit n))))

def components (step : Item) : Outcome (MaskedArray × MaskedArray) := do
  let ss ← stepSlices step
  return (← a.part (ss ++ [.point (.at (.lit 0))]), ← a.part (ss ++ [.point (.at (.lit 1))]))

def sliceFirst : String := "Wrong shape of array - did you forget to slice your 3D domain first?"

def vectorField (step : Item) (k : Keywords) : Draw String := do
  requireWith (a.shape.length == 3) .violated sliceFirst
  requireWith (a.shape.getD 2 0 == 2) .violated "Last array dimension is expected to store 2D vectors"
  let (u, v) ← components (← a.swap) step
  undistorted "quiver" [.array u, .array v] k

def magnitude : Outcome MaskedArray := do return .ofFloats (← a.norms) a.firstMask

def vectorMagnitude : Draw String := do
  requireWith (a.shape.length == 3) .violated sliceFirst
  let n := a.shape.getD 2 0
  requireWith (n == 2 || n == 3) .violated "Wrong size of the last coordinate. Has to be a 2D or 3D vector field."
  image (← magnitude a) k

def meshgrid : Outcome (MaskedArray × MaskedArray) :=
  match a.shape with
  | m :: n :: _ =>
    let along := fun (f : Nats → Nat) => ({ values := .ofFn [m, n] fun i => .int (f i) } : MaskedArray)
    .ok (along fun i => i.getD 0 0, along fun i => i.getD 1 0)
  | _ => raise .outOfRange

def surfaceKeywords : Keywords :=
  k.defaults
    [("rstride", .int 2), ("cstride", .int 2), ("color", .text "b"), ("cmap", .callable "LinearSegmentedColormap")]

def surfaceAxes : Draw String := do
  let figure ← call "gcf"
  call s!"{figure}.add_subplot" [.int 111] [("projection", .text "3d")]

def surface : Draw String := do
  let axes ← surfaceAxes
  let (x, y) ← meshgrid a
  call s!"{axes}.plot_surface" [.array x, .array y, .array a] (surfaceKeywords k)

def opacity (colour : Item) (clip : Bool) (k : Keywords) : Draw String := do
  requireWith (a.shape.length == 2) .violated sliceFirst
  let a ← a.swap
  let values ← if clip then pure a.clippedNumbers else a.stretchedNumbers
  let c ← Colour.ofItem colour
  let picture := .ofFn (a.shape ++ [4]) fun
    | [_, _, 0] => .real c.red
    | [_, _, 1] => .real c.green
    | [_, _, 2] => .real c.blue
    | i => .real (values.getD i.dropLast 0)
  upright { values := picture } k

def contour : Draw String := do undistorted "contour" [.array (← a.swap)] k

def several : Draw Unit := do
  require (a.shape.length == 3) .violated
  let n := a.shape.getD 2 0
  (List.range n).forM fun i => do
    tell "subplot" [.int 1, .int n, .int (i + 1)]
    tell "title" [.text (toString i)]
    let _ ← image (← a.atLast i) k
    tell "colorbar"

def phaseColours : Strings := ["#fe0002", "#00fe00", "#0000ff", "#ffa800", "#f600ff"]

def phases (lineWidth : Item) (clip : Bool) : Draw Unit := do
  require (a.shape.length == 3) .violated
  let n := a.shape.getD 2 0
  (List.range n).forM fun i => do
    let colour := phaseColours.getD (i % phaseColours.length) ""
    let _ ← opacity (← a.atLast i) (.text colour) clip [("interpolation", .text "bilinear")]
  if lineWidth.isTrue then
    (List.range n).forM fun i => do
      let _ ← contour (← a.atLast i)
        [("levels", .list [.real 0.5]), ("colors", .text "k"), ("linewidths", .list [lineWidth])]

/-! ### Graphs -/

/-- The last one is included if `closed`. -/
def evenly (start stop : Float) (count : Nat) (closed : Bool) : List Float :=
  let div := if closed then count - 1 else count
  let delta := stop - start
  let step := delta / (Number.ofInt div).toFloat
  let at_ := fun (i : Nat) =>
    let x := (Number.ofInt i).toFloat
    if div = 0 then x * delta + start
    else if step == 0 then x / (Number.ofInt div).toFloat * delta + start
    else x * step + start
  (List.range count).map fun i => if closed && 1 < count && i + 1 = count then stop else at_ i

def samples (xs : List Item) : Outcome (List Float) := do
  let real := fun
    | .int n => .ok (Number.ofInt n).toFloat
    | .real x => .ok x
    | .truth b => .ok (if b then 1 else 0)
    | _ => raise .mistyped
  let count := fun
    | .int n => if n < 0 then raise .invalid else .ok n.toNat
    | _ => raise .mistyped
  match xs with
  | [a, b] => return evenly (← real a) (← real b) 50 true
  | [a, b, n] => return evenly (← real a) (← real b) (← count n) true
  | [a, b, n, closed] => return evenly (← real a) (← real b) (← count n) closed.isTrue
  | _ => raise .mistyped

inductive Sampling where
  | standard
  | evenly (xs : List Item)
  | array (a : MaskedArray)
  | other

def Sampling.values : Sampling → Outcome (List Cell)
  | .standard => .ok ((Drawing.evenly 0 1 100 true).map .real)
  | .evenly xs => do return (← samples xs).map .real
  | .array a => do
    require (a.shape.length == 1) .violated
    return a.values.toList
  | .other => raiseWith .invalid "Invalid value for parameter x_values"

def graph (A : Algebra) (e : Expr) (s : Sampling) (k : Keywords) : Draw String := do
  let xs ← s.values
  let symbols := unionNew [] (Visit.outermost (·.isSymbol) e)
  let [x] := symbols
    | raise .violated
  let number := fun (c : Cell) => match c with
    | .int n => Evaluate.Value.whole n
    | c => .real c.toFloat
  let ys ← (xs.mapM fun c => do
    match ← Evaluate.value A false [(x, number c)] e with
    | .whole n => return Cell.int n
    | .real y => return .real y : Outcome (List Cell))
  let line := fun (cs : List Cell) => Item.array { values := ⟨[cs.length], cs.toArray⟩ }
  call "plot" [line xs, line ys] k

/-! ### Animations -/

structure Hooks where
  isOn : Bool := false

def Hooks.tell (h : Hooks) (name o : String) : Draw Unit := if h.isOn then Drawing.tell name [.object o] else return ()

/-- What is drawn first, and what each further array changes. -/
structure Animation where
  update : MaskedArray → Draw Item
  figure : String
  keywords : Keywords

def Animation.play (a : Animation) (frames : List MaskedArray) : Draw String := do
  let r ← call "FuncAnimation" [.object a.figure] a.keywords
  frames.zipIdx.forM fun (f, i) => do
    let shown ← a.update f
    tell "frame" [.int i, .list [shown]]
  return r

def rescale (values : Keywords) : Bool := (values.getD "rescale" .nothing).isTrue

def timing (values : Keywords) : Keywords := values.filter fun (n, _) => n == "interval" || n == "frames"

def vectorAnimation (values k : Keywords) (h : Hooks) : Draw Animation := do
  let figure ← call "gcf"
  let step := values.getD "step" .nothing
  let k := if rescale values then
      k.defaults [("scale", .real 0.6), ("angles", .text "xy"), ("scale_units", .text "xy")]
    else k
  let field ← if rescale values then first.scaled else pure first
  let arrows ← vectorField field step k
  h.tell "setup" arrows
  return { figure, keywords := timing values, update := fun f => do
    let f ← f.swap
    let f ← if rescale values then f.scaled else pure f
    let (u, v) ← components f step
    tell s!"{arrows}.set_UVC" [.array u, .array v]
    h.tell "update" arrows
    return .nothing }

def magnitudeAnimation (values k : Keywords) (h : Hooks) : Draw Animation := do
  let figure ← call "gcf"
  let field ← if rescale values then first.scaled else pure first
  let picture ← vectorMagnitude field k
  h.tell "setup" picture
  return { figure, keywords := timing values, update := fun f => do
    let f ← if rescale values then f.scaled else pure f
    tell s!"{picture}.set_array" [.array (← (← magnitude f).swap)]
    h.tell "update" picture
    return .object picture }

def scalarAnimation (values k : Keywords) (h : Hooks) : Draw Animation := do
  let figure ← call "gcf"
  let picture ← if rescale values then do
      image (← first.stretched) (← Keywords.join [("vmin", .real 0), ("vmax", .real 1)] k)
    else image first k
  h.tell "setup" picture
  return { figure, keywords := timing values, update := fun f => do
    let f ← if rescale values then f.stretched else pure f
    tell s!"{picture}.set_array" [.array (← f.swap)]
    h.tell "update" picture
    return .object picture }

def limitArgs : Item → Outcome (List Item)
  | .list xs => .ok xs
  | _ => raise .mistyped

def surfaceAnimation (values k : Keywords) : Draw Animation := do
  let axes ← surfaceAxes
  let (x, y) ← meshgrid first
  let k := surfaceKeywords k
  let limit := values.getD "zlim" .nothing
  let plot := fun a => do
    let r ← call s!"{axes}.plot_surface" [.array x, .array y, .array a] k
    match limit with
    | .nothing => pure ()
    | l => tell s!"{axes}.set_zlim" (← limitArgs l)
    return r
  let _ ← plot first
  return { figure := "gcf()", keywords := timing values ++ [("blit", .truth false)], update := fun f => do
    tell s!"{axes}.clear"
    return .object (← plot f) }

end StencilForge.Drawing
