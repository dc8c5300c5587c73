import StencilForge.Drawing.Basic
import StencilForge.Literal
import StencilForge.Stencil.Linear

/-!
# Drawing — stencils

Arrows from the centre to the neighbours with labels; in space inside a cube, or as three cuts side by side.
-/

namespace StencilForge.Drawing

variable (A : Algebra) (s : List Ints)

inductive Label where
  | plain (i : Item)
  | formula (e : Expr)

namespace Label

def plainText : Item → String
  | .nothing => "None"
  | .truth b => if b then "True" else "False"
  | .int n => toString n
  | .real x => Double.text x
  | .text s => s
  | _ => ""

def text : Label → Outcome String
  | .plain i => .ok (plainText i)
  | .formula e => do return s!"${← Latex.ofExpr A e}$"

def isShown : Label → Outcome Bool
  | .plain i => .ok i.isTrue
  | .formula (.num n) => .ok (!n.isZero)
  | .formula (.bool b) => .ok b
  | .formula (.node (.rel _) _) => raise .mistyped
  | .formula _ => .ok true

end Label

inductive Target where
  | current
  | figure (path : String)
  | axes (path : String)

def shifted (n : Int) (x : Float) : Item := .real ((Number.ofInt n).toFloat + x)

def outward (n : Int) : Item := if n < 0 then shifted n (-0.18) else if n > 0 then shifted n 0.18 else .int n

def labelBox (colour : String) (opacity : Float) : Item :=
  .table [("boxstyle", .callable "Round"), ("facecolor", .text colour), ("alpha", .real opacity), ("linewidth", .int 0)]

def reachOf (c : Nat) : Outcome Int := do
  let ds ← s.mapM fun d => (present .outOfRange d[c]?).map fun n => (n.natAbs : Int)
  match ds with
  | [] => raise .invalid
  | x :: r => return r.foldl max x

def range (reach : Int) : Item :=
  let m := if reach > 0 then (Number.ofInt reach).toFloat else 0.1
  .list [.real (-0.1 - m), .real (0.1 + m)]

def numbered (n : Nat) : List Label := (List.range n).map fun (i : Nat) => .plain (.int i)

def planeAxes : Target → Draw String
  | .axes a => return a
  | .figure f => call s!"{f}.gca"
  | .current => do call ((← call "gcf") ++ ".gca")

def stencil2d (target : Target) (labels : Option (List Label)) (textSize : Item) : Draw Unit := do
  let axes ← planeAxes target
  let rx ← reachOf s 0
  let ry ← reachOf s 1
  (s.zip (labels.getD (numbered s.length))).forM fun (d, label) => do
    let [x, y] := d
      | raiseWith .violated "Works only for 2D stencils"
    if !(x = 0 && y = 0) then
      tell s!"{axes}.arrow" [.int 0, .int 0, .int x, .int y]
        [("head_width", .real 0.08), ("head_length", .real 0.1), ("color", .text "k")]
    tell s!"{axes}.text" [outward x, outward y, .text (← label.text A)]
      [("verticalalignment", .text "center"), ("zorder", .int 30), ("horizontalalignment", .text "center"),
       ("size", textSize), ("bbox", labelBox "#00b6eb" 0.85)]
  tell s!"{axes}.set_axis_off"
  tell s!"{axes}.set_aspect" [.text "equal"]
  tell s!"{axes}.set_xlim" [range rx]
  tell s!"{axes}.set_ylim" [range ry]

/-- Corners that differ in one coordinate. -/
def cubeEdges : List (Ints × Ints) :=
  let corners := [-1, 1].flatMap fun x => [-1, 1].flatMap fun y => [-1, 1].map fun z => [x, y, z]
  let pairs := corners.zipIdx.flatMap fun (a, i) => (corners.drop (i + 1)).map fun b => (a, b)
  pairs.filter fun (a, b) => (List.zipWith (fun x y => (x - y).natAbs) a b).foldl (· + ·) 0 == 2

/-- Empty labels are not drawn. -/
def stencil3d (target : Target) (labels : Option (List Label)) (textSize : Item) : Draw Unit := do
  let inFigure := fun f => do
    let axes ← call s!"{f}.gca" [] [("projection", .text "3d")]
    tell s!"{axes}.set_aspect" [.text "equal"]
    return axes
  let axes ← match target with
    | .axes a => pure a
    | .figure f => inFigure f
    | .current => do inFigure (← call "figure")
  cubeEdges.forM fun (a, b) =>
    tell s!"{axes}.plot3D" ((a.zip b).map fun (x, y) => .list [.int x, .int y]) [("color", .text "k"), ("alpha", .real 0.5)]
  let farther := fun n => Item.real ((Number.ofInt n).toFloat * 1.25)
  (s.zip (labels.getD (.replicate s.length (.plain .nothing)))).forM fun (d, label) => do
    let [x, y, z] := d
      | raiseWith .violated "Works only for 3D stencils"
    if !(x = 0 && y = 0 && z = 0) then tell s!"{axes}.add_artist" [.arrow [0, x] [0, y] [0, z]]
    if ← label.isShown then
      tell s!"{axes}.text" [farther x, farther y, farther z, .text (← label.text A)]
        [("verticalalignment", .text "center"), ("zorder", .int 30), ("size", textSize), ("bbox", labelBox "#777777" 0.6)]
  let side := .list [.real (-1.25 * 1.1), .real (1.25 * 1.1)]
  ["set_xlim", "set_ylim", "set_zlim"].forM fun m => tell s!"{axes}.{m}" [side]
  tell s!"{axes}.set_axis_off"

def placeOf (n : Nat) (k : Int) : Outcome Nat :=
  let i := if k < 0 then k + n else k
  if 0 ≤ i && i < n then .ok i.toNat else raise .outOfRange

def stencilCuts (axis : Int) (target : Target) (labels : Option (List Label)) (textSize : Item) :
    Draw Unit := do
  if s.any (·.any fun n => !(n = -1 || n = 0 || n = 1)) then
    raiseWith .violated "This function can only first neighborhood stencils"
  let figure ← match target with
    | .figure f => pure f
    | _ => call "gcf"
  let axes ← [1, 2, 3].mapM fun i => call s!"{figure}.add_subplot" [.int 1, .int 3, .int i]
  let cuts ← (s.zipIdx.mapM fun (d, i) => do
    let k ← placeOf d.length axis
    let label ← match labels with
      | none => pure (.plain (.int i))
      | some ls => present .outOfRange ls[i]?
    let rest := d.zipIdx.filterMap fun (n, j) => if j = axis then none else some n
    return (d.getD k 0, rest, label) : Outcome (List (Int × Ints × Label)))
  -- axes that were given already stand in the way of those of the cuts
  match target with
  | .axes _ => raise .mistyped
  | _ => pure ()
  ((axes.zip [-1, 0, 1]) : List (String × Int)).forM fun (a, k) => do
    let here := cuts.filter (·.1 = k)
    stencil2d A (here.map (·.2.1)) (.axes a) (some (here.map (·.2.2))) textSize
  let name := (["x", "y", "z"][(← placeOf 3 axis)]?).getD ""
  ((axes.zip [-1, 0, 1]) : List (String × Int)).forM fun (a, k) =>
    tell s!"{a}.set_title" [.text s!"Cut at {name}={k}"] [("y", .real 1.08)]

end StencilForge.Drawing
