import StencilForge.Boundary.Link
import StencilForge.Kernel.Request
import StencilForge.Kernel.Snippet

/-!
# Boundary — conditions

What is written into the cells of a list of links: `Boundary.statements`, carried out by `Boundary.kernel`; the list
may hold a value for each link.
-/

namespace StencilForge

open Access

namespace Boundary

inductive Position where
  | start
  | middle
  | finish
  | none
  deriving DecidableEq, Repr

/-- Values that depend linearly on a coordinate of a position. -/
structure Profile where
  base : Float
  slope : Float
  place : Position
  coord : Int

inductive Prescribed where
  | number (n : Number)
  | numbers (ns : List Number)
  | profile (p : Profile)

inductive Rule where
  | unspecified
  | neumann
  | dirichlet (v : Prescribed)
  | custom (v : Prescribed) (inner single : Bool)

end Boundary

structure Boundary where
  rule : Boundary.Rule
  name : String
  id : Nat

namespace Boundary

variable (b : Boundary)

/-- Those that take over the value of the neighbour all are one. -/
def same (a b : Boundary) : Bool :=
  match a.rule, b.rule with
  | .neumann, .neumann => true
  | .neumann, _ | _, .neumann => false
  | _, _ => a.id == b.id

def fromInside : Bool :=
  match b.rule with
  | .neumann | .dirichlet _ => false
  | .custom _ inner _ => inner
  | .unspecified => true

def single : Bool :=
  match b.rule with
  | .neumann | .dirichlet _ => true
  | .custom _ _ single => single
  | .unspecified => false

def profile? : Option Profile :=
  match b.rule with
  | .dirichlet (.profile p) | .custom (.profile p) .. => some p
  | _ => none

def valueName : String := "value"

def directionName : String := "dir"

def members (dim : Nat) : List (String × Scalar) :=
  (Link.coordinateNames.take dim ++ [directionName]).map (fun n => (n, .int 32)) ++
    (if b.profile?.isSome then [(valueName, .float 64)] else [])

def listType (dim : Nat) : DataType := .ofMembers (b.members dim) true

variable (A : Algebra)

def offset (direction : Expr) (dim : Nat) : Exprs :=
  (List.range (min dim 3)).map fun i => .node .element [.typedSymbol (Snippet.offsetName i) .integer, direction]

def indices (f : GridField) : List Exprs :=
  Tuples.product ((f.indexShape.filterMap Extent.int?).map fun n => (List.range n.toNat).map fun (i : Nat) => .lit i)

def statements (f list : GridField) (direction : Expr) : Outcome Body :=
  match b.rule with
  | .unspecified => raiseWith .unsupported "Boundary class has to overwrite __call__"
  | .neumann => do
    let there := offset direction f.spatialDimensions
    if f.indexDimensions = 0 then return [.set (center f) (← make f there none)]
    if !f.hasFixedIndexShape then raiseWith .unsupported "Neumann boundary works only for fields with fixed index shape"
    (indices f).mapM fun i => do return .set (← ofField f i) (← value (← make f there none) i)
  | .dirichlet v => match f.indexDimensions, v with
    | 0, .profile _ => do
      let _ ← ofField list [.atom (.member valueName)]
      raise .unreadable
    | 0, _ => raise .unreadable
    | 1, .profile _ => raise .violated
    | 1, v =>
      if !f.hasFixedIndexShape then raiseWith .unsupported "Field needs fixed index shape"
      else match v with
        | .numbers ns =>
          let n := (f.indexShape.head?.bind Extent.int?).getD 0
          if ns.length != n then raiseWith .violated "Dirichlet value does not match index shape of field"
          else ns.zipIdx.mapM fun (x, i) => do return .set (← ofField f [.lit i]) (.num x)
        | .number x =>
          let kind := if x.isFloat then "float" else "int"
          raiseWith .mistyped s!"object of type '{kind}' has no len()"
        | .profile _ => raise .violated
    | _, _ => raiseWith .unsupported "Dirichlet boundary not implemented for fields with more than one index dimension"
  | .custom v _ _ => do
    let value ← match v with
      | .number x => .ok (.num x)
      | .profile _ => ofField list [.atom (.member valueName)]
      | .numbers _ => raise .unreadable
    return [.set (center f) value]

def listField (dim : Nat) : Outcome GridField :=
  GridField.generic "indexField" 1 (b.listType dim) 0 (.named "numpy") none .generic

structure Options where
  place : Kernel.Place := .cpu
  parallel : Bool := true

def kernel (b : Boundary) (f list : GridField) (stencil : Stencil) (o : Options) : Outcome Kernel := do
  let tables ← Snippet.directions stencil
  let direction := .typedSymbol directionName (.basic (.int 32) false)
  let first ← value (← shifted list [.lit 0]) [.atom (.member directionName)]
  let body := .snippet tables :: .set direction first :: (← b.statements f list direction)
  Kernel.ofIndexedRequest A 0 body
    { place := o.place
      options := { types := .ofDefault "double" body, lists := [list] }
      sharing := given o.parallel .any }

end Boundary

end StencilForge
