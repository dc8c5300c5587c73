import StencilForge.Decimal
import StencilForge.Failure

/-!
# Stencil — directions

Offsets as points of the compass: east and west, north and south, top and bottom.  A distance above one stands in
front of its letter, the last coordinate comes first, and no offset at all is `C`.
-/

namespace StencilForge

namespace Stencil

/-- Toward lower and toward higher values. -/
def letters : Nat → String × String
  | 0 => ("W", "E")
  | 1 => ("S", "N")
  | _ => ("B", "T")

def componentText (coord : Nat) (v : Int) : String :=
  let l := if v = 0 then "" else if v < 0 then (letters coord).1 else (letters coord).2
  if v.natAbs > 1 then toString v.natAbs ++ l else l

def componentName (coord v : Int) : Outcome String :=
  if 0 ≤ coord && coord < 3 then .ok (componentText coord.toNat v)
  else raiseWith .violated "Works only for at most 3D arrays"

def tupleText (xs : Ints) : String :=
  match xs with
  | [x] => s!"({x},)"
  | _ => "(" ++ ", ".intercalate (xs.map toString) ++ ")"

/-- Offsets with more than three components are written as they are. -/
def directionName (o : Ints) : String :=
  if o.length > 3 then tupleText o
  else
    let s := "".intercalate (o.zipIdx.map fun (v, i) => componentText i v).reverse
    if s == "" then "C" else s

def unitOf : Char → Option Ints
  | 'C' => some [0, 0, 0]
  | 'W' => some [-1, 0, 0]
  | 'E' => some [1, 0, 0]
  | 'S' => some [0, -1, 0]
  | 'N' => some [0, 1, 0]
  | 'B' => some [0, 0, -1]
  | 'T' => some [0, 0, 1]
  | _ => none

/-- Nothing if one of its characters is no decimal digit. -/
abbrev Distance := Option Nat

def Distance.push (d : Option Distance) (c : Char) : Distance := do
  return 10 * (← d.getD (some 0)) + (← Decimal.digitValue? c)

def readSteps : Chars → Option Distance → Ints → Outcome Ints
  | [], none, o => .ok o
  | [], some _, _ => raise .outOfRange
  | c :: r, factor, o =>
    if Decimal.looksLikeDigit c then readSteps r (some (Distance.push factor c)) o
    else match factor.getD (some 1), unitOf c with
      | none, _ => raise .invalid
      | some _, none => raise .missing
      | some n, some u => readSteps r none (.zipWith (fun a b => a + n * b) o u)

def ofDirectionName (s : String) (dim : Nat) : Outcome Ints := do
  return (← readSteps s.toList none [0, 0, 0]).take dim

def inverse (d : Ints) : Ints := d.map (- ·)

end Stencil

/-!
## Stencils

A stencil is a list of offsets to neighbouring cells, all with the same number of components.
-/

abbrev Stencil := List Ints

namespace Stencil

def dimension : Stencil → Outcome Nat
  | [] => raise .outOfRange
  | d :: _ => .ok d.length

/-- As many components as the first, and none reaches too far. -/
def isValid (s : Stencil) (reach : Option Int) : Outcome Bool := do
  let n ← s.dimension
  return s.all fun d => d.length == n && reach.all fun m => d.all fun c => (c.natAbs : Int) ≤ m

def isSymmetric (s : Stencil) : Bool := s.all fun d => s.contains (inverse d)

def sameEntries (a b : Stencil) : Bool := a.length == b.length && a.all b.contains

end Stencil

end StencilForge
