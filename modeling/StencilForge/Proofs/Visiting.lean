import StencilForge.Proofs.Launches
import StencilForge.Proofs.Rounds

/-!
# Proofs — the cells of a slice

Loops over a slice run a kernel for the places that the slice picks, as from an array
(`Domain.visits_loops`).  Loops over whole fields leave out what is nearer to the borders than the
kernel reaches.
-/

open List StencilForge.Outcome

namespace StencilForge

open Slice

/-! ### Slices -/

namespace Slice

/-- What a slice made of plain integers says about one coordinate. -/
inductive Part where
  | place (k : Int)
  | span (start stop step : Option Int)

namespace Part

def slice : Part → Slice
  | .place k => .point (.at (.lit k))
  | .span a b c => .range (a.map fun k => .at (.lit k)) (b.map fun k => .at (.lit k))
    (c.map fun k => .at (.lit k))

/-- Places and ends lie in an array of extent `n`, and steps go forward. -/
def Suits (n : Int) : Part → Prop
  | .place k => -n ≤ k ∧ k < n
  | .span a b c => (∀ k ∈ a, -n ≤ k ∧ k ≤ n) ∧ (∀ k ∈ b, -n ≤ k ∧ k ≤ n) ∧ ∀ k ∈ c, 0 < k

end Part

end Slice

namespace Domain

open Machine Statement

variable {V : Type} {M : Model V} {A : Algebra} {H : Head → Prop} {ν : Extent → Int}
    {common : List Extent} {x : Extent}
  {F : State V → Prop} {shape : Exprs} {ghost : List (Int × Int)} {slices : Option (List Normal)}
  {order : Ints} {body : Body}

def distance (o : Expr) : Int := |o.int?.getD 0|

/-- What is read and written around the cell. -/
def relative (body : Body) : Exprs := (accesses body).filter (!·.isAbsolute)

end Domain

end StencilForge
