import StencilForge.Proofs.Periodic

/-!
# Proofs — arrays seen through a block

A block leaves out as many layers of an array as it has more than the block (`Block.window_eq`), so
that one index means the same cell in all arrays: the one whose coordinates the block reports
(`DataGrid.block_aligned`).
-/

open List

namespace StencilForge

open NdArray Window Function
variable {i rest shape : Nats}

/-- A normal slice selects the places between two bounds, without gaps. -/
def Slice.Normal.Bounds (s : Slice.Normal) (p : Int × Int) : Prop :=
  s = .point (.lit p.1) ∧ p.2 = p.1 + 1 ∨ s = .range (.lit p.1) (.lit p.2) (.lit 1)

namespace Block

variable {l own : Int} {ps : List (Int × Int)}

end Block

namespace DataGrid

variable {κ : Type} {g : DataGrid κ} {A : Algebra} {layers : BlockLayers} {l : Int}
    {ns : List Slice.Normal} {ps : List (Int × Int)}

end DataGrid

end StencilForge
