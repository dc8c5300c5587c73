import StencilForge.Kernel.Basic
import StencilForge.Kernel.Buffer
import StencilForge.Kernel.Constraint
import StencilForge.Kernel.Motion

/-!
# Kernel — kernels for arrays

`Kernel.create` gives types to symbols, puts loops over the cells around the statements of one cell, resolves
addresses, and moves constants out of loops.
-/

namespace StencilForge.Kernel

structure Options where
  types : SymbolTypes
  slice : Option Slices := none
  ghost : Domain.GhostLayers := .automatic
  unchecked : Bool := false

/-- The innermost loop stays in the position, the next one gets a pointer of its own. -/
def pointerGroups (order : Ints) (fs : Fields) : Outcome (Table String (List Ints)) :=
  let items := if order.length ≥ 2
    then [[BasePointer.Item.word "spatialInner0"], [.word "spatialInner1"]]
    else [[.word "spatialInner0"]]
  fs.mapM fun f => do
    if Buffer.isBuffer f then
      return (f.name, ← BasePointer.groups [[.word "spatialInner0"]] [0] f.spatialDimensions f.indexDimensions)
    else return (f.name, ← BasePointer.groups items order f.spatialDimensions f.indexDimensions)

/-- `between` works on the loops before addresses are resolved. -/
def createWith (A : Algebra) (fresh : Nat) (body : Body) (o : Options)
    (between : Body → Outcome Body) : Outcome Kernel := do
  let typed ← Constraint.run A o.types (!o.unchecked) body
  let fs := typed.fields.filter (!Buffer.isBuffer ·)
  let order ← Domain.loopOrder fs
  let (body, ghost) ← Domain.loops A typed.body order o.slice o.ghost
  let body ← between body
  let groups ← pointerGroups order typed.fields
  let body ← if typed.fields.any Buffer.isBuffer
    then do Buffer.resolve A typed.readOnly (← Buffer.ofLoops A body) body
    else pure body
  let body ← Address.resolve A { readOnly := typed.readOnly, groups } body
  let (body, fresh) ← Motion.moveConstants A fresh body
  return { body, ghostLayers := .each ghost, fresh }

def create (A : Algebra) (fresh : Nat) (body : Body) (o : Options) : Outcome Kernel :=
  createWith A fresh body o .ok

end StencilForge.Kernel
