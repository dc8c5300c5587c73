import StencilForge.Assignment.Basic
import StencilForge.Expr.Access

/-!
# Boundary — guarded accesses

Wherever a neighbour is marked by a flag, the value of the current cell is taken in its place (`Guard.reads`), so that
no ghost values are needed.
-/

namespace StencilForge.Guard

variable (A : Algebra)

def flagType : DataType := .basic (.uint 32) false

structure Marks where
  flags : GridField
  mark : IntegerFunction.Operand
  inverted : Bool := false

def isMarked (m : Marks) (offsets : Exprs) : Outcome Expr := do
  let bit ← IntegerFunction.ofOperands .bitAnd [.expr (← Access.shifted m.flags offsets), m.mark]
  Build.node A (.rel (if m.inverted then .eq else .ne)) [bit, .zero]

/-- What stands for a read of a neighbour; nothing for the current cell. -/
def guarded? (m : Marks) (a : Expr) : Outcome (Option Expr) := do
  let some f := a.field? | return none
  let near := a.offsets.all fun o => [some (-1), some 0, some 1].contains o.int?
  unless near do raiseWith .invalid "Works only for single neighborhood stencils"
  if a.offsets.all (·.int? == some 0) then return none
  let center ← Access.ofField f a.index
  return some (← Build.node A .piecewise [.branch center (← isMarked A m a.offsets), .branch a (.bool true)])

def reads (m : Marks) (fields : Fields) (as : List Assignment) : Outcome (List Assignment) := do
  let accesses := as.flatMap fun a => unionNew (Visit.all (·.isAccess) a.lhs) (Visit.all (·.isAccess) a.rhs)
  let own := accesses.filter fun a => a.field?.any (fields.contains ·)
  let t : Table Expr Expr ← own.foldlM (fun t a => do
    match ← guarded? A m a with
    | some e => return .insert t a e
    | none => return t) []
  as.mapM (·.mapBoth (Substitute.algebraicTable A t))

end StencilForge.Guard
