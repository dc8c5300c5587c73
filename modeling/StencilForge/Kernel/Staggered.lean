import StencilForge.Assignment.Collection
import StencilForge.Kernel.Condition
import StencilForge.Kernel.Edit
import StencilForge.Kernel.Request

/-!
# Kernel — staggered fields

Values stand on the lower faces of cells, one direction of faces for each value of the first index.  A face is only
computed where its cell is not the last one along every other coordinate; on the processor loops are cut in front of
their last cells instead.
-/

namespace StencilForge

inductive Staggered.Values where
  | single (es : Exprs)
  | several (ess : List Exprs)

structure Staggered where
  field : GridField
  values : Staggered.Values
  sub : List Assignment := []

namespace Staggered

variable (A : Algebra)

def Values.length : Values → Nat
  | single es => es.length
  | several ess => ess.length

def notLast (s : Staggered) : Outcome Exprs :=
  s.field.spatialShape.zipIdx.mapM fun (n, i) =>
    Relation.build A .lt (.sym (Counter.symbol i)) (A.sub (Expr.ofExtent n) .one)

def condition (notLast : Exprs) (d : Nat) : Outcome Expr := Logic.conj A (notLast.eraseIdx d)

def check (s : Staggered) : Outcome Unit := do
  let f := s.field
  requireWith (f.indexDimensions == 1 || f.indexDimensions == 2) .violated
    "Staggered field must have one or two index dimensions"
  require (s.values.length == f.spatialDimensions) .violated
  if f.indexDimensions == 2 then
    match s.values with
    | .single _ => raise .mistyped
    | .several ess =>
      requireWith (ess.all (·.length == (ess.headD []).length)) .violated
        ("If staggered field has two index dimensions expressions has to be a sequence of sequences of all the " ++
         "same length.")

def faces (s : Staggered) (dirs : Nats) : Outcome Body := do
  let f := s.field
  let (main, wanted) ← match s.values with
    | .single es => do
      if f.indexDimensions != 1 then raise .mistyped
      let main ← dirs.mapM fun (d : Nat) => do Assignment.make (← Access.ofField f [.lit d]) (es.getD d .zero)
      pure (main, main.map (·.lhs))
    | .several ess => do
      if f.indexDimensions != 2 then raise .unreadable
      require f.hasFixedIndexShape .violated
      let main ← dirs.mapM fun d => (ess.getD d []).zipIdx.mapM fun (e, i) => do
        Assignment.make (← Access.ofField f [.lit d, .lit i]) e
      let n := ((f.indexShape.getD 1 (.known 0)).int?.getD 0).toNat
      let wanted ← (List.range n).mapM fun (i : Nat) => dirs.mapM fun (d : Nat) => Access.ofField f [.lit d, .lit i]
      pure (main.flatten, wanted.flatten)
  let c ← Collection.filter { main, sub := s.sub } wanted
  return (c.sub ++ c.main).map fun a => .set a.lhs a.rhs

def branches (s : Staggered) : Outcome Body := do
  let notLast ← s.notLast A
  (List.range s.field.spatialDimensions).mapM fun d => do
    return .branch (← condition A notLast d) (← s.faces [d]) false []

def exclusive (s : Staggered) : Outcome Body := do
  let notLast ← s.notLast A
  let dim := s.field.spatialDimensions
  let conds ← (List.range dim).mapM (condition A notLast)
  let choices := (Tuples.product (List.replicate dim [true, false])).filter (·.any id)
  let cases ← choices.mapM fun choice => do
    let c ← Logic.conj A (List.zipWith (fun c b => if b then c else Logic.neg c) conds choice)
    let dirs := (choice.zipIdx.filter (·.1)).map (·.2)
    return (c, ← s.faces dirs)
  return cases.foldr (fun (c, b) rest => [.branch c b (!rest.isEmpty) rest]) []

/-! ### Without conditions -/

mutual

def cutLast : Statement → Outcome Statement
  | .loop l body => do
    let body ← cutLastList body
    return .block none (← l.cut A body [Loop.difference A l.stop (.lit 1)])
  | .block p body => do return .block p (← cutLastList body)
  | .branch c yes e no => do return .branch c (← cutLastList yes) e (← cutLastList no)
  | s => .ok s

def cutLastList : Body → Outcome Body
  | [] => .ok []
  | s :: r => do return (← cutLast s) :: (← cutLastList r)

end

def withoutConditions (k : Kernel) : Outcome Kernel := do
  requireWith ((LoopNest.innermost k.body).length == 1) .violated
    "Transformation works only on kernels with exactly one inner loop"
  let body ← cutLastList A k.body
  match Condition.simplifyBody A true body with
  | (_, some f) => .error f
  | (body, none) => do
    let (body, fresh) ← Motion.moveConstants A k.fresh (Edit.tidy body)
    return { k with body := Edit.tidy body, fresh, isCut := true }

def body (s : Staggered) (place : Kernel.Place) (alone : Bool) : Outcome Body := do
  s.check
  if place == .cpu || !alone then s.branches A
  else if place == .gpu then s.exclusive A
  else return []

def kernel (fresh : Nat) (s : Staggered) (body : Body) (r : Kernel.Request) : Outcome Kernel := do
  let ghost := .each (.replicate s.field.spatialDimensions (1, 0))
  let plain := { r with options := { r.options with ghost }, blocking := [], sharing := none, vectors := none }
  let k ← Kernel.ofRequest A fresh body plain
  if r.place != .cpu then return k
  let k ← withoutConditions A k
  let (body, fresh) ← Motion.moveConstants A k.fresh k.body
  Kernel.refine A r false { k with body, fresh }

end Staggered

end StencilForge
