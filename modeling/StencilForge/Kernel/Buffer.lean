import StencilForge.Kernel.Address

/-!
# Kernel — buffers

A dense list of values that is filled, or read, in the order of the loops; the values of one cell stand next to each
other.
-/

namespace StencilForge.Buffer

open Statement

variable (A : Algebra)

def isBuffer (f : GridField) : Bool := f.kind == .buffer

mutual

def nested : Statement → Bool
  | .loop _ body => nestedList body
  | .block _ body => nestedList body
  | .branch _ yes _ no => (loopsList yes).isEmpty && nestedList no || (loopsList no).isEmpty && nestedList yes
  | _ => true

def nestedList : Body → Bool
  | [] => true
  | s :: r => ((loops s).isEmpty || (loopsList r).isEmpty) && nested s && nestedList r

end

/-- Between plain integers it is cut off to a whole number. -/
def iterations (l : Loop) : Expr :=
  match l.start, l.stop, l.step with
  | .lit a, .lit b, .lit c => .int (.tdiv (b - a) c)
  | a, b, c => A.quotient (A.sub b.ofPosition a.ofPosition) c.ofPosition

/-- From counters and numbers of iterations, innermost first. -/
def position (values : Nat) (counters counts : Exprs) : Outcome Expr := do
  let c :: cs := counters.map fun c => A.mul2 c.ofPosition (.int values)
    | raise .outOfRange
  let (p, _) ← (cs.zipIdx).foldlM (fun (p, stride) (c, i) => do
    match counts[i]? with
    | some n =>
      let stride := A.mul2 stride n.ofPosition
      return (A.add2 p (A.mul2 c stride), stride)
    | none => raise .outOfRange) (c, Expr.one)
  return p

def valuesPerCell (body : Body) : Nat := ((accesses body).filter fun a => a.field?.any isBuffer).length

def ofLoops (body : Body) : Outcome Expr := do
  let loops := (loopsList body).map (·.1)
  if loops.isEmpty then raise .outOfRange
  require (nestedList body) .violated
  let inner := loops.reverse
  position A (valuesPerCell body) (inner.map (·.counter)) (inner.map (iterations A))

def at? (readOnly : Strings) (first : Expr) (e : Expr) : Option (Address.Resolve Expr) :=
  match e.field? with
  | some f =>
    if !isBuffer f then none
    else some do
      let at_ ← match e.index with
        | [] => pure first
        | [i] => pure (A.add2 first i.ofPosition)
        | _ => raiseWith .failed "Only indexing dimensions up to 1 are currently supported in buffers!"
      return .node (.resolved f e.offsets.length)
        (.sym (Address.fieldPointer readOnly f) :: at_ :: (e.offsets ++ e.index))
  | none => none

/-- Conditions keep their accesses. -/
def statement (A : Algebra) (at? : Expr → Option (Address.Resolve Expr)) (plain : Bool) : Statement → Outcome Statement
  | .assign lhs rhs k => do
    require plain .violated
    let ((l, r), _) ← (do return (← Address.inExpression A at? lhs, ← Address.inExpression A at? rhs)).run []
    return .assign l r k
  | .branch c yes e no => do return .branch c (← yes.mapM (statement A at? true)) e (← no.mapM (statement A at? true))
  | .block p body => do return .block p (← body.mapM (statement A at? p.isNone))
  | .loop l body => do return .loop l (← body.mapM (statement A at? true))
  | s => .ok s

def resolve (readOnly : Strings) (first : Expr) (body : Body) : Outcome Body :=
  body.mapM (statement A (at? A readOnly first) true)

end StencilForge.Buffer
