import StencilForge.Kernel.Statement

/-!
# Kernel — conversions between types

Operands are cast to their common type, values to the type of their variable, and sums with a pointer become pointer
arithmetic.
-/

namespace StencilForge.Conversion

variable (A : Algebra)

def alike (s t : DataType) : Outcome Bool :=
  match s, t with
  | .basic a _, .basic b _ => .ok (a == b)
  | .record a m _, .record b n _ => .ok (a == b && m == n)
  | .basic .., .record .. | .record .., .basic .. => .ok false
  | _, _ => raise .noSuchPart

def castTo (t : DataType) (e : Expr) (own : DataType) : Outcome Expr := do
  if ← alike own t then return e else return Build.cast .plain e [.type t]

def movedPointer (as : List (Expr × DataType)) : Outcome Expr := do
  let [(p, _)] := as.filter (·.2.isPointer)
    | raise .violated
  let rest := as.filter (·.1 != p)
  require (rest.all (·.2.isInt)) .violated
  return .node (.fn .pointerArithmetic) [p, A.add (rest.map (·.1))]

def operation (h : Head) (as : Exprs) : Outcome Expr := do
  let ts ← as.mapM Typing.typeOf
  let t ← DataType.collate ts
  if t.isPointer then
    require (h == .add) .violated
    movedPointer A (as.zip ts)
  else Build.node A h (← (as.zip ts).mapM fun (e, own) => castTo t e own)

mutual

def expression : Expr → Outcome Expr
  | .atom a => .ok (.atom a)
  | .node h as => match h with
    | .cast _ | .access .. => .ok (.node h as)
    | .resolved .. => do
      let _ ← (expressions as).take 2 |>.mapM id
      return .node h as
    | .add | .mul | .or | .and | .pow | .rel _ => do operation A h (← (expressions as).mapM id)
    | .piecewise => do
      let bs ← (branches as).mapM fun (v, c) => do return (← v, ← c)
      let ts ← bs.mapM fun (v, _) => Typing.typeOf v
      let t ← DataType.collate ts
      Build.node A .piecewise (← (bs.zip ts).mapM fun ((v, c), own) => do return .branch (← castTo t v own) c)
    | h => do Build.node A h (← (expressions as).mapM id)

def expressions : Exprs → List (Outcome Expr)
  | [] => []
  | a :: as => expression a :: expressions as

def branches : Exprs → List (Outcome Expr × Outcome Expr)
  | [] => []
  | .node .branch [v, c] :: r => (expression v, expression c) :: branches r
  | _ :: r => branches r

end

/-- Plain integers stay. -/
def bound : Expr → Outcome Expr
  | .lit n => .ok (.lit n)
  | e => expression A e

mutual

/-- Only assignments, blocks, loops and branches have conversions. -/
def statement : Statement → Outcome Statement
  | .assign lhs rhs _ => do
    let lhs ← expression A lhs
    let rhs ← expression A rhs
    let t ← Typing.typeOf lhs
    if t.isPointer then return .set lhs rhs
    else return .set lhs (← castTo t rhs (← Typing.typeOf rhs))
  | .block none body => do return .block none (← statements body)
  | .loop l body => do
    let body ← statements body
    return .loop { l with start := ← bound A l.start, stop := ← bound A l.stop, step := ← bound A l.step } body
  | .branch c yes e no => do
    let c ← expression A c
    return .branch c (← statements yes) e (← statements no)
  | .skip => .ok .skip
  | _ => raise .mistyped

def statements : Body → Outcome Body
  | [] => .ok []
  | s :: r => do return (← statement s) :: (← statements r)

end

end StencilForge.Conversion
