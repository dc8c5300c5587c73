import StencilForge.Assignment.Basic
import StencilForge.Expr.Access
import StencilForge.Script.Basic

/-!
# Scripts — running

Running gives the recorded assignments.  A parameter `s` makes symbols: `s.rho` is the symbol `rho`.
-/

namespace StencilForge.Script

inductive Value where
  | int (n : Int)
  | real (x : Float)
  | truth (b : Bool)
  | expr (e : Expr)
  | field (f : GridField)
  | symbols
  | library
  | function (name : String)
  | sequence (vs : List Value)
  | text (s : String)
  | nothing

structure State where
  own : Strings
  locals : Table String Value := []
  globals : Table String Value
  assignments : List Assignment := []

abbrev Step (α : Type) := Action State α

namespace Value

def toExpr? : Value → Option Expr
  | .int n => some (.int n)
  | .real x => some (.num (.ofFloat x))
  | .truth b => some (.bool b)
  | .expr e => some e
  | _ => none

def quantity? : Value → Option Expr
  | .int n => some (.int n)
  | .real x => some (.num (.ofFloat x))
  | .expr e => match e with
    | .bool _ | .node (.rel _) _ | .node .and _ | .node .or _ | .node .not _ => none
    | e => some e
  | _ => none

def int? : Value → Option Int
  | .int n => some n
  | .truth b => some (if b then 1 else 0)
  | _ => none

def real? : Value → Option Float
  | .real x => some x
  | v => v.int?.map fun n => (Number.ofInt n).toFloat

def isNumber (v : Value) : Bool := v.real?.isSome

/-- A comparison of symbols cannot be decided. -/
def isTrue : Value → Outcome Bool
  | .int n => .ok (n != 0)
  | .real x => .ok (x != 0)
  | .truth b => .ok b
  | .expr (.bool b) => .ok b
  | .expr (.num n) => .ok (!n.isZero)
  | .expr (.node (.rel _) _) => raise .mistyped
  | .sequence vs => .ok (!vs.isEmpty)
  | .text s => .ok (s != "")
  | .nothing => .ok false
  | _ => .ok true

def position : Value → Outcome Expr
  | .int n => .ok (.lit n)
  | .expr e => .ok e
  | .text s => .ok (.atom (.member s))
  | _ => raise .mistyped

end Value

variable (A : Algebra)

def onInts (op : String) (m n : Int) : Outcome Value :=
  match op with
  | "+" => .ok (.int (m + n))
  | "-" => .ok (.int (m - n))
  | "*" => .ok (.int (m * n))
  | "/" => if n = 0 then raise .divisionByZero else .ok (.real ((Number.ofInt m).toFloat / (Number.ofInt n).toFloat))
  | "//" => if n = 0 then raise .divisionByZero else .ok (.int (.fdiv m n))
  | "%" => if n = 0 then raise .divisionByZero else .ok (.int (.fmod m n))
  | "**" => if n ≥ 0 then .ok (.int (m ^ n.toNat))
      else if m = 0 then raise .divisionByZero
      else .ok (.real ((Number.ofInt m).toFloat.pow (Number.ofInt n).toFloat))
  | "&" => .ok (.int ((m % 2 ^ 64).toNat &&& (n % 2 ^ 64).toNat : Nat))
  | "|" => .ok (.int ((m % 2 ^ 64).toNat ||| (n % 2 ^ 64).toNat : Nat))
  | _ => raise .mistyped

def onReals (op : String) (x y : Float) : Outcome Value :=
  match op with
  | "+" => .ok (.real (x + y))
  | "-" => .ok (.real (x - y))
  | "*" => .ok (.real (x * y))
  | "/" => if y == 0 then raise .divisionByZero else .ok (.real (x / y))
  | "**" => .ok (.real (x.pow y))
  | _ => raise .mistyped

def operate (op : String) (a b : Value) : Outcome Value := do
  match a, b, a.int?, b.int? with
  | .truth x, .truth y, _, _ => match op with
    | "&" => return .truth (x && y)
    | "|" => return .truth (x || y)
    | op => onInts op (if x then 1 else 0) (if y then 1 else 0)
  | _, _, some m, some n => onInts op m n
  | _, _, _, _ => match a.real?, b.real? with
    | some x, some y => onReals op x y
    | _, _ =>
      if op == "&" || op == "|" then
        let side := fun
          | .truth b => .ok (.bool b)
          | .expr e => if e.isBoolean then .ok e else raise .mistyped
          | _ => raise .mistyped
        return .expr (← Build.node A (if op == "&" then .and else .or) [← side a, ← side b])
      else match a.quantity?, b.quantity? with
        | some x, some y => match op with
          | "+" => return .expr (A.add2 x y)
          | "-" => return .expr (A.sub x y)
          | "*" => return .expr (A.mul2 x y)
          | "/" => return .expr (A.quotient x y)
          | "**" => return .expr (← Build.node A .pow [x, y])
          | _ => raise .mistyped
        | _, _ => raise .mistyped

def negate (op : String) (v : Value) : Outcome Value :=
  match op with
  | "-" => match v.int?, v.real?, v.quantity? with
    | some n, _, _ => .ok (.int (-n))
    | _, some x, _ => .ok (.real (-x))
    | _, _, some e => .ok (.expr (A.neg e))
    | _, _, _ => raise .mistyped
  | "+" => match v.int?, v.quantity? with
    | some n, _ => .ok (.int n)
    | _, some _ => .ok v
    | _, _ => raise .mistyped
  | _ => match v with
    | .expr e => if e.isBoolean then do return .expr (← Build.node A .not [e]) else raise .mistyped
    | v => do return .int (-(← present .mistyped v.int?) - 1)

/-- Equality means being built alike. -/
def compareValues (op : String) (a b : Value) : Outcome Value := do
  let r ← present .mistyped (Rel.ofText? op)
  match a.int?, b.int?, a.real?, b.real? with
  | some m, some n, _, _ => return .truth (r.holds (compare m n))
  | _, _, some x, some y => return .truth (match r with
      | .eq => x == y
      | .ne => x != y
      | .lt => x < y
      | .gt => x > y
      | .le => x ≤ y
      | .ge => x ≥ y)
  | _, _, _, _ => match r, a.toExpr?, b.toExpr? with
    | .eq, some x, some y => return .truth (x == y)
    | .ne, some x, some y => return .truth (x != y)
    | .eq, _, _ => return .truth false
    | .ne, _, _ => return .truth true
    | r, _, _ => match a.quantity?, b.quantity? with
      | some x, some y => return .expr (← Build.node A (.rel r) [x, y])
      | _, _ => raise .mistyped

def branchOf (v c : Value) : Outcome Expr :=
  match v.toExpr?, c.toExpr? with
  | some v, some c => .ok (.branch v c)
  | _, _ => raise .mistyped

def itemOf (a : Value) (index : Value) : Outcome Value := do
  let parts := match index with
    | .sequence vs => vs
    | v => [v]
  match a, index with
  | .field f, .text s => do
    return .expr (← Access.shifted f ((← Stencil.ofDirectionName s f.spatialDimensions).map Expr.lit))
  | .field f, _ => do return .expr (← Access.shifted f (← parts.mapM Value.position))
  | .expr e, _ => do
    if !e.isAccess then raise .mistyped
    return .expr (← Access.value e (← parts.mapM Value.position))
  | .sequence vs, .int n =>
    present .outOfRange vs[(if n < 0 then n + vs.length else n).toNat]?
  | _, _ => raise .mistyped

def rangeOf (vs : List Value) : Outcome Value := do
  let whole := fun
    | .int n => .ok n
    | .expr e => present .mistyped e.int?
    | _ => raise .mistyped
  let ns ← vs.mapM whole
  let list := fun lo hi step =>
    let count := if step > 0 then (hi - lo + step - 1) / step else (lo - hi - step - 1) / (-step)
    Value.sequence ((List.range count.toNat).map fun (i : Nat) => Value.int (lo + step * i))
  match ns with
  | [hi] => return list 0 hi 1
  | [lo, hi] => return list lo hi 1
  | [lo, hi, step] => if step = 0 then raise .invalid else return list lo hi step
  | _ => raise .mistyped

def function? (name : String) : Option Fn :=
  [.sin, .cos, .tan, .exp, .log, .abs, .floor, .ceiling, .min, .max, .sign, .tanh].find? (·.name == name)

def callValue (f : Value) (vs : List Value) : Outcome Value := do
  match f with
  | .function "range" => rangeOf vs
  | .function n => do
    let es ← vs.mapM (present .mistyped ·.quantity?)
    match n, es with
    | "sqrt", [e] => return .expr (A.sqrt e)
    | n, es => do return .expr (← Build.node A (.fn (← present .mistyped (function? n))) es)
  | .field f => do return .expr (← Access.ofField f (← vs.mapM Value.position))
  | .expr e => do
    if !e.isAccess then raise .mistyped
    return .expr (← Access.value e (← vs.mapM Value.position))
  | _ => raise .mistyped

def attributeOf (a : Value) (name : String) : Outcome Value :=
  match a with
  | .symbols => .ok (.expr (.symbol name))
  | .library =>
    if name == "sqrt" || (function? name).isSome then .ok (.function name)
    else raise .noSuchPart
  | .field f => if name == "center" then .ok (.expr (Access.center f)) else raise .noSuchPart
  | _ => raise .noSuchPart

def lookup (n : String) : Step Value := do
  let s ← get
  if s.own.contains n then
    present .unbound (Table.get? s.locals n)
  else present .undefinedName (Table.get? s.globals n)

mutual

def eval : Term → Step Value
  | .int n => return .int n
  | .real x => return .real x
  | .truth b => return .truth b
  | .nothing => return .nothing
  | .text s => return .text s
  | .name n => lookup n
  | .unary op a => do negate A op (← eval a)
  | .binary op a b => do
    let x ← eval a
    let y ← eval b
    operate A op x y
  | .compare a ops bs => do evalChain (← eval a) ops bs
  | .choose v c o => do if ← (← eval c).isTrue then eval v else eval o
  | .branches v c o => do
    let x ← eval v
    let k ← eval c
    let y ← eval o
    let first ← branchOf x k
    let second ← branchOf y (.truth true)
    return .expr (← (Build.node A .piecewise [first, second]))
  | .attribute a n => do attributeOf (← eval a) n
  | .item a i => do
    let x ← eval a
    itemOf x (← eval i)
  | .call f as => do
    let g ← eval f
    callValue A g (← as.mapM eval)
  | .tuple as => .sequence <$> as.mapM eval

def evalChain (x : Value) : Strings → List Term → Step Value
  | op :: ops, b :: bs => do
    let y ← eval b
    let r ← compareValues A op x y
    if bs.isEmpty then return r
    else if ← r.isTrue then evalChain y ops bs
    else return r
  | _, _ => return x

end

def record (target value : Value) : Step Unit := do
  let side := fun v => present .unreadable v.toExpr?
  let a ← Assignment.make (← side target) (← side value)
  modify fun s => { s with assignments := s.assignments ++ [a] }

def setLocal (n : String) (v : Value) : Step Unit := modify fun s => { s with locals := .insert s.locals n v }

def perform : Command → Step Unit
  | .pass => return ()
  | .augment op (.name n) v => do
    let x ← lookup n
    setLocal n (← operate A op x (← eval A v))
  | .augment _ t v => do
    let _ ← eval A t
    let _ ← eval A v
    raise .mistyped
  | .record t v => do
    let x ← eval A t
    record x (← eval A v)
  | .define n v => do setLocal n (← eval A v)
  | .loop n values body => do
    match ← eval A values with
    | .sequence vs => vs.forM fun v => do
      setLocal n v
      discard (body.mapM perform)
    | _ => raise .mistyped
  | .run e => do let _ ← eval A e

def Command.names : Command → Strings
  | .define n _ | .augment _ (.name n) _ => [n]
  | .loop n _ body => n :: body.flatMap names
  | _ => []

/-- A parameter `s` that is not given makes symbols. -/
def Function.call (f : Function) (globals : Table String Value) (given : Table String Value) :
    Outcome (List Assignment) := do
  let given := if f.parameters.contains "s" && (Table.get? given "s").isNone then ("s", Value.symbols) :: given else given
  if given.any fun (n, _) => !f.parameters.contains n then raise .mistyped
  let locals ← f.parameters.mapM fun p => do return (p, ← present .mistyped (Table.get? given p))
  let own := f.parameters ++ f.body.flatMap Command.names
  let (s, r) := (f.body.forM (perform A)).perform { own, locals, globals }
  r
  return s.assignments

def Function.assignments (f : Function) (globals given : Table String Value) : Outcome (List Assignment) :=
  f.recorded.call A globals given

end StencilForge.Script
