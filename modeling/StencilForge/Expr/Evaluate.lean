import StencilForge.Expr.Text
import StencilForge.Json

/-!
# Expr — values

`Evaluate.value` computes in machine arithmetic: whole numbers stay whole under sums, products and powers.  Strict
evaluation refuses to divide by zero; otherwise the result is infinite or no number, as for the elements of an array.
-/

namespace StencilForge.Evaluate

inductive Value where
  | whole (n : Int)
  | real (x : Float)

variable (A : Algebra) (strict : Bool) (a b : Value)

namespace Value

def toFloat : Value → Float
  | whole n => (Number.ofInt n).toFloat
  | real x => x

def neg : Value → Value
  | whole n => whole (-n)
  | real x => real (-x)

def add : Value → Value → Value
  | whole m, whole n => whole (m + n)
  | a, b => real (a.toFloat + b.toFloat)

def mul : Value → Value → Value
  | whole m, whole n => whole (m * n)
  | a, b => real (a.toFloat * b.toFloat)

def isZero : Value → Bool
  | whole n => n == 0
  | real x => x == 0

def div : Outcome Value := do
  if strict && b.isZero then raise .divisionByZero
  match a, b with
  | whole m, whole n =>
    if n = 0 then return real (a.toFloat / 0) else return real (Number.rat (mkRat m 1 / mkRat n 1)).toFloat
  | a, b => return real (a.toFloat / b.toFloat)

def pow : Outcome Value :=
  match a, b with
  | whole m, whole n => if 0 ≤ n then .ok (whole (m ^ n.toNat)) else div strict (whole 1) (whole (m ^ n.natAbs))
  | a, b =>
    if strict && a.isZero && b.toFloat < 0 then raise .divisionByZero
    -- for the elements of an array, squares and reciprocals are computed as such
    else if !strict && b.toFloat == 2 then .ok (real (a.toFloat * a.toFloat))
    else if !strict && b.toFloat == -1 then .ok (real (1 / a.toFloat))
    else .ok (real (a.toFloat ^ b.toFloat))

def less : Bool :=
  match a, b with
  | whole m, whole n => m < n
  | a, b => a.toFloat < b.toFloat

def same : Bool :=
  match a, b with
  | whole m, whole n => m == n
  | a, b => a.toFloat == b.toFloat

def like (v : Value) (n : Int) : Value :=
  match v with
  | whole _ => whole n
  | real _ => real (Number.ofInt n).toFloat

end Value

def ofNumber (n : Number) : Outcome Value :=
  match n with
  | .rat q => .ok (if q.den = 1 then .whole q.num else .real n.toFloat)
  | .float _ => match Json.parse (Text.numberText n) with
    | .ok (.float x) => .ok (.real x)
    | .ok (.int m) => .ok (.real (Number.ofInt m).toFloat)
    | _ => raise .general
  | n => .ok (.real n.toFloat)

def ofFunction (f : Fn) (xs : List Value) : Outcome Value :=
  match f, xs with
  | .sin, [x] => .ok (.real x.toFloat.sin)
  | .cos, [x] => .ok (.real x.toFloat.cos)
  | .tan, [x] => .ok (.real x.toFloat.tan)
  | .sinh, [x] => .ok (.real x.toFloat.sinh)
  | .cosh, [x] => .ok (.real x.toFloat.cosh)
  | .tanh, [x] => .ok (.real x.toFloat.tanh)
  | .asin, [x] => .ok (.real x.toFloat.asin)
  | .acos, [x] => .ok (.real x.toFloat.acos)
  | .atan, [x] => .ok (.real x.toFloat.atan)
  | .exp, [x] => .ok (.real x.toFloat.exp)
  | .log, [x] => .ok (.real x.toFloat.log)
  | .abs, [x] => .ok (if x.less (.whole 0) then x.neg else x)
  | .sign, [x] => .ok (if x.less (.whole 0) then x.like (-1) else if (Value.whole 0).less x then x.like 1 else x)
  | .floor, [x] => .ok (.real x.toFloat.floor)
  | .ceiling, [x] => .ok (.real x.toFloat.ceil)
  | .min, x :: r => .ok (r.foldl (fun m y => if y.less m then y else m) x)
  | .max, x :: r => .ok (r.foldl (fun m y => if m.less y then y else m) x)
  | _, _ => raise .undefinedName

def power (b : Value) (x : Expr) (v : Value) : Outcome Value :=
  match x with
  | .num (.rat q) =>
    if q = mkRat 1 2 then .ok (.real b.toFloat.sqrt)
    else if q = mkRat (-1) 2 then Value.div strict (.whole 1) (.real b.toFloat.sqrt)
    else if q.den = 1 && q < 0 then Value.pow strict b (.real v.toFloat)
    else Value.pow strict b v
  | _ => Value.pow strict b v

structure Factor where
  value : Value
  below : Bool

/-- Those below the division sign apart. -/
def product (fs : List Factor) : Outcome Value := do
  let times := fun
    | [] => .whole 1
    | v :: r => r.foldl .mul v
  let above := times ((fs.filter (!·.below)).map (·.value))
  match fs.filter (·.below) with
  | [] => return above
  | b => Value.div strict above (times (b.map (·.value)))

def inOrder {α : Type} (order : Exprs) (ps : List (Expr × α)) : List α :=
  order.filterMap fun e => (ps.find? (·.1 == e)).map (·.2)

variable (values : Table Expr Value)

mutual

def value : Expr → Outcome Value
  | .atom a => match Table.get? values (.atom a), a with
    | some v, _ => .ok v
    | none, .num n => ofNumber n
    | none, .lit n => .ok (.whole n)
    | none, .const .pi => .ok (.real 3.141592653589793)
    | none, .const .euler => .ok (.real 2.718281828459045)
    | none, _ => raise .undefinedName
  | .node h as => match Table.get? values (.node h as) with
    | some v => .ok v
    | none => match h, as with
      | .pow, [b, x] => do power strict (← value b) x (← value x)
      | .add, as => do
        let vs := inOrder (Arrange.terms A as) (as.zip (← as.mapM value))
        match vs with
        | [] => return .whole 0
        | v :: r => return r.foldl .add v
      | .mul, as => do product strict (inOrder (Arrange.factors A as) (as.zip (← factorList as)))
      | .fn f, as => do ofFunction f (← as.mapM value)
      | .piecewise, bs => branchValue bs
      | _, _ => raise .undefinedName

def branchValue : Exprs → Outcome Value
  | [] => .ok (.real (0 / 0))
  | .node .branch [v, c] :: bs => do
    let x ← value v
    let rest ← branchValue bs
    return .real (if ← holds c then x else rest).toFloat
  | _ :: _ => raise .undefinedName

def holds : Expr → Outcome Bool
  | .atom (.bool b) => .ok b
  | .node (.rel r) [a, b] => do
    let x ← value a
    let y ← value b
    return match r with
      | .lt => x.less y
      | .gt => y.less x
      | .le => x.less y || x.same y
      | .ge => y.less x || x.same y
      | .eq => x.same y
      | .ne => !x.same y
  | .node .and as => do return (← as.mapM holds).all id
  | .node .or as => do return (← as.mapM holds).any id
  | .node .not [a] => do return !(← holds a)
  | _ => raise .undefinedName

def factorList : Exprs → Outcome (List Factor)
  | [] => .ok []
  | .node .pow [b, .atom (.num (.rat q))] :: es => do
    let v ← value b
    let f ←
      if q < 0 then do
        let n := -q
        let v ← if n = 1 then pure v else power strict v (.rat n) (← ofNumber (.rat n))
        pure ⟨v, true⟩
      else do pure ⟨← power strict v (.rat q) (← ofNumber (.rat q)), false⟩
    return f :: (← factorList es)
  | e :: es => do return ⟨← value e, false⟩ :: (← factorList es)

end

end StencilForge.Evaluate
