import StencilForge.Expr.Standard

/-!
# Expr — types of expressions

Numbers have default types, typed symbols and casts say theirs, and operations have the common type of their operands.
-/

open StencilForge.DataType

namespace StencilForge.Typing

def untyped (name : String) : String := s!"('All symbols inside this expression have to be typed! ', '{name}')"

def truthType (ts : List DataType) : DataType :=
  match ts.findSome? width? with
  | some w => .vector .boolean w
  | none => .boolean

mutual

def typeOf : Expr → Outcome DataType
  | .atom (.num (.rat q)) => .ok (if q.den = 1 then .integer else .double)
  | .atom (.lit _) => .ok .integer
  | .atom (.num _) | .atom (.const _) => .ok .double
  | .atom (.bool _) => .ok .boolean
  | .atom (.sym s) => match s.dtype? with
    | some t => .ok t
    | none => raiseWith .invalid (untyped (Text.symbolText s))
  | .atom _ => raise .unsupported
  | .node h as => match h with
    | .access f .. | .resolved f _ => .ok f.dtype
    | .cast _ => match as with
      | _ :: .atom (.type t) :: _ => .ok t
      | _ => raise .unsupported
    | .fn .vecAny | .fn .vecAll => .ok .boolean
    | .piecewise => do
      let ts := branchTypes as
      let value ← collate (← ts.mapM (·.1))
      let cond ← collate (← ts.mapM (·.2))
      return match cond.width?, value.isVector with
        | some w, false => .vector value w
        | _, _ => value
    | .element => match as with
      | .atom (.sym s) :: _ => match s.dtype?.bind base? with
        | some t => .ok t
        | none => raise .noSuchPart
      | _ => raise .noSuchPart
    | .rel _ | .and | .or | .not | .fn .pointerArithmetic => do return truthType (← (typesOf as).mapM id)
    | .pow => match typesOf as with
      | b :: _ => b
      | [] => raise .unsupported
    | .tuple | .branch => raise .unsupported
    | .series _ => do
      let _ ← ((typesOf as).take 1).mapM id
      raise .unsupported
    | .placeholder .. => do collate (← (typesOf as).dropLast.mapM id)
    | _ => do collate (← (typesOf as).mapM id)

def typesOf : Exprs → List (Outcome DataType)
  | [] => []
  | a :: as => typeOf a :: typesOf as

def branchTypes : Exprs → List (Outcome DataType × Outcome DataType)
  | [] => []
  | .node .branch [v, c] :: r => (typeOf v, typeOf c) :: branchTypes r
  | _ :: r => branchTypes r

end

end StencilForge.Typing

/-!
## Expr — integer functions

Bit operations and integer division on typed operands, and rounding to multiples, which is carried out when both
operands are numbers.
-/

namespace StencilForge.IntegerFunction

def isTyped : Fn → Bool
  | .bitXor | .bitAnd | .bitOr | .shiftLeft | .shiftRight | .intDiv | .powerOf2 => true
  | _ => false

def isRounding : Fn → Bool
  | .moduloFloor | .moduloCeil | .divCeil | .divFloor => true
  | _ => false

def check (e : Expr) : Outcome Unit :=
  match Typing.typeOf e with
  | .error f =>
    if f.kind == .unsupported then raiseWith .invalid "Integer functions can only be constructed with typed expressions"
    else .error f
  | .ok t => match t with
    | .basic s _ =>
      if s.isInt then .ok ()
      else do
        let n ← t.cName
        raiseWith .invalid s!"Argument to integer function is not an int but {n}"
    | _ => raise .noSuchPart

inductive Operand where
  | expr (e : Expr)
  | machine (n : Number)
  | stored (t : DataType) (n : Number)

/-- Exact and whole numbers get the default integer type, stored numbers their own. -/
def Operand.toExpr : Operand → Expr
  | .expr (.num n) => .node (.cast .plain) [.num n, .type .integer]
  | .expr e => e
  | .machine n => if n.isFloat then .num n else .node (.cast .plain) [.num n, .type .integer]
  | .stored t n => .node (.cast .plain) [.num n, .type t]

def ofOperands (f : Fn) (xs : List Operand) : Outcome Expr := do
  let xs := xs.map Operand.toExpr
  let _ ← xs.mapM check
  return .fn f xs

def typed (f : Fn) (xs : Exprs) : Outcome Expr := ofOperands f (xs.map .expr)

/-- Rounded toward minus infinity. -/
def floorDiv (a b : Number) : Option (Int × Rat) := do
  let x ← a.toRat?
  let y ← b.toRat?
  if y = 0 then none
  else
    let q := x / y
    let i := .fdiv q.num q.den
    return (i, x - i * y)

/-- With `machine`, a binary operand makes the quotient binary. -/
def roundNumbers (machine : Bool) (f : Fn) (a b : Number) : Outcome Number :=
  let quotient := fun i => if machine && (a.isFloat || b.isFloat) then .float (.ofInt i) else .ofInt i
  match f with
  | .moduloFloor =>
    match a.toRat?, b.toRat? with
    | some x, some y =>
      let d := .tdiv y.num y.den
      if d = 0 then raise .divisionByZero
      else .ok (.mul (.ofInt (.fdiv (.tdiv x.num x.den) d)) b)
    | _, _ => raise .invalid
  | f => match floorDiv a b with
    | none => raise .divisionByZero
    | some (i, r) => .ok (match f with
        | .moduloCeil => if r = 0 then a else (quotient (i + 1)).mul b
        | .divCeil => if r = 0 then quotient i else quotient (i + 1)
        | _ => quotient i)

/-- Carried out if both operands are numbers. -/
def rounding (machine : Bool) (f : Fn) (xs : Exprs) : Outcome Expr :=
  match xs with
  | [.num a, .num b] =>
    if a.isFinite && b.isFinite then do return .num (← roundNumbers machine f a b)
    else .ok (.fn f xs)
  | _ => .ok (.fn f xs)

def roundingText (f : Fn) (a b : Expr) (x y : String) : Outcome String := do
  let ta ← Typing.typeOf a
  let tb ← Typing.typeOf b
  let t ← collate [ta, tb]
  match t with
  | .basic s _ => require s.isInt .violated
  | _ => raise .noSuchPart
  let t ← t.cName
  return match f with
    | .moduloFloor => s!"({t})(({x}) / ({y})) * ({y})"
    | .moduloCeil =>
      s!"(({x}) % ({y}) == 0 ? {x} : (({t})(({x}) / ({y}"
        ++ s!"))+1) * ({y}))"
    | .divCeil =>
      let q := s!"({t})({x}) / ({t})({y})"
      s!"( ({x}) % ({y}) == 0 ? {q} : ( {q} ) +1 )"
    | _ => s!"(({t})({x}) / ({t})({y}))"

end StencilForge.IntegerFunction
