import StencilForge.Code.Expression
import StencilForge.Execution.Typed

/-!
# Execution — the meaning of expressions

What the code of an expression calculates: sums and products in the order in which they are written, small powers as
products, fractions as decimals with fifteen digits.  What no compiler would accept is refused.
-/

namespace StencilForge.Execution.Meaning

open Code Typed

abbrev Scope := Table String DataType

variable (A : Algebra) (v : Option InstructionSet) (scope : Scope)

def fraction (q : Rat) : Rat := (Decimal.significant 15 (Binary.ofRat Number.precision q)).value

def binary (b : Binary) : Rat := if b.isZero then 0 else (Decimal.significant 17 b).value

def number (target : Option DataType) (n : Number) : Outcome Typed :=
  let single := target.any (· matches .basic (.float 32) _)
  match n with
  | .rat q =>
    if q.den = 1 then
      match target with
      | some (.basic (.float _) _) => .ok (.real single q)
      | _ => .ok (.int q.num)
    else .ok (.real single (fraction q))
  | .float b => .ok (.real single (binary b))
  | .inf => if target.any (·.isFloat) then refused else .ok (.ofScalar (.float 32) .infinity)
  | .negInf => if target.any (·.isFloat) then refused else (Typed.ofScalar (.float 32) .infinity).neg
  | .nan => if target.any (·.isFloat) then refused else .ok (.ofScalar (.float 32) .undefined)

def constant (name : String) : Option Typed :=
  let digits := [("M_PI", 314159265358979323846, 20), ("M_E", 27182818284590452354, 19),
    ("M_PI_2", 157079632679489661923, 20), ("M_PI_4", 78539816339744830962, 20),
    ("M_2_PI", 63661977236758134308, 20), ("M_2_SQRTPI", 112837916709551257390, 20),
    ("M_LN2", 69314718055994530942, 20), ("M_LN10", 230258509299404568402, 20)]
  (digits.find? (·.1 == name)).map fun (_, n, places) => .real false (mkRat n (10 ^ places))

def isName (s : String) : Bool :=
  match s.toList with
  | c :: r => (c.isAlpha || c == '_') && r.all fun c => c.isAlphanum || c == '_'
  | [] => false

def lookup (name : String) : Outcome Typed :=
  match Table.get? scope name with
  | some t => .ok ⟨.var name, t⟩
  | none => refused

def leadingMinus? : Expr → Option Expr
  | .num n => given n.isNeg (.num n.neg)
  | .lit n => given (n < 0) (.lit (-n))
  | .node (.cast .plain) [.num n, .type (.basic s c)] =>
    given n.isNeg (.node (.cast .plain) [.num n.neg, .type (.basic s c)])
  | _ => none

def chained : List (Operation × Typed) → Outcome Typed
  | [] => refused
  | (_, x) :: r => r.foldlM (fun a (o, b) => arith o a b) x

def roundingType (a b : Expr) : Outcome Scalar := do
  match ← DataType.collate [← Typing.typeOf a, ← Typing.typeOf b] with
  | .basic s _ => return s
  | _ => refused

mutual

/-- `fuel` bounds the nesting depth. -/
def term : Nat → Expr → Outcome Typed
  | 0, _ => refused
  | fuel + 1, e => do
    match ← v.bindM (instructions? · e) with
    | some _ => vectorTerm fuel e
    | none => scalarTerm fuel e

def scalarTerm : Nat → Expr → Outcome Typed
  | 0, _ => refused
  | fuel + 1, e => do
    let sub := term fuel
    match e with
    | .atom (.num n) => number none n
    | .atom (.lit n) => return .int n
    | .atom (.const _) => match (libraryConstant? e).bind constant with
      | some c => return c
      | none => refused
    | .atom (.bool b) => return .bool b
    | .atom (.sym x) => lookup scope (← symbolName {} x)
    | .atom _ => refused
    | .node h as => match h, as with
      | .add, ts => match Arrange.terms A ts with
        | [] => refused
        | t :: r => do
          r.foldlM (fun acc t => do
            let (negative, x) ← signedTerm fuel t
            arith (if negative then .sub else .add) acc x) (← sub t)
      | .mul, _ => match libraryConstant? e with
        | some m => match constant m with
          | some c => return c
          | none => refused
        | none => do return (← product fuel true e).2
      | .pow, [b, x] =>
        if !e.hasSymbols then
          let t ← Typing.typeOf e
          match e.uncast.approxReal with
          | some r => number (some t) (.float r.settle)
          | none => refused
        else match smallExponent? x with
          | some n => do
            let body ← sub (.mulOf (.replicate n.natAbs b))
            if n > 0 then return body else arith .div (.int 1) body
          | none => do
            let isNum := fun q => match x with
              | .num n => n.sameValue (.rat q)
              | _ => false
            if isNum (mkRat 1 2) then call "sqrt" [← sub b]
            else if x == .rat (mkRat 1 3) then call "cbrt" [← sub b]
            else if isNum (-1) then arith .div (.real false 1) (← sub b)
            else call "pow" [← sub b, ← sub x]
      | .rel r, [a, b] => Typed.compare r (← sub a) (← sub b)
      | .and, as => do join Typed.and (← (Arrange.sortByKey A as).mapM sub)
      | .or, as => do join Typed.or (← (Arrange.sortByKey A as).mapM sub)
      | .not, [a] => do Typed.not (← sub a)
      | .piecewise, bs => match bs.getLast? with
        | some (.branch last (.bool true)) => do
          bs.dropLast.reverse.foldlM (fun rest b => match b with
            | .branch x c => do choose (← sub c) (← sub x) rest
            | _ => refused) (← sub last)
        | _ => refused
      | .cast k, x :: .atom (.type t) :: _ => match v, t, k with
        | some v, .vector .., .vectorAccess => do
          let p ← place fuel x
          match p.type with
          | .pointer (.basic s _) .. => return ⟨.loadLanes s.size v.width p.term, .vector (.ofScalar s) v.width⟩
          | _ => refused
        | some v, .vector .., _ => do spread (.float (if v.single then 32 else 64)) v.width (← sub x)
        | _, .basic s _, .reinterpret => do
          let p ← place fuel x
          return .ofScalar s (.load p.term)
        | _, .basic s _, _ => match x with
          | .num n => number (some t) n
          | x => do (← sub x).converted s
        | _, _, _ => refused
      | .access .., _ => lookup scope e.accessName
      | .element, _ => do load (← place fuel e)
      | .resolved .., _ => do load (← place fuel e)
      | .fn f, as => function fuel f as
      | .placeholder n _, as => function fuel (.named n) as.dropLast
      | _, _ => refused

def place : Nat → Expr → Outcome Typed
  | 0, _ => refused
  | fuel + 1, e => match e with
    | .node .element [p, i] => do element (← term fuel p) (← term fuel i)
    | .node (.resolved ..) (p :: i :: _) => do element (← term fuel p) (← term fuel i)
    | .node (.cast .reinterpret) (x :: .atom (.type t) :: _) => do
      return ⟨(← place fuel x).term, .pointer t false false⟩
    | _ => refused

/-- Whether the term is subtracted, and its value without the sign. -/
def signedTerm : Nat → Expr → Outcome (Bool × Typed)
  | 0, _ => refused
  | fuel + 1, e => do
    match leadingMinus? e, e with
    | some p, _ => return (true, ← term fuel p)
    | none, .mul _ => if (libraryConstant? e).isSome then return (false, ← term fuel e) else product fuel false e
    | none, e => return (false, ← term fuel e)

def factor : Nat → Expr → Outcome (List (Operation × Typed))
  | 0, _ => refused
  | fuel + 1, e => do
    match e with
    | .pow b (.num (.float x)) =>
      if e.hasSymbols && (Number.float x).sameValue (.rat (-1)) then
        return [(.mul, .real false 1), (.div, ← term fuel b)]
      else return [(.mul, ← term fuel e)]
    | .fn .moduloFloor [a, b] =>
      let x ← term fuel a
      let y ← term fuel b
      return [(.mul, ← (← arith .div x y).converted (← roundingType a b)), (.mul, y)]
    | e => return [(.mul, ← term fuel e)]

/-- Whether there is a minus sign, and the value, of which the sign is a part if `withSign`. -/
def product : Nat → Bool → Expr → Outcome (Bool × Typed)
  | 0, _, _ => refused
  | fuel + 1, withSign, e => do
    let (negative, above, below) := parts A e
    let above := (← above.mapM (factor fuel)).flatten
    let above ← match above, negative && withSign with
      | (o, x) :: r, true => do pure ((o, ← x.neg) :: r)
      | above, _ => pure above
    let below ← below.mapM fun (b, _) => factor fuel b
    match below with
    | [] => return (negative, ← chained above)
    | [(_, x) :: r] => return (negative, ← chained (above ++ (.div, x) :: r))
    | bs => return (negative, ← chained (above ++ [(.div, ← chained bs.flatten)]))

def function : Nat → Fn → Exprs → Outcome Typed
  | 0, _, _ => refused
  | fuel + 1, f, as => do
    let sub := term fuel
    let operation := fun (o : Operation) => match as with
      | [a, b] => do arith o (← sub a) (← sub b)
      | _ => refused
    match f, as with
    | .moduloFloor, [_, _] => chained (← factor fuel (.fn f as))
    | .moduloCeil, [a, b] => do
      let t ← roundingType a b
      let x ← sub a
      let y ← sub b
      let q ← (← arith .div x y).converted t
      choose (← Typed.compare .eq (← arith .rem x y) (.int 0)) x
        (← arith .mul (← arith .add q (.int 1)) y)
    | .divCeil, [a, b] => do
      let t ← roundingType a b
      let x ← sub a
      let y ← sub b
      let q ← arith .div (← x.converted t) (← y.converted t)
      choose (← Typed.compare .eq (← arith .rem x y) (.int 0)) q (← arith .add q (.int 1))
    | .divFloor, [a, b] => do
      let t ← roundingType a b
      arith .div (← (← sub a).converted t) (← (← sub b).converted t)
    | .addressOf, [a] => place fuel a
    | .fastDivision, [a, b] => sub (A.quotient a b)
    | .fastSqrt, [a] => sub (A.sqrt a)
    | .fastInvSqrt, [a] => sub (A.inv (A.sqrt a))
    | .vecAny, [a] | .vecAll, [a] => do
      let x ← sub a
      match v, x.type.isVector with
      | some v, true =>
        let mask := .ofScalar (.int 32) (.maskBits x.term)
        if f == .vecAny then Typed.compare .gt mask (.int 0)
        else Typed.compare .eq mask (.int v.fullMask)
      | _, _ => return x
    | .bitXor, _ => operation .bitXor
    | .shiftRight, _ => operation .shiftRight
    | .shiftLeft, _ => operation .shiftLeft
    | .bitOr, _ => operation .bitOr
    | .bitAnd, _ => operation .bitAnd
    | .powerOf2, a :: _ => do arith .shiftLeft (.int 1) (← sub a)
    | .intDiv, _ => operation .div
    | .sign, [a] => do
      let x ← sub a
      arith .sub (← Typed.compare .gt x (.int 0)) (← Typed.compare .lt x (.int 0))
    | .max, as => do extreme .gt as.length (← as.mapM sub)
    | .min, as => do extreme .lt as.length (← as.mapM sub)
    | f, as => match (libraryConstant? (.fn f as)).bind constant with
      | some c => return c
      | none =>
        let whole := match as with
          | a :: _ => A.is .integer a
          | [] => false
        match Dialect.c.known? f.name whole with
        | some n => call n (← as.mapM sub)
        | none => refused

def vectorTerm : Nat → Expr → Outcome Typed
  | 0, _ => refused
  | fuel + 1, e => do
    let sub := term fuel
    let some set := v
      | refused
    let lane := .float (if set.single then 32 else 64)
    let one ← spread lane set.width (.real false 1)
    let root := fun x => do
      let _ ← x.lanes
      return (⟨.call set.single "sqrt" [x.term], x.type⟩ : Typed)
    match e with
    | .node .and as => do join (vectorArith .bitAnd) (← as.mapM sub)
    | .node .or as => do join (vectorArith .bitOr) (← as.mapM sub)
    | .node .add ts => do
      let signed ← ts.mapM fun t => match t with
        | .mul _ => vectorProduct fuel t
        | t => do return (false, ← sub t)
      let plus := (signed.filter (!·.1)).map (·.2)
      let minus := (signed.filter (·.1)).map (·.2)
      minus.foldlM (vectorArith .sub) (← join (vectorArith .add) plus)
    | .mul _ => do
      let (negative, x) ← vectorProduct fuel e
      if negative then refused else return x
    | .pow b x => match smallExponent? x, x with
      | some n, _ => do
        let body ← sub (.mulOf (.replicate n.natAbs b))
        if n > 0 then return body else vectorArith .div one body
      | none, .num k => do
        if k.sameValue .half then root (← sub b)
        else vectorArith .div one (← root (← sub b))
      | none, _ => refused
    | .rel r a b => do vectorCompare r (← sub a) (← sub b)
    | .fn .fastDivision [a, b] => do vectorArith .div (← sub a) (← sub b)
    | .fn .fastInvSqrt [a] => sub (A.inv (A.sqrt a))
    | .node .piecewise bs => match bs.getLast? with
      | some (.branch last _) => do
        bs.dropLast.reverse.foldlM (fun rest b => match b with
          | .branch x c => do
            match c with
            | .node (.cast _) (k :: _) =>
              if (← Typing.typeOf k) == .boolean then
                let y ← sub x
                return ⟨.choose (← (← sub k).condition).term y.term rest.term, rest.type⟩
              else blend rest (← sub x) (← sub c)
            | c => blend rest (← sub x) (← sub c)
          | _ => refused) (← sub last)
      | _ => refused
    | e => scalarTerm fuel e

def vectorProduct : Nat → Expr → Outcome (Bool × Typed)
  | 0, _ => refused
  | fuel + 1, e => do
    let sub := term fuel
    let (negative, above, below) := parts A e
    let top ← join (vectorArith .mul) (← above.mapM sub)
    if below.isEmpty then return (negative, top)
    else
      let low ← join (vectorArith .mul) (← below.mapM fun (b, _) => sub b)
      return (negative, ← vectorArith .div top low)

end

def ofExpr (e : Expr) : Outcome Typed := term A v scope (6 * e.depth + 40) e

end StencilForge.Execution.Meaning
