import StencilForge.DataArray

/-!
# Execution — arithmetic

What running a kernel asks of real numbers, so that a program can be run with machine numbers (`Arithmetic.machine`)
or with others.
-/

namespace StencilForge.Execution

open Double

structure Arithmetic (ρ : Type) where
  /-- In single precision if asked. -/
  ofRat : Bool → Rat → ρ
  infinity : ρ
  undefined : ρ
  add : ρ → ρ → ρ
  sub : ρ → ρ → ρ
  mul : ρ → ρ → ρ
  div : ρ → ρ → ρ
  neg : ρ → ρ
  less : ρ → ρ → Bool
  equal : ρ → ρ → Bool
  single : ρ → ρ
  truncate : ρ → Int
  /-- In single precision if asked. -/
  call : Bool → String → List ρ → Option ρ

namespace Arithmetic

def singleOfRat (q : Rat) : Float := (encode (.ofRat 24 q)).toFloat32.toFloat

/-- A function through its logarithmic form on exact numbers of many bits. -/
def viaBinary (f : Binary → Binary) (x : Float) : Float := if x.isNaN || x.isInf then x else encode (f (toBinary x))

/-- Without the loss of digits near zero. -/
def expMinusOne (x : Float) : Float :=
  if x == 0 || x > 709 then (if x == 0 then x else x.exp - 1)
  else if x < -50 then -1
  else viaBinary (fun b => (Binary.exp 400 b).addExact (Binary.one.neg)) x

/-- Without the loss of digits near zero. -/
def logOnePlus (x : Float) : Float :=
  if x == 0 then x
  else if x ≤ -1 then (1 + x).log
  else viaBinary (fun b => .log 400 (b.addExact .one)) x

def hypotenuse (x y : Float) : Float :=
  if x.isInf || y.isInf then 1.0 / 0.0
  else if x.isNaN || y.isNaN then 0.0 / 0.0
  else
    let square := fun v => (toBinary v).mulExact (toBinary v)
    let s := (square x).addExact (square y)
    if s.isZero then 0 else encode (.sqrt 200 s)

def multiplyAdd (x y z : Float) : Float :=
  if (x * y + z).isNaN || (x * y + z).isInf then x * y + z
  else encode (((toBinary x).mulExact (toBinary y)).addExact (toBinary z))

def unary : List (String × (Float → Float) × (Float32 → Float32)) :=
  [("sin", .sin, .sin), ("cos", .cos, .cos), ("tan", .tan, .tan), ("asin", .asin, .asin), ("acos", .acos, .acos),
   ("atan", .atan, .atan), ("sinh", .sinh, .sinh), ("cosh", .cosh, .cosh), ("tanh", .tanh, .tanh),
   ("asinh", .asinh, .asinh), ("acosh", .acosh, .acosh), ("atanh", .atanh, .atanh), ("exp", .exp, .exp),
   ("exp2", .exp2, .exp2), ("log", .log, .log), ("log2", .log2, .log2), ("log10", .log10, .log10),
   ("sqrt", .sqrt, .sqrt), ("cbrt", .cbrt, .cbrt), ("floor", .floor, .floor), ("ceil", .ceil, .ceil),
   ("fabs", .abs, .abs), ("abs", .abs, .abs)]

def library (name : String) : List Float → Option Float
  | [x] => match name with
    | "expm1" => some (expMinusOne x)
    | "log1p" => some (logOnePlus x)
    | _ => (unary.find? (·.1 == name)).map (·.2.1 x)
  | [x, y] => match name with
    | "pow" => some (x.pow y)
    | "atan2" => some (.atan2 x y)
    | "hypot" => some (hypotenuse x y)
    | _ => none
  | [x, y, z] => if name == "fma" then some (multiplyAdd x y z) else none
  | _ => none

/-- What has no single-precision form is calculated with doubles and rounded. -/
def library32 (name : String) (xs : List Float) : Option Float :=
  match xs, (unary.find? (·.1 == name)).map (·.2.2) with
  | [x], some f => some (f x.toFloat32).toFloat
  | xs, _ => match name, xs with
    | "pow", [x, y] => some (x.toFloat32.pow y.toFloat32).toFloat
    | "atan2", [x, y] => some (Float32.atan2 x.toFloat32 y.toFloat32).toFloat
    | _, xs => (library name xs).map fun x => x.toFloat32.toFloat

def machine : Arithmetic Float where
  ofRat := fun single q => if single then singleOfRat q else encode (Binary.ofRat Number.precision q)
  infinity := 1.0 / 0.0
  undefined := 0.0 / 0.0
  add := (· + ·)
  sub := (· - ·)
  mul := (· * ·)
  div := (· / ·)
  neg := (- ·)
  less := fun x y => x < y
  equal := fun x y => x == y
  single := fun x => x.toFloat32.toFloat
  truncate := fun x =>
    let n := (Number.ofFloat x.abs).floor?.getD 0
    if x < 0 then -n else n
  call := fun single name xs => if single then library32 name xs else library name xs

end Arithmetic

/-!
## Execution — values

Types are known before the kernel runs, so that values carry none.
-/

inductive Value (ρ : Type) where
  | whole (n : Int)
  | real (x : ρ)
  /-- The distance from the start is in bytes. -/
  | address (memory : String) (place : Int)
  | lanes (vs : List (Value ρ))

inductive Operation where
  | add | sub | mul | div | rem
  | bitAnd | bitOr | bitXor | shiftLeft | shiftRight
  deriving DecidableEq, Repr

namespace Operation

def bits (n : Int) : Nat := (n % (2 ^ 64 : Nat)).toNat

/-- Not yet brought to the range of a type. -/
def onInts (o : Operation) (a b : Int) : Option Int :=
  match o with
  | .add => some (a + b)
  | .sub => some (a - b)
  | .mul => some (a * b)
  | .div => if b = 0 then none else some (.tdiv a b)
  | .rem => if b = 0 then none else some (.tmod a b)
  | .bitAnd => some (bits a &&& bits b : Nat)
  | .bitOr => some (bits a ||| bits b : Nat)
  | .bitXor => some (bits a ^^^ bits b : Nat)
  | .shiftLeft => some (a * 2 ^ b.toNat)
  | .shiftRight => some (.fdiv a (2 ^ b.toNat))

def onReals {ρ : Type} (R : Arithmetic ρ) (o : Operation) (a b : ρ) : Option ρ :=
  match o with
  | .add => some (R.add a b)
  | .sub => some (R.sub a b)
  | .mul => some (R.mul a b)
  | .div => some (R.div a b)
  | _ => none

end Operation

namespace Value

variable {ρ : Type} (R : Arithmetic ρ)

def ofBool (b : Bool) : Value ρ := .whole (if b then 1 else 0)

def isTrue : Value ρ → Bool
  | .whole n => n != 0
  | _ => false

def round (s : Scalar) (x : ρ) : ρ := if s == .float 32 then R.single x else x

def arith (o : Operation) (s : Scalar) (a b : Value ρ) : Outcome (Value ρ) :=
  match a, b with
  | .whole m, .whole n => match o.onInts m n with
    | some k => .ok (.whole (s.wrap k))
    | none => raise .divisionByZero
  | .real x, .real y => match o.onReals R x y with
    | some z => .ok (.real (round R s z))
    | none => raise .mistyped
  | _, _ => raise .mistyped

def compare (r : Rel) (a b : Value ρ) : Outcome (Value ρ) :=
  match a, b with
  | .whole m, .whole n => .ok (ofBool (r.holds (Ord.compare m n)))
  | .real x, .real y => .ok (ofBool (match r with
      | .eq => R.equal x y
      | .ne => !R.equal x y
      | .lt => R.less x y
      | .le => R.less x y || R.equal x y
      | .gt => R.less y x
      | .ge => R.less y x || R.equal x y))
  | _, _ => raise .mistyped

def convert (t : Scalar) (v : Value ρ) : Value ρ :=
  match t, v with
  | .bool, .whole n => ofBool (n != 0)
  | .bool, .real x => ofBool (!R.equal x (R.ofRat false 0))
  | .float b, .whole n => .real (R.ofRat (b == 32) n)
  | .float b, .real x => .real (round R (.float b) x)
  | t, .whole n => .whole (t.wrap n)
  | t, .real x => .whole (t.wrap (R.truncate x))
  | _, v => v

def each2 (f : Value ρ → Value ρ → Outcome (Value ρ)) (a b : Value ρ) : Outcome (Value ρ) :=
  match a, b with
  | .lanes xs, .lanes ys => do return .lanes (← (xs.zip ys).mapM fun (x, y) => f x y)
  | a, b => f a b

def each (f : Value ρ → Value ρ) : Value ρ → Value ρ
  | .lanes xs => .lanes (xs.map f)
  | v => f v

def toLanes : Value ρ → List (Value ρ)
  | .lanes xs => xs
  | v => [v]

end Value

end StencilForge.Execution
