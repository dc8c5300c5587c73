import StencilForge.Execution.Term

/-!
# Execution — types of terms

Operations bring their operands to a common type first: small integers are widened, an integer next to a real number
becomes real, and of two integers of one size an unsigned one wins.
-/

namespace StencilForge.Execution

structure Typed where
  term : Term
  type : DataType
  deriving Inhabited

variable (a : Typed)

def refused {α : Type} : Outcome α := raise .rejected

namespace Typed

def ofScalar (s : Scalar) (t : Term) : Typed := ⟨t, .basic s false⟩

def int (n : Int) : Typed := ofScalar (if n.natAbs < 2 ^ 31 then .int 32 else .int 64) (.whole n)

def real (single : Bool) (q : Rat) : Typed := ofScalar (.float (if single then 32 else 64)) (.real single q)

def bool (b : Bool) : Typed := ofScalar .bool (.whole (if b then 1 else 0))

def promote : Scalar → Scalar
  | .bool => .int 32
  | .int b => .int (max b 32)
  | .uint b => if b < 32 then .int 32 else .uint b
  | s => s

def commonScalar (s t : Scalar) : Option Scalar :=
  match s, t with
  | .float a, .float b => some (.float (max a b))
  | .float a, t => if t.isInt || t == .bool then some (.float a) else none
  | s, .float b => if s.isInt || s == .bool then some (.float b) else none
  | s, t => match promote s, promote t with
    | .int a, .int b => some (.int (max a b))
    | .uint a, .uint b => some (.uint (max a b))
    | .int a, .uint b | .uint b, .int a => some (if b ≥ a then .uint b else .int a)
    | _, _ => none

def scalar : Outcome Scalar :=
  match a.type with
  | .basic s _ => .ok s
  | _ => refused

def converted (t : Scalar) (a : Typed) : Outcome Typed := do
  let s ← a.scalar
  let plain := fun s => s == .bool || s.isInt || s == .float 32 || s == .float 64
  if !plain s || !plain t then refused
  return if s == t then a else ofScalar t (.convert t a.term)

def toType (t : DataType) (a : Typed) : Outcome Typed :=
  match t, a.type with
  | .basic s _, .basic .. => do return { (← a.converted s) with type := t }
  | .pointer b .., .pointer c .. => if b.innermost == c.innermost then .ok ⟨a.term, t⟩ else refused
  | .vector _ w, .vector _ v => if w == v then .ok ⟨a.term, t⟩ else refused
  | _, _ => refused

/-- Records are counted in bytes. -/
def unit : DataType → Nat
  | .basic s _ => s.size
  | _ => 1

def pair (a b : Typed) : Outcome (Scalar × Typed × Typed) := do
  match commonScalar (← a.scalar) (← b.scalar) with
  | some s => return (s, ← a.converted s, ← b.converted s)
  | none => refused

/-- A pointer is moved by an integer. -/
def arith (o : Operation) (a b : Typed) : Outcome Typed := do
  match a.type, b.type with
  | .pointer base .., .basic s _ =>
    if s.isFloat then refused
    let size : Int := unit base
    match o with
    | .add => return ⟨.move size a.term b.term, a.type⟩
    | .sub => return ⟨.move (-size) a.term b.term, a.type⟩
    | _ => refused
  | .basic s _, .pointer base .. =>
    if s.isFloat || o != .add then refused
    return ⟨.move (unit base) b.term a.term, b.type⟩
  | _, _ =>
    let (s, x, y) ← pair a b
    match o with
    | .add | .sub | .mul | .div => return ofScalar s (.arith o s x.term y.term)
    | .shiftLeft | .shiftRight =>
      let t := promote (← a.scalar)
      if s.isFloat then refused
      return ofScalar t (.arith o t (← a.converted t).term b.term)
    | _ =>
      if s.isFloat then refused
      return ofScalar s (.arith o s x.term y.term)

def neg : Outcome Typed := do
  let s := promote (← a.scalar)
  match a.term with
  | .real single q => if q != 0 then return ofScalar s (.real single (-q))
  | .whole n => if n != 0 then return ofScalar s (.whole (s.wrap (-n)))
  | _ => pure ()
  let x ← a.converted s
  -- zero becomes a negative zero
  if s.isFloat then return ofScalar s (.arith .mul s (.real (s == .float 32) (-1)) x.term)
  else return ofScalar s (.arith .sub s (.whole 0) x.term)

def compare (r : Rel) (a b : Typed) : Outcome Typed := do
  let (_, x, y) ← pair a b
  return ofScalar .bool (.compare r x.term y.term)

def condition : Outcome Typed := a.converted .bool

def choose (c a b : Typed) : Outcome Typed := do
  let c ← c.condition
  if a.type.scalar?.isSome && a.type.scalar? == b.type.scalar? then return ⟨.choose c.term a.term b.term, a.type⟩
  else
    let (s, x, y) ← pair a b
    return ofScalar s (.choose c.term x.term y.term)

def and (a b : Typed) : Outcome Typed := do
  return ofScalar .bool (.choose (← a.condition).term (← b.condition).term (.whole 0))

def or (a b : Typed) : Outcome Typed := do
  return ofScalar .bool (.choose (← a.condition).term (.whole 1) (← b.condition).term)

def not : Outcome Typed := do return ofScalar .bool (.choose (← a.condition).term (.whole 0) (.whole 1))

def join (f : Typed → Typed → Outcome Typed) : List Typed → Outcome Typed
  | [] => refused
  | x :: xs => xs.foldlM f x

/-- By halves; `fuel` bounds the number of halvings. -/
def extreme (r : Rel) : Nat → List Typed → Outcome Typed
  | 0, _ => refused
  | _, [] => refused
  | _, [x] => .ok x
  | fuel + 1, xs => do
    let h := xs.length / 2
    let a ← extreme r fuel (xs.take h)
    let b ← extreme r fuel (xs.drop h)
    choose (← compare r a b) a b

def arity (name : String) : Nat := if ["pow", "atan2", "hypot"].contains name then 2 else if name == "fma" then 3 else 1

/-- Single-precision operands alone give a single-precision value. -/
def call (name : String) (as : List Typed) : Outcome Typed := do
  if as.length != arity name || name == "Heaviside" then refused
  let ss ← as.mapM scalar
  match name, as, ss with
  | "abs", [a], [s] =>
    if s.isFloat then return ofScalar s (.call (s == .float 32) "fabs" [a.term])
    let t := promote s
    if t.isUInt then refused
    let x ← a.converted t
    return ofScalar t (.choose (.compare .lt x.term (.whole 0)) (.arith .sub t (.whole 0) x.term) x.term)
  | _, _, _ =>
    let single := ss.all (· == .float 32)
    let s := .float (if single then 32 else 64)
    let xs ← as.mapM (converted s)
    return ofScalar s (.call single name (xs.map (·.term)))

def element (p i : Typed) : Outcome Typed := do
  match p.type with
  | .pointer .. => arith .add p i
  | _ => refused

def load (p : Typed) : Outcome Typed :=
  match p.type with
  | .pointer (.basic s _) .. => .ok (ofScalar s (.load p.term))
  | _ => refused

/-! ### Vectors -/

def lanes : Outcome (Scalar × Nat) :=
  match a.type with
  | .vector (.basic s _) w => .ok (s, w)
  | _ => refused

def vectorArith (o : Operation) (a b : Typed) : Outcome Typed := do
  let (s, w) ← a.lanes
  let (t, v) ← b.lanes
  if s != t || w != v then refused
  return ⟨.arith o s a.term b.term, a.type⟩

def vectorCompare (r : Rel) (a b : Typed) : Outcome Typed := do
  let (s, w) ← a.lanes
  let (t, v) ← b.lanes
  if s != t || w != v then refused
  return ⟨.compare r a.term b.term, .vector .boolean w⟩

def spread (s : Scalar) (w : Nat) (a : Typed) : Outcome Typed := do
  return ⟨.spread w (← a.converted s).term, .vector (.ofScalar s) w⟩

def blend (a b mask : Typed) : Outcome Typed := do
  let (s, w) ← a.lanes
  let (t, v) ← b.lanes
  let _ ← mask.lanes
  if s != t || w != v then refused
  return ⟨.blend a.term b.term mask.term, a.type⟩

end Typed

end StencilForge.Execution
