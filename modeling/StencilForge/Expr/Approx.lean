import StencilForge.Expr.Algebra

/-!
# Expr — approximate values

The approximate complex value of an expression without variables, with a given number of bits.  `signOf` decides the
sign of a real value if it is clearly not zero.
-/

namespace StencilForge

structure ComplexValue where
  re : Binary
  im : Binary := .zero
  deriving Repr

namespace ComplexValue

variable (p : Nat) (a : ComplexValue)

def add (a b : ComplexValue) : ComplexValue := ⟨a.re.add p b.re, a.im.add p b.im⟩

def mul (a b : ComplexValue) : ComplexValue :=
  if a.im.isZero && b.im.isZero then ⟨a.re.mul p b.re, .zero⟩
  else ⟨(a.re.mul p b.re).sub p (a.im.mul p b.im), (a.re.mul p b.im).add p (a.im.mul p b.re)⟩

def norm : Binary := (a.re.mul p a.re).add p (a.im.mul p a.im)

def inv : Option ComplexValue :=
  if a.re.isZero && a.im.isZero then none
  else if a.im.isZero then some ⟨Binary.one.div p a.re, .zero⟩
  else
    let n := a.norm p
    some ⟨a.re.div p n, (a.im.div p n).neg⟩

def powNat : Nat → ComplexValue
  | 0 => ⟨.one, .zero⟩
  | n + 1 => mul p (powNat n) a

def powInt (n : Int) : Option ComplexValue :=
  if a.im.isZero then if a.re.isZero && n < 0 then none else some ⟨.powInt p a.re n, .zero⟩
  else if n.natAbs > 200 then none
  else if n ≥ 0 then some (powNat p a n.toNat) else inv p (powNat p a n.natAbs)

def exp : ComplexValue :=
  let r := .exp p a.re
  if a.im.isZero then ⟨r, .zero⟩ else ⟨r.mul p (.cos p a.im), r.mul p (.sin p a.im)⟩

def powReal (b x : Binary) : Option ComplexValue :=
  if b.isZero then (if x.isNeg || x.isZero then none else some ⟨.zero, .zero⟩)
  else if !b.isNeg then some ⟨.pow p b x, .zero⟩
  else
    let r := Binary.pow p b.neg x
    let a := (Binary.pi p).mul p x
    some ⟨r.mul p (Binary.cos p a), r.mul p (Binary.sin p a)⟩

end ComplexValue

/-- Rounded with four bits to spare first, so that a value near the middle of two numbers goes to the even one. -/
def Binary.settle (b : Binary) : Binary := (b.withPrec (Number.precision + 4)).withPrec Number.precision

namespace Expr

def approxFn (p : Nat) : Fn → List ComplexValue → Option ComplexValue
  | .exp, [a] => if a.re.magnitude > 60 then none else some (a.exp p)
  | .log, [a] =>
    if !a.im.isZero || a.re.isZero then none
    else if a.re.isNeg then some ⟨.log p a.re.neg, .pi p⟩
    else some ⟨.log p a.re, .zero⟩
  | .sin, [a] => given a.im.isZero ⟨.sin p a.re, .zero⟩
  | .cos, [a] => given a.im.isZero ⟨.cos p a.re, .zero⟩
  | .tan, [a] => given a.im.isZero ⟨.tan p a.re, .zero⟩
  | .tanh, [a] => given a.im.isZero ⟨.tanh p a.re, .zero⟩
  | .abs, [a] => some ⟨if a.im.isZero then a.re.abs else .sqrt p (a.norm p), .zero⟩
  | .floor, [a] => given a.im.isZero ⟨.ofInt a.re.floor, .zero⟩
  | .ceiling, [a] => given a.im.isZero ⟨.ofInt (-(a.re.neg.floor)), .zero⟩
  | .sign, [a] =>
    if a.im.isZero then some ⟨if a.re.isZero then .zero else if a.re.isNeg then Binary.one.neg else .one, .zero⟩
    else none
  | .min, a :: r => real (fun x y => if y.lt x then y else x) a r
  | .max, a :: r => real (fun x y => if x.lt y then y else x) a r
  | _, _ => none
where
  real (f : Binary → Binary → Binary) (a : ComplexValue) (r : List ComplexValue) : Option ComplexValue :=
    given ((a :: r).all (·.im.isZero)) ⟨r.foldl (fun x y => f x y.re) a.re, .zero⟩

def approx (p : Nat) : Expr → Option ComplexValue
  | .atom (.num (.rat q)) => some ⟨.ofRat p q, .zero⟩
  | .atom (.num (.float b)) => some ⟨b, .zero⟩
  | .atom (.lit n) => some ⟨.ofInt n, .zero⟩
  | .atom (.const .pi) => some ⟨.pi p, .zero⟩
  | .atom (.const .euler) => some ⟨.euler p, .zero⟩
  | .atom (.const .imaginary) => some ⟨.zero, .one⟩
  | .atom _ => none
  | .node h as => do
    let vs ← as.mapM (approx p)
    match h, vs with
    | .add, vs => some (vs.foldl (.add p) ⟨.zero, .zero⟩)
    | .mul, vs => some (vs.foldl (.mul p) ⟨.one, .zero⟩)
    | .pow, [b, e] =>
      if !e.im.isZero then none
      else if e.re.isInteger && e.re.magnitude < 12 then b.powInt p e.re.floor
      else if b.im.isZero then ComplexValue.powReal p b.re e.re
      else none
    | .fn f, vs => approxFn p f vs
    | _, _ => none

def approxReal (e : Expr) : Option Binary := do
  let v ← e.approx 200
  given (v.im.isZero || v.im.magnitude < -120) v.re

def uncast : Expr → Expr
  | .atom a => .atom a
  | .node h as => match h, as with
    | .cast _, e :: _ => ((uncast e).approxReal).elim e fun v => .num (.ofBinary v.settle)
    | h, as => .node h (as.map uncast)

def approxSign (e : Expr) : Option Ordering := do
  let v ← e.approxReal
  if v.isZero then some .eq
  else if v.magnitude < -120 then none
  else some (if v.isNeg then .lt else .gt)

end Expr

end StencilForge
