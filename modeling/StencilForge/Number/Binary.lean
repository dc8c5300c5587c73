/-!
# Number — Binary

`mantissa · 2 ^ exponent` with integers of any size.  Results are rounded to a given number of bits, a tie to the even
neighbour (`Binary.round`); nothing overflows.  The mantissa is odd, or both parts are zero (`Binary.make`), so that
equality of numbers is equality of the fields.
-/

namespace StencilForge

/-- The power of the number type itself, whatever monoids it belongs to. -/
@[default_instance 20000]
instance (priority := 2000) instPowOfNatPow {α : Type} [NatPow α] : Pow α Nat := instPowNat

structure Binary where
  mantissa : Int
  exponent : Int
  deriving DecidableEq, Repr

variable (prec : Nat) (x : Binary) (x y : Binary)

namespace Binary

/-- At most `fuel` times; counts the halvings. -/
def stripTwos : Nat → Nat → Nat → Nat × Nat
  | 0, n, k => (n, k)
  | fuel + 1, n, k => if n % 2 = 0 then stripTwos fuel (n / 2) (k + 1) else (n, k)

def make (m e : Int) : Binary :=
  if m = 0 then ⟨0, 0⟩
  else
    let (n, k) := stripTwos (m.natAbs.log2 + 1) m.natAbs 0
    ⟨if m < 0 then -(n : Int) else n, e + k⟩

def zero : Binary := ⟨0, 0⟩
def one : Binary := ⟨1, 0⟩

def isZero : Bool := x.mantissa == 0
def isNeg : Bool := x.mantissa < 0

def neg : Binary := ⟨-x.mantissa, x.exponent⟩
def abs : Binary := ⟨x.mantissa.natAbs, x.exponent⟩

/-- The integer `n` divided by `2 ^ s`, to the nearest, a tie to the even neighbour. -/
def shiftNearest (n s : Nat) : Nat :=
  if s = 0 then n
  else
    let q := n >>> s
    let r := n - (q <<< s)
    let half := 1 <<< (s - 1)
    if r > half || (r == half && q % 2 == 1) then q + 1 else q

def round (m e : Int) : Binary :=
  let n := m.natAbs
  let bits := n.log2 + 1
  if bits ≤ prec then make m e
  else
    let s := bits - prec
    let q := shiftNearest n s
    make (if m < 0 then -(q : Int) else q) (e + s)

def withPrec : Binary := round prec x.mantissa x.exponent

def ofInt (n : Int) : Binary := make n 0

def align : Int × Int × Int :=
  let e := min x.exponent y.exponent
  (x.mantissa * 2 ^ (x.exponent - e).toNat, y.mantissa * 2 ^ (y.exponent - e).toNat, e)

def addExact : Binary :=
  if x.isZero then y else if y.isZero then x
  else let (a, b, e) := align x y; make (a + b) e

def add : Binary := withPrec prec (addExact x y)
def sub : Binary := add prec x y.neg

def mulExact : Binary := make (x.mantissa * y.mantissa) (x.exponent + y.exponent)
def mul : Binary := withPrec prec (mulExact x y)

/-- The quotient is taken with spare bits, and a remainder is remembered in a last bit that decides ties. -/
def quotient (n d : Nat) (e : Int) (negative : Bool) : Binary :=
  if n = 0 || d = 0 then zero
  else
    let k := prec + 3 + d.log2 - min (prec + 3 + d.log2) n.log2
    let q := (n <<< k) / d
    let r := (n <<< k) % d
    let m := 2 * q + (if r = 0 then 0 else 1)
    round prec (if negative then -(m : Int) else m) (e - k - 1)

def div : Binary := quotient prec x.mantissa.natAbs y.mantissa.natAbs (x.exponent - y.exponent) (x.isNeg != y.isNeg)

def ofRat (q : Rat) : Binary :=
  if q.den = 1 then round prec q.num 0
  else quotient prec q.num.natAbs q.den 0 (q.num < 0)

def toRat : Rat :=
  if x.exponent ≥ 0 then ((x.mantissa * 2 ^ x.exponent.toNat : Int) : Rat)
  else mkRat x.mantissa (2 ^ (-x.exponent).toNat)

def compare : Ordering :=
  let (a, b, _) := align x y
  if a < b then .lt else if a = b then .eq else .gt

def lt : Bool := compare x y == .lt
def le : Bool := compare x y != .gt

def magnitude : Int := if x.isZero then 0 else x.exponent + (x.mantissa.natAbs.log2 + 1 : Nat)

def isInteger : Bool := x.exponent ≥ 0

def floor : Int :=
  if x.exponent ≥ 0 then x.mantissa * 2 ^ x.exponent.toNat
  else .fdiv x.mantissa (2 ^ (-x.exponent).toNat)

/-- The integer part of `x`, toward zero. -/
def truncate : Int :=
  if x.exponent ≥ 0 then x.mantissa * 2 ^ x.exponent.toNat
  else .tdiv x.mantissa (2 ^ (-x.exponent).toNat)

/-- `x ^ n` for a natural exponent, rounded once. -/
def powNat (n : Nat) : Binary := round prec (x.mantissa ^ n) (x.exponent * n)

/-- A negative power is the reciprocal of the positive one, which is taken with five spare bits. -/
def powInt (n : Int) : Binary :=
  if n ≥ 0 then powNat prec x n.toNat
  else if n = -1 then div prec one x
  else div prec one (powNat (prec + 5) x (-n).toNat)

def sqrt : Binary :=
  if x.mantissa ≤ 0 then zero
  else
    let n := x.mantissa.toNat
    -- an even exponent, and enough bits for the root to have two more than asked for
    let odd := x.exponent % 2 != 0
    let n := if odd then 2 * n else n
    let e := if odd then x.exponent - 1 else x.exponent
    let want := 2 * prec + 6
    let k := want - min want n.log2
    let k := k + k % 2
    let n := n <<< k
    let r := n.sqrt
    let m := 2 * r + (if r * r = n then 0 else 1)
    round prec m (e / 2 - (k / 2 : Nat) - 1)

end Binary

end StencilForge
