import StencilForge.Number.Double
import StencilForge.Number.Elementary

/-!
# Number

Exact rationals, binary numbers of 53 bits, two infinities and an undefined value.  As soon as one operand is binary
the other is rounded to 53 bits and so is the result.  A binary zero becomes the exact one.
-/

namespace StencilForge

inductive Number where
  | rat (q : Rat)
  | float (b : Binary)
  | inf
  | negInf
  | nan
  deriving DecidableEq, Repr

variable (a b : Number)

namespace Number

def precision : Nat := 53

def ofInt (n : Int) : Number := .rat n
def zero : Number := .rat 0
def one : Number := .rat 1
def negOne : Number := .rat (-1)
def half : Number := .rat (mkRat 1 2)

def ofBinary (b : Binary) : Number := if b.isZero then zero else .float b

def ofFloat (x : Float) : Number :=
  if x.isNaN then .nan else if x.isInf then (if x < 0 then .negInf else .inf)
  else .float (Double.toBinary x)

def toRat? : Number → Option Rat
  | rat q => some q
  | float b => some b.toRat
  | _ => none

def toFloat : Number → Float
  | rat q => Double.encode (Binary.ofRat precision q)
  | float b => Double.encode b
  | inf => 1.0 / 0.0
  | negInf => -1.0 / 0.0
  | nan => 0.0 / 0.0

def isInteger : Number → Bool
  | rat q => q.den == 1
  | _ => false

def int? : Number → Option Int
  | rat q => if q.den = 1 then some q.num else none
  | _ => none

def rat? : Number → Option Rat
  | rat q => some q
  | _ => none

def isRational : Number → Bool
  | rat _ => true
  | _ => false

def isFloat : Number → Bool
  | float _ => true
  | _ => false

def isFinite : Number → Bool
  | rat _ | float _ => true
  | _ => false

def isInfinite : Number → Bool
  | inf | negInf => true
  | _ => false

def isZero : Number → Bool
  | rat q => q == 0
  | float b => b.isZero
  | _ => false

def isOne : Number → Bool
  | rat q => q == 1
  | _ => false

def isNegOne : Number → Bool
  | rat q => q == -1
  | _ => false

def isNeg : Number → Bool
  | rat q => q < 0
  | float b => b.isNeg
  | negInf => true
  | _ => false

def isPos : Number → Bool
  | rat q => 0 < q
  | float b => !b.isNeg && !b.isZero
  | inf => true
  | _ => false

def neg : Number → Number
  | rat q => .rat (-q)
  | float b => .float b.neg
  | inf => .negInf
  | negInf => .inf
  | nan => .nan

def abs (x : Number) : Number := if x.isNeg then x.neg else x

def combine (exact : Rat → Rat → Rat) (rounded : Binary → Binary → Binary) : Number → Number → Number
  | rat a, rat b => .rat (exact a b)
  | rat a, float b => ofBinary (rounded (.ofRat precision a) b)
  | float a, rat b => ofBinary (rounded a (.ofRat precision b))
  | float a, float b => ofBinary (rounded a b)
  | _, _ => .nan

def add : Number → Number → Number
  | nan, _ | _, nan => .nan
  | inf, negInf | negInf, inf => .nan
  | inf, _ | _, inf => .inf
  | negInf, _ | _, negInf => .negInf
  | a, b => combine (· + ·) (.add precision) a b

def sub : Number := add a b.neg

def mul : Number → Number → Number
  | nan, _ | _, nan => .nan
  | a, b =>
    if a.isInfinite || b.isInfinite then
      if a.isZero || b.isZero then .nan
      else if a.isNeg != b.isNeg then .negInf else .inf
    else combine (· * ·) (.mul precision) a b

/-- The divisor is not zero. -/
def div : Number :=
  match b with
  | inf | negInf => if a.isFinite then zero else .nan
  | _ =>
    if a.isInfinite then (if b.isNeg then a.neg else a)
    else combine (· / ·) (.div precision) a b

def compare? : Number → Number → Option Ordering
  | nan, _ | _, nan => none
  | inf, inf | negInf, negInf => some .eq
  | inf, _ | _, negInf => some .gt
  | _, inf | negInf, _ => some .lt
  | a, b => do
    let x ← a.toRat?
    let y ← b.toRat?
    return if x < y then .lt else if x = y then .eq else .gt

def lt : Bool := compare? a b == some .lt
def le : Bool := compare? a b == some .lt || compare? a b == some .eq

def sameValue : Bool := compare? a b == some .eq

def floor? : Number → Option Int
  | rat q => some (.fdiv q.num q.den)
  | float b => some b.floor
  | _ => none

end Number

/-!
## Number — factors and roots of integers

Integer roots, and the prime factors below a bound, by which roots of integers are simplified.
-/

namespace Factor

/-- The largest `r` with `r ^ k ≤ n`, between `lo` and `hi`. -/
def rootSearch (n k : Nat) : Nat → Nat → Nat → Nat
  | 0, lo, _ => lo
  | fuel + 1, lo, hi =>
    if lo + 1 ≥ hi then lo
    else
      let mid := (lo + hi) / 2
      if mid ^ k ≤ n then rootSearch n k fuel mid hi else rootSearch n k fuel lo mid

def nthRoot (n k : Nat) : Nat :=
  if k = 0 || n = 0 then 0
  else if k = 1 then n
  else rootSearch n k (n.log2 + 2) 0 (2 ^ (n.log2 / k + 1) + 1)

def exactRoot? (n k : Nat) : Option Nat :=
  let r := nthRoot n k
  if r ^ k = n then some r else none

def multiplicity (p : Nat) : Nat → Nat → Nat → Nat × Nat
  | 0, n, k => (k, n)
  | fuel + 1, n, k => if p > 1 && n % p = 0 then multiplicity p fuel (n / p) (k + 1) else (k, n)

def trial (bound : Nat) : Nat → Nat → Nat → List (Nat × Nat) → List (Nat × Nat)
  | 0, _, n, acc => if n > 1 then acc ++ [(n, 1)] else acc
  | fuel + 1, p, n, acc =>
    if n ≤ 1 then acc
    else if p > bound || p * p > n then acc ++ [(n, 1)]
    else
      let (k, m) := multiplicity p (n.log2 + 1) n 0
      trial bound fuel (p + 1) m (if k > 0 then acc ++ [(p, k)] else acc)

/-- Up to `2 ^ 15`; what is left counts as one factor. -/
def primes (n : Nat) : List (Nat × Nat) := trial (2 ^ 15) (2 ^ 15) 2 n []

/-- `n` as a power with the largest possible exponent above one. -/
def perfectPower? (n : Nat) : Option (Nat × Nat) :=
  let ks := (List.range (n.log2 + 1)).reverse.filter (· ≥ 2)
  ks.findSome? fun k => (exactRoot? n k).bind fun r => if r > 1 then some (r, k) else none

end Factor

end StencilForge
