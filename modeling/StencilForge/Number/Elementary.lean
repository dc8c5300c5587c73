import StencilForge.Number.Binary

/-!
# Number — Elementary

Each function works in fixed point: an integer `n` stands for `n / 2 ^ w`, where `w` is the asked precision with many
spare bits, and the series is summed until its terms vanish.
-/

namespace StencilForge.Binary

open Int

variable (prec : Nat) (x : Binary) (w : Nat)

/-- The fixed-point integer nearest below `x · 2 ^ w`. -/
def toFixed (x : Binary) : Int :=
  let s := x.exponent + w
  if s ≥ 0 then x.mantissa * 2 ^ s.toNat else fdiv x.mantissa (2 ^ (-s).toNat)

/-- `next k t` is the term after the `k`-th term `t`. -/
def sumSeries (next : Nat → Int → Int) : Nat → Nat → Int → Int → Int
  | 0, _, _, acc => acc
  | fuel + 1, k, t, acc => if t = 0 || t = -1 then acc else sumSeries next fuel (k + 1) (next k t) (acc + t)

def atanhFixed (p q : Int) : Int :=
  let x := fdiv (p * 2 ^ w) q
  let x2 := fdiv (x * x) (2 ^ w)
  let rec go : Nat → Nat → Int → Int → Int
    | 0, _, _, acc => acc
    | fuel + 1, k, t, acc =>
      if t = 0 || t = -1 then acc
      else go fuel (k + 2) (fdiv (t * x2) (2 ^ w)) (acc + fdiv t k)
  go (2 * w + 8) 1 x 0

def ln2Fixed : Int :=
  let v := w + 16
  let n := 18 * atanhFixed v 1 26 - 2 * atanhFixed v 1 4801 + 8 * atanhFixed v 1 8749
  fdiv n (2 ^ 16)

def atanInvFixed (q : Int) : Int :=
  let x := fdiv (2 ^ w) q
  let rec go : Nat → Nat → Bool → Int → Int → Int
    | 0, _, _, _, acc => acc
    | fuel + 1, k, negative, t, acc =>
      if t = 0 then acc
      else
        let d := fdiv t k
        go fuel (k + 2) (!negative) (fdiv t (q * q)) (if negative then acc - d else acc + d)
  go (2 * w + 8) 1 false x 0

def piFixed : Int :=
  let v := w + 16
  fdiv (4 * (4 * atanInvFixed v 5 - atanInvFixed v 239)) (2 ^ 16)

def expFixed (r : Int) : Int :=
  -- eight halvings of the argument, undone by eight squarings
  let v := w + 24
  let x := fdiv (r * 2 ^ 24) (2 ^ 8)
  let s := sumSeries (fun k t => fdiv (t * x) ((2 ^ v) * (k + 1))) (2 * v + 8) 0 (2 ^ v) 0
  let sq := fun y => fdiv (y * y) (2 ^ v)
  fdiv (sq (sq (sq (sq (sq (sq (sq (sq s)))))))) (2 ^ 24)

def exp : Binary :=
  if x.isZero then one
  else
    let w := prec + 64 + x.magnitude.toNat + (-x.magnitude).toNat
    let t := toFixed w x
    let l := ln2Fixed w
    let n := fdiv t l
    round prec (expFixed w (t - n * l)) (n - w)

def log : Binary :=
  if x.mantissa ≤ 0 || x = one then zero
  else
    -- `x = y · 2 ^ n` with `y` between 3/4 and 3/2
    let g := x.magnitude
    let big := le ⟨3, g - 2⟩ x
    let n := if big then g else g - 1
    let y := ⟨x.mantissa, x.exponent - n⟩
    let d := addExact y ⟨-1, 0⟩
    let s := addExact y one
    let w := prec + 64 + (-d.magnitude).toNat + n.natAbs.log2
    let (p, q, _) := align d s
    let m := 2 * atanhFixed w p q + n * ln2Fixed w
    round prec m (-w)

def sinCosFixed (r : Int) : Int × Int :=
  let x2 := fdiv (r * r) (2 ^ w)
  let step := fun (k : Nat) (t : Int) => -fdiv (t * x2) ((2 ^ w) * ((k : Int) * (k + 1)))
  let rec go : Nat → Nat → Int → Int → Int
    | 0, _, _, acc => acc
    | fuel + 1, k, t, acc => if t = 0 || t = 1 || t = -1 then acc else go fuel (k + 2) (step k t) (acc + t)
  (go (2 * w + 8) 2 r 0, go (2 * w + 8) 1 (2 ^ w) 0)

def sinCos : Int × Int × Nat :=
  let w := prec + 160 + x.magnitude.natAbs
  let t := toFixed w x
  let h := fdiv (piFixed (w + 8)) (2 ^ 9)
  let n := fdiv t h
  let (s, c) := sinCosFixed w (t - n * h)
  match (n % 4).toNat with
  | 0 => (s, c, w)
  | 1 => (c, -s, w)
  | 2 => (-s, -c, w)
  | _ => (-c, s, w)

def sin : Binary := if x.isZero then zero else let (s, _, w) := sinCos prec x; round prec s (-w)

def cos : Binary := if x.isZero then one else let (_, c, w) := sinCos prec x; round prec c (-w)

def tan : Binary :=
  if x.isZero then zero
  else let (s, c, _) := sinCos prec x; quotient prec s.natAbs c.natAbs 0 ((s < 0) != (c < 0))

/-- The hyperbolic tangent `(e ^ 2x - 1) / (e ^ 2x + 1)`. -/
def tanh : Binary :=
  if x.isZero then zero
  else
    let y := x.abs
    let r :=
      -- from here on the quotient rounds to one
      if y.magnitude > 12 then one
      else
        let w := prec + 32 + 2 * (-x.magnitude).toNat
        let e := exp w ⟨y.mantissa, y.exponent + 1⟩
        div prec (addExact e ⟨-1, 0⟩) (addExact e one)
    if x.isNeg then r.neg else r

def pi : Binary := round prec (piFixed (prec + 64)) (-(prec + 64 : Nat))

def euler : Binary := exp prec one

/-- Integer and half-integer exponents go through products and square roots, all others through the logarithm. -/
def pow (x y : Binary) : Binary :=
  if y.exponent ≥ 0 then powInt prec x y.truncate
  else if y.exponent = -1 then
    if y.mantissa = 1 then sqrt prec x
    else if y.mantissa = -1 then div prec one (sqrt (prec + 10) x)
    else powInt prec (sqrt (prec + 10) x) y.mantissa
  else exp prec (mulExact y (log (prec + 64) x))

end StencilForge.Binary
