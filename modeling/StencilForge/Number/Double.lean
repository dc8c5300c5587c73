import StencilForge.Decimal

/-!
# Number — Double

`Double.encode` rounds a binary number to the nearest double, to infinity when it is too large; `Double.text` writes
the shortest decimal that reads back.
-/

namespace StencilForge.Double

/-- Sign, mantissa and exponent of a finite double: `±m · 2 ^ q`. -/
def decode (x : Float) : Bool × Nat × Int :=
  let b := x.toBits.toNat
  let f := b % 2 ^ 52
  let e : Nat := (b / 2 ^ 52) % 2 ^ 11
  (b / 2 ^ 63 == 1, if e = 0 then f else f + 2 ^ 52, if e = 0 then -1074 else e - 1075)

def toBinary (x : Float) : Binary :=
  let (neg, m, q) := decode x
  .make (if neg then -(m : Int) else m) q

/-- The nearest double, a tie to even; infinity beyond the largest one. -/
def encode (x : Binary) : Float :=
  if x.isZero then 0.0
  else
    let n := x.mantissa.natAbs
    let g := x.magnitude
    -- the exponent of the last mantissa bit, bounded below by that of the subnormal numbers
    let q := max (g - 53) (-1074)
    let s := x.exponent - q
    let m := if s ≥ 0 then n * 2 ^ s.toNat else Binary.shiftNearest n (-s).toNat
    let (m, q) := if m = 2 ^ 53 then (2 ^ 52, q + 1) else (m, q)
    let sign := if x.isNeg then 2 ^ 63 else 0
    if q + 1075 ≥ 2047 then .ofBits (.ofNat (sign + 2047 * 2 ^ 52))
    else if m < 2 ^ 52 then .ofBits (.ofNat (sign + m))
    else .ofBits (.ofNat (sign + (q + 1075).toNat * 2 ^ 52 + (m - 2 ^ 52)))

def text (x : Float) : String :=
  if x.isNaN then "nan"
  else if x.isInf then (if x < 0 then "-inf" else "inf")
  else
    let (neg, m, q) := decode x
    if m = 0 then (if neg then "-0.0" else "0.0")
    else
      let (ds, place) := (Decimal.Spread.ofDouble m q).shortest
      Decimal.ShortLayout.plain.render neg ds place

end StencilForge.Double

/-!
## Decimal — general notation

A half is rounded to the even neighbour; positional for moderate sizes, and without zeros at the end.
-/

namespace StencilForge.Decimal

/-- A half goes to the even neighbour. -/
def halfEven (n d : Nat) : Nat :=
  let q := n / d
  let r := 2 * (n % d)
  if r > d || (r == d && q % 2 == 1) then q + 1 else q

def dropZeros (cs : List Char) : List Char :=
  if cs.contains '.' then
    let r := (cs.reverse.dropWhile (· == '0')).reverse
    if r.getLast? == some '.' then r.dropLast else r
  else cs

def general (count : Nat) (x : Float) : String :=
  if x.isNaN then "nan"
  else if x.isInf then (if x < 0 then "-inf" else "inf")
  else
    let b := Double.toBinary x
    let negative := x < 0 || 1 / x < 0
    let sign := if negative then "-" else ""
    if b.isZero then sign ++ "0" else
      let (ds, k) := leadingOf halfEven count b
      if -5 < k && k < count then
        let cs := if k < 0 then '0' :: '.' :: .replicate (-k - 1).toNat '0' ++ ds
          else ds.take (k.toNat + 1) ++ '.' :: ds.drop (k.toNat + 1)
        sign ++ String.ofList (dropZeros cs)
      else
        let e := digitsOf k.natAbs
        let e := if e.length < 2 then '0' :: e else e
        sign ++ String.ofList (dropZeros (ds.take 1 ++ '.' :: ds.drop 1)) ++ (if k < 0 then "e-" else "e+") ++
          String.ofList e

end StencilForge.Decimal
