import StencilForge.Number.Binary

/-!
# Decimal — digit characters

Decimal digits in any script, and characters such as raised numerals that only look like digits.
-/

namespace StencilForge.Decimal

variable (cs : List Char)

/-- The zeros of the scripts that have decimal digits; the nine others follow each. -/
def zeros : List Nat :=
  [0x30, 0x660, 0x6F0, 0x7C0, 0x966, 0x9E6, 0xA66, 0xAE6, 0xB66, 0xBE6, 0xC66, 0xCE6, 0xD66, 0xDE6,
   0xE50, 0xED0, 0xF20, 0x1040, 0x1090, 0x17E0, 0x1810, 0x1946, 0x19D0, 0x1A80, 0x1A90, 0x1B50,
   0x1BB0, 0x1C40, 0x1C50, 0xA620, 0xA8D0, 0xA900, 0xA9D0, 0xA9F0, 0xAA50, 0xABF0, 0xFF10, 0x104A0,
   0x10D30, 0x11066, 0x110F0, 0x11136, 0x111D0, 0x112F0, 0x11450, 0x114D0, 0x11650, 0x116C0,
   0x11730, 0x118E0, 0x11950, 0x11C50, 0x11D50, 0x11DA0, 0x11F50, 0x16A60, 0x16AC0, 0x16B50,
   0x1D7CE, 0x1D7D8, 0x1D7E2, 0x1D7EC, 0x1D7F6, 0x1E140, 0x1E2F0, 0x1E4F0, 0x1E950, 0x1FBF0]

def digitValue? (c : Char) : Option Nat := (zeros.find? fun z => z ≤ c.toNat && c.toNat < z + 10).map (c.toNat - ·)

def lookalikes : List (Nat × Nat) :=
  [(0xB2, 0xB3), (0xB9, 0xB9), (0x1369, 0x1371), (0x19DA, 0x19DA), (0x2070, 0x2070), (0x2074, 0x2079),
   (0x2080, 0x2089), (0x2460, 0x2468), (0x2474, 0x247C), (0x2488, 0x2490), (0x24EA, 0x24EA),
   (0x24F5, 0x24FD), (0x24FF, 0x24FF), (0x2776, 0x277E), (0x2780, 0x2788), (0x278A, 0x2792),
   (0x10A40, 0x10A43), (0x10E60, 0x10E68), (0x11052, 0x1105A), (0x1F100, 0x1F10A)]

def looksLikeDigit (c : Char) : Bool :=
  (digitValue? c).isSome || lookalikes.any fun (a, b) => a ≤ c.toNat && c.toNat ≤ b

/-!
## Decimal — Digits

Decimal text of binary numbers: `significant n x` gives the `n` leading digits, a half rounded away from zero, and the
place of the first one; a `Layout` says how they are written.
-/

def digitsOf (n : Nat) : List Char := Nat.toDigits 10 n

/-- The largest `k` with `10 ^ k ≤ n / d`, for positive `n` and `d`. -/
def exponentOf (n d : Nat) : Int :=
  -- the number of digits of both parts gives the place up to one
  let g : Int := (digitsOf n).length - (digitsOf d).length
  let above := fun (k : Int) => if k ≥ 0 then n ≥ d * 10 ^ k.toNat else n * 10 ^ (-k).toNat ≥ d
  if above g then g else g - 1

/-- Significant digits: `0.d₁d₂… · 10 ^ (place + 1)`, so `place` is the exponent of the first one. -/
structure Significant where
  negative : Bool
  digits : List Char
  place : Int
  deriving Repr

/-- The positive quotient `n / d`. -/
def leading (round : Nat → Nat → Nat) (count n d : Nat) : List Char × Int :=
  let k := exponentOf n d
  -- scaled so that the integer part has exactly `count` digits
  let s := count - 1 - k
  let (n', d') := if s ≥ 0 then (n * 10 ^ s.toNat, d) else (n, d * 10 ^ (-s).toNat)
  let ds := digitsOf (round n' d')
  if ds.length > count then (ds.take count, k + 1) else (ds, k)

/-- A half goes away from zero. -/
def halfAway (n d : Nat) : Nat := (2 * n + d) / (2 * d)

def leadingOf (round : Nat → Nat → Nat) (count : Nat) (x : Binary) : List Char × Int :=
  let n := x.mantissa.natAbs
  if x.exponent ≥ 0 then leading round count (n * 2 ^ x.exponent.toNat) 1
  else leading round count n (2 ^ (-x.exponent).toNat)

def significant (count : Nat) (x : Binary) : Significant :=
  let (ds, k) := leadingOf halfAway count x
  ⟨x.isNeg, ds, k⟩

def Significant.value (s : Significant) : Rat :=
  let n : Int := s.digits.foldl (fun n c => 10 * n + (c.toNat - '0'.toNat)) 0
  let e := s.place + 1 - s.digits.length
  let q := if e ≥ 0 then mkRat (n * 10 ^ e.toNat) 1 else mkRat n (10 ^ (-e).toNat)
  if s.negative then -q else q

structure Layout where
  count : Nat
  low : Int
  high : Int
  /-- One zero is kept after a bare point. -/
  strip : Bool

/-- One zero is put back after a bare point. -/
def stripZeros : List Char :=
  let r := (cs.reverse.dropWhile (· == '0')).reverse
  if r.getLast? == some '.' then r ++ ['0'] else r

def exponentText (k : Int) : List Char := 'e' :: (if k ≥ 0 then '+' :: digitsOf k.toNat else '-' :: digitsOf (-k).toNat)

def Layout.render (l : Layout) (s : Significant) : String :=
  let sign := if s.negative then ['-'] else []
  let positional := l.low < s.place && s.place < l.high
  let (ds, split) :=
    if positional then
      if s.place < 0 then (.replicate (-s.place).toNat '0' ++ s.digits, 1)
      else
        let split := s.place.toNat + 1
        (s.digits ++ .replicate (split - s.digits.length) '0', split)
    else (s.digits, 1)
  let body := ds.take split ++ '.' :: ds.drop split
  let body := if l.strip then stripZeros body else body
  .ofList (sign ++ body ++ (if positional || s.place = 0 then [] else exponentText s.place))

def Layout.write (l : Layout) (x : Binary) : String := if x.isZero then "0.0" else l.render (significant l.count x)

/-- The common layout for `count` digits: positional between `10 ^ -5`, or a third of the digits,
and `10 ^ count`. -/
def Layout.standard (count : Nat) (strip : Bool) : Layout := ⟨count, min (-(count / 3 : Nat) : Int) (-5), count, strip⟩

/-!
## Decimal — integers in text

Integers as they are typed: blanks around, a sign, and digits that single underscores may divide.
-/

def readDigits : List Char → Bool → Nat → Option Nat
  | [], fresh, n => if fresh then none else some n
  | c :: r, fresh, n =>
    if c.isDigit then readDigits r false (10 * n + (c.toNat - '0'.toNat))
    else if c == '_' && !fresh then readDigits r true n
    else none

def trim : List Char := ((cs.dropWhile Char.isWhitespace).reverse.dropWhile Char.isWhitespace).reverse

def readChars : Option Int :=
  match trim cs with
  | '-' :: r => (readDigits r true 0).map fun n => -(n : Int)
  | '+' :: r => (readDigits r true 0).map .ofNat
  | r => (readDigits r true 0).map .ofNat

def readInt (s : String) : Option Int := readChars s.toList

/-!
## Decimal — Shortest

The shortest decimal that reads back as a given double.  A double is what a reader makes of every decimal between the
midpoints to its neighbours, the ends included when its mantissa is even (`Spread`).  `Spread.shortest` takes the
first grid of one, two, … digits with a point there.
-/

/-- All in units of `2 ^ scale`. -/
structure Spread where
  low : Nat
  value : Nat
  high : Nat
  scale : Int
  closed : Bool

variable (s : Spread)

def Spread.ofDouble (m : Nat) (q : Int) : Spread :=
  -- below a power of two the grid of doubles is twice as fine
  let narrow := m = 2 ^ 52 && q > -1074
  ⟨if narrow then 4 * m - 1 else 4 * m - 2, 4 * m, 4 * m + 2, q - 2, m % 2 = 0⟩

/-- `c` units of the grid `10 ^ j` against `n` units of `2 ^ scale`: both sides as integers. -/
def Spread.sides (c : Nat) (j : Int) (n : Nat) : Nat × Nat :=
  let c := if j ≥ 0 then c * 10 ^ j.toNat else c
  let n := if j < 0 then n * 10 ^ (-j).toNat else n
  if s.scale ≥ 0 then (c, n * 2 ^ s.scale.toNat) else (c * 2 ^ (-s.scale).toNat, n)

def Spread.holds (c : Nat) (j : Int) : Bool :=
  let (a, l) := s.sides c j s.low
  let (b, h) := s.sides c j s.high
  if s.closed then l ≤ a && b ≤ h else l < a && b < h

def Spread.below (j : Int) : Nat :=
  let (a, v) := s.sides 1 j s.value
  v / a

/-- The nearer of the grid points `c` and `c + 1`, on a tie the even one. -/
def Spread.nearer (c : Nat) (j : Int) : Nat :=
  let (a, v) := s.sides (2 * c + 1) j (2 * s.value)
  if v < a then c else if v > a then c + 1 else if c % 2 = 0 then c else c + 1

def Spread.search (s : Spread) (place : Int) : Nat → Nat → Nat × Int
  | 0, n => (s.nearer (s.below (place - n + 1)) (place - n + 1), place - n + 1)
  | fuel + 1, n =>
    let j := place - n + 1
    let c := s.below j
    match s.holds c j && c != 0, s.holds (c + 1) j with
    | true, true => (s.nearer c j, j)
    | true, false => (c, j)
    | false, true => (c + 1, j)
    | false, false => s.search place fuel (n + 1)

def Spread.shortest : List Char × Int :=
  let place :=
    if s.scale ≥ 0 then exponentOf (s.value * 2 ^ s.scale.toNat) 1
    else exponentOf s.value (2 ^ (-s.scale).toNat)
  let (c, j) := s.search place 16 1
  let ds := digitsOf c
  ((ds.reverse.dropWhile (· == '0')).reverse, j + ds.length - 1)

structure ShortLayout where
  low : Int
  high : Int
  minWidth : Nat

/-- Positional from `10 ^ -4` up to `10 ^ 16`; an exponent has two digits at least. -/
def ShortLayout.plain : ShortLayout := ⟨-5, 16, 2⟩

def ShortLayout.render (l : ShortLayout) (negative : Bool) (ds : List Char) (place : Int) : String :=
  let sign := if negative then "-" else ""
  if l.low < place && place < l.high then
    if place < 0 then sign ++ "0." ++ .ofList (.replicate (-place - 1).toNat '0' ++ ds)
    else
      let split := place.toNat + 1
      let ds := ds ++ .replicate (split - ds.length) '0'
      let frac := ds.drop split
      sign ++ .ofList (ds.take split) ++ "." ++ (if frac.isEmpty then "0" else .ofList frac)
  else
    let body := match ds with
      | [d] => [d]
      | d :: r => d :: '.' :: r
      | [] => ['0']
    let e := digitsOf place.natAbs
    let e := .replicate (l.minWidth - e.length) '0' ++ e
    sign ++ .ofList (body ++ 'e' :: (if place < 0 then '-' else '+') :: e)

end StencilForge.Decimal
