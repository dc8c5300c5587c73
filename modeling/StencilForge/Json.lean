import StencilForge.Failure
import StencilForge.Number

/-!
# Json

Integers and binary numbers are told apart, objects keep the order of their keys, and of a repeated key the last value
counts.
-/

namespace StencilForge

variable (cs : Chars)

inductive Json where
  | null
  | bool (b : Bool)
  | int (n : Int)
  | float (x : Float)
  | str (s : String)
  | arr (xs : List Json)
  | obj (ps : List (String × Json))
  deriving Inhabited

namespace Json

def get? (j : Json) (k : String) : Option Json :=
  match j with
  | .obj ps => ps.lookup k
  | _ => none

/-- A new key comes last. -/
def put (ps : List (String × Json)) (k : String) (v : Json) : List (String × Json) :=
  if ps.any (·.1 == k) then ps.map fun p => if p.1 == k then (k, v) else p else ps ++ [(k, v)]

section

variable (same : Json → Json → Bool)

mutual

/-- The order of keys plays no role. -/
def alike : Json → Json → Bool
  | .arr as, .arr bs => alikeList as bs
  | .obj ps, .obj qs => ps.length == qs.length && subset ps qs
  | a, b => same a b

def alikeList : List Json → List Json → Bool
  | [], [] => true
  | a :: as, b :: bs => alike a b && alikeList as bs
  | _, _ => false

def subset : List (String × Json) → List (String × Json) → Bool
  | [], _ => true
  | (k, v) :: r, qs => (qs.lookup k).any (fun w => alike v w) && subset r qs

end

end

section

variable {α : Type} (leaf : Json → α) (array : List α → α) (object : List (String × α) → α)

mutual

def fold : Json → α
  | .arr xs => array (xs.map fold)
  | .obj ps => object (foldPairs ps)
  | j => leaf j

def foldPairs : List (String × Json) → List (String × α)
  | [] => []
  | (k, v) :: ps => (k, fold v) :: foldPairs ps

end

end

/-- Numbers are equal by value. -/
def beq : Json → Json → Bool := alike fun
  | .null, .null => true
  | .bool a, .bool b => a == b
  | .int a, .int b => a == b
  | .float a, .float b => a == b
  | .int a, .float b | .float b, .int a => (Number.ofFloat b).sameValue (.ofInt a)
  | .str a, .str b => a == b
  | _, _ => false

instance : BEq Json := ⟨beq⟩

/-! ### Writing -/

def hexDigit (n : Nat) : Char := (Nat.toDigits 16 n).headD '0'

def hex4 (n : Nat) : String :=
  .ofList [hexDigit (n / 4096 % 16), hexDigit (n / 256 % 16), hexDigit (n / 16 % 16), hexDigit (n % 16)]

/-- Others are written by number if `ascii`. -/
def escape (ascii : Bool) : Char → String
  | '"' => "\\\""
  | '\\' => "\\\\"
  | '\n' => "\\n"
  | '\r' => "\\r"
  | '\t' => "\\t"
  | '\x08' => "\\b"
  | '\x0c' => "\\f"
  | c =>
    let n := c.toNat
    if n < 0x20 then "\\u" ++ hex4 n
    else if ascii && n ≥ 0x7f then
      if n = 0x7f then c.toString
      else if n < 0x10000 then "\\u" ++ hex4 n
      else
        let m := n - 0x10000
        s!"\\u{hex4 (0xd800 + m / 1024)}\\u" ++ hex4 (0xdc00 + m % 1024)
    else c.toString

def quote (ascii : Bool) (s : String) : String := "\"" ++ .join (s.toList.map (escape ascii)) ++ "\""

structure Format where
  ascii : Bool
  comma : String
  colon : String

def Format.compact : Format := ⟨false, ",", ":"⟩

def floatText (x : Float) : String :=
  if x.isNaN then "NaN"
  else if x.isInf then (if x < 0 then "-Infinity" else "Infinity")
  else Double.text x

def render (f : Format) : Json → String :=
  fold (fun
    | .null => "null"
    | .bool b => if b then "true" else "false"
    | .int n => toString n
    | .float x => floatText x
    | .str s => quote f.ascii s
    | _ => "") (fun xs => s!"[{f.comma.intercalate xs}]")
    fun ps => s!"\x7b{f.comma.intercalate (ps.map fun (k, v) => quote f.ascii k ++ f.colon ++ v)}\x7d"

def compact (j : Json) : String := render .compact j

/-! ### Reading -/

def isBlank (c : Char) : Bool := c == ' ' || c == '\t' || c == '\n' || c == '\r'

def skip : Chars := cs.dropWhile isBlank

def hexValue? (c : Char) : Option Nat :=
  if c.isDigit then some (c.toNat - '0'.toNat)
  else if 'a' ≤ c && c ≤ 'f' then some (c.toNat - 'a'.toNat + 10)
  else if 'A' ≤ c && c ≤ 'F' then some (c.toNat - 'A'.toNat + 10)
  else none

def readHex4 : Chars → Option (Nat × Chars)
  | a :: b :: c :: d :: r => do
    let a ← hexValue? a
    let b ← hexValue? b
    let c ← hexValue? c
    let d ← hexValue? d
    return (((a * 16 + b) * 16 + c) * 16 + d, r)
  | _ => none

def readString : Nat → Chars → Chars → Option (String × Chars)
  | 0, _, _ => none
  | _, [], _ => none
  | fuel + 1, c :: r, acc =>
    if c == '"' then some (.ofList acc.reverse, r)
    else if c == '\\' then
      match r with
      | 'u' :: r => do
        let (n, r) ← readHex4 r
        if 0xd800 ≤ n && n < 0xdc00 then
          match r with
          | '\\' :: 'u' :: r' => do
            let (m, r') ← readHex4 r'
            if 0xdc00 ≤ m && m < 0xe000 then
              readString fuel r' (.ofNat (0x10000 + (n - 0xd800) * 1024 + (m - 0xdc00)) :: acc)
            else readString fuel r (.ofNat 0xfffd :: acc)
          | _ => readString fuel r (.ofNat 0xfffd :: acc)
        else readString fuel r (.ofNat n :: acc)
      | e :: r =>
        ([('"', '"'), ('\\', '\\'), ('/', '/'), ('b', '\x08'), ('f', '\x0c'), ('n', '\n'), ('r', '\r'),
          ('t', '\t')].lookup e).bind fun c => readString fuel r (c :: acc)
      | [] => none
    else if c.toNat < 0x20 then none
    else readString fuel r (c :: acc)

def natOf : Nat := (cs.filter Char.isDigit).foldl (fun n c => 10 * n + (c.toNat - '0'.toNat)) 0

def scientific (negative : Bool) (m : Nat) (e : Int) : Float :=
  if m = 0 then (if negative then -0.0 else 0.0)
  else
    -- far outside the range of doubles the exponent is cut off
    let e := max (min e 400) (-800 - (Nat.toDigits 10 m).length)
    let q : Rat := if e ≥ 0 then m * 10 ^ e.toNat else mkRat m (10 ^ (-e).toNat)
    -- two more bits and a sticky one keep the second rounding right
    let x := Binary.ofRat 1200 q
    Double.encode (if negative then x.neg else x)

/-- Fraction and exponent behind the digits of a number, nothing for a whole one; `bare` allows a point that no digit
follows. -/
def readFraction (digit : Char → Bool) (bare negative : Bool) (whole rest : Chars) : Option Float × Chars :=
  let (frac, rest) := match rest with
    | '.' :: r =>
      let ds := r.takeWhile digit
      if ds.isEmpty && !bare then (none, rest) else (some (ds.filter Char.isDigit), r.drop ds.length)
    | r => (none, r)
  let exponent (r : Chars) : Option (Int × Chars) :=
    let (sign, ds) := match r with
      | '-' :: t => (-1, t)
      | '+' :: t => (1, t)
      | t => (1, t)
    let es := ds.takeWhile digit
    if es.isEmpty then none else some (sign * natOf es, ds.drop es.length)
  let (exp, rest) := match rest with
    | 'e' :: r | 'E' :: r => ((exponent r).map (Prod.map some id)).getD (none, rest)
    | r => (none, r)
  let f := frac.getD []
  (if frac.isNone && exp.isNone then none else some (scientific negative (natOf (whole ++ f)) (exp.getD 0 - f.length)), rest)

def readNumber : Option (Json × Chars) :=
  let (negative, cs) := match cs with
    | '-' :: r => (true, r)
    | r => (false, r)
  let whole := match cs with
    | '0' :: _ => ['0']
    | r => r.takeWhile Char.isDigit
  if whole.isEmpty then none
  else
    let (x, rest) := readFraction Char.isDigit false negative whole (cs.drop whole.length)
    let n : Int := natOf whole
    some (x.elim (.int (if negative then -n else n)) .float, rest)

def infinity : Float := .ofBits 0x7ff0000000000000
def notANumber : Float := .ofBits 0x7ff8000000000000

def readWord : Option (Json × Chars) :=
  let words :=
    [("null", .null), ("true", .bool true), ("false", .bool false), ("NaN", .float notANumber),
     ("Infinity", .float infinity), ("-Infinity", .float (-infinity))]
  (words.find? fun (w, _) => w.toList.isPrefixOf cs).map fun (w, v) => (v, cs.drop w.length)

mutual

def readValue : Nat → Chars → Option (Json × Chars)
  | 0, _ => none
  | fuel + 1, cs => match cs with
    | '"' :: r => (readString (r.length + 1) r []).map fun (s, r) => (.str s, r)
    | '[' :: r => match skip r with
      | ']' :: r => some (.arr [], r)
      | r => readItems fuel r []
    | c :: r =>
      if c == '\x7b' then match skip r with
        | d :: r => if d == '\x7d' then some (.obj [], r) else readPairs fuel (d :: r) []
        | [] => none
      else readWord cs <|> readNumber cs
    | [] => none

def readItems : Nat → Chars → List Json → Option (Json × Chars)
  | 0, _, _ => none
  | fuel + 1, cs, acc => do
    let (v, r) ← readValue fuel cs
    match skip r with
    | ',' :: r => readItems fuel (skip r) (v :: acc)
    | ']' :: r => some (.arr (v :: acc).reverse, r)
    | _ => none

def readPairs : Nat → Chars → List (String × Json) → Option (Json × Chars)
  | 0, _, _ => none
  | fuel + 1, cs, acc => match cs with
    | '"' :: r => do
      let (k, r) ← readString (r.length + 1) r []
      let ':' :: r := skip r
        | none
      let (v, r) ← readValue fuel (skip r)
      match skip r with
      | ',' :: r => readPairs fuel (skip r) (put acc k v)
      | c :: r => if c == '\x7d' then some (.obj (put acc k v), r) else none
      | [] => none
    | _ => none

end

def parse (s : String) : Outcome Json :=
  let cs := skip s.toList
  match readValue (cs.length + 1) cs with
  | some (v, r) => if (skip r).isEmpty then .ok v else raise .malformed
  | none => raise .malformed

mutual

/-- Objects inside objects are joined the same way. -/
def update : List (String × Json) → List (String × Json) → Outcome (List (String × Json))
  | ps, [] => .ok ps
  | ps, (k, v) :: r => do
    let old := ps.lookup k
    update (put ps k (← updateValue old v)) r

def updateValue (old : Option Json) : Json → Outcome Json
  | .obj us => match old with
    | none => do return .obj (← update [] us)
    | some (.obj ps) => do return .obj (← update ps us)
    | some (.arr xs) => if us.isEmpty then .ok (.arr xs) else raise .mistyped
    | some _ => raise .noSuchPart
  | v => .ok v

end

end Json

end StencilForge
