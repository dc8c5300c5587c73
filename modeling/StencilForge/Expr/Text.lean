import StencilForge.Expr.Arrange

/-!
# Expr — plain text

Expressions as text: `x**2 + 3*y/2`, terms and factors in the order of `Arrange`.  Binary numbers have fifteen digits,
without zeros at the end unless the number stands alone.
-/

namespace StencilForge.Text

def precedence : Expr → Nat
  | .atom (.num (.rat q)) => if q.den = 1 then (if q < 0 then 40 else 1000) else if q < 0 then 40 else 50
  | .atom (.num (.float b)) => if b.isNeg then 40 else 1000
  | .atom (.num .negInf) => 40
  | .atom (.lit n) => if n < 0 then 40 else 1000
  | .atom _ => 1000
  | .node h as => match h with
    | .add => 40
    | .mul => if (Expr.mul as).hasNegCoeff then 40 else 50
    | .pow => 60
    | .rel .eq | .rel .ne => 50
    | .rel _ => 35
    | .and => 30
    | .or => 20
    | .not => 100
    | .fn .min | .fn .max => 1000
    | .fn _ | .cast _ | .piecewise | .placeholder .. => 70
    | _ => 1000

def bracket (b : Bool) (s : String) : String := if b then s!"({s})" else s

def ratText (q : Rat) : String := if q.den = 1 then toString q.num else s!"{q.num}/{q.den}"

def numberText : Number → String
  | .rat q => ratText q
  | .float b => (Decimal.Layout.standard 15 true).write b
  | .inf => "oo"
  | .negInf => "-oo"
  | .nan => "nan"

def constantText : Constant → String
  | .pi => "pi"
  | .euler => "E"
  | .imaginary => "I"
  | .complexInf => "zoo"

def joinTerms (ts : List (String × Bool)) : String :=
  let parts := ts.map fun (t, b) =>
    if t.startsWith "-" then ("-", bracket b (t.drop 1).toString) else ("+", bracket b t)
  match parts with
  | [] => "0"
  | (s, t) :: r =>
    (if s == "-" then "-" else "") ++ t ++ .join (r.map fun (s, t) => s!" {s} {t}")

/-- Each denominator with whether it is a product that was inverted as a whole. -/
structure Quotient where
  above : Exprs := []
  below : List (Expr × Bool) := []

def Quotient.take (q : Quotient) (f : Expr) : Quotient :=
  match f with
  | .pow b (.num (.rat e)) =>
    if e < 0 then
      if e = -1 then { q with below := q.below ++ [(b, b.isMul)] }
      else { q with below := q.below ++ [(.pow b (.rat (-e)), false)] }
    else { q with above := q.above ++ [f] }
  | .num (.rat r) =>
    { above := if r.num = 1 then q.above else q.above ++ [.int r.num]
      below := if r.den = 1 then q.below else q.below ++ [(.int r.den, false)] }
  | _ => { q with above := q.above ++ [f] }

variable (A : Algebra)

def symbolText (s : Symbol) : String :=
  match s.kind with
  | .dummy _ => "_" ++ s.name
  | _ => s.name

mutual

/-- `top` if it stands alone; `fuel` bounds the nesting depth. -/
def write : Nat → Bool → Expr → String
  | 0, _, _ => ""
  | fuel + 1, top, e =>
    let sub := write fuel false
    -- brackets also at equal precedence
    let tight := fun p x => bracket (precedence x ≤ p) (sub x)
    match e with
    | .atom (.num (.float b)) => (Decimal.Layout.standard 15 (!top)).write b
    | .atom (.num n) => numberText n
    | .atom (.const c) => constantText c
    | .atom (.bool b) => if b then "True" else "False"
    | .atom (.sym s) => symbolText s
    | .atom (.type t) => t.text
    | .atom (.member s) => s
    | .atom (.lit n) => toString n
    | .atom (.field f) => f.name
    | .node h as =>
      let call := fun n => n ++ "(" ++ ", ".intercalate (as.map sub) ++ ")"
      match h, as with
      | .add, ts => joinTerms ((Arrange.terms A ts).map fun t => (sub t, precedence t < 40))
      | .mul, _ => writeMul fuel e
      | .pow, [b, x] =>
        if x == .half then s!"sqrt({sub b})"
        else if x == .rat (mkRat (-1) 2) then s!"1/sqrt({sub b})"
        else if x.isNegOne then "1/" ++ tight 60 b
        else tight 60 b ++ "**" ++ tight 60 x
      | .rel .eq, [a, b] => s!"Eq({sub a}, {sub b})"
      | .rel .ne, [a, b] => s!"Ne({sub a}, {sub b})"
      | .rel r, [a, b] => tight 35 a ++ s!" {r.text} " ++ tight 35 b
      | .and, as => " & ".intercalate (as.map (tight 38))
      | .or, as => " | ".intercalate (as.map (tight 36))
      | .not, [a] => "~" ++ tight 100 a
      | .branch, [v, c] => s!"({sub v}, {sub c})"
      | .access .., _ => e.accessName
      | .element, p :: is => sub p ++ "[" ++ ", ".intercalate (is.map sub) ++ "]"
      | .resolved .., p :: i :: _ => sub p ++ s!"[{sub i}]"
      | .tuple, as => "(" ++ ", ".intercalate (as.map sub) ++ (if as.length = 1 then ",)" else ")")
      | .series _, [b, k, lo, hi] =>
        h.className ++ s!"({sub b}, (" ++ ", ".intercalate [sub k, sub lo, sub hi] ++ "))"
      | .placeholder n _, as => n ++ "(" ++ ", ".intercalate (as.dropLast.map sub) ++ ")"
      | h, _ => call h.className

/-- A sign, the numerator, and the denominator behind a bar. -/
def writeMul : Nat → Expr → String
  | 0, _ => ""
  | fuel + 1, e =>
    let (c, r) := e.coeffMul
    let negative := c.isNeg
    let e := if negative then A.keepCoeff c.neg r else e
    let q := (Arrange.factors A e.factors).foldl Quotient.take {}
    let level := precedence e
    let level := if negative then 40 else level
    let tight := fun x => bracket (precedence x ≤ level) (write fuel false x)
    let above := if q.above.isEmpty then ["1"] else q.above.map tight
    let below := q.below.map fun (x, whole) => bracket (whole && precedence x > level) (tight x)
    let body := "*".intercalate above ++ match below with
      | [] => ""
      | [u] => "/" ++ u
      | us => "/(" ++ "*".intercalate us ++ ")"
    (if negative then "-" else "") ++ body

end

def ofExpr (e : Expr) : String := write A (2 * e.depth + 4) true e

end StencilForge.Text
