import StencilForge.Expr.Algebra

/-!
# Expr — products

Nested products are opened, numbers multiplied, powers of one base collected, and factors put in storage order.  Each
prime stands under one root only.  A number times a sum becomes a sum.
-/

namespace StencilForge.Product

open Table

variable (A : Algebra) (number : Option Number)

mutual

def flatFactors : Expr → Exprs
  | .node .mul fs => flatFactorsList fs
  | e => [e]

def flatFactorsList : Exprs → Exprs
  | [] => []
  | a :: as => flatFactors a ++ flatFactorsList as

end

structure Collected where
  number : Option Number := some .one
  powers : List (Expr × Expr) := []
  numPowers : List (Expr × Expr) := []
  roots : Table Number (List Rat) := []
  turns : Rat := 0
  broken : Bool := false

variable (c : Collected)

def Collected.scale (n : Number) : Collected :=
  match c.number with
  | some m =>
    let p := m.mul n
    { c with number := some p, broken := c.broken || p == .nan }
  | none => { c with broken := c.broken || n == .nan || n.isZero }

def Collected.takeRoot (b : Number) (e : Rat) : Collected :=
  let (b, c) := if b.isNeg then (b.neg, { c with turns := c.turns + e }) else (b, c)
  if b.isOne then c else { c with roots := push c.roots b e }

def Collected.take : Expr → Collected
  | .num n => c.scale n
  | .const .complexInf => { c with number := none, broken := c.broken || c.number.any Number.isZero }
  | .iUnit => { c with turns := c.turns + mkRat 1 2 }
  | e@(.pow _ _) =>
    let (b, x) := A.baseExp e
    match b, x with
    | .num n, .num (.rat q) => c.takeRoot n q
    | .num n, _ =>
      if n.isPos || A.is .integer x then { c with numPowers := c.numPowers ++ [(b, x)] }
      else { c with powers := c.powers ++ [(b, x)] }
    | _, _ => { c with powers := c.powers ++ [(b, x)] }
  | e => { c with powers := c.powers ++ [A.baseExp e] }

def settle : Expr → Exprs
  | e@(.pow _ _) =>
    let (b, x) := A.baseExp e
    match b, x with
    | .num _, .num (.rat q) => if q.den = 1 || q < 0 then flatFactors (A.pow b x) else [e]
    | _, _ => [e]
  | e => [e]

def gather (ps : List (Expr × Expr)) : List (Expr × Expr) :=
  let t : Table Expr (Table Expr Exprs) := ps.foldl (fun t (b, e) =>
    let (k, r) := e.coeffMul
    alter b (fun v => push (v.getD []) r (.num k)) t) []
  t.flatMap fun (b, es) => es.map fun (r, ks) => (b, A.mul [A.add ks, r])

/-- With the bases and exponents they ended up with. -/
structure Turned where
  number : Option Number
  factors : Exprs := []
  powers : List (Expr × Expr) := []
  changed : Bool := false
  broken : Bool := false

def infinities : Exprs := [.const .complexInf, .num .inf, .num .negInf]

def Turned.take (s : Turned) : Expr × Expr → Turned
  | (b, e) =>
    if A.is .zero e then
      if (b.isAdd || b.isMul) && b.args.any (infinities.contains ·) then { s with broken := true }
      else s
    else if e.isOne then
      match b, s.number with
      | .num n, some m => { s with number := some (m.mul n) }
      | _, _ => { s with factors := s.factors ++ [b], powers := s.powers ++ [(b, e)] }
    else
      let p := A.pow b e
      let (b', e') := if p.isPow && !b.isPow then A.baseExp p else (b, e)
      { s with
        factors := s.factors ++ [p], powers := s.powers ++ [(b', e')], changed := s.changed || b' != b }

/-- Once more if bases became equal. -/
def turn (ps : List (Expr × Expr)) : Turned :=
  let s := ps.foldl (.take A) { number }
  let bases := s.powers.map (·.1)
  if s.changed && (unionNew [] bases).length != bases.length then
    (gather A s.powers).foldl (.take A) { number := s.number, broken := s.broken }
  else s

def splitRat (e : Rat) : Int × Rat :=
  let i := .fdiv e.num e.den
  (i, e - i)

def numberPow (n : Number) (k : Int) : Number :=
  match n with
  | .rat q => if k ≥ 0 then .rat (q ^ k.toNat) else .rat (1 / q ^ (-k).toNat)
  | .float b => .ofBinary (Binary.powInt Number.precision b k)
  | _ => n

def numberGcd : Number → Number → Number
  | .rat a, .rat b => .rat (mkRat (.gcd a.num b.num) (.lcm a.den b.den))
  | _, _ => .one

/-- Each number with its exponent, integer parts taken out. -/
def joinRoots (roots : Table Number (List Rat)) : Number × List (Number × Rat) :=
  let byExp : Table Rat (List Number) := roots.foldl (fun t (b, es) => push t (es.foldl (· + ·) 0) b) []
  byExp.foldl (fun (k, r) (e, bs) =>
    let b := bs.foldl .mul .one
    if e.den = 1 then (k.mul (numberPow b e.num), r)
    else if e.num > e.den then
      let (i, f) := splitRat e
      (k.mul (numberPow b i), r ++ [(b, f)])
    else (k, r ++ [(b, e)])) (.one, [])

/-- The number gained, what is left of `b`, the new roots, and the later roots without the common part. -/
def shareRoot (b : Number) (e : Rat) : List (Number × Rat) → Number × Number × List (Number × Rat) × List (Number × Rat)
  | [] => (.one, b, [], [])
  | (c, f) :: r =>
    let g := numberGcd b c
    if g.isOne || b.isOne then
      let (k, b, grown, rest) := shareRoot b e r
      (k, b, grown, (c, f) :: rest)
    else
      let s := e + f
      let (k, grown) :=
        if s.den = 1 then (numberPow g s.num, [])
        else if s.num > s.den then
          let (i, t) := splitRat s
          (numberPow g i, [(g, t)])
        else (.one, [(g, s)])
      let (k', b, grown', rest) := shareRoot (b.div g) e r
      (k.mul k', b, grown ++ grown', (c.div g, f) :: rest)

/-- The number gained, and bases by exponent. -/
def settleRoots : Nat → List (Number × Rat) → Number → Table Expr Exprs → Number × Table Expr Exprs
  | 0, _, k, t => (k, t)
  | _, [], k, t => (k, t)
  | fuel + 1, (b, e) :: r, k, t =>
    let (k', b, grown, r) := shareRoot b e r
    let k := k.mul k'
    let (k, t) :=
      if b.isOne then (k, t)
      else
        (A.pow (.num b) (.rat e)).factors.foldl (fun (k, t) f =>
          match f with
          | .num n => (k.mul n, t)
          | .pow b e => (k, push t e b)
          | f => (k, push t .one f)) (k, t)
    settleRoots fuel (r ++ grown) k t

/-- The factors from powers of minus one, the sign, and the roots that take one in. -/
def settleTurns (turns : Rat) (roots : Table Expr Expr) : Bool × Exprs × Table Expr Expr :=
  if turns = 0 then (false, [], roots)
  else
    let (n, f) := splitRat turns
    let odd := n % 2 != 0
    if f.den = 2 then (odd, [.iUnit], roots)
    else if f = 0 then (odd, [], roots)
    else
      let fits := fun p => p.1 == .rat f && A.is .positive p.2
      if roots.any fits then
        match roots.find? fits with
        | some p => (odd, [], insert roots p.1 (A.neg p.2))
        | none => (odd, [], roots)
      else (odd, [.pow .negOne (.rat f)], roots)

def survive (fs : Exprs) : Option Number × Exprs :=
  match number with
  | some n =>
    if n.isInfinite then
      let rest := fs.filter fun f => !(A.is .extPositive f || A.is .extNegative f)
      let flips := (fs.filter fun f => !A.is .extPositive f && A.is .extNegative f).length
      (some (if flips % 2 = 0 then n else n.neg), rest)
    else (number, fs)
  | none => (none, fs.filter fun f => !(A.isNot .zero f && (A.ask .extReal f).isSome))

/-- A number times a sum is distributed. -/
def assemble (fs : Exprs) : Expr :=
  match number with
  | none => .mulOf (.const .complexInf :: Expr.sorted fs)
  | some n =>
    if n.isZero then if fs.any (A.isNot .finite ·) then .nan else .num n
    else
      let n := fs.foldl (fun n f => match f with
        | .num m => n.mul m
        | _ => n) n
      let fs := Expr.sorted (fs.filter (!·.isNum))
      if n.isOne then .mulOf fs
      else match fs with
        | [.add ts] => if n.isFinite then A.add (ts.map fun t => A.mul [.num n, t]) else .mul [.num n, .add ts]
        | _ => .mulOf (.num n :: fs)

/-- The number joins the coefficient, and is distributed over a sum. -/
def short (q : Rat) (e : Expr) : Option Expr :=
  if q = 0 then none
  else
    let (r, t) := e.coeffMul
    let k := r.mul (.rat q)
    match t with
    | .mul fs => some (if k.isOne then t else .mul (.num k :: fs))
    | .add ts =>
      if k.isOne then some t
      else
        let (c, rest) : Number × Exprs := match ts with
          | .num c :: r => (c, r)
          | _ => (.zero, ts)
        let ts := Expr.sorted (rest.map (A.keepCoeff k))
        let c := c.mul k
        some (.addOf (if c.isZero then ts else .num c :: ts))
    | _ => none

def combine (es : Exprs) : Expr :=
  let c := ((flatFactorsList es).flatMap (settle A)).foldl (Collected.take A) {}
  if c.broken then .nan
  else
    let s := turn A c.number (gather A c.powers)
    if s.broken then .nan
    else
      let bases : Table Expr Exprs := (gather A c.numPowers).foldl (fun t (b, e) => push t e b) []
      let mixed := bases.filterMap fun (e, bs) => if e.isZero then none else some (A.pow (A.mul bs) e)
      let (k₁, roots) := joinRoots c.roots
      let (k₂, byExp) := settleRoots A (roots.length * roots.length + 64) roots .one []
      let rootTable : Table Expr Expr := byExp.map fun (e, bs) => (e, A.mul bs)
      let (odd, turned, rootTable) := settleTurns A c.turns rootTable
      let rooted := rootTable.map fun (e, b) => A.pow b e
      let gained := (k₁.mul k₂).mul (if odd then .negOne else .one)
      let number := s.number.map (·.mul gained)
      let (number, fs) := survive A number (s.factors ++ mixed ++ turned ++ rooted)
      if number == some .nan then .nan else assemble A number fs

def build (es : Exprs) : Expr :=
  match es.filter (!·.isOne) with
  | [] => .one
  | [e] => e
  | [a, b] =>
    let quick := match a, b with
      | a, .num (.rat q) => short A q a
      | .num (.rat q), b => short A q b
      | _, _ => none
    match quick with
    | some e => e
    | none => combine A [a, b]
  | es => combine A es

end StencilForge.Product

/-!
## Expr — sums

Nested sums are opened, numbers added up, equal terms collected, and terms put in storage order.
-/

namespace StencilForge.Sum

variable (A : Algebra)

mutual

def flatTerms : Expr → Exprs
  | .node .add ts => flatTermsList ts
  | e => [e]

def flatTermsList : Exprs → Exprs
  | [] => []
  | a :: as => flatTerms a ++ flatTermsList as

end

/-- The number, `none` for an infinity without direction, and each term with its coefficient. -/
structure Collected where
  number : Option Number := some .zero
  terms : Table Expr Number := []
  broken : Bool := false

variable (c : Collected)

def Collected.infinite : Bool :=
  match c.number with
  | none => true
  | some n => n.isInfinite

def Collected.take : Expr → Collected
  | .num n => match c.number with
    | some m =>
      let s := m.add n
      { c with number := some s, broken := c.broken || s == .nan }
    | none => { c with broken := c.broken || n == .nan || n.isInfinite }
  | .const .complexInf => { c with number := none, broken := c.broken || c.infinite }
  | e =>
    let (k, t) := e.coeffMul
    { c with terms := .alter t (fun v => (v.map (·.add k)).getD k) c.terms }

def scaled (t : Expr) (k : Number) : Option Expr :=
  if k.isZero then none
  else if k.isOne then some t
  else match t with
    | .mul fs => some (.mul (.num k :: fs))
    | .add _ => some (.mul [.num k, t])
    | _ => some (A.mul [.num k, t])

def survive (ts : Exprs) : Exprs :=
  match c.number with
  | some .inf => ts.filter fun t => !(A.is .extNonnegative t || A.is .real t)
  | some .negInf => ts.filter fun t => !(A.is .extNonpositive t || A.is .real t)
  | none => ts.filter fun t => !(A.is .finite t && (A.ask .extReal t).isSome)
  | _ => ts

def settle : Expr → Exprs
  | e@(.pow _ _) =>
    let (b, x) := A.baseExp e
    if b.isNum && (x.isInteger || (x.isRational && x.hasNegCoeff)) then flatTerms (A.pow b x) else [e]
  | e => [e]

def build (es : Exprs) : Expr :=
  match es.filter (!·.isZero) with
  | [] => .zero
  | [e] => e
  | es =>
    let c := ((flatTermsList es).flatMap (settle A)).foldl Collected.take {}
    if c.broken || c.terms.any (fun t => t.2 == .nan) then .nan
    else
      let ts := Expr.sorted (survive A c (c.terms.filterMap fun (t, k) => scaled A t k))
      match c.number with
      | none => .addOf (.const .complexInf :: ts)
      | some n => if n == .zero then .addOf ts else .addOf (.num n :: ts)

end StencilForge.Sum
