import StencilForge.Expr.Count
import StencilForge.Expr.Visit

/-!
# Expr — substitution

`Substitute.exact` rebuilds only what changes, `Substitute.table` everything around what is replaced.
`Substitute.algebraic` also finds an expression inside sums, products and powers: `a + b + c` contains `a + b`, and `x
^ 4` is the square of `x ^ 2`.
-/

namespace StencilForge.Substitute

open Table

variable (A : Algebra) (t : Table Expr Expr) (t : Table Expr Expr) (e : Expr) (sub : Expr → Outcome Expr)

/-! ### Exact replacement -/

mutual

/-- Says whether anything changed. -/
def exactHit : Expr → Outcome (Expr × Bool)
  | .atom a => .ok (match get? t (.atom a) with
      | some v => (v, true)
      | none => (.atom a, false))
  | .node h as => match get? t (.node h as) with
    | some v => .ok (v, true)
    | none => match h with
      | .access .. => .ok (.node h as, false)
      | h => do
        let (bs, hit) ← exactHitList as
        if hit then return (← Build.node A h (Visit.withHidden h as bs), true)
        else return (.node h as, false)

def exactHitList : Exprs → Outcome (Exprs × Bool)
  | [] => .ok ([], false)
  | a :: as => do
    let (b, hit) ← exactHit a
    let (bs, hits) ← exactHitList as
    return (b :: bs, hit || hits)

end

/-- What does not change is not rebuilt. -/
def exact : Outcome Expr := do return (← exactHit A t e).1

/-! ### Finding an expression in a sum -/

def inSum (ts old : Exprs) (new : Expr) : Outcome (Option Expr) := do
  let (c, s) := (Expr.add ts).coeffAdd
  let (d, o) := (Expr.add old).coeffAdd
  let exact := c.isRational && d.isRational
  let whole := fun n k v => some (A.add [v, .num n, .num k])
  if exact && s == o then return whole c d.neg new
  else if exact && s == A.neg o then return whole c d (A.neg new)
  else if !(exact || c == d) then return none
  else
    let part := fun os k v => do
      if os.length < s.terms.length && os.all s.terms.contains then
        let rest ← (s.terms.filter (!os.contains ·)).mapM sub
        return some (A.add ([v, .num c, .num k] ++ rest))
      else return none
    match ← part o.terms d.neg new with
    | some r => return some r
    | none => if o.terms.length < s.terms.length then part (A.neg o).terms d (A.neg new) else return none

/-! ### Finding an expression in a product -/

def breakFactor (f : Expr) : Expr × Number :=
  let (b, e) := match f with
    | .pow _ _ | .fn .exp [_] => A.baseExp f
    | _ => (f, .one)
  if e.isOne then (b, .one)
  else match e.coeffMul with
    | (.rat q, r) => (A.pow b r, .rat q)
    | (_, _) => (f, .one)

def breakUp : Table Expr Number :=
  e.factors.foldl (fun t f =>
    let (b, n) := breakFactor A f
    alter b (fun v => (v.getD .zero).add n) t) []

def rejoin (b : Expr) (n : Number) : Expr :=
  match b with
  | .pow _ _ | .fn .exp [_] => let (c, e) := A.baseExp b; A.pow c (A.mul [e, .num n])
  | b => A.pow b (.num n)

def timesIn (a b : Number) : Nat :=
  match a, b with
  | .rat x, .rat y =>
    if y.den % x.den = 0 || x.den % y.den = 0 then
      let q := x / y
      (Int.tdiv q.num q.den).toNat
    else 0
  | _, _ => 0

/-- At most `fuel` times. -/
def natMultiplicity (p : Nat) : Nat → Nat → Nat
  | 0, _ => 0
  | fuel + 1, n => if 1 < p && n != 0 && n % p = 0 then 1 + natMultiplicity p fuel (n / p) else 0

def multiplicity (p n : Rat) : Int :=
  let m := fun a b => (natMultiplicity a 64 b : Int)
  let a := p.num.natAbs
  let c := n.num.natAbs
  if p.den = 1 then (if n.num = 1 then - m a n.den else m a c - m a n.den)
  else if a = 1 then m p.den n.den
  else min (m a c) (m p.den n.den) - min (m p.den c) (m a n.den)

def leading? : Expr → Option Number
  | .mul (.num c :: _) => some c
  | _ => none

def extract? (a b : Rat) : Option Rat :=
  if b = 0 then none
  else
    let q := a / b
    if a.den = 1 && q.den != 1 then none
    else if 0 < a && q < 0 then none
    else some q

def inProduct (sub : Expr → Expr → Expr → Outcome Expr) (self old new : Expr) :
    Outcome (Option Expr) := do
  let negative := (leading? old).any Number.isNeg
  if negative && (leading? self).isSome then
    if (leading? self).any Number.isNeg then return some (← sub (A.neg old) (A.neg new) self)
    else return none
  let (n, d) := Fraction.split A self
  let self2 ← if d.isOne then pure self else do pure (A.div (← sub old new n) (← sub old new d))
  if !d.isOne && !self2.isMul then return some (← sub old new self2)
  let dflt := if !d.isOne && !(self2 == self) then some self2 else none
  let coSelf := match leading? self2 with
    | some (.rat q) => some q
    | _ => none
  match leading? old, coSelf with
  | some (.rat _), none => return dflt
  | oldLead, _ =>
    let coOld := match oldLead with
      | some (.rat q) => some q
      | _ => none
    let parts := breakUp A self2
    let olds := breakUp A old
    let residual : Option (Rat × Rat × Int) := match coOld, coSelf with
      | some q, some p =>
        if q = p || q.num.natAbs = q.den then none
        else (extract? p q).map fun _ => (q, p, multiplicity (if q < 0 then -q else q) p)
      | _, _ => none
    let (parts, extra) : Table Expr Number × Expr := match residual with
      | some (q, p, m) =>
        let parts := parts.filter fun x => !(x.1 == Expr.rat p)
        (alter (.rat q) (fun v => (v.getD .zero).add (.ofInt m)) parts,
          .rat (if m ≥ 0 then (List.range m.toNat).foldl (fun r _ => r / q) p
            else (List.range m.natAbs).foldl (fun r _ => r * q) p))
      | none => (parts, .one)
    let fits := olds.length ≤ parts.length && olds.all fun (b, x) => match get? parts b with
      | some y => x.isNeg == y.isNeg && x.isZero == y.isZero
      | none => false
    if !fits then return dflt
    let times := olds.map fun (b, x) => timesIn ((get? parts b).getD .zero) x
    if times.any (· = 0) then return dflt
    let k := times.foldl Nat.min (times.headD 1)
    let margs ← parts.mapM fun (b, y) => match get? olds b with
      | some x => pure (rejoin A b (y.sub (x.mul (.ofInt k))))
      | none => do pure (rejoin A (← sub old new b) y)
    return some (A.mul [extra, A.mul (A.pow new (.int k) :: margs)])

/-! ### Finding a power in a power -/

def splitExponent : Expr × Expr :=
  match e with
  | .mul fs =>
    let (free, bound) := (fs.filter (!·.hasSymbols), fs.filter (·.hasSymbols))
    (A.mul free, A.mul bound)
  | e => if e.hasSymbols then (.one, e) else (e, .one)

def combine? (a b : Expr × Expr) (old : Expr) : Option Expr :=
  if a.2 == b.2 then
    let p := A.div a.1 b.1
    let whole : Bool := match p with
      | .num n => n.toRat?.any (·.den == 1)
      | _ => false
    if whole then some p
    else
      let (c, e) := A.baseExp old
      match Power.powPow A c e p with
      | some r => if r.isPow || r.isSymbol || (r matches .fn .exp _) then some p else none
      | none => none
  else none

def inPower (b x old new : Expr) : Outcome (Option Expr) := do
  if old == b then return some (A.pow new (← sub x))
  match old with
  | .pow c y =>
    if b == c then
      match x with
      | .add ts => do
        let target := splitExponent A y
        let parts ← ts.mapM fun t => do
          let t ← sub t
          return (t, combine? A (splitExponent A t) target old)
        let hits := parts.filterMap fun (_, p) => p.map (A.pow new)
        let rest := parts.filterMap fun (t, p) => if p.isSome then none else some t
        if hits.isEmpty then return none
        let e := A.add rest
        return some (A.mul (hits ++ [if e.isOne then b else .pow b e]))
      | x => match combine? A (splitExponent A x) (splitExponent A y) old with
        | some p => return some (A.pow new p)
        | none => return none
    else return none
  | _ => return none

/-! ### Algebraic substitution -/

mutual

/-- Also inside sums, products and powers; `fuel` bounds the nesting depth. -/
def algebraicDeep : Nat → Expr → Expr → Expr → Outcome Expr
  | 0, _, _, e => .ok e
  | fuel + 1, old, new, e =>
    if e == old then .ok new
    else do
      let found ← match e, old with
        | .add ts, .add os => inSum A (algebraicDeep fuel old new) ts os new
        | .mul _, .mul _ => inProduct A (algebraicDeep fuel) e old new
        | .pow b x, _ => inPower A (algebraicDeep fuel old new) b x old new
        | .piecewise bs, _ => do
          let bs ← branchesDeep fuel old new bs
          pure (some (← Build.node A .piecewise bs))
        | .node (.resolved f n) (p :: i :: r), _ => do
          pure (some (.node (.resolved f n) (p :: (← algebraicDeep fuel old new i) :: r)))
        | _, _ => pure none
      match found with
      | some r => return r
      | none => match e with
        | .atom _ | .node (.access ..) _ => return e
        | .node h as => do
          let bs ← algebraicList fuel old new as
          if Expr.sameList as bs then return e
          else Build.node A h (Visit.withHidden h as bs)

def algebraicList : Nat → Expr → Expr → Exprs → Outcome Exprs
  | 0, _, _, as => .ok as
  | _ + 1, _, _, [] => .ok []
  | fuel + 1, old, new, a :: as => do return (← algebraicDeep fuel old new a) :: (← algebraicList fuel old new as)

def branchesDeep : Nat → Expr → Expr → Exprs → Outcome Exprs
  | 0, _, _, bs => .ok bs
  | _ + 1, _, _, [] => .ok []
  | fuel + 1, old, new, b :: bs => match b with
    | .branch v c => do
      let c ← algebraicDeep fuel old new c
      let v ← if c == .bool false then pure v else algebraicDeep fuel old new v
      if c == .bool true then return .branch v c :: bs
      else return .branch v c :: (← branchesDeep fuel old new bs)
    | b => do return b :: (← branchesDeep fuel old new bs)

end

def algebraic (old new e : Expr) : Outcome Expr :=
  if old == new then .ok e else algebraicDeep A (2 * e.size + 2 * e.depth + 8) old new e

def algebraicSeq (ps : List (Expr × Expr)) (e : Expr) : Outcome Expr := ps.foldlM (fun e (o, n) => algebraic A o n e) e

/-- Long expressions come first. -/
def arrange : List (Expr × Expr) :=
  let t := t.filter fun (o, n) => !(o == n)
  let le := fun a b =>
    if a.1 == b.1 then SortKey.le a.2.1 b.2.1
    else a.1.1 > b.1.1 || (a.1.1 == b.1.1 && a.1.2 > b.1.2)
  let size := fun o => if t.all (·.1.isLeaf) then (0, 0) else (Count.operations A o, o.args.length)
  ((t.map fun p => (size p.1, A.key p.1, p)).mergeSort le).map (·.2.2)

def algebraicTable : Outcome Expr := algebraicSeq A (arrange A t) e

/-! ### Replacement by a table -/

/-- Parts with the property `skip` are left alone; the pointer and the position of a resolved access are replaced
algebraically. -/
def table (skip : Expr → Bool := fun _ => false) : Outcome Expr :=
  if t.isEmpty then .ok e
  else Visit.replace A (fun e =>
    if skip e then some (.ok e)
    else match get? t e with
      | some v => some (.ok v)
      | none => match e with
        | .node (.resolved f n) (p :: i :: r) => some do
            return .node (.resolved f n) ((← algebraicTable A t p) :: (← algebraicTable A t i) :: r)
        | _ => none) e

end StencilForge.Substitute
