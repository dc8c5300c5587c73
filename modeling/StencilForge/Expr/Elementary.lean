import StencilForge.Expr.Arrange

/-!
# Expr — elementary functions

Values at special points, signs that can be taken out, and numbers where the arguments are binary numbers.
-/

namespace StencilForge.Elementary

open Binary

/-! ### Signs -/

def hasMinus : Expr → Bool
  | .atom (.num n) => n.isNeg || n.isZero
  | .atom _ => false
  | .node h as => match h with
    | .add => (as.map hasMinus).all id
    | .mul => (as.map hasMinus).any id
    | _ => false

/-- Of an expression and its negative, whether this one counts as negative.  `fuel` bounds the nesting depth. -/
def looksNegative (A : Algebra) : Nat → Expr → Bool
  | 0, _ => false
  | fuel + 1, e =>
    let m := A.neg e
    if e == m then false
    else if hasMinus e != hasMinus m then hasMinus e
    else
      let byKey := SortKey.order (A.key e) (A.key m) == .lt
      match e with
      | .add ts =>
        let n := (ts.filter (looksNegative A fuel)).length
        if ts.length - n > n then false else if ts.length - n < n then true else byKey
      | .mul fs =>
        ((fs.filter fun f => looksNegative A fuel (match f with
          | .pow b _ => b
          | f => f)).length) % 2 == 1
      | _ => byKey

def negative (A : Algebra) (e : Expr) : Bool := looksNegative A (e.depth + 1) e

/-! ### Numbers -/

def atFloat (f : Fn) (b : Binary) : Option Binary :=
  let p := Number.precision
  match f with
  | .exp => some (exp p b)
  | .log => if b.isNeg || b.isZero then none else some (log p b)
  | .sin => some (sin p b)
  | .cos => some (cos p b)
  | .tan => some (tan p b)
  | .tanh => some (tanh p b)
  | _ => none

def piMultiple? : Expr → Option Rat
  | .num n => given n.isZero 0
  | .const .pi => some 1
  | .mul [.num (.rat q), .const .pi] => some q
  | _ => none

def without? (x : Expr) : Expr → Option Expr
  | .mul fs => given (fs.contains x) (.mulOf (fs.erase x))
  | e => given (e == x) .one

def overI? (e : Expr) : Option Expr := without? .iUnit e

/-! ### Functions -/

variable (A : Algebra)

def cosTable (q : Rat) : Option Expr :=
  if q = 0 then some .one
  else if q = mkRat 1 2 then some .zero
  else if q = mkRat 1 3 then some .half
  else if q = mkRat 1 4 then some (A.mul [.half, A.sqrt (.int 2)])
  else if q = mkRat 1 6 then some (A.mul [.half, A.sqrt (.int 3)])
  else if q = mkRat 1 5 then some (A.add [.rat (mkRat 1 4), A.mul [.rat (mkRat 1 4), A.sqrt (.int 5)]])
  else if q = mkRat 2 5 then some (A.add [.rat (mkRat (-1) 4), A.mul [.rat (mkRat 1 4), A.sqrt (.int 5)]])
  else none

def cosPi (q : Rat) : Option Expr :=
  -- reduced to the first quadrant
  let q := q - 2 * (.fdiv (q / 2).num (q / 2).den : Int)
  let q := if q > 1 then 2 - q else q
  if q > mkRat 1 2 then (cosTable A (1 - q)).map A.neg else cosTable A q

/-- `imaginary` gives the value at a multiple of the imaginary unit, `atPi` that at a multiple of `π`. -/
def circular (f : Fn) (odd : Bool) (zero : Expr) (imaginary : Expr → Expr) (atPi : Rat → Option Expr) (x : Expr) :
    Option Expr :=
  let flipped := fun y => some (if odd then A.neg (A.apply f [y]) else A.apply f [y])
  match x with
  | .num n => if n.isZero then some zero else if n == .nan then some .nan else
      if n.isNeg then flipped (.num n.neg) else none
  | _ =>
    if negative A x then flipped (A.neg x)
    else (overI? x).elim ((piMultiple? x).bind atPi) fun y => some (imaginary y)

def sinPi (q : Rat) : Option Expr := cosPi A (q - mkRat 1 2)

def timesI (f : Fn) (y : Expr) : Expr := A.mul [.iUnit, A.apply f [y]]

def sinOf : Expr → Option Expr := circular A .sin true .zero (timesI A .sinh) (sinPi A)

def cosOf : Expr → Option Expr := circular A .cos false .one (A.apply .cosh [·]) (cosPi A)

def tanOf : Expr → Option Expr :=
  circular A .tan true .zero (timesI A .tanh) fun q => do
    let c ← cosPi A q
    let s ← sinPi A q
    return if c.isZero then .const .complexInf else A.div s c

def tanhOf (x : Expr) : Option Expr :=
  match x with
  | .num .nan => some .nan
  | .num .inf => some .one
  | .num .negInf => some .negOne
  | .num n =>
    if n.isZero then some .zero
    else given n.isNeg (A.neg (A.apply .tanh [.num n.neg]))
  | _ => (overI? x).elim (given x.hasNegCoeff (A.neg (A.apply .tanh [A.neg x]))) fun y => some (timesI A .tan y)

/-- `exp (q · π · i)` at multiples of a quarter turn; other angles are brought into one turn. -/
def expTurn (q : Rat) : Option Expr :=
  if (2 * q).den = 1 then
    match (2 * q).num % 4 with
    | 0 => some .one
    | 1 => some .iUnit
    | 2 => some .negOne
    | _ => some (A.neg .iUnit)
  else
    let r := q - 2 * (.fdiv (q / 2).num (q / 2).den : Int)
    let r := if r > 1 then r - 2 else r
    if r = q then none else some (A.apply .exp [A.mul [.rat r, .const .pi, .iUnit]])

/-- A single logarithm among numbers becomes a power. -/
def expMul (x : Expr) : Option Expr :=
  let turn := (overI? x).bind piMultiple?
  match turn.bind (expTurn A) with
  | some e => some e
  | none =>
    let isLog := fun
      | .fn .log [_] => true
      | _ => false
    let (c, t) := x.coeffMul
    let logs := t.factors.filter isLog
    let rest := t.factors.filter (!isLog ·)
    match logs with
    | [.fn .log [y]] =>
      if c.isFinite && rest.all (fun f => f.isNumber && f.approxReal.isSome) then
        some (A.pow y (A.mul (.num c :: rest)))
      else none
    | _ => none

/-- Terms whose exponential is known become factors. -/
def expAdd (ts : Exprs) : Option Expr :=
  let parts := ts.map fun t =>
    if t.isOne then (t, none)
    else match A.apply .exp [t] with
      | .fn .exp [u] => (u, none)
      | e => (t, some e)
  let out := parts.filterMap (·.2)
  let kept := (parts.filter (·.2.isNone)).map (·.1)
  let changed := (ts.zip parts).any fun (t, u, o) => o.isNone && u != t
  if out.isEmpty && !changed then none
  else
    let s := A.add kept
    A.mul (out ++ [if s.isZero then .one else .fn .exp [s]])

def expOf (x : Expr) : Option Expr :=
  match x with
  | .num n =>
    if n.isZero then some .one
    else if n.isOne then some (.const .euler)
    else match n with
      | .nan => some .nan
      | .inf => some (.num .inf)
      | .negInf => some .zero
      | _ => none
  | .const .complexInf => some .nan
  | .fn .log [y] => some y
  | .mul _ => expMul A x
  | .add ts => expAdd A ts
  | _ => given (A.is .zero x) .one

def logOf (x : Expr) : Option Expr :=
  let ofNegative := fun y => some (A.add [A.mul [.const .pi, .iUnit], A.apply .log [y]])
  match x with
  | .num (.rat q) =>
    if q = 0 then some (.const .complexInf)
    else if q = 1 then some .zero
    else if q.num = 1 then some (A.neg (A.apply .log [.int q.den]))
    else if q < 0 then ofNegative (.rat (-q))
    else none
  | .num (.float b) =>
    if b.isZero then some (.const .complexInf)
    else if b.isNeg then ofNegative (.num (.float b.neg))
    else none
  | .num .nan => some .nan
  | .num _ => some (.num .inf)
  | .const .euler => some .one
  | .const .complexInf => some (.const .complexInf)
  | .fn .exp [y] => given (A.is .extReal y) y
  | _ =>
    if x.isNumber && A.is .negative x then ofNegative (A.neg x)
    else match overI? x with
      | some (.num (.rat q)) =>
        let turn := A.mul [.const .pi, .iUnit, .half]
        some (if q ≥ 0 then A.add [turn, A.apply .log [.rat q]] else A.add [A.neg turn, A.apply .log [.rat (-q)]])
      | _ => given (A.is .zero x) (.const .complexInf)

def absOf (x : Expr) : Option Expr :=
  let keeps := fun y => match A.apply .abs [y] with
    | .fn .abs _ => true
    | _ => false
  match x with
  | .num n => some (.num n.abs)
  | .const .complexInf => some (.num .inf)
  | .iUnit => some .one
  | .fn .abs _ => some x
  | .pow b e =>
    if e.hasNegCoeff && !b.isNumber && A.is .integer e then some (A.inv (A.apply .abs [A.pow b (A.neg e)]))
    else if A.is .extReal b then
      if A.is .integer e then
        if A.is .even e then some x else if b.isNegOne then some .one
        else some (A.pow (A.apply .abs [b]) e)
      else if A.is .extNonnegative b && A.is .extReal e then some x
      else none
    else none
  | .fn .exp [y] => if A.is .extReal y then some x else some (.fn .exp [.fn .re [y]])
  | .mul fs =>
    let fs := fs.map fun f => if f.isAdd && negative A f then A.neg f else f
    let below := fun
      | .pow b e => given (A.is .integer e && A.is .negative e) (b, e)
      | _ => none
    let isUnknown := fun f => keeps (((below f).map (·.1)).getD f)
    let known := (fs.filter (!isUnknown ·)).map fun f => match below f with
      | some (b, e) => A.pow (A.apply .abs [b]) e
      | none => A.apply .abs [f]
    let unknown := fs.filter isUnknown
    if unknown.isEmpty then some (A.mul known)
    else if unknown.all (fun f => f.isPow && (A.is .negative (A.baseExp f).2)) && known.isEmpty then none
    else some (A.mul (known ++ [.fn .abs [A.mul unknown]]))
  | _ =>
    if x.isAdd && negative A x then some (A.apply .abs [A.neg x])
    else if A.is .zero x then some .zero
    else if A.is .extNonnegative x then some x
    else if A.is .extNonpositive x then some (A.neg x)
    else none

def signOf (x : Expr) : Option Expr :=
  match x with
  | .mul fs =>
    let flips := (fs.filter (A.is .extNegative ·)).length
    let unknown := fs.filter fun f => !(A.is .extNegative f || A.is .extPositive f)
    if unknown.length = fs.length then none
    else
      let s : Expr := if flips % 2 = 0 then .one else .negOne
      some (A.mul [s, A.apply .sign [.mulOf unknown]])
  | .num .nan => some .nan
  | .fn .sign _ => some x
  | .iUnit => some x
  | _ =>
    if A.is .zero x then some .zero
    else if A.is .extPositive x then some .one
    else if A.is .extNegative x then some .negOne
    else none

def roundValue (up : Bool) (e : Expr) : Option Int := do
  let b ← e.approxReal
  -- too close to an integer to tell
  let near := sub 200 b (.ofInt (add 200 b (.make 1 (-1))).floor)
  if !near.isZero && near.magnitude < -100 then none
  else some (if up then -(b.neg.floor) else b.floor)

/-- Integer terms are taken out, numbers are evaluated. -/
def roundOf (up : Bool) (x : Expr) : Option Expr :=
  let f := if up then .ceiling else .floor
  match x with
  | .num n => match n with
    | .rat q => some (.int (if up then -(.fdiv (-q.num) q.den) else .fdiv q.num q.den))
    | .float b => some (.int (if up then -(b.neg.floor) else b.floor))
    | n => some (.num n)
  | .fn .floor _ | .fn .ceiling _ => some x
  | .const .pi => some (.int (if up then 4 else 3))
  | .const .euler => some (.int (if up then 3 else 2))
  | _ =>
    if A.is .integer x || A.isNot .finite x then some x
    else
      let ints := x.terms.filter (A.is .integer ·)
      let rest := x.terms.filter (!A.is .integer ·)
      let syms := rest.filter Expr.hasSymbols
      let nums := rest.filter (!·.hasSymbols)
      let i := A.add ints
      if syms.isEmpty && nums.isEmpty then some i
      else if syms.isEmpty then
        (roundValue up (A.add nums)).map fun n => A.add [i, .int n]
      else
        let s := A.add (syms ++ nums)
        match s with
        | .fn .floor _ | .fn .ceiling _ => some (A.add [i, s])
        | _ => if ints.isEmpty then none else some (A.add [i, .fn f [s]])

/-! ### Least and greatest values -/

def compareValues (a b : Expr) : Option Ordering :=
  match a, b with
  | .num m, .num n => Number.compare? m n
  | _, _ =>
    let d := A.sub a b
    match d with
    | .num n => Number.compare? n .zero
    | _ =>
      if d.isNumber then d.approxSign
      else if !(A.is .extReal a && A.is .extReal b) then none
      else if A.is .extNonnegative d then some .gt
      else if A.is .extNonpositive d then some .lt
      else none

def keepExtreme (least : Bool) : Exprs → Exprs → Exprs
  | [], kept => kept
  | a :: r, kept =>
    let worse := fun k => match compareValues A a k with
      | some .eq => true
      | some o => o == (if least then .gt else .lt)
      | none => false
    if kept.any worse then keepExtreme least r kept
    else
      let kept := kept.filter fun k => (compareValues A k a).elim true fun o => o != (if least then .gt else .lt)
      keepExtreme least r (kept ++ [a])

def extremum (least : Bool) (xs : Exprs) : Expr :=
  let f := if least then .min else .max
  let (top, bottom) := if least then (.inf, .negInf) else (.negInf, .inf)
  let xs := xs.flatMap fun x => match x with
    | .fn g as => if g == f then as else [x]
    | x => [x]
  if xs.any (· == .num bottom) then .num bottom
  else
    let xs := (unionNew [] xs).filter (· != .num top)
    -- an argument inside the opposite function says nothing new
    let other := if least then .max else .min
    let xs := xs.filter fun
      | .fn g as => !(g == other && as.any fun a => xs.contains a)
      | _ => true
    match keepExtreme A least xs [] with
    | [] => .num top
    | [x] => x
    | xs => .fn f (Arrange.sortBySize A xs)

def ofOne (f : Fn) (x : Expr) : Option Expr :=
  match f with
  | .exp => expOf A x
  | .log => logOf A x
  | .sin => sinOf A x
  | .cos => cosOf A x
  | .tan => tanOf A x
  | .tanh => tanhOf A x
  | .abs => absOf A x
  | .sign => signOf A x
  | .floor => roundOf A false x
  | .ceiling => roundOf A true x
  | _ => none

def build (f : Fn) (xs : Exprs) : Expr :=
  match f, xs with
  | .min, xs => extremum A true xs
  | .max, xs => extremum A false xs
  | f, [x] =>
    match ofOne A f x with
    | some e => e
    | none => match x with
      | .num (.float b) => (atFloat f b).elim (.fn f [x]) fun v => .num (.ofBinary v)
      | _ => .fn f [x]
  | f, xs => .fn f xs

end StencilForge.Elementary
