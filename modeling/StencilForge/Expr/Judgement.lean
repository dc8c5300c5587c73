import StencilForge.Expr.Approx

/-!
# Expr — judging values

For each operation there is a list of judgements, one per property; they are tried until nothing new is found, and
every finding is closed under the rules of `Facts`.
-/

namespace StencilForge

structure Judgement where
  fact : Fact
  judge : Facts → Option Bool

variable (fs : List Facts) (xs : List (Option Bool)) (js : List Judgement) (up : Bool)

namespace Judgement

def tryAll (s : Facts) : Facts :=
  js.foldl (fun s j =>
    if (s.get j.fact).isSome then s
    else match j.judge s with
      | some b => (s.set j.fact b).close
      | none => s) s

def settle : Nat → Facts → Facts
  | 0, s => s
  | n + 1, s =>
    let t := tryAll js s
    if t == s then s else settle n t

def conclude (s : Facts := .none) : Facts := settle js 8 s

/-! ### Combining answers -/

def group : Option Bool :=
  if xs.any (·.isNone) then none
  else match (xs.filter (· == some false)).length with
    | 0 => some true
    | 1 => some false
    | _ => none

def uniform : Option Bool :=
  if xs.all (· == some true) then some true
  else given (xs.all (· == some false)) false

def fuzzyAnd : Option Bool :=
  if xs.any (· == some false) then some false
  else given (xs.all (· == some true)) true

def fuzzyOr : Option Bool :=
  if xs.any (· == some true) then some true
  else given (xs.all (· == some false)) false

def fuzzyNot (x : Option Bool) : Option Bool := x.map (!·)

/-! ### Sums -/

section

variable (A : Algebra)

/-- `none` inside for an arbitrarily small value. -/
def closest (e : Expr) : Option (Option Rat) :=
  let f := A.facts e
  if !f.is .extReal || e.isAdd then none
  else if f.is .positive then
    if f.is .even then some (some 2) else if f.is .integer then some (some 1) else some none
  else if f.is .extNegative then
    if f.is .even then some (some (-2)) else if f.is .integer then some (some (-1)) else some none
  else if f.is .zero || f.is .extNonpositive || f.is .extNonnegative then some (some 0)
  else none

/-- Whether `c + a` is above zero, or not below, judged from the least value of `a`. -/
def shifted (c : Number) (a : Expr) (strict up : Bool) : Option Bool :=
  let sided := A.is (if up then .extNonnegative else .extNonpositive) a
  if c.isZero || !sided then none
  else match c.rat?, closest A a with
    | some c, some (some v) =>
      let s := if up then c + v else -(c + v)
      given (if strict then s > 0 else s ≥ 0) true
    | some c, some none => given (if up then c ≥ 0 else c ≤ 0) true
    | _, _ => none

def signFact : Fact := if up then .extPositive else .extNegative
def weakFact : Fact := if up then .extNonnegative else .extNonpositive

def sumSign : Option Bool :=
  let fs := fs.filter (!·.is .zero)
  if fs.isEmpty then some false
  else
    let known := fun f => f.is (signFact up) || f.is (weakFact up) || f.is (weakFact (!up))
    let infs := fs.filter (·.is .infinite)
    if !infs.isEmpty then
      let ss := infs.map fun f => fuzzyOr [f.get (signFact up), f.get (weakFact up)]
      let s := ss.head?.getD none
      if fs.any (fun f => !known f && (f.get .infinite).isNone) || ss.any (· != s) then none else s
    else if fs.any (!known ·) then none
    else
      let strict := fs.any (·.is (signFact up))
      let weak := fs.any fun f => !f.is (signFact up) && f.is (weakFact up)
      let against := fs.any fun f => !f.is (signFact up) && !f.is (weakFact up) && f.is (weakFact (!up))
      if !against && strict then some true
      else if !strict && !weak then some false
      else none

def numberSign (e : Expr) (up : Bool) : Option Bool := (e.approxSign).map fun o => o == (if up then .gt else .lt)

def sumStrict (ts : Exprs) (fs : List Facts) (up : Bool) (s : Facts) : Option Bool :=
  let e := Expr.add ts
  if e.isNumber then (if s.fails .extReal then some false else numberSign e up)
  else
    let (c, a) := e.coeffAdd
    (shifted A c a true up).orElse fun _ => sumSign fs up

def sumWeak (ts : Exprs) (up : Bool) : Option Bool :=
  let e := Expr.add ts
  if e.isNumber then none
  else
    let (c, a) := e.coeffAdd
    shifted A c a false up

/-- If every term is imaginary, or real and known to be zero or not: a judgement of the reals that are not zero. -/
def sumSplit (ts : Exprs) (fs : List Facts) (judge : Exprs → Option Bool) : Option Bool :=
  if fs.all (fun f => f.is .extReal && (f.get .zero).isSome || f.is .imaginary) then
    judge (((ts.zip fs).filter fun (_, f) => f.is .extReal && f.fails .zero).map (·.1))
  else none

def sumZero (ts : Exprs) (fs : List Facts) : Option Bool :=
  sumSplit ts fs fun nz =>
    let z := (fs.filter fun f => f.is .extReal && f.is .zero).length
    if z = ts.length then some true
    else if nz.isEmpty || nz.length = ts.length then none
    else (A.ask .zero (A.add nz)).map (· && !fs.any (·.is .imaginary))

def sumImaginary (ts : Exprs) (fs : List Facts) : Option Bool :=
  sumSplit ts fs fun nz =>
    let im := (ts.zip fs).filter fun (_, f) => f.is .imaginary
    match A.ask .zero (A.add nz) with
    | some true => fuzzyNot (A.ask .zero (A.add (im.map fun (t, _) => A.mul [t, .iUnit])))
    | r => r

def sumOdd (ts : Exprs) (fs : List Facts) : Option Bool :=
  match (ts.zip fs).filter fun (_, f) => !f.is .even with
  | [] => some false
  | (_, f) :: r => if f.is .odd then A.ask .even (.addOf (r.map (·.1))) else none

def sumIrrational : Option Bool :=
  match fs.find? fun f => f.get .irrational != some false with
  | none => some false
  | some f =>
    given (f.is .irrational && (fs.filter fun g => !g.is .rational).length = 1) true

def sumInfinite : Option Bool :=
  if fs.any fun f => (f.get .infinite).isNone then none
  else match (fs.filter (·.is .infinite)).length with
    | 0 => some false
    | 1 => some true
    | _ => none

def ofSum (ts : Exprs) (fs : List Facts) : List Judgement :=
  let all := fun p => .mk p fun _ => group (fs.map (·.get p))
  [all .real, all .extReal, all .complex, all .finite, all .integer, all .rational, all .algebraic,
   ⟨.infinite, fun _ => sumInfinite fs⟩, ⟨.zero, fun _ => sumZero A ts fs⟩, ⟨.imaginary, fun _ => sumImaginary A ts fs⟩,
   ⟨.odd, fun _ => sumOdd A ts fs⟩, ⟨.irrational, fun _ => sumIrrational fs⟩,
   ⟨.extPositive, sumStrict A ts fs true⟩, ⟨.extNegative, sumStrict A ts fs false⟩,
   ⟨.extNonnegative, fun _ => sumWeak A ts true⟩, ⟨.extNonpositive, fun _ => sumWeak A ts false⟩]

/-! ### Products -/

/-- A running sign, whether a factor may be zero, whether one is only known not to have a sign. -/
def productSign : Option Bool := go fs up false false
where
  go : List Facts → Bool → Bool → Bool → Option Bool
    | [], up, weak, vague => if up then (if weak || vague then none else some true) else some false
    | f :: r, up, weak, vague =>
      if f.is .extPositive then go r up weak vague
      else if f.is .extNegative then go r (!up) weak vague
      else if f.is .zero then given (fs.all (·.is .finite)) false
      else if f.is .extNonpositive then go r (!up) true vague
      else if f.is .extNonnegative then go r up true vague
      else if f.fails .positive then (if vague then none else go r (!up) weak true)
      else if f.fails .negative then (if vague then none else go r up weak true)
      else none

def productReal (real : Bool) : Option Bool := go fs real (some false) none
where
  /-- `zero` is what is known about a zero factor, `odd` a factor neither real nor imaginary. -/
  go : List Facts → Bool → Option Bool → Option Facts → Option Bool
    | [], real, zero, odd => match odd with
      | some f =>
        if f.fails .extReal && real then zero
        else if f.fails .imaginary && !real then zero else none
      | none => if zero == some false then some real else given real true
    | f :: r, real, zero, odd =>
      if f.fails .complex && f.fails .infinite && f.fails .extReal then some false
      else if f.is .imaginary then go r (!real) zero odd
      else if f.is .extReal then
        if zero == some true then go r real zero odd
        else match f.get .zero with
          | some true => given (fs.all (·.is .finite)) true
          | some false => go r real zero odd
          | none => go r real none odd
      else if f.fails .extReal || f.fails .imaginary then if odd.isSome then none else go r real zero (some f)
      else none

def productZero : Option Bool := go fs (some false) false
where
  go : List Facts → Option Bool → Bool → Option Bool
    | [], zero, _ => zero
    | f :: r, zero, infinite =>
      if f.is .zero then (if infinite then none else go r (some true) infinite)
      else
        let infinite' := infinite || !f.is .finite
        if !f.is .finite && zero == some true then none
        else
          let zero := if zero == some false && (f.get .zero).isNone then none else zero
          go r zero infinite'

def productFinite : Option Bool :=
  if fs.all (·.is .finite) then some true
  else given (fs.any (·.is .infinite) && fs.all (·.fails .zero)) false

def productInfinite : Option Bool := given (fs.any (·.is .infinite) && fs.all (·.fails .zero)) true

def productComplex : Option Bool :=
  if fs.any fun f => (f.get .complex).isNone then none
  else if fs.all (·.is .complex) then some true
  else if fs.any (·.is .infinite) && fs.any (!·.fails .zero) then none
  else some false

/-- From the rational coefficient and the negative powers. -/
def productParts (ts : Exprs) : Expr × Expr :=
  let parts := ts.map fun t => match t with
    | .num (.rat q) => (Expr.int q.num, Expr.int q.den)
    | .pow b e => if e.hasNegCoeff then (Expr.one, A.pow b (A.neg e)) else (t, .one)
    | t => (t, .one)
  (A.mul (parts.map (·.1)), A.mul (parts.map (·.2)))

def productInteger (ts : Exprs) (fs : List Facts) : Option Bool :=
  let rational := (group (fs.map (·.get .rational))).bind fun b => if b then some true else productZero fs
  if rational == some false then some false
  else
    let (n, d) := productParts A ts
    if rational == some true && d.isOne then some true
    else if A.is .even d then
      if d == .int 2 then A.ask .even n
      else given (A.is .odd n) false
    else given (n == d) true

def productOdd (ts : Exprs) (fs : List Facts) (s : Facts) : Option Bool :=
  (s.get .integer).bind fun whole =>
    if !whole then some false
    else if fs.any (!·.is .integer) then none
    else if fs.any (·.is .even) || (ts.zip (ts.drop 1)).any fun (a, b) => A.is .odd (A.add [a, b]) then some false
    else given (fs.all (·.is .odd)) true

def ofProduct (ts : Exprs) (fs : List Facts) : List Judgement :=
  let quotient := fun p => .mk p fun s => (group (fs.map (·.get p))).bind fun b => if b then some true else s.get .zero
  [⟨.complex, fun _ => productComplex fs⟩, ⟨.finite, fun _ => productFinite fs⟩,
   ⟨.infinite, fun _ => productInfinite fs⟩, quotient .rational, quotient .algebraic, ⟨.zero, fun _ => productZero fs⟩,
   ⟨.integer, fun _ => productInteger A ts fs⟩, ⟨.extReal, fun _ => productReal fs true⟩,
   ⟨.imaginary, fun s =>
      if s.is .zero || s.fails .finite then some false
      else if s.fails .zero && s.is .finite then productReal fs false else none⟩,
   ⟨.irrational, fun _ => match fs.find? fun f => f.get .irrational != some false with
      | some f =>
        given (f.is .irrational && (fs.filter fun g => !(g.is .rational && g.fails .zero)).length = 1) true
      | none => given (fs.all (·.is .real)) false⟩,
   ⟨.extPositive, fun _ => productSign fs true⟩, ⟨.extNegative, fun _ => productSign fs false⟩,
   ⟨.odd, productOdd A ts fs⟩,
   ⟨.even, fun s => (s.get .integer).bind fun whole => if whole then fuzzyNot (s.get .odd) else some false⟩]

/-! ### Powers -/

def powerPositive (b e : Expr) (fb fe : Facts) : Option Bool :=
  if b == e then given (fb.is .extNonnegative) true
  else if fb.is .positive then given (fe.is .real) true
  else if fb.is .extNegative then
    if fe.is .even then some true else given (fe.is .odd) false
  else if fb.is .zero then (if fe.is .extReal then fe.get .zero else none)
  else if fb.is .extNonpositive then given (fe.is .odd) false
  else if fb.is .imaginary then e.int?.map (· % 4 == 0)
  else none

def powerNegative (e : Expr) (fb fe : Facts) : Option Bool :=
  if e == .half && (fb.is .complex || fb.is .extReal) then some false
  else if fb.is .extNegative then
    if fe.is .odd && fb.is .finite then some true
    else given (fe.is .even) false
  else if fb.is .extPositive || fb.is .zero then given (fe.is .extReal) false
  else if fb.is .extNonnegative then given (fe.is .extNonnegative) false
  else given ((fb.is .extNonpositive || fb.is .extReal) && fe.is .even) false

def powerZero (b : Expr) (fb fe : Facts) : Option Bool :=
  match fb.get .zero with
  | some true =>
    if fe.is .extPositive then some true
    else given (fe.is .extNonpositive) false
  | some false =>
    if fe.is .negative then fb.get .infinite
    else if fe.is .nonnegative then some false
    else if fe.is .infinite then
      let d := A.sub .one (A.apply .abs [b])
      if A.is .extPositive d then fe.get .extPositive
      else if A.is .extNegative d then fe.get .extNegative else none
    else none
  | none => none

def powerInteger (b e : Expr) (fb fe : Facts) : Option Bool :=
  if fb.is .rational && fb.fails .integer && fe.is .positive then some false
  else if fb.is .integer && fe.is .integer &&
      (b.isNegOne || fe.is .nonnegative || fe.is .positive) then some true
  else if fb.is .integer && fe.is .negative && (fe.is .finite || fe.is .integer) &&
      A.isNot .zero (A.sub b .one) && A.isNot .zero (A.add [b, .one]) then some false
  else if b.isNum && e.isNum then some (A.pow b e).isInteger
  else given (fe.is .negative && (fb.is .positive && A.is .positive (A.sub b .one) ||
    fb.is .negative && A.is .negative (A.add [b, .one]))) false

def powerReal (b e : Expr) (fb fe : Facts) : Option Bool :=
  match fb.get .extReal, fe.get .extReal with
  | none, _ | _, none => none
  | some rb, some re =>
    if rb && re && (fb.is .extPositive || fb.is .extNonnegative && fe.is .extNonnegative ||
        fe.is .integer && (fb.is .extNonzero || fe.is .nonnegative)) then some true
    else if rb && re && fb.is .extNegative && e.isRational then some false
    else if re && fe.is .extNegative && fb.fails .zero then A.ask .extReal (A.pow b (A.neg e))
    else if fb.is .imaginary then if fe.is .even then some true else given (fe.is .odd) false
    else none

def powerFinite (fb fe : Facts) : Option Bool :=
  if fe.is .negative && fb.is .zero then some false
  else given (fe.is .negative && (fb.is .infinite || fb.is .nonzero) ||
    fb.is .finite && fe.is .finite && (fe.is .nonnegative || fb.fails .zero)) true

def powerImaginary (fb fe : Facts) (e : Expr) : Option Bool :=
  if fb.is .imaginary && fe.is .integer then fe.get .odd
  else if fb.is .extReal && fe.is .extReal then
    if fb.is .positive then some false
    else match fe.get .rational with
      | some true =>
        if fe.is .integer then some false
        else match A.ask .integer (A.mul [.int 2, e]) with
          | some true => fb.get .negative
          | x => x
      | x => x
  else none

def powerRational (b e : Expr) (fb fe : Facts) : Option Bool :=
  if fe.is .integer && fb.is .rational && (fe.fails .negative || fb.fails .zero) then some true
  else if e.isRational && b.isRational then some false
  else if fe.is .integer then
    if fb.is .rational then given (fb.fails .zero || fe.is .nonnegative) true
    else if fb.is .irrational then fe.get .zero else none
  else none

def ofPower (b e : Expr) : List Judgement :=
  let fb := A.facts b
  let fe := A.facts e
  let extended := fun p j => .mk p fun s => if j == some true then s.get .finite else j
  let pos := powerPositive b e fb fe
  let neg := powerNegative e fb fe
  [⟨.even, fun _ => if fe.is .integer && fe.is .positive then fb.get .even else none⟩,
   ⟨.extPositive, fun _ => pos⟩, ⟨.extNegative, fun _ => neg⟩, ⟨.finite, fun _ => powerFinite fb fe⟩,
   extended .positive pos, extended .negative neg, ⟨.zero, fun _ => powerZero A b fb fe⟩,
   ⟨.integer, fun _ => powerInteger A b e fb fe⟩, ⟨.extReal, fun _ => powerReal A b e fb fe⟩,
   ⟨.complex, fun _ => given (fb.is .complex && fe.is .complex && powerFinite fb fe == some true) true⟩,
   ⟨.imaginary, fun _ => powerImaginary A fb fe e⟩,
   ⟨.odd, fun _ =>
      if !fe.is .integer then none
      else if fe.is .positive then fb.get .odd
      else given (fe.is .nonnegative && fb.is .odd || b.isNegOne) true⟩,
   ⟨.rational, fun _ => powerRational b e fb fe⟩]

/-! ### Functions -/

def ofNumber (e : Expr) : List Judgement :=
  if e.isNumber then
    [true, false].map fun up => ⟨signFact up, fun s => if s.fails .extReal then some false else numberSign e up⟩
  else []

def ofFunction (f : Fn) (x : Expr) : List Judgement :=
  let fx := A.facts x
  let as := fun (p q : Fact) => .mk p fun _ => fx.get q
  let same := fun p => as p p
  let if_ := fun p q => .mk p fun _ => given (fx.is q) true
  let ifReal := fun p => .mk p fun _ => if fx.is .extReal then fx.get p else none
  let always := fun p => .mk p fun _ => some true
  match f with
  | .exp =>
    [if_ .extReal .extReal,
     ⟨.extPositive, fun _ => given (fx.is .extReal && x != .num .negInf) true⟩, if_ .finite .finite,
     ⟨.rational, fun _ => given (fx.is .rational && fx.fails .zero) false⟩]
  | .log =>
    let beyondOne := fun p => .mk p fun _ => A.ask p (A.sub x .one)
    [as .extReal .extPositive, ⟨.finite, fun _ => if fx.is .zero then some false else fx.get .finite⟩,
     beyondOne .extPositive, beyondOne .zero, beyondOne .extNonnegative]
  | .sin | .cos => [if_ .finite .extReal, if_ .extReal .extReal]
  | .tan => [if_ .extReal .extReal]
  | .tanh =>
    [if_ .extReal .extReal, ifReal .extPositive, ifReal .extNegative, if_ .finite .extReal]
  | .abs =>
    [always .extNonnegative, as .real .finite, ifReal .integer, same .zero, ifReal .rational, ifReal .even,
     ifReal .odd]
  | .floor => [same .finite, same .real, as .integer .real, same .negative, same .nonnegative]
  | .ceiling => [same .finite, same .real, as .integer .real, same .positive, same .nonpositive]
  | .sign =>
    [always .complex, as .integer .extReal, same .zero, if_ .nonnegative .nonnegative, if_ .nonpositive .nonpositive]
  | .re | .im => [always .extReal, if_ .finite .finite]
  | .arg => [always .real]
  | _ => []

def ofExtremum (least : Bool) (fs : List Facts) : List Judgement :=
  let same := fun (p : Fact) => .mk p fun _ => uniform (fs.map (·.get p))
  let all := fun (p : Fact) => .mk p fun _ => fuzzyAnd (fs.map (·.get p))
  let one := fun (p : Fact) => .mk p fun _ => fuzzyOr (fs.map (·.get p))
  let (up, down) := if least then (all, one) else (one, all)
  [up .positive, up .nonnegative, down .negative, same .integer, same .rational, same .real,
   same .extReal, same .finite, same .complex, same .even, same .odd, same .zero,
   same .infinite, same .irrational, same .nonpositive, same .algebraic]

def ofChoice : List Judgement := Fact.all.map fun p => ⟨p, fun _ => uniform (fs.map (·.get p))⟩

def factsOf : Expr → Facts
  | .atom (.num n) => n.facts
  | .atom (.const c) => c.facts
  | .atom (.sym s) => s.facts
  | .atom (.lit n) => (Number.ofInt n).facts
  | .atom _ => .none
  | .node h as => match h, as with
    | .access f .., _ => f.dtype.facts
    | .add, ts => conclude (ofSum A ts (ts.map A.facts))
    | .mul, fs => conclude (ofProduct A fs (fs.map A.facts))
    | .pow, [b, e] => conclude (ofPower A b e)
    | .fn .min, as => conclude (ofExtremum true (as.map A.facts))
    | .fn .max, as => conclude (ofExtremum false (as.map A.facts))
    | .fn f, as =>
      match as with
      | [x] => conclude (ofFunction A f x ++ ofNumber (.fn f as))
      | _ => .none
    | .piecewise, bs => conclude (ofChoice (bs.map fun
        | .branch v _ => A.facts v
        | _ => .none))
    | _, _ => .none

end

end Judgement

end StencilForge
