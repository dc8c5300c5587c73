import StencilForge.Expr.Basic

/-!
# Expr — facts

What is known about the value of an expression.  `Facts.close` adds what follows by the rules that tie facts together.
-/

namespace StencilForge

inductive Fact where
  | complex | real | extReal | imaginary | rational | irrational | integer | noninteger
  | even | odd | zero | nonzero | positive | negative | nonnegative | nonpositive
  | extPositive | extNegative | extNonnegative | extNonpositive
  | extNonzero | finite | infinite | algebraic | transcendental | hermitian | antihermitian
  deriving DecidableEq, Repr

namespace Fact

def bit (f : Fact) : UInt64 := 1 <<< (f.ctorIdx.toUInt64)

def all : List Fact :=
  [complex, real, extReal, imaginary, rational, irrational, integer, noninteger, even, odd,
   zero, nonzero, positive, negative, nonnegative, nonpositive, extPositive, extNegative,
   extNonnegative, extNonpositive, extNonzero, finite, infinite, algebraic,
   transcendental, hermitian, antihermitian]

end Fact

/-- Bits: those known to hold and those known not to. -/
structure Facts where
  yes : UInt64 := 0
  no : UInt64 := 0
  deriving DecidableEq, Repr

namespace Facts

variable (s : Facts) (f : Fact)

def none : Facts := {}

def get : Option Bool := if s.yes &&& f.bit != 0 then some true else if s.no &&& f.bit != 0 then some false else .none

def is : Bool := s.yes &&& f.bit != 0
def fails : Bool := s.no &&& f.bit != 0

def set (b : Bool) : Facts := if b then { s with yes := s.yes ||| f.bit } else { s with no := s.no ||| f.bit }

/-- If the facts of `whenYes` hold and those of `whenNo` do not, then `thenYes` hold and `thenNo` do not. -/
structure Rule where
  whenYes : UInt64
  whenNo : UInt64
  thenYes : UInt64
  thenNo : UInt64

abbrev Literal := Fact × Bool

def Rule.make (ps : List Literal) (c : Literal) : Rule :=
  let mask := fun b => (ps.filter (·.2 == b)).foldl (fun m p => m ||| p.1.bit) 0
  ⟨mask true, mask false, if c.2 then c.1.bit else 0, if c.2 then 0 else c.1.bit⟩

def negate (l : Literal) : Literal := (l.1, !l.2)

def implies (a c : Literal) : List Rule := [.make [a] c, .make [negate c] (negate a)]

def isBoth (a : Literal) (cs : List Literal) : List Rule := .make cs a :: cs.flatMap (implies a)

def impliesOne (a c d : Literal) : List Rule :=
  [.make [negate c, negate d] (negate a), .make [a, negate c] d, .make [a, negate d] c]

def isOneOf (a : Literal) (cs : List Literal) : List Rule :=
  .make (cs.map negate) (negate a) :: cs.flatMap fun c => .make (a :: (cs.filter (· != c)).map negate) c :: implies c a

open Fact in
def rules : Array Rule :=
  let y := fun f => ((f, true) : Literal)
  let n := fun f => ((f, false) : Literal)
  (implies (y integer) (y rational)
    ++ implies (y rational) (y real)
    ++ implies (y rational) (y algebraic)
    ++ implies (y algebraic) (y complex)
    ++ isBoth (y transcendental) [y complex, n algebraic]
    ++ implies (y real) (y hermitian)
    ++ implies (y imaginary) (y complex)
    ++ implies (y imaginary) (y antihermitian)
    ++ implies (y complex) (y finite)
    ++ isBoth (y odd) [y integer, n even]
    ++ isBoth (y even) [y integer, n odd]
    ++ implies (y real) (y complex)
    ++ impliesOne (y extReal) (y real) (y infinite)
    ++ isBoth (y real) [y extReal, y finite]
    ++ isOneOf (y extReal) [y extNegative, y zero, y extPositive]
    ++ isBoth (y extNegative) [y extNonpositive, y extNonzero]
    ++ isBoth (y extPositive) [y extNonnegative, y extNonzero]
    ++ isBoth (y extNonpositive) [y extReal, n extPositive]
    ++ isBoth (y extNonnegative) [y extReal, n extNegative]
    ++ isOneOf (y real) [y negative, y zero, y positive]
    ++ isBoth (y negative) [y nonpositive, y nonzero]
    ++ isBoth (y positive) [y nonnegative, y nonzero]
    ++ isBoth (y nonpositive) [y real, n positive]
    ++ isBoth (y nonnegative) [y real, n negative]
    ++ isBoth (y positive) [y extPositive, y finite]
    ++ isBoth (y negative) [y extNegative, y finite]
    ++ isBoth (y nonpositive) [y extNonpositive, y finite]
    ++ isBoth (y nonnegative) [y extNonnegative, y finite]
    ++ isBoth (y nonzero) [y extNonzero, y finite]
    ++ implies (y zero) (y even)
    ++ implies (y zero) (y finite)
    ++ isBoth (y zero) [y extNonnegative, y extNonpositive]
    ++ isBoth (y zero) [y nonnegative, y nonpositive]
    ++ implies (y nonzero) (y real)
    ++ isBoth (y irrational) [y real, n rational]
    ++ implies (y imaginary) (n extReal)
    ++ implies (y infinite) (n finite)
    ++ isBoth (y noninteger) [y extReal, n integer]
    ++ isBoth (y extNonzero) [y extReal, n zero]).toArray

def step : Facts :=
  rules.foldl (fun s r =>
    if s.yes &&& r.whenYes == r.whenYes && s.no &&& r.whenNo == r.whenNo then ⟨s.yes ||| r.thenYes, s.no ||| r.thenNo⟩
    else s) s

/-- At most `fuel` times. -/
def closeWith : Nat → Facts → Facts
  | 0, s => s
  | fuel + 1, s =>
    let t := s.step
    if t == s then s else closeWith fuel t

def close : Facts := closeWith 64 s

def ofList (ls : List Literal) : Facts := (ls.foldl (fun s l => s.set l.1 l.2) none).close

end Facts

def Number.facts : Number → Facts
  | .rat q =>
    let sign := if q = 0 then .zero else if 0 < q then .positive else .negative
    if q.den = 1 then .ofList [(.integer, true), (.even, q.num % 2 == 0), (sign, true)]
    else .ofList [(.rational, true), (.integer, false), (sign, true)]
  | .float b =>
    if b.isZero then .ofList [(.zero, true)]
    else .ofList [(.real, true), (.integer, false), (if b.isNeg then .negative else .positive, true)]
  | .inf => .ofList [(.extPositive, true), (.infinite, true)]
  | .negInf => .ofList [(.extNegative, true), (.infinite, true)]
  | .nan => .none

def Constant.facts : Constant → Facts
  | .pi | .euler => .ofList [(.positive, true), (.irrational, true), (.algebraic, false)]
  | .imaginary => .ofList [(.imaginary, true), (.algebraic, true)]
  | .complexInf => .ofList [(.infinite, true), (.extReal, false)]

/-- Nothing is concluded from what the type tells. -/
def DataType.facts : DataType → Facts
  | .basic t _ =>
    let f := if t.isInt then Facts.none.set .integer true else .none
    let f := if t.isInt || t.isFloat then f.set .real true else f
    if t.isUInt then (f.set .negative false).set .nonnegative true else f
  | _ => .none

/-- Extents and strides are positive integers. -/
def Symbol.facts (s : Symbol) : Facts :=
  match s.kind with
  | .shape .. | .stride .. => (Facts.ofList [(.positive, true)]).set .integer true
  | .typed t | .thread t | .pointer _ t => t.facts
  | _ => .none

end StencilForge
