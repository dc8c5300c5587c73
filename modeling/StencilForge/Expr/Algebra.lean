import StencilForge.Expr.Fact
import StencilForge.Expr.Order

/-!
# Expr — algebras

An `Algebra` is a way to build expressions, and says what is known about their values and how they are ordered and
written.  `Algebra.bare` builds every node as it is; algebras that simplify are made from simpler ones, level by
level.
-/

namespace StencilForge

structure Algebra where
  add : Exprs → Expr
  mul : Exprs → Expr
  pow : Expr → Expr → Expr
  apply : Fn → Exprs → Expr
  facts : Expr → Facts
  key : Expr → SortKey
  text : Expr → String

abbrev Table (α β : Type) := List (α × β)

namespace Table

variable {α β : Type} [BEq α]

def get? (t : Table α β) (a : α) : Option β := (t.find? (·.1 == a)).map (·.2)

def alter (a : α) (f : Option β → β) : Table α β → Table α β
  | [] => [(a, f none)]
  | (k, v) :: r => if k == a then (k, f (some v)) :: r else (k, v) :: alter a f r

def insert (t : Table α β) (a : α) (b : β) : Table α β := alter a (fun _ => b) t

def push {γ : Type} (t : Table α (List γ)) (a : α) (c : γ) : Table α (List γ) := alter a (fun v => v.getD [] ++ [c]) t

end Table

namespace Expr

/-- The terms are already in order. -/
def addOf : Exprs → Expr
  | [] => zero
  | [e] => e
  | es => .add es

def mulOf : Exprs → Expr
  | [] => one
  | [e] => e
  | es => .mul es

def coeffMul : Expr → Number × Expr
  | .num n => if n.isZero then (.one, .num n) else (n, one)
  | .mul (.num c :: r) => (c, mulOf r)
  | e => (.one, e)

/-- Of a negative binary coefficient only the sign is taken. -/
def coeffMulRational : Expr → Number × Expr
  | .num (.rat q) => if q = 0 then (.one, .num (.rat q)) else (.rat q, one)
  | .num n => (.one, .num n)
  | .mul (.num (.rat q) :: r) => (.rat q, mulOf r)
  | .mul (.num c :: r) => if c.isNeg then (.negOne, .mul (.num c.neg :: r)) else (.one, .mul (.num c :: r))
  | e => (.one, e)

def coeffAdd : Expr → Number × Expr
  | .num n => (n, zero)
  | .add (.num c :: r) => (c, addOf r)
  | e => (.zero, e)

def hasNegCoeff : Expr → Bool
  | .num n => n.isNeg
  | .mul (.num c :: _) => c.isNeg
  | _ => false

mutual

def isNumber : Expr → Bool
  | .atom (.num _) | .atom (.const _) => true
  | .atom (.lit _) => true
  | .atom _ => false
  | .node h as => match h with
    | .add | .mul | .pow => allNumbers as
    | .fn (.named _) => false
    | .fn _ => allNumbers as
    | _ => false

def allNumbers : Exprs → Bool
  | [] => true
  | a :: as => isNumber a && allNumbers as

end

/-- A pointer counts as a node with a name and a shape. -/
def nodeCount : Expr → Nat
  | .atom _ => 1
  | .node h as => match h with
    | .access .. => 1
    | .resolved .. => (as.map nodeCount).take 2 |>.foldl (· + ·) 4
    | .element => (as.map nodeCount).foldl (· + ·) 4
    | .placeholder .. => (as.map nodeCount).dropLast.foldl (· + ·) 1
    | _ => (as.map nodeCount).foldl (· + ·) 1

mutual

/-- Each once; a field access is one variable. -/
def symbols : Expr → Exprs
  | .atom (.sym s) => [.sym s]
  | .atom _ => []
  | .node h as => match h with
    | .access .. => [.node h as]
    | _ => symbolsList as

def symbolsList : Exprs → Exprs
  | [] => []
  | a :: as => unionNew (symbols a) (symbolsList as)

end

mutual

def any (p : Expr → Bool) : Expr → Bool
  | .atom a => p (.atom a)
  | .node h as => p (.node h as) || match h with
    | .access .. => false
    | _ => anyList p as

def anyList (p : Expr → Bool) : Exprs → Bool
  | [] => false
  | a :: as => any p a || anyList p as

end

def hasSymbols (e : Expr) : Bool := e.any isSymbol

def has (e part : Expr) : Bool := e.any (· == part)

def unitFactors (e : Expr) : Exprs :=
  let unfold := fun (f : Expr) => match f with
    | .pow b (.num (.rat q)) => if q.den = 1 && 0 < q.num then .replicate q.num.toNat b else [f]
    | f => [f]
  e.factors.flatMap unfold

end Expr

namespace Algebra

def bare : Algebra where
  add := .add
  mul := .mul
  pow := .pow
  apply := .fn
  facts := fun _ => .none
  key := fun e => .text e.className
  text := fun e => e.className

variable (A : Algebra)

def neg (e : Expr) : Expr := A.mul [.negOne, e]
def sub (a b : Expr) : Expr := A.add [a, A.neg b]
def inv (e : Expr) : Expr := A.pow e .negOne
def div (a b : Expr) : Expr := A.mul [a, A.inv b]
def sqrt (e : Expr) : Expr := A.pow e .half

/-- Two numbers are divided at once. -/
def quotient (a b : Expr) : Expr :=
  match a, b with
  | .num (.rat x), .num (.float y) => A.mul [.rat x, .num (Number.one.div (.float y))]
  | .num (.rat x), .num (.rat y) => if y = 0 then (if x = 0 then .nan else .const .complexInf) else .rat (x / y)
  | .num (.float x), .num y => if y.isFinite && !y.isZero then .num ((Number.float x).div y) else A.div a b
  | a, b => A.div a b

def add2 (a b : Expr) : Expr := A.add [a, b]
def mul2 (a b : Expr) : Expr := A.mul [a, b]

def prod (es : Exprs) : Expr := es.foldl A.mul2 .one

def sum (es : Exprs) : Expr := es.foldl A.add2 .zero

def ask (f : Fact) (e : Expr) : Option Bool := (A.facts e).get f

def is (f : Fact) (e : Expr) : Bool := (A.facts e).is f

def isNot (f : Fact) (e : Expr) : Bool := (A.facts e).fails f

/-- The reciprocal of an integer counts as a power of it. -/
def baseExp : Expr → Expr × Expr
  | .pow (.num (.rat q)) e => if q.num = 1 && q.den != 1 then (.int q.den, A.neg e) else (.num (.rat q), e)
  | .pow b e => (b, e)
  | .fn .exp [x] => (.const .euler, x)
  | e => (e, .one)

def keepCoeff (c : Number) (e : Expr) : Expr :=
  if c.isOne then e
  else if c.isNegOne then A.neg e
  else match e with
    | .add _ => .mul [.num c, e]
    | .mul (.num d :: r) =>
      let p := d.mul c
      if p.isOne then .mulOf r else .mul (.num p :: r)
    | .mul fs => .mul (.num c :: fs)
    | _ => A.mul [.num c, e]

end Algebra

end StencilForge
