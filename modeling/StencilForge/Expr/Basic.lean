import StencilForge.Field.Basic
import StencilForge.Number

/-!
# Expr — expressions

An expression is an atom or a head with arguments, of which `Expr.args` count as arguments of the operation; offsets
of a field access do not.  Expressions are the same (`==`) when they are built alike, accesses also if one is
absolute.
-/

namespace StencilForge

inductive Constant where
  | pi
  | euler
  | imaginary
  | complexInf
  deriving DecidableEq, Repr

inductive SymbolKind where
  | plain
  /-- An anonymous symbol; two of them differ by their numbers. -/
  | dummy (index : Nat)
  | typed (dtype : DataType)
  | shape (fields : Strings) (coord : Nat)
  | stride (field : String) (coord : Nat)
  | pointer (field : String) (dtype : DataType)
  | thread (dtype : DataType)
  | wild
  deriving DecidableEq, Repr

structure Symbol where
  name : String
  kind : SymbolKind := .plain
  deriving DecidableEq, Repr

inductive Rel where
  | eq | ne | lt | le | gt | ge
  deriving DecidableEq, Repr

inductive CastKind where
  | plain
  | boolean
  | reinterpret
  | vectorAccess
  deriving DecidableEq, Repr

inductive SeriesKind where
  | sum | product
  deriving DecidableEq, Repr

inductive Fn where
  | exp | log | sin | cos | tan | cot | sinh | cosh | tanh | coth
  | asin | acos | atan
  | abs | sign | floor | ceiling | min | max | re | im | arg | conjugate | factorial
  | fastDivision | fastSqrt | fastInvSqrt
  | bitXor | bitAnd | bitOr | shiftLeft | shiftRight | intDiv | powerOf2
  | moduloFloor | moduloCeil | divCeil | divFloor
  | vecAny | vecAll | addressOf | pointerArithmetic
  | advection | diffusion | transient
  | named (name : String)
  deriving DecidableEq, Repr

inductive Atom where
  | num (n : Number)
  | const (c : Constant)
  | bool (b : Bool)
  | sym (s : Symbol)
  | type (t : DataType)
  | member (s : String)
  | lit (n : Int)
  | field (f : GridField)
  deriving DecidableEq, Repr

inductive Head where
  | add | mul | pow
  | fn (f : Fn)
  | rel (r : Rel)
  | and | or | not
  /-- The first branch whose condition holds; the arguments are branches. -/
  | piecewise
  | branch
  | cast (k : CastKind)
  | access (field : GridField) (offsets : Nat) (absolute : Bool)
  | element
  /-- An element of a field at a known address: pointer, position, `offsets` offsets, index. -/
  | resolved (field : GridField) (offsets : Nat)
  /-- A derivative: operand, direction, order mark. -/
  | diff
  | diffOp
  /-- A sum or product: body, variable, bounds. -/
  | series (k : SeriesKind)
  /-- Operand, then variables with their multiplicities. -/
  | derivative
  /-- Its symbols, then the expression; two with different numbers differ. -/
  | placeholder (name : String) (id : Nat)
  | tuple
  deriving DecidableEq, Repr, Inhabited

inductive Expr where
  | atom (a : Atom)
  | node (h : Head) (args : List Expr)
  deriving Repr, Inhabited

abbrev Exprs := List Expr

namespace Symbol

def dtype? (s : Symbol) : Option DataType :=
  match s.kind with
  | .typed t | .thread t | .pointer _ t => some t
  | .shape .. | .stride .. => some .extent
  | _ => none

def isTyped (s : Symbol) : Bool := s.dtype?.isSome

def typed (name : String) (t : DataType) : Symbol := ⟨name, .typed t⟩

def ofExtent : Extent → Option Symbol
  | .known _ => none
  | .shape fs i => some ⟨(Extent.shape fs i).symbolName, .shape fs i⟩
  | .stride f i => some ⟨(Extent.stride f i).symbolName, .stride f i⟩

end Symbol

namespace Rel

def text : Rel → String
  | eq => "=="
  | ne => "!="
  | lt => "<"
  | le => "<="
  | gt => ">"
  | ge => ">="

def ofText? (s : String) : Option Rel := [eq, ne, lt, le, gt, ge].find? (·.text == s)

def flip : Rel → Rel
  | eq => .eq
  | ne => .ne
  | lt => .gt
  | le => .ge
  | gt => .lt
  | ge => .le

def negate : Rel → Rel
  | eq => .ne
  | ne => .eq
  | lt => .ge
  | le => .gt
  | gt => .le
  | ge => .lt

def holds (r : Rel) (o : Ordering) : Bool :=
  match r with
  | eq => o == .eq
  | ne => o != .eq
  | lt => o == .lt
  | le => o != .gt
  | gt => o == .gt
  | ge => o != .lt

end Rel

namespace Fn

def name : Fn → String
  | exp => "exp" | log => "log" | sin => "sin" | cos => "cos" | tan => "tan"
  | cot => "cot" | sinh => "sinh" | cosh => "cosh" | tanh => "tanh" | coth => "coth"
  | asin => "asin" | acos => "acos" | atan => "atan"
  | abs => "Abs" | sign => "sign" | floor => "floor" | ceiling => "ceiling"
  | min => "Min" | max => "Max" | re => "re" | im => "im" | arg => "arg"
  | conjugate => "conjugate" | factorial => "factorial"
  | fastDivision => "fast_division" | fastSqrt => "fast_sqrt" | fastInvSqrt => "fast_inv_sqrt"
  | bitXor => "bitwise_xor" | bitAnd => "bitwise_and" | bitOr => "bitwise_or"
  | shiftLeft => "bit_shift_left" | shiftRight => "bit_shift_right"
  | intDiv => "int_div" | powerOf2 => "int_power_of_2"
  | moduloFloor => "modulo_floor" | moduloCeil => "modulo_ceil"
  | divCeil => "div_ceil" | divFloor => "div_floor"
  | vecAny => "vec_any" | vecAll => "vec_all" | addressOf => "address_of"
  | pointerArithmetic => "pointer_arithmetic_func"
  | advection => "Advection" | diffusion => "Diffusion" | transient => "Transient"
  | named n => n

end Fn

namespace Expr

@[match_pattern] abbrev num (n : Number) : Expr := .atom (.num n)
@[match_pattern] abbrev const (c : Constant) : Expr := .atom (.const c)
@[match_pattern] abbrev iUnit : Expr := .const .imaginary
@[match_pattern] abbrev bool (b : Bool) : Expr := .atom (.bool b)
@[match_pattern] abbrev sym (s : Symbol) : Expr := .atom (.sym s)
@[match_pattern] abbrev lit (n : Int) : Expr := .atom (.lit n)
@[match_pattern] abbrev type (t : DataType) : Expr := .atom (.type t)
@[match_pattern] abbrev add (ts : Exprs) : Expr := .node .add ts
@[match_pattern] abbrev mul (fs : Exprs) : Expr := .node .mul fs
@[match_pattern] abbrev pow (b e : Expr) : Expr := .node .pow [b, e]
@[match_pattern] abbrev fn (f : Fn) (as : Exprs) : Expr := .node (.fn f) as
@[match_pattern] abbrev rel (r : Rel) (a b : Expr) : Expr := .node (.rel r) [a, b]
@[match_pattern] abbrev piecewise (bs : Exprs) : Expr := .node .piecewise bs
@[match_pattern] abbrev branch (v c : Expr) : Expr := .node .branch [v, c]

def int (n : Int) : Expr := .num (.rat n)
def rat (q : Rat) : Expr := .num (.rat q)
def zero : Expr := int 0
def one : Expr := int 1
def negOne : Expr := int (-1)
def nan : Expr := .num .nan
def half : Expr := .num .half
def symbol (name : String) : Expr := .sym ⟨name, .plain⟩
def typedSymbol (name : String) (t : DataType) : Expr := .sym (.typed name t)

instance (n : Nat) : OfNat Expr n := ⟨int n⟩

def ofExtent : Extent → Expr
  | .known n => int n
  | x => match Symbol.ofExtent x with
    | some s => .sym s
    | none => zero

def ofPosition : Expr → Expr
  | .lit n => int n
  | e => e

mutual

def same : Expr → Expr → Bool
  | .atom (.lit m), .atom (.num n) | .atom (.num n), .atom (.lit m) => n == .rat m
  | .atom a, .atom b => a == b
  | .node h as, .node k bs => sameHead h k && sameList as bs
  | _, _ => false

def sameList : Exprs → Exprs → Bool
  | [], [] => true
  | a :: as, b :: bs => same a b && sameList as bs
  | _, _ => false

/-- Whether an access is absolute plays no role. -/
def sameHead : Head → Head → Bool
  | .access f n _, .access g m _ => n == m && f.name == g.name && f == g
  | h, k => h == k

end

instance : BEq Expr := ⟨same⟩

mutual

def size : Expr → Nat
  | .atom _ => 1
  | .node _ as => sizeList as + 1

def sizeList : Exprs → Nat
  | [] => 0
  | a :: as => size a + sizeList as

end

mutual

def depth : Expr → Nat
  | .atom _ => 0
  | .node _ as => depthList as + 1

def depthList : Exprs → Nat
  | [] => 0
  | a :: as => max (depth a) (depthList as)

end

def args : Expr → Exprs
  | .atom _ => []
  | .node (.access ..) _ => []
  | .node (.resolved ..) as => as.take 2
  | .node (.placeholder ..) as => as.dropLast
  | .node _ as => as

def hiddenArgs : Expr → Exprs
  | .atom _ => []
  | .node (.access ..) as => as
  | .node (.resolved ..) as => as.drop 2
  | .node (.placeholder ..) as => as.drop (as.length - 1)
  | .node .. => []

def isNum : Expr → Bool
  | .num _ => true
  | _ => false

def num? : Expr → Option Number
  | .num n => some n
  | _ => none

def int? : Expr → Option Int
  | .num n => n.int?
  | .lit n => some n
  | _ => none

def rat? : Expr → Option Rat
  | .num n => n.rat?
  | _ => none

def isZero : Expr → Bool
  | .num n => n == .zero
  | _ => false

def isOne : Expr → Bool
  | .num n => n.isOne
  | _ => false

def isNegOne : Expr → Bool
  | .num n => n.isNegOne
  | _ => false

def isInteger : Expr → Bool
  | .num n => n.isInteger
  | _ => false

def isRational : Expr → Bool
  | .num n => n.isRational
  | _ => false

def isFloat : Expr → Bool
  | .num n => n.isFloat
  | _ => false

def isNan : Expr → Bool
  | .num .nan => true
  | _ => false

def isAdd : Expr → Bool
  | .node .add _ => true
  | _ => false

def isMul : Expr → Bool
  | .node .mul _ => true
  | _ => false

def isPow : Expr → Bool
  | .node .pow _ => true
  | _ => false

def isAccess : Expr → Bool
  | .node (.access ..) _ => true
  | _ => false

def isMember : Expr → Bool
  | .atom (.member _) => true
  | _ => false

def isSymbol : Expr → Bool
  | .sym _ => true
  | .node (.access ..) _ => true
  | _ => false

def isDiff : Expr → Bool
  | .node .diff _ => true
  | _ => false

def isCast : Expr → Bool
  | .node (.cast _) _ => true
  | _ => false

def isResolved : Expr → Bool
  | .node (.resolved ..) _ => true
  | _ => false

/-- Leaves of the algebra: nothing inside counts as an argument to be rebuilt. -/
def isLeaf : Expr → Bool
  | .atom _ => true
  | .node (.access ..) _ => true
  | _ => false

def isBoolean : Expr → Bool
  | .bool _ | .sym _ => true
  | .node (.access ..) _ | .node (.rel _) _ | .node .and _ | .node .or _ | .node .not _ => true
  | .node (.cast .boolean) _ => true
  | .node (.fn .pointerArithmetic) _ => true
  | _ => false

def terms : Expr → Exprs
  | .add ts => ts
  | e => [e]

def factors : Expr → Exprs
  | .mul fs => fs
  | e => [e]

def field? : Expr → Option GridField
  | .node (.access f ..) _ => some f
  | .node (.resolved f _) _ => some f
  | _ => none

def offsets : Expr → Exprs
  | .node (.access _ n _) as => as.take n
  | .node (.resolved _ n) as => (as.drop 2).take n
  | _ => []

def index : Expr → Exprs
  | .node (.access _ n _) as => as.drop n
  | .node (.resolved _ n) as => (as.drop 2).drop n
  | _ => []

def isAbsolute : Expr → Bool
  | .node (.access _ _ b) _ => b
  | _ => false

end Expr

def insertNew {α : Type} [BEq α] (xs : List α) (x : α) : List α := if xs.contains x then xs else xs ++ [x]

def unionNew {α : Type} [BEq α] (xs ys : List α) : List α := ys.foldl insertNew xs

end StencilForge
