import StencilForge.Expr.Basic
import StencilForge.Stencil.Basic

/-!
# Expr — the storage order

Equal sums are built alike, because terms are stored in one order: by class (`Expr.className`, ranked by `classRank`),
then by names, values, or arguments, fewer arguments first.
-/

namespace StencilForge

namespace Number

def className : Number → String
  | .rat q =>
    if q = 0 then "Zero" else if q = 1 then "One" else if q = -1 then "NegativeOne"
    else if q = mkRat 1 2 then "Half" else if q.den = 1 then "Integer" else "Rational"
  | .float _ => "Float"
  | .inf => "Infinity"
  | .negInf => "NegativeInfinity"
  | .nan => "NaN"

end Number

namespace Constant

def className : Constant → String
  | pi => "Pi"
  | euler => "Exp1"
  | imaginary => "ImaginaryUnit"
  | complexInf => "ComplexInfinity"

end Constant

namespace Symbol

def className (s : Symbol) : String :=
  match s.kind with
  | .plain => "Symbol"
  | .dummy _ => "Dummy"
  | .typed _ => "TypedSymbol"
  | .shape .. => "FieldShapeSymbol"
  | .stride .. => "FieldStrideSymbol"
  | .pointer .. => "FieldPointerSymbol"
  | .thread _ => "ThreadIndexingSymbol"
  | .wild => "Wild"

end Symbol

namespace Rel

def className : Rel → String
  | eq => "Equality"
  | ne => "Unequality"
  | lt => "StrictLessThan"
  | le => "LessThan"
  | gt => "StrictGreaterThan"
  | ge => "GreaterThan"

end Rel

namespace CastKind

def className : CastKind → String
  | plain => "cast_func"
  | boolean => "boolean_cast_func"
  | reinterpret => "reinterpret_cast_func"
  | vectorAccess => "vector_memory_access"

end CastKind

namespace DataType

def className : DataType → String
  | .basic .. => "BasicType"
  | .pointer .. => "PointerType"
  | .vector .. => "VectorType"
  | .record .. => "StructType"
  | .written _ => "str"

end DataType

namespace Head

def className : Head → String
  | .add => "Add"
  | .mul => "Mul"
  | .pow => "Pow"
  | .fn f => f.name
  | .rel r => r.className
  | .and => "And"
  | .or => "Or"
  | .not => "Not"
  | .piecewise => "Piecewise"
  | .branch => "ExprCondPair"
  | .cast k => k.className
  | .access .. => "Access"
  | .element => "Indexed"
  | .resolved .. => "ResolvedFieldAccess"
  | .diff => "Diff"
  | .diffOp => "DiffOperator"
  | .series .sum => "Sum"
  | .series .product => "Product"
  | .derivative => "Derivative"
  | .placeholder n _ => n
  | .tuple => "Tuple"

end Head

namespace Expr

def className : Expr → String
  | .atom (.num n) => n.className
  | .atom (.const c) => c.className
  | .atom (.bool b) => if b then "BooleanTrue" else "BooleanFalse"
  | .atom (.sym s) => s.className
  | .atom (.type t) => t.className
  | .atom (.member _) => "str"
  | .atom (.lit n) => (Number.ofInt n).className
  | .atom (.field _) => "Field"
  | .node h _ => h.className

def rankedClasses : Strings :=
  ["Zero", "One", "Half", "Infinity", "NaN", "NegativeOne", "NegativeInfinity",
   "Integer", "Rational", "Float", "Exp1", "Pi", "ImaginaryUnit", "Symbol", "Wild", "Temporary",
   "Pow", "Mul", "Add", "Derivative", "Integral", "Abs", "Sign", "Sqrt", "Floor", "Ceiling",
   "Re", "Im", "Arg", "Conjugate", "Exp", "Log", "Sin", "Cos", "Tan", "Cot", "ASin", "ACos",
   "ATan", "ACot", "Sinh", "Cosh", "Tanh", "Coth", "ASinh", "ACosh", "ATanh", "ACoth",
   "RisingFactorial", "FallingFactorial", "factorial", "binomial", "Gamma", "LowerGamma",
   "UpperGamma", "PolyGamma", "Erf", "Chebyshev", "Chebyshev2", "Function", "WildFunction",
   "Lambda", "Order", "Equality", "Unequality", "StrictGreaterThan", "StrictLessThan", "GreaterThan", "LessThan"]

def classRank (c : String) : Nat := rankedClasses.findIdx (· == c)

/-- By rank, and by name among those without one. -/
def compareClass (a b : String) : Ordering :=
  if a == b then .eq
  else
    let i := classRank a
    let j := classRank b
    if i = rankedClasses.length && j = rankedClasses.length then compare a b else compare i j

/-- The field, the offset as a direction, and the index. -/
def accessName : Expr → String
  | e@(.node (.access f ..) _) =>
    let plain := (e.offsets ++ e.index).all fun x => x.int?.isSome || x.isMember
    let idx := (if f.indexDimensions = 1 then e.index.take 1 else e.index).map indexText
    let sup := if f.indexDimensions = 0 || !plain then "" else "^" ++ ",".intercalate idx
    let pos :=
      if plain then Stencil.directionName (e.offsets.filterMap int?)
      else ",".intercalate (e.offsets.map indexText)
    f.name ++ "_" ++ pos ++ sup
  | _ => ""
where
  indexText : Expr → String
    | .atom (.member s) => s
    | .atom (.sym s) => s.name
    | e => e.int?.elim "?" toString

def symbolName : Expr → String
  | .sym s => s.name
  | e => e.accessName

def compareAtom : Atom → Atom → Ordering
  | .num a, .num b => match a, b with
    | .rat p, .rat q => (compare p.num q.num).then (compare p.den q.den)
    | .float x, .float y =>
      -- sign, mantissa, exponent
      (compare x.isNeg.toNat y.isNeg.toNat).then
        ((compare x.mantissa.natAbs y.mantissa.natAbs).then (compare x.exponent y.exponent))
    | _, _ => .eq
  | .lit a, .lit b => compare a b
  | .lit a, .num (.rat q) => compare a q.num
  | .num (.rat q), .lit a => compare q.num a
  | .sym s, .sym t => (compare s.name t.name).then <| match s.kind, t.kind with
    | .dummy i, .dummy j => compare i j
    | _, _ => compare ((s.dtype?.map DataType.text).getD "") ((t.dtype?.map DataType.text).getD "")
  | .member s, .member t => compare s t
  | .field f, .field g => compare f.name g.name
  | _, _ => .eq

mutual

def order : Expr → Expr → Ordering
  | a, b =>
    (compareClass a.className b.className).then <|
      match a, b with
      | .atom x, .atom y => compareAtom x y
      | .node h as, .node _ bs =>
        match h with
        | .access .. => (compare (accessName (.node h as)) (accessName b)).then (orderList as bs)
        | _ => (compare as.length bs.length).then (orderList as bs)
      | _, _ => .eq

def orderList : Exprs → Exprs → Ordering
  | [], [] => .eq
  | [], _ :: _ => .lt
  | _ :: _, [] => .gt
  | a :: as, b :: bs => (order a b).then (orderList as bs)

end

def sorted (es : Exprs) : Exprs := es.mergeSort fun a b => order a b != .gt

end Expr

/-!
## Expr — sort keys

Nested sequences of integers, texts and numbers, compared entry by entry, a shorter one first.
-/

inductive SortKey where
  | int (n : Int)
  | text (s : String)
  | number (n : Number)
  | seq (ks : List SortKey)
  deriving Repr

namespace SortKey

/-- Undefined values come last. -/
def compareNumber (a b : Number) : Ordering :=
  (Number.compare? a b).getD (if a == .nan then (if b == .nan then .eq else .gt) else .lt)

def kindIndex : SortKey → Nat
  | .int _ | .number _ => 0
  | .text _ => 1
  | .seq _ => 2

mutual

def order : SortKey → SortKey → Ordering
  | .int a, .int b => compare a b
  | .text a, .text b => compare a b
  | .number a, .number b => compareNumber a b
  | .int a, .number b => compareNumber (.ofInt a) b
  | .number a, .int b => compareNumber a (.ofInt b)
  | .seq as, .seq bs => orderList as bs
  | a, b => compare a.kindIndex b.kindIndex

def orderList : List SortKey → List SortKey → Ordering
  | [], [] => .eq
  | [], _ :: _ => .lt
  | _ :: _, [] => .gt
  | a :: as, b :: bs => (order a b).then (orderList as bs)

end

def le (a b : SortKey) : Bool := order a b != .gt

end SortKey

end StencilForge
