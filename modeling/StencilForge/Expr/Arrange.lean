import StencilForge.Expr.Approx

/-!
# Expr — arrangement of terms and factors

The order in which people see terms and factors.  Terms are compared as monomials, the variables taken by their sort
keys, higher powers first.
-/

namespace StencilForge.Arrange

variable (A : Algebra) (ts : Exprs)

/-- Roots and symbolic exponents go into the base. -/
def decompose (f : Expr) : Expr × Int :=
  let (b, e) := A.baseExp f
  match e with
  | .num (.rat q) => if q.den = 1 then (b, q.num) else (A.pow b (.rat (mkRat 1 q.den)), q.num)
  | .num _ => (f, 1)
  | _ =>
    let (c, t) := e.coeffMulRational
    match c with
    | .rat q =>
      if q = -1 then (A.pow b t, -1)
      else if q = 1 then (f, 1)
      else (A.pow b (A.keepCoeff (.rat (mkRat 1 q.den)) t), q.num)
    | _ => (f, 1)

structure Monomial where
  term : Expr
  re : Float
  im : Float
  powers : List (Expr × Int)

def doubleValue (e : Expr) : Option (Float × Float) :=
  (e.approx 80).map fun v => (Double.encode v.re.settle, Double.encode v.im.settle)

def monomial (t : Expr) : Monomial :=
  let (c, r) := t.coeffMul
  let c := c.toFloat
  let start := ⟨t, c, 0.0, []⟩
  if r.isOne then start
  else r.factors.foldl (fun m f =>
    match if f.isNumber then doubleValue f else none with
    | some (x, y) => { m with re := m.re * x - m.im * y, im := m.re * y + m.im * x }
    | none =>
      let (b, e) := decompose A f
      { m with powers := Table.insert m.powers b e }) start

def compareFloat (x y : Float) : Ordering := if x < y then .lt else if y < x then .gt else .eq

def compareInts : Ints → Ints → Ordering
  | [], [] => .eq
  | [], _ => .lt
  | _, [] => .gt
  | a :: as, b :: bs => (compare a b).then (compareInts as bs)

def sortByKey (es : Exprs) : Exprs :=
  ((es.map fun e => (A.key e, e)).mergeSort fun a b => SortKey.le a.1 b.1).map (·.2)

def sortBySize (es : Exprs) : Exprs :=
  let keyed := es.map fun e => (e.nodeCount, A.key e, e)
  (keyed.mergeSort fun a b => a.1 < b.1 || (a.1 == b.1 && SortKey.le a.2.1 b.2.1)).map (·.2.2)

def isNumeral : Expr → Bool
  | .num _ => true
  | .const .pi | .const .euler => true
  | _ => false

/-- A positive number less a multiple of something keeps the number in front. -/
def numberFirst? : Option Exprs :=
  let positive := fun
    | .num n => n.isPos
    | _ => true
  match ts.filter isNumeral, ts.filter (!isNumeral ·) with
  | [n], [.mul [.num c, x]] => given (positive n && c.isNeg) [n, .mul [.num c, x]]
  | _, _ => none

def termsByPowers : Exprs :=
  let ms := ts.map (monomial A)
  let gens := sortByKey A (unionNew [] (ms.flatMap fun m => m.powers.map (·.1)))
  let keyed := ms.map fun m => (gens.map fun g => -((Table.get? m.powers g).getD 0), m)
  let order := fun a b =>
    (compareInts a.1 b.1).then <| (compare (a.2.im != 0).toNat (b.2.im != 0).toNat).then <|
        (compareFloat a.2.im b.2.im).then (compareFloat a.2.re b.2.re)
  (keyed.mergeSort fun a b => order a b != .gt).map (·.2.term)

def terms : Exprs := (numberFirst? ts).getD (termsByPowers A ts)

def factors (fs : Exprs) : Exprs := sortByKey A fs

def functionIndex : Fn → Int
  | .exp => 10 | .log => 11 | .sin => 20 | .cos => 21 | .tan => 22 | .cot => 23
  | .sinh => 30 | .cosh => 31 | .tanh => 32 | .coth => 33
  | .conjugate => 40 | .re => 41 | .im => 42 | .arg => 43
  | .named _ | .advection | .diffusion | .transient | .pointerArithmetic => 0
  | .bitXor | .bitAnd | .bitOr | .shiftLeft | .shiftRight | .intDiv | .powerOf2 | .addressOf => 0
  | _ => 10000

def classKey (e : Expr) : SortKey :=
  let key := fun a b n => .seq [.int a, .int b, .text n]
  match e with
  | .atom (.num _) | .atom (.lit _) => key 1 0 "Number"
  | .atom (.bool _) | .atom (.type _) => key 5 0 e.className
  | .atom _ => key 2 0 e.className
  | .node h _ => match h with
    | .access .. => key 2 0 "Access"
    | .mul => key 3 0 "Mul"
    | .add => key 3 1 "Add"
    | .pow => key 3 2 "Pow"
    | .fn .min | .fn .max => key 5 0 e.className
    | .fn f => key 4 (functionIndex f) f.name
    | .cast .vectorAccess => key 4 10000 e.className
    | .cast _ => key 4 0 e.className
    | .piecewise => key 4 0 "Piecewise"
    | .placeholder n _ => key 4 10000 n
    | _ => key 5 0 e.className

def keyedByText : Expr → Bool
  | .atom _ | .node (.access ..) _ | .node .element _ | .node (.resolved ..) _ | .node (.cast _) _
  | .node (.fn .addressOf) _ => true
  | _ => false

def oneKey : SortKey := .seq [classKey .one, .seq [.int 0, .seq []], .seq [], .number .one]

def key (e : Expr) : SortKey :=
  match e with
  | .atom (.num n) => .seq [classKey e, .seq [.int 0, .seq []], .seq [], .number n]
  | .atom (.lit n) => .seq [classKey e, .seq [.int 0, .seq []], .seq [], .number (.ofInt n)]
  | .atom (.bool _) | .atom (.type _) => .seq [classKey e, .seq [.int 0, .seq []], oneKey, .number .one]
  | .atom (.sym ⟨_, .dummy i⟩) =>
    .seq [classKey e, .seq [.int 2, .seq [.text (A.text e), .int i]], oneKey, .number .one]
  | .node (.access ..) _ => .seq [classKey e, .seq [.int 1, .seq [.text e.accessName]], oneKey, .number .one]
  | .atom _ => .seq [classKey e, .seq [.int 1, .seq [.text (A.text e)]], oneKey, .number .one]
  | .node (.rel _) as | .node .and as | .node .or as | .node .not as | .node .branch as
  | .node .tuple as => .seq [classKey e, .seq [.int as.length, .seq (as.map A.key)], oneKey, .number .one]
  | _ =>
    let (c, r) := e.coeffMul
    let (b, x) := match r with
      | .pow b x => (b, x)
      | r => (r, .one)
    let args := match b with
      | .sym ⟨_, .dummy _⟩ => [A.key b]
      | .add ts => (terms A ts).map A.key
      | .mul fs => (factors A fs).map A.key
      | b => if keyedByText b then [.text (A.text b)] else b.args.map A.key
    .seq [classKey b, .seq [.int args.length, .seq args], A.key x, .number c]

end StencilForge.Arrange
