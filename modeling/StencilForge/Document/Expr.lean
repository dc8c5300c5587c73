import StencilForge.Assignment.Basic
import StencilForge.Difference.Gradient
import StencilForge.Document.Reader

/-!
# Documents — expressions

A number, a name, or a list of an operation and its arguments.  Reading builds nodes in the standard algebra; in
writing, arguments without order are sorted by their texts.
-/

namespace StencilForge.Document

open Build IntegerFunction

abbrev A : Algebra := .standard

structure Names where
  fields : Fields := []
  types : List (String × DataType) := []
  aliases : List (String × Expr) := []

variable (c : Names) (j : Json) {α : Type}

/-- Of two fields with one name the later one counts. -/
def Names.field (n : String) : Outcome GridField :=
  present .missing (c.fields.reverse.find? (·.name == n))

def Names.symbol (n : String) : Expr :=
  match c.aliases.find? (·.1 == n), c.types.find? (·.1 == n) with
  | some (_, e), _ => e
  | none, some (_, t) => .typedSymbol n t
  | none, none => .symbol n

def readNames : Outcome Names := do
  let fields ← readFields j
  return { fields, types := ← (pairs j "types").mapM fun (k, t) => do return (k, ← readType t) }

/-! ### Reading -/

def functionOf (name : String) : Option Fn :=
  [.sin, .cos, .tan, .tanh, .exp, .log, .abs, .floor, .ceiling, .min, .max, .sign, .fastDivision, .fastSqrt, .fastInvSqrt,
   .bitXor, .bitAnd, .bitOr, .shiftLeft, .shiftRight, .intDiv, .powerOf2, .moduloFloor, .moduloCeil, .divCeil, .divFloor,
   .vecAny, .vecAll, .addressOf].find? (·.name == name)

def readFloat : String → Outcome Float
  | "inf" => .ok Json.infinity
  | "-inf" => .ok (-Json.infinity)
  | "nan" => .ok Json.notANumber
  | s => match Json.parse s with
    | .ok (.float x) => .ok x
    | .ok (.int n) => .ok (Number.ofInt n).toFloat
    | _ => bad

def readInt (s : String) : Outcome Int :=
  present .general (Decimal.readInt s)

def numberedDeep : Nat → Json → StateM Int Json
  | 0, j => pure j
  | fuel + 1, j => match j with
    | .arr [.str "placeholder", n, e] => do
      let e ← numberedDeep fuel e
      modify (· + 1)
      return .arr [.str "placeholder", n, e, .int (← get)]
    | .arr xs => .arr <$> xs.mapM (numberedDeep fuel)
    | .obj ps => do return .obj (← ps.mapM fun (k, v) => do return (k, ← numberedDeep fuel v))
    | j => pure j

def numbered : Json := ((numberedDeep (depth j + 1) j).run 0).1

def readInteger : Json → Outcome Int
  | .int n => .ok n
  | .arr [.str "int", .str s] => readInt s
  | _ => bad

def readOptInt : List Json → Outcome (Option Int)
  | [] => .ok none
  | j :: _ => some <$> asInt j

def indexOr (position : Json → Outcome Expr) : Json → Outcome Expr
  | .str s => .ok (.atom (.member s))
  | j => position j

mutual

/-- `fuel` bounds the nesting depth. -/
def readExprDeep (c : Names) : Nat → Json → Outcome Expr
  | 0, _ => bad
  | fuel + 1, j => match j with
    | .bool b => .ok (.bool b)
    | .int n => .ok (.int n)
    | .float x => .ok (.num (.ofFloat x))
    | .str s => .ok (c.symbol s)
    | .arr (.str h :: as) => readNode c fuel h as
    | _ => bad

/-- Plain integers stay plain. -/
def readPositionDeep (c : Names) : Nat → Json → Outcome Expr
  | 0, _ => bad
  | _, .int n => .ok (.lit n)
  | fuel + 1, j => readExprDeep c fuel j

def readOperandDeep (c : Names) (machine : Bool) : Nat → Json → Outcome Operand
  | 0, _ => bad
  | fuel + 1, j => match j with
    | .arr [.str "np", .str t, v] => do
      let t ← DataType.ofName t
      match ← readExprDeep c fuel v with
      | .num n => return .stored t n
      | _ => bad
    | .int n => return if machine then .machine (.ofInt n) else .expr (.int n)
    | .float x => return if machine then .machine (.ofFloat x) else .expr (.num (.ofFloat x))
    | j => .expr <$> readExprDeep c fuel j

def readNode (c : Names) : Nat → String → List Json → Outcome Expr
  | 0, _, _ => bad
  | fuel + 1, h, as => do
    let expr := readExprDeep c fuel
    let all := fun js => js.mapM (readExprDeep c fuel)
    let position := readPositionDeep c fuel
    let index := indexOr position
    let series := fun kind e k lo hi => do return .node (.series kind) [← expr e, ← expr k, ← expr lo, ← expr hi]
    match h, as with
    | "int", [.str s] => return .int (← readInt s)
    | "float", [.str s] => return .num (.ofFloat (← readFloat s))
    | "rat", [p, q] => do
      let p ← readInteger p
      let q ← readInteger q
      if q = 0 then return (if p = 0 then .nan else .const .complexInf)
      return .rat (mkRat p 1 / mkRat q 1)
    | "ts", [.str n, t] => return .typedSymbol n (← readType t)
    | "const", [.str n] => match n with
        | "pi" => return .const .pi
        | "E" => return .const .euler
        | "oo" => return .num .inf
        | "-oo" => return .num .negInf
        | "I" => return .iUnit
        | "zoo" => return .const .complexInf
        | _ => return .nan
    | "np", [.str t, v] => do
      let t ← DataType.ofName t
      match v with
      | .float x => return .num (.ofFloat x)
      | v => do
        let n ← asInt v
        return if t.isFloat then .num (.ofFloat (Number.ofInt n).toFloat) else .int n
    | "ctr", [.int i] => return .typedSymbol s!"ctr_{i}" .integer
    | "field", [.str n] => return .atom (.field (← c.field n))
    | "acc", .str n :: .arr os :: rest => do
      let f ← c.field n
      let a ← Access.shifted f (← os.mapM position)
      match rest with
      | [.arr is] => Access.value a (← is.mapM index)
      | _ => return a
    | "absacc", .str n :: .arr os :: rest => do
      let f ← c.field n
      let os ← os.mapM position
      match rest with
      | [.arr is] => Access.absolute f os (some (← is.mapM index))
      | _ => Access.absolute f os none
    | "dim", [.str n, .int i] => do
      let f ← c.field n
      let k ← Layout.place f.shape.length i
      return .ofExtent (f.shape.getD k (.known 0))
    | "+", as => node A .add (← all as)
    | "*", as => node A .mul (← all as)
    | "**", [b, e] => do node A .pow [← expr b, ← expr e]
    | "-", [a] => return A.neg (← expr a)
    | "-", [a, b] => return A.sub (← expr a) (← expr b)
    | "/", [a, b] => return A.quotient (← expr a) (← expr b)
    | "and", as => node A .and (← all as)
    | "or", as => node A .or (← all as)
    | "not", as => node A .not (← all as)
    | "pw", as => do
      let bs ← as.mapM fun
        | .arr [v, k] => do return .branch (← expr v) (← expr k)
        | _ => bad
      node A .piecewise bs
    | "cast", [e, t] => do return cast .plain (← expr e) [.type (← readType t)]
    | "reinterpret", [e, t] => do return cast .reinterpret (← expr e) [.type (← readType t)]
    | "indexed", [.str n, t, e] => do return .node .element [.typedSymbol n (← readType t), ← expr e]
    | "fn", .str n :: as => do return .fn (.named n) (← all as)
    | "Sum", [e, .arr [k, lo, hi]] => series .sum e k lo hi
    | "Product", [e, .arr [k, lo, hi]] => series .product e k lo hi
    | "sqrt", [a] => return A.sqrt (← expr a)
    | "Diff", e :: rest => do
      let e ← expr e
      let e := match e with
        | .atom (.field f) => Access.center f
        | e => e
      let rest ← all rest
      node A .diff [e, rest.getD 0 .negOne, rest.getD 1 .negOne]
    | "diff", e :: rest => do
      let e ← expr e
      let e := if rest.isEmpty then e else Transport.valueOf e
      Derivative.nested A e (← all rest)
    | "transient", e :: rest => do Transport.transient (← expr e) (← readOptInt rest)
    | "advection", e :: v :: rest => do Transport.advection (← expr e) (← expr v) (← readOptInt rest)
    | "diffusion", e :: d :: rest => do Transport.diffusion (← expr e) (← expr d) (← readOptInt rest)
    | "placeholder", [.str n, e, .int k] => do return Placeholder.make n k.toNat (← expr e)
    | "DiffOp", rest => do
      let rest ← all rest
      return .node .diffOp [rest.getD 0 .negOne, rest.getD 1 .negOne]
    | h, as =>
      match Rel.ofText? h, as with
      | some r, [a, b] => do node A (.rel r) [← expr a, ← expr b]
      | _, _ => match functionOf h with
        | some f =>
          if isTyped f then do ofOperands f (← as.mapM (readOperandDeep c false fuel))
          else do node A (.fn f) (← all as)
        | none => bad

end

def fuelFor : Nat := 4 * depth j + 8

def readExpr : Outcome Expr := readExprDeep c (fuelFor j) j

def readExprs (js : List Json) : Outcome Exprs := js.mapM (readExpr c)

def readTable : Json → Outcome (Table Expr Expr) := listOf fun
  | .arr [a, b] => do return (← readExpr c a, ← readExpr c b)
  | _ => bad

def readPosition : Outcome Expr := readPositionDeep c (fuelFor j) j

def readIndex : Outcome Expr := indexOr (readPosition c) j

def readOperand (machine : Bool) (j : Json) : Outcome Operand := readOperandDeep c machine (fuelFor j) j

def exprD (k : String) (d : Expr) : Outcome Expr := (j.get? k).elim (.ok d) (readExpr c)

def optExprs (k : String) : Outcome (Option Exprs) := (list? j k).mapM (readExprs c)

/-! ### Writing -/

/-- `fuel` bounds the nesting depth. -/
def writeExpr : Nat → Expr → Answer
  | 0, _ => bad
  | fuel + 1, e =>
    let one := writeExpr fuel
    let head := fun n as => do return .arr (.str n :: (← as.mapM (writeExpr fuel)))
    let anyOrder := fun n as => do return .arr (.str n :: sorted (← as.mapM (writeExpr fuel)))
    match e with
    | .atom (.num n) => match n with
      | .rat q => .ok (if q.den = 1 then ofInt q.num else .arr [.str "rat", ofInt q.num, ofInt q.den])
      | .float b => .ok (ofFloat (Double.encode b))
      | .inf => .ok (.arr [.str "const", .str "oo"])
      | .negInf => .ok (.arr [.str "const", .str "-oo"])
      | .nan => .ok (.arr [.str "const", .str "nan"])
    | .atom (.const k) => .ok (.arr [.str "const", .str (Text.constantText k)])
    | .atom (.bool b) => .ok (.bool b)
    | .atom (.lit n) => .ok (ofInt n)
    | .atom (.member s) => .ok (.str s)
    | .atom (.type t) => ofType t
    | .atom (.field f) => .ok (.arr [.str "field", .str f.name])
    | .atom (.sym s) => match s.kind with
      | .plain | .wild => .ok (.str s.name)
      | .dummy _ => .ok (.arr [.str "dummy", .str s.name])
      | _ => do return .arr [.str "ts", .str s.name, ← ofType (s.dtype?.getD .double)]
    | .node h as => match h, as with
      | .add, as => anyOrder "+" as
      | .mul, as => anyOrder "*" as
      | .and, as => anyOrder "and" as
      | .or, as => anyOrder "or" as
      | .fn .min, as => anyOrder "Min" as
      | .fn .max, as => anyOrder "Max" as
      | .pow, as => head "**" as
      | .not, as => head "not" as
      | .rel r, as => head r.text as
      | .piecewise, as => do
        let bs ← as.mapM fun
          | .branch v k => do return .arr [← one v, ← one k]
          | _ => bad
        return .arr (.str "pw" :: bs)
      | .cast k, e :: .atom (.type t) :: rest => do
        return .arr ([.str (Head.cast k).className, ← one e, ← ofType t] ++ (← rest.mapM one))
      | .access f _ absolute, _ => do
        return .arr [.str (if absolute then "absacc" else "acc"), .str f.name,
          .arr (← e.offsets.mapM one), .arr (← e.index.mapM one)]
      | .element, [.atom (.sym s), i] => do return .arr [.str "indexed", .str s.name, ← one i]
      | .resolved .., .atom (.sym s) :: i :: _ => do return .arr [.str "res", .str s.name, ← one i]
      | .series _, [b, k, lo, hi] => do
        return .arr [.str h.className, ← one b, .arr [.str "Tuple", ← one k, ← one lo, ← one hi]]
      | h, _ => head h.className e.args

def ofExpr (e : Expr) : Answer := writeExpr (e.depth + 2) e

def ofExprs (es : Exprs) : Answer := .arr <$> es.mapM ofExpr

def ofTable (key : α → Answer) (t : Table α Expr) : Answer := do
  return .arr (sorted (← t.mapM fun (k, v) => do return .arr [← key k, ← ofExpr v]))

def ofExtent (x : Extent) : Answer := ofExpr (.ofExtent x)

def ofField (f : GridField) : Answer := do
  let exts := fun xs => .arr <$> xs.mapM ofExtent
  return .obj [("name", .str f.name), ("dtype", ← ofType f.dtype), ("type", .str (fieldKindName f.kind)),
    ("layout", .arr (f.layout.map .int)), ("shape", ← exts f.shape), ("strides", ← exts f.strides),
    ("spatial_dimensions", .int f.spatialDimensions), ("index_dimensions", .int (f.shape.length - f.layout.length)),
    ("ndim", .int f.dimensions), ("has_fixed_shape", .bool f.hasFixedShape),
    ("has_fixed_index_shape", .bool f.hasFixedIndexShape),
    ("spatial_shape", ← exts f.spatialShape), ("index_shape", ← exts f.indexShape),
    ("spatial_strides", ← exts f.spatialStrides), ("index_strides", ← exts f.indexStrides)]

/-!
## Documents — assignments, matrices, arrays
-/

def readAssignment : Json → Outcome Assignment
  | .arr [.str ":=", l, r] => do Assignment.make (← readExpr c l) (← readExpr c r)
  | _ => bad

def readAssignments : Outcome (List Assignment) := listOf (readAssignment c) j

def readFormula : Outcome Formula :=
  match j with
  | .arr (.str ":=" :: _) => .assignment <$> readAssignment c j
  | .arr [.str "matrix", .arr rows] => .matrix <$> rows.mapM (listOf (readExpr c))
  | j => .expr <$> readExpr c j

def readFormulas : Outcome Formula := do
  match list? j "list" with
  | some xs => return .list (← xs.mapM (readFormula c))
  | none => readFormula c (j "expr")

def ofRows (rows : List Exprs) : Answer := do
  return .arr [.str "matrix", .arr (← rows.mapM ofExprs)]

def ofAssignment (a : Assignment) : Answer := do return .arr [.str ":=", ← ofExpr a.lhs, ← ofExpr a.rhs]

def ofAssignments (as : List Assignment) : Answer := .arr <$> as.mapM ofAssignment

def ofFormula : Formula → Answer
  | .expr e => ofExpr e
  | .assignment a => ofAssignment a
  | .matrix rows => ofRows rows
  | .list fs => .arr <$> fs.mapM ofFormula

/-! ### Arrays as nested lists -/

def nestDeep (one : α → Answer) : Nats → List α → Answer
  | [], x :: _ => one x
  | [], [] => bad
  | n :: r, xs => do
    let w := NdArray.volume r
    return .arr (← (List.range n).mapM fun i => nestDeep one r ((xs.drop (i * w)).take w))

def ofArray (one : α → Answer) (a : NdArray α) : Answer := nestDeep one a.shape a.toList

def nestedShape : Json → Nats
  | .arr [] => [0]
  | .arr (x :: xs) => (xs.length + 1) :: nestedShape x
  | _ => []

def nestedLeaves : Json → List Json
  | .arr xs => xs.flatMap nestedLeaves
  | j => [j]

/-- Parts of different lengths are refused. -/
def readArray (one : Json → Outcome α) (j : Json) : Outcome (NdArray α) := do
  let shape := nestedShape j
  let leaves := nestedLeaves j
  if leaves.length != NdArray.volume shape then raise .invalid
  return ⟨shape, (← leaves.mapM one).toArray⟩

end StencilForge.Document
