import StencilForge.Code.Dialect
import StencilForge.Expr.Build

/-!
# Code — expressions

Expressions as C-like code.  Small whole powers become products, rational numbers decimals with fifteen digits;
functions that the dialect does not know are written all the same and remembered.
-/

namespace StencilForge.Code

variable (v : InstructionSet)

structure Style where
  dialect : Dialect := .c
  vectors : Option InstructionSet := none
  named : Bool := false

/-- The state are the functions met that the dialect does not know. -/
abbrev Write := StateT Exprs Outcome

variable (A : Algebra) (s : Style)

def typeName (t : DataType) : Outcome String :=
  match s.named, s.vectors with
  | true, some v => t.cNameWith fun _ b _ => v.vectorName b
  | _, _ => t.cName

def floatText (b : Binary) : String := (Decimal.Layout.standard 17 true).write b

def ratioText (q : Rat) : String := (Decimal.Layout.standard 15 true).write (Binary.ofRat Number.precision q)

def numberText : Number → String
  | .rat q => if q.den = 1 then toString q.num else ratioText q
  | .float b => floatText b
  | .inf => "INFINITY"
  | .negInf => "-INFINITY"
  | .nan => "NAN"

def typedNumber (text : String) (t : DataType) : Outcome String :=
  let pointed := text.toList.contains '.'
  match t with
  | .basic (.float 32) _ => .ok (if pointed then text ++ "f" else text ++ ".0f")
  | .basic (.float 64) _ => .ok (if pointed then text else text ++ ".0")
  | .basic .. | .record .. => .ok text
  | _ => raise .noSuchPart

/-- Brackets around what binds less tightly than `level`, also at the same level unless `strict`. -/
def bracket (e : Expr) (twiceLevel : Nat) (text : String) : String :=
  if 2 * Text.precedence e ≤ twiceLevel then s!"({text})" else text

def namedType : DataType → DataType
  | .vector b w => match v.vectorName b with
    | .ok n => .written n
    | .error _ => .vector b w
  | t => t

def vectorNamed (v : InstructionSet) : Expr → Expr
  | .atom (.type t) => .type (namedType v t)
  | .atom (.sym ⟨n, .typed t⟩) => .sym ⟨n, .typed (namedType v t)⟩
  | .atom a => .atom a
  | .node h as => .node h (as.map (vectorNamed v))

def unsupported (e : Expr) : Write String := do
  modify fun seen => insertNew seen e
  return Text.ofExpr A e

def libraryConstant? (e : Expr) : Option String :=
  let pi := .const .pi
  [(pi, "M_PI"), (.const .euler, "M_E"), (.mul [.half, pi], "M_PI_2"), (.mul [.rat (mkRat 1 4), pi], "M_PI_4"),
    (.mul [.int 2, .pow pi .negOne], "M_2_PI"), (.mul [.int 2, .pow pi (.rat (mkRat (-1) 2))], "M_2_SQRTPI"),
    (.fn .log [.int 2], "M_LN2"), (.fn .log [.int 10], "M_LN10")].lookup e

/-- Reserved words get an underscore. -/
def symbolName (x : Symbol) : Outcome String :=
  match x.kind with
  | .dummy _ => .ok s!"_{x.name}"
  | .thread _ =>
    if s.dialect == .opencl then
      match x.name.splitOn "." with
      | [f, d] =>
        let calls := [("blockIdx", "get_group_id"), ("threadIdx", "get_local_id"), ("blockDim", "get_local_size")]
        let call := (calls.lookup f).getD "get_global_size"
        let place := ["x", "y"].idxOf d
        .ok s!"{call}({place})"
      | _ => .ok x.name
    else .ok x.name
  | _ => .ok (if Dialect.reserved.contains x.name then x.name ++ "_" else x.name)

/-- The minus sign, numerator and denominator, factors in the order in which they are written. -/
def parts (e : Expr) : Bool × Exprs × List (Expr × Bool) :=
  let (c, r) := e.coeffMul
  let (above, below) := (Arrange.factors A (if c.isNeg then A.keepCoeff c.neg r else e).factors).foldl (fun (above, below) f =>
    match f with
    | .pow b (.num (.rat q)) =>
      if q < 0 then
        if q = -1 then (above, below ++ [(b, b.isMul && b.args.length != 1)])
        else (above, below ++ [(.pow b (.rat (-q)), false)])
      else (above ++ [f], below)
    | f => (above ++ [f], below)) (([] : Exprs), ([] : List (Expr × Bool)))
  (c.isNeg, if above.isEmpty then [.one] else above, below)

def smallExponent? : Expr → Option Int
  | .num (.rat q) => given (q.den = 1 && -8 < q.num && q.num < 8 && q.num != 0) q.num
  | _ => none

def hasValue (x : Expr) (q : Rat) : Bool := x.num?.any (·.sameValue (.rat q))

def choose (op : String) : Nat → Strings → String
  | 0, xs => "".intercalate xs
  | _, [] => ""
  | _, [x] => x
  | fuel + 1, xs =>
    let h := xs.length / 2
    let a := choose op fuel (xs.take h)
    let b := choose op fuel (xs.drop h)
    s!"(({a} {op} {b}) ? {a} : {b})"

def noDefault : String :=
  "All Piecewise expressions must contain an (expr, True) statement to be used as a default condition. " ++
    "Without one, the generated expression may not evaluate to anything under some condition."

def isVector (e : Expr) : Outcome Bool := do
  match ← Typing.typeOf e with
  | .vector _ w => do
    require (w == v.width) .violated
    return true
  | _ => return false

/-- The instructions for an operation on vectors. -/
def instructions? (e : Expr) : Outcome (Option InstructionSet) := do
  match e with
  | .node .add _ | .node .mul _ | .node .pow _ | .node (.rel _) _ | .node .and _ | .node .or _ | .node .piecewise _
  | .fn .fastDivision _ | .fn .fastInvSqrt _ => return if ← isVector v e then some v else none
  | _ => return none

def foldInstr (op : String) : Strings → String
  | [] => ""
  | x :: r => r.foldl (fun a b => v.write op [a, b]) x

/-- A sum, product or choice with its own signs: the sign and the text. -/
abbrev Signed := Bool × String

mutual

/-- `fuel` bounds the nesting depth. -/
def print : Nat → Expr → Write String
  | 0, _ => return ""
  | fuel + 1, e => do
    match ← s.vectors.bindM (instructions? · e) with
    | some v => printVector fuel v e
    | none => printScalar fuel e

def printScalar : Nat → Expr → Write String
  | 0, _ => return ""
  | fuel + 1, e => do
    let sub := print fuel
    let tight := fun level x => do return bracket x (2 * level) (← sub x)
    match e with
    | .atom (.num n) => return numberText n
    | .atom (.lit n) => return toString n
    | .atom (.const c) => match c with
      | .imaginary => return "I"
      | .complexInf => unsupported A e
      | _ => return (libraryConstant? e).getD ""
    | .atom (.bool b) => return if b then "true" else "false"
    | .atom (.sym x) => symbolName s x
    | .atom (.type t) => typeName s t
    | .atom (.member n) => return n
    | .atom (.field f) => return f.name
    | .node h as => match h, as with
      | .add, ts =>
        let parts ← (Arrange.terms A ts).mapM fun t => do return (← sub t, decide (Text.precedence t < 40))
        return Text.joinTerms parts
      | .mul, _ => match libraryConstant? e with
        | some m => return m
        | none => do
          let (negative, text) ← printProduct fuel e
          return (if negative then "-" else "") ++ text
      | .pow, [b, x] =>
        if !e.hasSymbols then
          let t ← Typing.typeOf e
          let text ← match e.uncast.approxReal with
            | some v => pure (floatText v.settle)
            | none => unsupported A e
          typedNumber text t
        else match smallExponent? x with
          | some n =>
            let body ← sub (.mulOf (.replicate n.natAbs b))
            return if n > 0 then s!"({body})" else s!"1 / ({body})"
          | none =>
            if hasValue x (mkRat 1 2) then return s!"sqrt({← sub b})"
            else if x == .rat (mkRat 1 3) then return s!"cbrt({← sub b})"
            else if hasValue x (-1) then return s!"1.0/{← tight 60 b}"
            else return s!"pow({← sub b}, {← sub x})"
      | .rel .eq, [a, b] => return s!"(({← sub a}) == ({← sub b}))"
      | .rel r, [a, b] => return s!"{← sub a} {r.text} {← sub b}"
      | .and, as => return " && ".intercalate (← (Arrange.sortByKey A as).mapM (tight 30))
      | .or, as => return " || ".intercalate (← (Arrange.sortByKey A as).mapM (tight 20))
      | .not, [a] => return s!"!{← tight 100 a}"
      | .piecewise, bs => do
        match bs.getLast? with
        | some (.branch last (.bool true)) =>
          let firsts ← bs.dropLast.mapM fun
            | .branch v c => do return s!"(({← sub c}) ? ({← sub v})"
            | _ => return ""
          return ": ".intercalate firsts ++ ": (" ++ (← sub last) ++ ")" ++ .ofList (.replicate firsts.length ')')
        | _ => raise .invalid
      | .cast k, x :: .atom (.type t) :: rest => do
        match s.vectors, t with
        | some v, .vector .. =>
          if k == .vectorAccess then
            let aligned := rest.head? == some (.bool true)
            return v.write (if aligned then "loadA" else "loadU") [s!"& {← sub x}"]
          else return v.write "makeVec" [← sub x]
        | _, _ =>
          if k == .vectorAccess then raise .invalid
          else if k == .reinterpret then
            return s!"*(({← typeName s (.pointer t false false)})(& {← sub x}))"
          else match x with
            | .num n => typedNumber (numberText n) t
            | x => return s!"(({← typeName s t})({← sub x}))"
      | .access .., _ => return e.accessName
      | .element, [p, i] | .resolved .., p :: i :: _ => return s!"{← sub p}[{← sub i}]"
      | .series k, [body, x, lo, hi] => do
        let t ← typeName s (← Typing.typeOf body)
        let (name, op, start) := match k with
          | .sum => ("sum", "+=", "0")
          | .product => ("product", "*=", "1")
        let x ← sub x
        return "\n".intercalate
          ["[&]() \x7b", s!"    {t} {name} = ({t}) {start};", s!"    for ( int {x} = {← sub lo}; {x} <= {← sub hi}; {x}"
             ++ " += 1 ) \x7b",
           s!"        {name} {op} {← sub body};", "    \x7d", s!"    return {name};", "\x7d()"]
      | .fn f, as => printFunction fuel f as
      | .placeholder n _, as => printFunction fuel (.named n) as.dropLast
      | _, _ => unsupported A e

def printFunction : Nat → Fn → Exprs → Write String
  | 0, _, _ => return ""
  | fuel + 1, f, as => do
    let sub := print fuel
    let e := .fn f as
    let pair := fun l m r => match as with
      | [a, b] => do return l ++ (← sub a) ++ m ++ (← sub b) ++ r
      | _ => raise .mistyped
    let between := fun op => pair "(" s!" {op} " ")"
    let call := fun n => do return s!"{n}(" ++ ", ".intercalate (← as.mapM sub) ++ ")"
    let fast := fun exact cuda opencl => match s.dialect with
      | .c => do return s!"({← sub exact})"
      | .cuda => call cuda
      | .opencl => call opencl
    match f, as with
    | .moduloFloor, [a, b] | .moduloCeil, [a, b] | .divCeil, [a, b] | .divFloor, [a, b] =>
      IntegerFunction.roundingText f a b (← sub a) (← sub b)
    | .addressOf, [a] => return s!"&({← sub a})"
    | .fastDivision, [a, b] => fast (A.quotient a b) "__fdividef" "native_divide"
    | .fastSqrt, [a] => fast (A.sqrt a) "__fsqrt_rn" "native_sqrt"
    | .fastInvSqrt, [a] => fast (A.inv (A.sqrt a)) "__frsqrt_rn" "native_rsqrt"
    | .vecAny, [a] | .vecAll, [a] => do
      match s.vectors with
      | some v =>
        if (← Typing.typeOf a).isVector then return v.write (if f == .vecAny then "any" else "all") [← sub a]
        else sub a
      | none => sub a
    | .bitXor, _ => between "^"
    | .shiftRight, _ => between ">>"
    | .shiftLeft, _ => between "<<"
    | .bitOr, _ => between "|"
    | .bitAnd, _ => between "&"
    | .powerOf2, a :: _ => return s!"(1 << ({← sub a}))"
    | .powerOf2, _ => raise .mistyped
    | .intDiv, _ => pair "((" ") / (" "))"
    | .sign, [a] => do
      let t ← sub a
      return s!"((({t}) > 0) - (({t}) < 0))"
    | .max, as => return choose ">" as.length (← as.mapM sub)
    | .min, as => return choose "<" as.length (← as.mapM sub)
    | f, as =>
      match libraryConstant? e with
      | some m => return m
      | none =>
        match s.dialect.known? f.name (as.head?.any (A.is .integer)) with
        | some n => call n
        | none =>
          if Dialect.libraryFunctions.contains f.name then raise .missing
          else unsupported A e

def printProduct : Nat → Expr → Write Signed
  | 0, _ => return (false, "")
  | fuel + 1, e => do
    let sub := print fuel
    let level := 2 * Text.precedence e
    let (negative, above, below) := parts A e
    let above ← match above, negative with
      | [a], true => do pure [bracket a 110 (← sub a)]
      | above, _ => above.mapM fun a => do return bracket a level (← sub a)
    let below ← below.mapM fun (b, whole) => do
      let t := bracket b level (← sub b)
      return if whole then s!"({t})" else t
    let text := "*".intercalate above ++ match below with
      | [] => ""
      | [b] => "/" ++ b
      | bs => "/(" ++ "*".intercalate bs ++ ")"
    return (negative, text)

def printVector : Nat → InstructionSet → Expr → Write String
  | 0, _, _ => return ""
  | fuel + 1, v, e => do
    let sub := print fuel
    let one := v.write "makeVec" ["1.0"]
    match e with
    | .node .and as => return foldInstr v "&" (← as.mapM sub)
    | .node .or as => return foldInstr v "|" (← as.mapM sub)
    | .node .add ts => do
      let signed ← ts.mapM fun t => match t with
        | .mul _ => do if ← isVector v t then printVectorProduct fuel v t else raise .invalid
        | t => do return (false, ← sub t)
      let plus := (signed.filter (!·.1)).map (·.2)
      let minus := (signed.filter (·.1)).map (·.2)
      let start := if plus.isEmpty then ["0"] else plus
      return minus.foldl (fun a b => v.write "-" [a, b]) (foldInstr v "+" start)
    | .mul _ => do
      let (negative, text) ← printVectorProduct fuel v e
      return if negative then v.write "*" ["-1", text] else text
    | .pow b x => do
      match smallExponent? x with
      | some n =>
        let body ← sub (.mulOf (.replicate n.natAbs b))
        return if n > 0 then s!"({body})" else v.write "/" [one, body]
      | none =>
        if hasValue x (mkRat 1 2) then return v.write "sqrt" [← sub b]
        else if hasValue x (mkRat (-1) 2) then return v.write "/" [one, v.write "sqrt" [← sub b]]
        else raiseWith .invalid s!"Generic exponential not supported: {Text.ofExpr A (vectorNamed v e)}"
    | .rel r a b => return v.write r.text [← sub a, ← sub b]
    | .fn .fastDivision [a, b] => return v.write "/" [← sub a, ← sub b]
    | .fn .fastInvSqrt [a] => do
      if (v.template? "rsqrt").isSome then return v.write "rsqrt" [← sub a]
      else return s!"({← sub (A.inv (A.sqrt a))})"
    | .node .piecewise bs => do
      match bs.getLast? with
      | some (.branch last (.node (.cast _) (.bool true :: _))) =>
        bs.dropLast.reverse.foldlM (fun rest b => match b with
          | .branch x c => do
            let scalar ← match c with
              | .node (.cast _) (k :: _) => do pure (if (← Typing.typeOf k) == .boolean then some k else none)
              | _ => pure none
            match scalar with
            | some k => return s!"(({← sub k}) ? ({← sub x}) : ({rest}))"
            | none => return v.write "blendv" [rest, ← sub x, ← sub c]
          | _ => return rest) (← sub last)
      | some (.branch _ (.bool _)) => raise .outOfRange
      | _ => raiseWith .invalid noDefault
    | e => printScalar fuel e

def printVectorProduct : Nat → InstructionSet → Expr → Write Signed
  | 0, _, _ => return (false, "")
  | fuel + 1, v, e => do
    let sub := print fuel
    let (negative, above, below) := parts A e
    let above ← above.mapM sub
    let below ← below.mapM fun (b, _) => sub b
    let top := foldInstr v "*" above
    return (negative, if below.isEmpty then top else v.write "/" [top, foldInstr v "*" below])

end

def indent (lines : Strings) : Strings :=
  (lines.foldl (fun st line =>
    let line := .ofList (line.toList.dropWhile fun c => c == ' ' || c == '\t')
    if line == "" then (st.1 ++ [line], st.2)
    else
      let first := line.toList.head?
      let last := line.toList.getLast?
      let level := if first == some '\x7d' || first == some ')' then st.2 - 1 else st.2
      let opens := last == some '\x7b' || last == some '('
      (st.1 ++ [.ofList (.replicate (3 * level) ' ') ++ line], if opens then level + 1 else level))
    ([], 0)).1

def expression (e : Expr) : Outcome String := do
  let (text, seen) ← (print A s (6 * e.depth + 40) e).run []
  let known := ((seen.map fun e => (Text.ofExpr A e, e)).mergeSort fun a b => a.1 ≤ b.1).map (·.2)
  let comments := if known.isEmpty then []
    else s!"// Not supported in {s.dialect.language}:" :: known.map fun e => "// " ++ e.className
  let lines := text.splitOn "\n"
  if comments.isEmpty && lines.length ≤ 1 then return text
  else return "\n".intercalate (indent (comments ++ lines))

end StencilForge.Code
