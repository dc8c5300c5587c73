import StencilForge.Expr.Fraction
import StencilForge.Expr.Text

/-!
# Expr — TeX text

`x_1` has a subscript, `x^2` a superscript, digits at the end count as a subscript, and Greek letters get their
commands.  The text of a field access is here too, since its offsets are written in TeX.
-/

namespace StencilForge.Latex

open String

variable (s : String)

/-! ### Names -/

def greek : Strings :=
  ["alpha", "beta", "gamma", "delta", "epsilon", "zeta", "eta", "theta", "iota", "kappa", "lambda", "mu",
   "nu", "xi", "omicron", "pi", "rho", "sigma", "tau", "upsilon", "phi", "chi", "psi", "omega"]

def spellings : List (String × String) :=
  [("Alpha", "A"), ("Beta", "B"), ("Epsilon", "E"), ("Zeta", "Z"), ("Eta", "H"), ("Iota", "I"), ("Kappa", "K"), ("Mu", "M"),
   ("Nu", "N"), ("omicron", "o"), ("Omicron", "O"), ("Rho", "P"), ("Tau", "T"), ("Chi", "X"), ("lamda", "\\lambda"),
   ("Lamda", "\\Lambda"), ("khi", "\\chi"), ("Khi", "X")]

def otherLetters : Strings :=
  ["aleph", "beth", "daleth", "gimel", "ell", "eth", "hbar", "hslash", "mho", "wp", "varepsilon", "varkappa", "varphi",
   "varpi", "varrho", "varsigma", "vartheta"]

def braces : String := s!"\x7b{s}\x7d"

def decorations : Strings :=
  ["mathring", "ddddot", "dddot", "check", "breve", "acute", "grave", "tilde", "prime", "ddot", "bold", "frak", "norm",
   "dot", "hat", "bar", "vec", "prm", "cal", "scr", "avg", "abs", "mag", "bm"]

def decorate : String → String
  | "prime" | "prm" => braces s ++ "'"
  | "bold" | "bm" => "\\boldsymbol" ++ braces s
  | "frak" => "\\mathfrak" ++ braces s
  | "cal" => "\\mathcal" ++ braces s
  | "scr" => "\\mathscr" ++ braces s
  | "norm" => s!"\\left\\|{braces s}\\right\\|"
  | "avg" => s!"\\left\\langle{braces s}\\right\\rangle"
  | "abs" | "mag" => s!"\\left|{braces s}\\right|"
  | k => "\\" ++ k ++ braces s

/-- `fuel` bounds the number of decorations. -/
def letters : Nat → String → String
  | 0, s => s
  | fuel + 1, s =>
    match spellings.lookup s with
    | some t => t
    | none =>
      if greek.contains s.toLower || otherLetters.contains s then "\\" ++ s
      else match decorations.find? fun k => s.toLower.endsWith k && s.length > k.length with
        | some k => decorate (letters fuel (s.dropEnd k.length).toString) k
        | none => s

def cutName : Chars → Chars → List Chars → List Chars
  | [], part, done => done ++ [part]
  | c :: r, part, done =>
    if (c == '^' || c == '_') && !part.isEmpty && part != ['_'] then cutName r [c] (done ++ [part])
    else cutName r (part ++ [c]) done

def splitName : String × Strings × Strings :=
  match cutName s.toList [] [] with
  | [] => (s, [], [])
  | name :: rest =>
    let sups := rest.filterMap fun
      | '^' :: r => some (ofList r)
      | '_' :: '_' :: r => some (ofList r)
      | _ => none
    let subs := rest.filterMap fun
      | '_' :: '_' :: _ => none
      | '_' :: r => some (ofList r)
      | _ => none
    let word := name.takeWhile fun c => c.isAlpha
    let digits := name.dropWhile fun c => c.isAlpha
    if !word.isEmpty && !digits.isEmpty && digits.all Char.isDigit then (ofList word, sups, ofList digits :: subs)
    else (ofList name, sups, subs)

def name : String :=
  if s.toList.contains '\x7b' then s
  else
    let (n, sups, subs) := splitName s
    let part := fun (mark : String) (xs : Strings) =>
      if xs.isEmpty then "" else mark ++ braces (" ".intercalate (xs.map (letters s.length)))
    letters s.length n ++ part "^" sups ++ part "_" subs

/-- Names with commands are left alone. -/
def symbolName : String := if s.toList.contains '\\' then s else name s

/-! ### Expressions -/

def round : String := s!"\\left({s}\\right)"

def fraction (n d : String) : String := "\\frac" ++ braces n ++ braces d

def guardSuper : String := if s.toList.contains '^' then round s else s

def floatText (b : Binary) : String :=
  let t := (Decimal.Layout.standard 15 true).write b
  match t.splitOn "e" with
  | [m, e] => m ++ " \\cdot 10^" ++ braces (if e.startsWith "+" then (e.drop 1).toString else e)
  | _ => t

def commands : Strings :=
  ["arcsin", "arccos", "arctan", "sin", "cos", "tan", "sinh", "cosh", "tanh", "sqrt", "ln", "log", "sec",
   "csc", "cot", "coth", "re", "im", "frac", "root", "arg"]

def functionName (f : String) : String :=
  let n := name f
  if commands.contains n then "\\" ++ n
  else if n.length = 1 || n.startsWith "\\" then n
  else "\\operatorname" ++ braces n

def relationText : Rel → String
  | .eq => "="
  | .ne => "\\neq"
  | .lt => "<"
  | .le => "\\leq"
  | .gt => ">"
  | .ge => "\\geq"

def endsInDigit : Bool := ((s.toList.reverse.dropWhile fun c => c == '\x7d' || c == ' ').head?).any Char.isDigit

def startsLikeNumber : Bool :=
  ((s.toList.dropWhile fun c => c == '\x7b' || c == ' ').head?).any fun c => c.isDigit || c == '-' || c == '+'

/-- Factors side by side; a dot divides numbers. -/
def joinFactors : Strings → String → String
  | [], acc => acc
  | t :: r, "" => joinFactors r t
  | t :: r, acc => joinFactors r (acc ++ (if endsInDigit acc && startsLikeNumber t then " \\cdot " else " ") ++ t)

variable (A : Algebra)

/-- Factors of unknown sign stay above. -/
def exactParts (e : Expr) : Exprs × Exprs := Fraction.partsBy A e fun f b x =>
  if A.is .negative x && x.isNumber then ([], [if x.isNegOne then b else A.pow b (A.neg x)]) else ([f], [])

def bracketsFactor (first last : Bool) (e : Expr) : Bool :=
  let sign := match e with
    | .mul _ => !first && e.hasNegCoeff
    | .node (.rel _) _ => true
    | e => Text.precedence e < 50
  let cases := match e with
    | .node .piecewise _ => true
    | _ => false
  let series := !last && e.any fun
    | .node (.series _) _ => true
    | _ => false
  sign || cases || series

def shownName (f : GridField) : String := (f.latexName.filter (· != "")).getD f.name

def markText (mark : Expr) (text : String) : Outcome String :=
  match mark with
  | .num n => .ok (if Number.zero.le n then "^" ++ braces s!"({text})" else "")
  | _ => raise .mistyped

mutual

/-- With an exponent if a function is raised to a power. -/
def write : Nat → Option String → Expr → Outcome String
  | 0, _, _ => .ok ""
  | fuel + 1, exponent, e => do
    let sub := write fuel none
    let raised := fun s => exponent.elim s fun x => s ++ "^" ++ braces x
    match e with
    | .atom (.num n) => match n with
      | .rat q =>
        if q.den = 1 then return toString q.num
        else return (if q < 0 then "- " else "") ++ fraction (toString q.num.natAbs) (toString q.den)
      | .float b => return floatText b
      | .inf => return "\\infty"
      | .negInf => return "-\\infty"
      | .nan => return "\\text" ++ braces "NaN"
    | .atom (.lit n) => return toString n
    | .atom (.const c) => match c with
      | .pi => return "\\pi"
      | .euler => return "e"
      | .imaginary => return "i"
      | .complexInf => return "\\tilde" ++ braces "\\infty"
    | .atom (.bool b) => return "\\text" ++ braces (if b then "True" else "False")
    | .atom (.sym s) => return symbolName s.name
    | .atom (.type t) => return name t.className ++ round ""
    | .atom (.member s) => return s
    | .atom (.field f) => return f.name
    | .node h as => match h, as with
      | .add, ts => writeSum fuel (Arrange.terms A ts)
      | .mul, _ => writeProduct fuel e
      | .pow, [b, x] => writePower fuel b x
      | .rel r, [a, b] => return s!"{← sub a} {relationText r} {← sub b}"
      | .and, as => writeLogic fuel "\\wedge" as
      | .or, as => writeLogic fuel "\\vee" as
      | .not, [a] => do
        let t ← sub a
        return "\\neg " ++ (if a.isBoolean then round t else t)
      | .piecewise, bs => do
        let rows ← bs.mapM fun
          | .branch v (.bool true) => do return s!"{← sub v} & \\text\x7botherwise\x7d"
          | .branch v c => do return s!"{← sub v} & \\text\x7bfor\x7d\\: {← sub c}"
          | _ => return ""
        return "\\begin\x7bcases\x7d " ++ " \\\\".intercalate rows ++ " \\end\x7bcases\x7d"
      | .fn .exp, [x] => return raised ("e^" ++ braces (← sub x))
      | .fn .log, [x] => return raised ("\\log" ++ braces s!"\\left({← sub x} \\right)")
      | .fn .abs, [x] => return raised s!"\\left|{braces (← sub x)}\\right|"
      | .fn .floor, [x] => return raised s!"\\left\\lfloor{braces (← sub x)}\\right\\rfloor"
      | .fn .ceiling, [x] => return raised s!"\\left\\lceil{braces (← sub x)}\\right\\rceil"
      | .fn .min, as => return raised ("\\min" ++ round (", ".intercalate (← (Arrange.sortByKey A as).mapM sub)))
      | .fn .max, as => return raised ("\\max" ++ round (", ".intercalate (← (Arrange.sortByKey A as).mapM sub)))
      | .fn .transient, a :: rest =>
        let scalar := scalarName a rest true
        return "\\partial_t " ++ symbolName scalar
      | .fn .diffusion, a :: d :: rest => do
        let d ← match d with
          | .node (.access f ..) _ => pure (symbolName f.name)
          | d => sub d
        return s!"div({d} \\nabla {symbolName (scalarName a rest false)})"
      | .fn .advection, a :: v :: rest => match v with
        | .node (.access f ..) _ =>
          return s!"\\nabla \\cdot({symbolName f.name} {symbolName (scalarName a rest false)})"
        | _ => raise .mistyped
      | .fn f, as => writeCall fuel f.name as exponent
      | .placeholder n _, as => writeCall fuel n as.dropLast exponent
      | .cast k, as => writeCall fuel (Head.cast k).className as exponent
      | .access f _ absolute, _ => do
        let n := shownName f
        let pos := ",".intercalate (← e.offsets.mapM sub)
        let pos := if absolute then "\\mathbf" ++ pos else if f.spatialDimensions > 1 then s!"({pos})" else pos
        return braces (braces n ++ "_" ++ braces pos ++ indexMark e)
      | .diff, [x, target, mark] => do
        let m ← markText mark (Text.ofExpr A mark)
        let t ← if target.isNegOne then pure "" else do pure ("_" ++ braces (← sub target))
        let plain := x.isSymbol || x.isNumber || x.isDiff
        let body ← sub x
        return braces ("\\partial" ++ m ++ t ++ (if plain then " " ++ body else s!" ({body}) "))
      | .diffOp, [target, mark] => do
        let m ← markText mark (Text.ofExpr A mark)
        let t := if target.isNegOne then "" else "_" ++ braces (Text.ofExpr A target)
        return braces ("\\partial" ++ m ++ t)
      | .element, p :: is => do return braces (← sub p) ++ "_" ++ braces (",".intercalate (← is.mapM sub))
      | .resolved .., p :: i :: _ => do return braces (← sub p) ++ "_" ++ braces (← sub i)
      | .series k, [body, x, lo, hi] => do
        let op := match k with
          | .sum => "\\sum"
          | .product => "\\prod"
        let b ← sub body
        return op ++ "_" ++ braces s!"{← sub x}={← sub lo}" ++ s!"^{braces (← sub hi)} " ++
          (if body.isAdd then round b else b)
      | h, as => return name h.className ++ round (", ".intercalate (← as.mapM sub))

def indexMark (e : Expr) : String :=
  match e.index with
  | [] => ""
  | [i] => if i.int? == some 0 then "" else "^" ++ braces (Text.ofExpr A i)
  | is => "^" ++ braces ("(" ++ ", ".intercalate (is.map (Text.ofExpr A)) ++ ")")

/-- The field, or the element itself, and the index. -/
def scalarName (a : Expr) (rest : Exprs) (element : Bool) : String :=
  match a with
  | .node (.access f ..) _ =>
    let idx := rest.head?.bind Expr.int?
    let mark := idx.elim "" fun n => s!"_{n}"
    if element then
      let dims := f.spatialDimensions
      let center := List.replicate dims (Expr.lit 0)
      let index := idx.elim (List.replicate f.indexDimensions (.lit 0)) fun n => [Expr.lit n]
      (Expr.node (.access f dims false) (center ++ index)).accessName ++ mark
    else f.name ++ mark
  | _ => ""

def writeSum : Nat → Exprs → Outcome String
  | 0, _ => .ok ""
  | fuel + 1, ts => do
    let parts ← ts.zipIdx.mapM fun (t, i) => do
      let negative := i != 0 && t.hasNegCoeff
      let t := if negative then A.neg t else t
      let needs := match t with
        | .node (.rel _) _ | .add _ => true
        | _ => false
      let text ← write fuel none t
      let text := if needs then round text else text
      return (if i = 0 then "" else if negative then " - " else " + ") ++ text
    return join parts

def writeProduct : Nat → Expr → Outcome String
  | 0, _ => .ok ""
  | fuel + 1, e => do
    let negative := e.hasNegCoeff
    let e := if negative then A.neg e else e
    let open_ := negative && e.isAdd
    let mark := if negative then (if open_ then "- (" else "- ") else ""
    let convert := fun
      | .mul fs => do
        let fs := Arrange.factors A fs
        let ts ← fs.zipIdx.mapM fun (f, i) => do
          let t ← write fuel none f
          return if bracketsFactor (i = 0) (i + 1 = fs.length) f then round t else t
        return joinFactors ts ""
      | x => write fuel none x
    let (ns, ds) := exactParts A e
    let body ← if ds.isEmpty then convert e else do pure (fraction (← convert (.mulOf ns)) (← convert (.mulOf ds)))
    return mark ++ body ++ (if open_ then ")" else "")

def writePower : Nat → Expr → Expr → Outcome String
  | 0, _, _ => .ok ""
  | fuel + 1, b, x => do
    let plain := do
      let t ← write fuel none x
      match b with
      | .fn _ _ => write fuel (some t) b
      | _ =>
        let base ← write fuel none b
        let base := if Text.precedence b ≤ 60 then round base else base
        return (if b.isSymbol then guardSuper base else base) ++ "^" ++ braces t
    match x with
    | .num (.rat q) =>
      if q.num.natAbs = 1 && q.den != 1 then
        let base ← write fuel none b
        let root := if q.den = 2 then "\\sqrt" ++ braces base else s!"\\sqrt[{q.den}]" ++ braces base
        return if q < 0 then fraction "1" root else root
      else if q < 0 then writeProduct fuel (.pow b x) else plain
    | _ => plain

def writeCall : Nat → String → Exprs → Option String → Outcome String
  | 0, _, _, _ => .ok ""
  | fuel + 1, f, as, exponent => do
    let n := functionName f
    let n := exponent.elim n fun x => guardSuper n ++ "^" ++ braces x
    return n ++ braces ("\\left(" ++ ",".intercalate (← as.mapM (write fuel none)) ++ " \\right)")

def writeLogic : Nat → String → Exprs → Outcome String
  | 0, _, _ => .ok ""
  | fuel + 1, op, as => do
    let ts ← (Arrange.sortByKey A as).mapM fun a => do
      let t ← write fuel none a
      let isNot := match a with
        | .node .not _ => true
        | _ => false
      return if a.isBoolean && !a.isSymbol && !isNot then round t else t
    return s!" {op} ".intercalate ts

end

def ofExpr (e : Expr) : Outcome String := write A (4 * e.depth + 20) none e

end StencilForge.Latex

namespace StencilForge.Text

variable (A : Algebra)

def accessText (e : Expr) : String :=
  match e with
  | .node (.access f _ absolute) _ =>
    let tex := fun (x : Expr) => match Latex.ofExpr A x with
      | .ok s => s
      | .error _ => ""
    let pos := ",".intercalate (e.offsets.map tex)
    let pos := if absolute then "[abs]" ++ pos else pos
    let index := match e.index with
      | [] => ""
      | [i] => if i.int? == some 0 then "" else s!"({ofExpr A i})"
      | is => "((" ++ ", ".intercalate (is.map (ofExpr A)) ++ "))"
    Latex.shownName f ++ s!"[{pos}]{index}"
  | _ => ofExpr A e

/-- Accesses with brackets, derivatives as `D(…)`. -/
def plainDeep : Nat → Expr → String
  | 0, e => ofExpr A e
  | fuel + 1, e => match e with
    | .node (.access ..) _ => accessText A e
    | .node .diff (x :: _) => s!"D({plainDeep fuel x})"
    | e => ofExpr A e

def plain (e : Expr) : String := plainDeep A (e.depth + 1) e

end StencilForge.Text
