import StencilForge.Expr.Collect
import StencilForge.Expr.Substitute

/-!
# Expr — solving an equation

Polynomials of degree one and two, and powers.
-/

namespace StencilForge.Solve

variable (A : Algebra)

def degreeIn (x t : Expr) : Option (Nat × Expr) :=
  let (own, rest) := t.factors.partition fun f => f == x || match f with
    | .pow b _ => b == x
    | _ => false
  if (Expr.mulOf rest).has x then none
  else match own with
    | [] => some (0, t)
    | [.pow b (.num (.rat q))] => if b == x && q.den = 1 && 0 < q.num then some (q.num.toNat, A.mul rest) else none
    | [f] => if f == x then some (1, A.mul rest) else none
    | _ => none

def coefficients (x e : Expr) : Option (Table Nat Expr) := do
  let ts ← e.terms.mapM (degreeIn A x)
  return ts.foldl (fun t (n, c) => .alter n (fun v => A.add2 (v.getD .zero) c) t) []

def zeros (x e : Expr) : Outcome (Option Exprs) := do
  let e ← Build.expand A e
  let some t := coefficients A x e | return none
  let at_ := fun n => (Table.get? t n).getD .zero
  let degree := t.foldl (fun m p => max m p.1) 0
  match degree with
  | 0 => return some []
  | 1 => return some [A.mul [.negOne, A.inv (at_ 1), at_ 0]]
  | 2 =>
    let (a, b, c) := (at_ 2, at_ 1, at_ 0)
    if b.isZero && c.isZero then return some [.zero]
    else if b.isZero then
      let r := A.sqrt (A.neg (A.div c a))
      return some [A.neg r, r]
    else if c.isZero then return some (Expr.sorted [.zero, A.neg (A.div b a)])
    else
      let d := A.sub (A.pow b (.int 2)) (A.mul [.int 4, a, c])
      let h := A.neg (A.div b (A.mul [.int 2, a]))
      let r := A.div (A.sqrt d) (A.mul [.int 2, a])
      return some [A.sub h r, A.add2 h r]
  | _ => return if t.length = 1 then some [.zero] else none

end StencilForge.Solve

/-!
## Expr — terms of second order

`x y` is half of `(x + y)² - x² - y²`.  A polynomial of second order can be written with one square only.
`Quadratic.truncate` leaves out terms in which given symbols occur too often.
-/

namespace StencilForge.Quadratic

variable (A : Algebra) (symbols : Exprs)

abbrev Names := Table Expr Expr

/-- In a product two different symbols of the given ones, each once and sorted by name, and the other factors. -/
def mixed? : Head → Exprs → Option (Expr × Expr × Exprs)
  | .mul, fs => match (fs.filter (symbols.contains ·)).mergeSort fun a b => a.symbolName ≤ b.symbolName with
    | [u, v] => some (u, v, fs.filter (!symbols.contains ·))
    | _ => none
  | _, _ => none

/-- That of the other factors if none is given. -/
def signOf (rest : Exprs) : Option Bool → Outcome Bool
  | some b => .ok b
  | none => do
    if rest.isEmpty then raise .noSuchPart
    let e := A.prod rest
    let e ← e.symbols.foldlM (fun e s => Substitute.algebraic A s .one e) e
    present .violated (A.ask .positive e)

def mixedSum (positive : Bool) (u v : Expr) : Expr := A.add2 u (A.mul2 (if positive then .one else .negOne) v)

def mixedSymbol (positive : Bool) (u v : Expr) : Expr :=
  let text := u.symbolName ++ (if positive then "P" else "M") ++ v.symbolName
  .symbol (.ofList (text.toList.filter (· != '_')))

def introduce (names : Option Names) (positive : Bool) (u v : Expr) : Expr × Option Names :=
  let value := mixedSum A positive u v
  match names with
  | none => (value, none)
  | some t =>
    let s := mixedSymbol positive u v
    (s, some (if (Table.get? t s).isSome then t else Table.insert t s value))

def product (positive : Option Bool) (u v : Expr) (rest : Exprs) : StateT (Option Names) Outcome Expr := do
  let positive ← signOf A rest positive
  let sign := if positive then .one else .negOne
  let m ← modifyGet (introduce A · positive u v)
  let square := fun e => A.pow e 2
  return A.mul2 (A.mul2 (A.mul2 .half sign) (A.prod rest)) (A.sub (A.sub (square m) (square u)) (square v))

/-- Sums and differences get names if a table of names is given; `positive` chooses between them. -/
def products (positive : Option Bool) : Expr → StateT (Option Names) Outcome Expr
  | .atom a => return .atom a
  | .node h as => match mixed? symbols h as with
    | some (u, v, rest) => product A positive u v rest
    | none => match h with
      | .access .. => return .node h as
      | h => do return Visit.plain h (Visit.withHidden h as (← as.mapM (products positive)))

/-! ### Truncation -/

def degree (e : Expr) : Expr :=
  let ofPower := fun
    | .pow b x => if symbols.contains b then x else .zero
    | _ => .zero
  match e with
  | .mul fs => A.sum (fs.map fun f => A.add2 (ofPower f) (if symbols.contains f then .one else .zero))
  | e => ofPower e

def atMost (e : Expr) (n : Int) : Outcome Bool := do
  match ← Build.node A (.rel .le) [e, .int n] with
  | .bool b => return b
  | _ => raise .mistyped

def truncate (order : Int) (e : Expr) : Outcome Expr := do
  let keeps := fun t => atMost A (degree A symbols t) order
  match ← Build.expand A e with
  | .add ts => return A.sum (← ts.filterM keeps)
  | .mul fs => do if ← keeps (.mul fs) then return .mul fs else return .zero
  | .pow b x => do if ← keeps (.pow b x) then return .pow b x else return .zero
  | e => return e

/-! ### Completing the square -/

/-- Gives the polynomial and what the new variable stands for. -/
def completeSquare (x new e : Expr) : Outcome (Expr × Option (Expr × Expr)) := do
  let some cs := Solve.coefficients A x (← Build.expand A e) | raise .general
  let top := cs.foldl (fun m (n, c) => if c.isZero then m else max m n) 0
  if top != 2 then return (e, none)
  let a := (Table.get? cs 2).getD .zero
  let b := (Table.get? cs 1).getD .zero
  let half := A.quotient b (A.mul2 2 a)
  let moved ← Substitute.algebraic A x (A.sub new half) e
  return (← Build.expand A moved, some (new, A.add2 x half))

/-- In the arguments of exponentials; `fresh` numbers the variables used in between. -/
def completeInExp (fresh : Nat) (xs : Exprs) (e : Expr) : Outcome Expr := do
  let dummies := xs.zipIdx.map fun (x, i) => (x, Expr.sym ⟨s!"Dummy_{fresh + i}", .dummy (fresh + i)⟩)
  let e ← Visit.replace A (fun
    | .fn .exp [a] => some do
        let a ← dummies.foldlM (fun a (x, d) => do return (← completeSquare A x d a).1) a
        return A.apply .exp [← Build.expand A a]
    | _ => none) e
  dummies.foldlM (fun e (x, d) => Substitute.algebraic A d x e) e

end StencilForge.Quadratic
