import StencilForge.Expr.Comparison
import StencilForge.IntegerSet
import StencilForge.Kernel.Statement

/-!
# Kernel — branches that are decided

`Condition.simplify` replaces a branch by the block that runs, if its condition is known in a simple form; with
reasoning about loops, also if it holds in every iteration or in none, whatever the bounds are.
-/

namespace StencilForge.Condition

open IntegerSet

variable (A : Algebra)

/-! ### Iterations as integer points -/

def namesIn (e : Expr) : Strings := unionNew [] ((Comparison.unknowns e).map Expr.symbolName)

def form? (names : Strings) (e : Expr) : Option Form :=
  let n := names.length
  e.ofPosition.terms.foldlM (fun f t =>
    let (c, x) := t.coeffMul
    match t.int? with
    | some k => some (f.plus k)
    | none => match x, c.int? with
      | .sym s, some k => match names.findIdx? (· == s.name) with
        | some i => some (f.add ((Form.coordinate n i).scale k))
        | none => none
      | _, _ => none) (.const n 0)

def comparison? (names : Strings) (r : Rel) (a b : Expr) : Option (List Form) := do
  let d := (← form? names a).sub (← form? names b)
  match r with
  | .lt => return [d.neg.plus (-1)]
  | .le => return [d.neg]
  | .gt => return [d.plus (-1)]
  | .ge => return [d]
  | .eq => return [d, d.neg]
  | .ne => none

def forms? (names : Strings) (cond : Expr) : Option (List Form) :=
  let parts := match cond with
    | .node .and cs => cs
    | c => [c]
  (parts.mapM fun (c : Expr) => match c with
    | .rel r a b => comparison? names r a b
    | _ => none).map .flatten

def loopNames (ls : List Loop) : Strings :=
  unionNew [] (ls.flatMap fun l => l.counterName :: namesIn l.start ++ namesIn l.stop)

def iterations? (names : Strings) (ls : List Loop) : Option (List Condition) := do
  return (← ls.mapM fun l => do
    let c ← form? names l.counter
    let low ← form? names l.start
    let high ← form? names l.stop
    return [.nonneg (c.sub low), .nonneg ((high.sub c).plus (-1))]).flatten

inductive Verdict where
  | always | never | sometimes
  | impossible
  deriving DecidableEq, Repr

/-- Only conditions on counters and bounds are looked at. -/
def inLoops (ls : List Loop) (cond : Expr) : Outcome Verdict := do
  if ls.any fun l => l.step.int? != some 1 then
    raiseWith .unsupported "Loops with strides != 1 are not yet supported."
  let names := loopNames ls
  if (namesIn cond).any (!names.contains ·) then return .sometimes
  match forms? names cond, iterations? names ls with
  | some fs, some cells =>
    let n := names.length
    let conds := fs.map .nonneg
    if isEmpty n conds then return .impossible
    else if isEmpty n (conds ++ cells) then return .never
    else if implies n cells fs then return .always
    else return .sometimes
  | _, _ => return .sometimes

/-! ### Branches -/

def decided (cond : Expr) (yes : Body) (hasElse : Bool) (no : Body) : Verdict → Body
  | .always => [.block none yes]
  | .never | .impossible => if hasElse then [.block none no] else []
  | .sometimes => [.branch cond yes hasElse no]

/-- A condition that cannot be met at all is refused after its branch has been replaced. -/
def branch (loops : Option (List Loop)) (cond : Expr) (yes : Body) (hasElse : Bool)
    (no : Body) : StateM (Option Failure) Body := do
  match Comparison.simplifyAll A cond with
  | .error f => do
    set (some f)
    return [.branch cond yes hasElse no]
  | .ok cond =>
    let known : Outcome Verdict := match cond, loops with
      | .bool b, _ => .ok (if b then .always else .never)
      | _, none => .ok .sometimes
      | cond, some ls => inLoops ls cond
    match known with
    | .error f => do
      set (some f)
      return [.branch cond yes hasElse no]
    | .ok v => do
      if v = .impossible then set (some ({ kind := .invalid } : Failure))
      return decided cond yes hasElse no v

/-- The loops around are given if they are used; after a failure nothing is changed any more. -/
def simplify (loops : Option (List Loop)) : Statement → StateM (Option Failure) Body
  | .block p body => do return [.block p (← body.flatMapM (simplify loops))]
  | .loop l body => do return [.loop l (← body.flatMapM (simplify (loops.map (l :: ·))))]
  | .branch c yes e no => do
    let yes ← yes.flatMapM (simplify loops)
    let no ← no.flatMapM (simplify loops)
    if (← get).isSome then return [.branch c yes e no] else branch A loops c yes e no
  | s => return [s]

/-- Gives the body and what went wrong. -/
def simplifyBody (reason : Bool) (body : Body) : Body × Option Failure :=
  (body.flatMapM (simplify A (if reason then some [] else none))).run none

end StencilForge.Condition
