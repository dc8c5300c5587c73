import StencilForge.Kernel.Basic

/-!
# Kernel — changes of loops

Loops can be cut (`Loop.cut`), put around blocks of cells (`LoopNest.block`), divided among threads
(`LoopNest.parallel`), and split into several ones that compute some of the assignments each (`LoopNest.split`).
-/

namespace StencilForge

open Statement

variable (A : Algebra) (sizes : Exprs) (l : Loop) (body : Body)

/-- Of plain integers it is one again. -/
def Loop.difference (a b : Expr) : Expr :=
  match a, b with
  | .lit m, .lit n => .lit (m - n)
  | a, b => A.sub a.ofPosition b.ofPosition

def Loop.range : Expr := Loop.difference A l.stop l.start

/-- A part with one cell is not a loop any more, an empty part is left out. -/
def Loop.part (start stop : Expr) : Outcome Body :=
  match (Loop.difference A stop start).int? with
  | some 0 => return []
  | some 1 => do return [.block none (← replaceList A [(l.counter, start.ofPosition)] body)]
  | _ => return [.loop { coord := l.coord, start, stop } body]

/-- From a place to the first one, and between the others. -/
def Loop.parts : Expr → Exprs → Outcome Body
  | _, [] => return []
  | start, stop :: places => do return (← l.part A body start stop) ++ (← parts stop places)

def Loop.cut (places : Exprs) : Outcome Body := do
  if l.step.int? != some 1 then raiseWith .unsupported "Can only split loops that have a step of 1"
  l.parts A body l.start (places ++ [l.stop])

namespace LoopNest

/-! ### Visiting loops -/

def mapInnermost (f : Loop → Body → Outcome Statement) : Statement → Outcome Statement
  | .loop l body =>
    if isInnermost body then f l body
    else do return .loop l (← body.mapM (mapInnermost f))
  | .block p body => do return .block p (← body.mapM (mapInnermost f))
  | .branch c yes e no => do return .branch c (← yes.mapM (mapInnermost f)) e (← no.mapM (mapInnermost f))
  | s => .ok s

def mapOutermost (f : Loop → Body → Statement) : Statement → Statement
  | .loop l body => f l body
  | .block p body => .block p (body.map (mapOutermost f))
  | .branch c yes e no => .branch c (yes.map (mapOutermost f)) e (no.map (mapOutermost f))
  | s => s

mutual

def mapHeads (f : Loop → Outcome Loop) : Statement → Outcome Statement
  | .loop l body => do
    let l ← f l
    return .loop l (← mapHeadsList f body)
  | .block p body => do return .block p (← mapHeadsList f body)
  | .branch c yes e no => do return .branch c (← mapHeadsList f yes) e (← mapHeadsList f no)
  | s => .ok s

def mapHeadsList (f : Loop → Outcome Loop) : Body → Outcome Body
  | [] => .ok []
  | s :: r => do return (← mapHeads f s) :: (← mapHeadsList f r)

end

def outermost : Statement → List (Loop × Body)
  | .loop l body => [(l, body)]
  | .block _ body => body.flatMap outermost
  | .branch _ yes _ no => yes.flatMap outermost ++ no.flatMap outermost
  | _ => []

def innermost : List (Loop × Body) := (loopsList body).filter fun (_, b) => isInnermost b

mutual

def aroundOutermost (f : Body → Body) : Statement → Option Statement
  | .block p body => (aroundOutermostList f body).map (.block p)
  | .branch c yes e no => match aroundOutermostList f yes with
    | some yes => some (.branch c yes e no)
    | none => (aroundOutermostList f no).map (.branch c yes e)
  | _ => none

def aroundOutermostList (f : Body → Body) (all : Body) : Option Body :=
  if all.any (·.isLoop) then some (f all) else inFirst f all

def inFirst (f : Body → Body) : Body → Option Body
  | [] => none
  | s :: r => match aroundOutermost f s with
    | some t => some (t :: r)
    | none => (inFirst f r).map (s :: ·)

end

/-! ### Blocks of cells -/

def bounds (ls : List Loop) : Outcome (List Loop) :=
  ls.foldlM (fun seen l => match seen.find? (·.coord == l.coord) with
    | none => .ok (seen ++ [l])
    | some m => do
      requireWith (m.start == l.start && m.stop == l.stop) .violated
        s!"Multiple loops over coordinate {l.coord} with different loop bounds"
      return seen) []

def extent (coord : Int) : Outcome Expr := do return sizes.getD (← Layout.place sizes.length coord) .zero

def withinBlock : Outcome Loop := do
  let n ← extent sizes l.coord
  let first := Expr.sym (Counter.blockSymbol l.coord)
  let next := A.add2 first n.ofPosition
  let whole ← match (l.range A).int?, n.int? with
    | some r, some k => if k = 0 then raise .divisionByZero else pure (r % k == 0)
    | _, _ => pure false
  let stop ← if whole then pure next else Build.node A (.fn .min) [l.stop.ofPosition, next]
  return { l with start := first, stop }

/-- Gives the number of blocked coordinates too. -/
def block : Outcome (Body × Nat) := do
  let outer ← bounds ((loopsList body).map (·.1))
  if outer.isEmpty then raise .noSuchPart
  let heads ← outer.mapM fun l => do
    return { coord := l.coord, start := l.start, stop := l.stop, step := ← extent sizes l.coord, isBlock := true : Loop }
  let inner ← mapHeadsList (withinBlock A sizes) body
  return (heads.reverse.foldl (fun body l => [.loop l body]) inner, outer.length)

/-! ### Threads -/

inductive Workers where
  | any
  | number (n : Int)
  deriving DecidableEq, Repr

structure Sharing where
  workers : Workers := .any
  schedule : String := "static"
  collapse : Option Nat := none
  single : Bool := true

def share (sh : Sharing) (l : Loop) (body : Body) : Statement :=
  let hint := s!"#pragma omp for schedule({sh.schedule})" ++ match sh.collapse with
    | some n => if n = 0 then "" else s!" collapse({n})"
    | none => ""
  let threads := match sh.workers with
    | .any => 1
    | .number n => n
  let mark := fun l => { l with hints := l.hints ++ [hint] }
  let inner := body.filterMap fun
    | .loop m _ => some m
    | _ => none
  let moveIn := match (l.range A).int?, inner, sh.collapse.getD 0 with
    | some r, [m], 0 => match (m.range A).int? with
      | some q => decide (r < threads) && decide (q > r)
      | none => false
    | _, _, _ => false
  if moveIn then
    .loop l (body.map fun
      | .loop m b => .loop (mark m) b
      | s => s)
  else .loop (mark l) body

def parallel (sh : Sharing) (body : Body) : Outcome Body := do
  let clause := match sh.workers with
    | .any => ""
    | .number n => s!" num_threads({n})"
  let outer := body.flatMap outermost
  requireWith (!outer.isEmpty) .violated "No outer loop found"
  if sh.single && outer.length > 1 then
    raiseWith .invalid "More than one outer loop found, only one outer loop expected"
  return [.block (some s!"#pragma omp parallel{clause}") (body.map (mapOutermost (share A sh)))]

/-! ### Splitting the innermost loop -/

/-- With themselves; arrays stand for symbols that need not be computed again.  `fuel` bounds the number of steps. -/
def closure (assignments : List (Expr × Expr)) (stored : Exprs) : Nat → Exprs → Exprs → Exprs
  | 0, _, seen => seen
  | _, [], seen => seen
  | fuel + 1, e :: todo, seen =>
    if seen.contains e then closure assignments stored fuel todo seen
    else
      let next := match assignments.reverse.find? (·.1 == e) with
        | some (_, rhs) => (variablesOf rhs).filter fun v => !v.isAccess && !stored.contains v
        | none => []
      closure assignments stored fuel (next ++ todo) (seen ++ [e])

def scratchElement (counter : Expr) (s : Symbol) (t : DataType) : Expr :=
  .node .element [.typedSymbol s.name (.pointer t false true), counter]

def storeGroup (counter : Expr) (stored : Table Expr Expr) (group : Exprs) : Outcome (Table Expr Expr) :=
  group.foldlM (fun t e => match e with
    | .node (.access ..) _ => .ok t
    | .sym s => match s.kind with
      | .typed d => .ok (.insert t e (scratchElement counter s d))
      | _ => raise .violated
    | _ => raise .violated) stored

/-- Gives the loops and the scratch memory. -/
def splitLoop (groups : List Exprs) :
    Outcome (Body × Table Expr Expr) := do
  let assignments ← body.mapM fun
    | .assign lhs rhs _ => .ok (lhs, rhs)
    | _ => raise .noSuchPart
  let fuel := 8 + (assignments.foldl (fun n (_, r) => n + r.size + 1) 0 + 1) * (assignments.length + 2)
  groups.foldlM (fun (loops, stored) group => do
    let needed := closure assignments (stored.map (·.1)) (fuel + group.length) group.reverse []
    let stored ← storeGroup l.counter stored group
    let own ← (assignments.filter fun (lhs, _) => needed.contains lhs).mapM fun (lhs, rhs) => do
      let rhs ← Substitute.algebraicSeq A stored rhs
      let lhs := if !lhs.isAccess && group.contains lhs then (Table.get? stored lhs).getD lhs else lhs
      return set lhs rhs
    return (loops ++ [loop l own], stored)) (([] : Body), ([] : Table Expr Expr))

/-- Symbols that are used in several loops are kept in scratch memory. -/
def split (groups : List Exprs) (body : Body) : Outcome Body := do
  let [(l, inner)] := innermost body
    | raiseWith .violated "Error in AST: multiple innermost loops. Was split transformation already called?"
  requireWith ((body.flatMap outermost).length == 1) .violated "Error in AST, multiple outermost loops."
  let (loops, stored) ← splitLoop A l inner groups
  let memory := stored.filterMap fun (e, _) => match e with
    | .sym s => s.dtype?.map fun t =>
      ({ pointer := .typed s.name (.pointer t false true), size := l.stop, aligned := l.start } : Scratch)
    | _ => none
  let add := fun b => memory.reverse.map allocate ++ b ++ memory.map release
  ((aroundOutermostList add body).getD body).mapM (mapInnermost fun _ _ => .ok (.block none loops))

end LoopNest

end StencilForge
