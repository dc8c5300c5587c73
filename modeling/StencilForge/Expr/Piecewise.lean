import StencilForge.Expr.Logic

/-!
# Expr — values by cases

The first branch whose condition holds gives the value.  Branches that are never reached are dropped, and neighbours
with equal values joined.
-/

namespace StencilForge.Piecewise

open Logic

variable (A : Algebra)

abbrev Branch := Expr × Expr

/-! ### Conditions on one variable -/

structure Bound where
  value : Number
  isOpen : Bool
  deriving DecidableEq, Repr

structure Range where
  low : Bound
  high : Bound
  deriving DecidableEq, Repr

def Range.all : Range := ⟨⟨.negInf, true⟩, ⟨.inf, true⟩⟩

def Range.isEmpty (r : Range) : Bool :=
  r.high.value.lt r.low.value || (r.low.value.sameValue r.high.value && (r.low.isOpen || r.high.isOpen))

def Range.meet (a b : Range) : Range :=
  let low := if a.low.value.lt b.low.value then b.low
    else if b.low.value.lt a.low.value then a.low else ⟨a.low.value, a.low.isOpen || b.low.isOpen⟩
  let high := if a.high.value.lt b.high.value then a.high
    else if b.high.value.lt a.high.value then b.high else ⟨a.high.value, a.high.isOpen || b.high.isOpen⟩
  ⟨low, high⟩

def meet (as bs : List Range) : List Range := (as.flatMap fun a => bs.map (a.meet ·)).filter (!·.isEmpty)

def touches (a b : Range) : Bool :=
  b.low.value.lt a.high.value || (b.low.value.sameValue a.high.value && !(a.high.isOpen && b.low.isOpen))

def joinSorted : List Range → List Range → List Range
  | acc, [] => acc.reverse
  | [], b :: r => joinSorted [b] r
  | a :: acc, b :: r =>
    if touches a b then
      let high := if a.high.value.lt b.high.value then b.high
        else if b.high.value.lt a.high.value then a.high
        else ⟨a.high.value, a.high.isOpen && b.high.isOpen⟩
      joinSorted (⟨a.low, high⟩ :: acc) r
    else joinSorted (b :: a :: acc) r

def union (as bs : List Range) : List Range :=
  let le := fun a b =>
    a.low.value.lt b.low.value || (a.low.value.sameValue b.low.value && (!a.low.isOpen || b.low.isOpen))
  joinSorted [] ((as ++ bs).mergeSort le)

def ofRelation (r : Rel) (n : Number) : List Range :=
  let below := fun o => .mk ⟨.negInf, true⟩ ⟨n, o⟩
  let above := fun o => .mk ⟨n, o⟩ ⟨.inf, true⟩
  match r with
  | .lt => [below true]
  | .le => [below false]
  | .gt => [above true]
  | .ge => [above false]
  | .eq => [⟨⟨n, false⟩, ⟨n, false⟩⟩]
  | .ne => [below true, above true]

/-- The condition is made of comparisons of `x` with numbers. -/
def solve (x : Expr) : Nat → Expr → Option (List Range)
  | 0, _ => none
  | fuel + 1, c => match c with
    | .bool b => some (if b then [.all] else [])
    | .rel r a (.num n) => given (a == x && n.isFinite) (ofRelation r n)
    | .rel r (.num n) a => given (a == x && n.isFinite) (ofRelation r.flip n)
    | .node .and cs => cs.foldl (fun acc c => do return meet (← acc) (← solve x fuel c)) (some [.all])
    | .node .or cs => cs.foldl (fun acc c => do return union (← acc) (← solve x fuel c)) (some [])
    | _ => none

def Range.condition (x : Expr) (r : Range) : Outcome Expr := do
  if r.low.value == r.high.value then Relation.build A .eq x (.num r.low.value)
  else
    let low := if r.low.value == .negInf then [] else [.rel (if r.low.isOpen then .lt else .le) (.num r.low.value) x]
    let high := if r.high.value == .inf then [] else [.rel (if r.high.isOpen then .lt else .le) x (.num r.high.value)]
    conj A (low ++ high)

def condition (x : Expr) (rs : List Range) : Outcome Expr := do
  match rs with
  | [a, b] =>
    if a.low.value == .negInf && b.high.value == .inf && a.high.value == b.low.value then
      return .rel .ne x (.num a.high.value)
  | _ => pure ()
  disj A (← rs.mapM (Range.condition A x))

/-- By the set of values that satisfy the condition. -/
def tidy (c : Expr) : Outcome Expr :=
  match c with
  | .node .and _ | .node .or _ | .node .not _ => match c.symbols with
    | [x] => match solve x (c.depth + 1) c with
      | some rs => condition A x rs
      | none => .ok c
    | _ => .ok c
  | c => .ok c

/-! ### Branches -/

def canonical : Nat → Expr → Outcome Expr
  | 0, c => .ok c
  | fuel + 1, c => match c with
    | .node (.rel _) _ => .ok (Relation.canonical A c)
    | .node .and cs => do conj A (← cs.mapM (canonical fuel))
    | .node .or cs => do disj A (← cs.mapM (canonical fuel))
    | .node .not [c] => do return neg (← canonical fuel c)
    | c => .ok c

def distribute : Nat → Expr → Outcome Expr
  | 0, c => .ok c
  | fuel + 1, c => match c with
    | .node .or cs =>
      match cs.find? fun
        | .node .and _ => true
        | _ => false with
      | some (.node .and ds) => do
        let rest := cs.filter (· != .node .and ds)
        conj A (← ds.mapM fun d => do distribute fuel (← disj A (d :: rest)))
      | _ => .ok c
    | .node .and cs => do conj A (← cs.mapM (distribute fuel))
    | c => .ok c

def collapse (seen : Exprs) (cond : Expr) (value : Expr) : Expr :=
  match value with
  | .node .piecewise bs => go bs []
  | v => v
where
  go : Exprs → Exprs → Expr
    | [], _ => value
    | .branch e c :: r, before =>
      if seen.contains c then go r before
      else if c == cond then
        if c == .bool true then value
        else if before.isEmpty then e else .node .piecewise (before ++ [.branch e c])
      else go r (before ++ [.branch e c])
    | _ :: _, _ => value

/-- What is left of a condition when earlier ones did not hold. -/
def remaining (seen : Exprs) (c : Expr) : Outcome Expr :=
  match c with
  | .node .and cs =>
    let strictAfterWeak := cs.any fun c => match c with
      | .rel .lt a b => seen.contains (.rel .le a b)
      | .rel .gt a b => seen.contains (.rel .ge a b)
      | _ => false
    if strictAfterWeak then .ok (.bool false)
    else conj A (cs.filter fun c => match c with
      | .node (.rel _) _ => !seen.contains (Relation.canonical A (Relation.negated c))
      | _ => true)
  | .node (.rel _) _ => .ok (if seen.contains (Relation.canonical A (Relation.negated c)) then .bool true else c)
  | c => .ok c

/-- `seen` are earlier conditions, `acc` the branches kept, last first. -/
def simplify : List Branch → Exprs → List Branch → Outcome (List Branch)
  | [], _, acc => .ok acc.reverse
  | (v, c) :: r, seen, acc => do
    let v := collapse seen c v
    let parts := c :: (match c with
      | .node .and cs => cs
      | _ => [])
    if parts.any (seen.contains ·) then simplify r seen acc
    else
      let c ← remaining A seen c
      let seen := seen ++ [c]
      match acc with
      | (w, d) :: rest =>
        if w == v then
          let j ← disj A [c, d]
          let j ← distribute A 8 j
          simplify r seen ((v, j) :: rest)
        else if d == c then simplify r seen ((v, c) :: rest)
        else simplify r seen ((v, c) :: acc)
      | [] => simplify r seen [(v, c)]

def reachable : List Branch → List Branch
  | [] => []
  | (v, c) :: r =>
    if c == .bool false then reachable r
    else if c == .bool true then [(v, c)] else (v, c) :: reachable r

def settle : Nat → List Branch → Outcome Expr
  | 0, bs => .ok (.node .piecewise (bs.map fun (v, c) => .branch v c))
  | fuel + 1, bs => do
    let bs := reachable bs
    match bs with
    | [] => return .nan
    | [(v, .bool true)] => return v
    | _ =>
      let tidied ← bs.mapM fun (v, c) => do
        let c ← tidy A c
        return (v, ← canonical A (c.depth + 1) c)
      let out ← simplify A tidied [] []
      if out == bs then return .node .piecewise (bs.map fun (v, c) => .branch v c)
      else settle fuel out

def build (bs : List Branch) : Outcome Expr := do
  if bs.isEmpty then raise .mistyped
  let bs ← bs.mapM fun (v, c) => match c with
    | .num n => if n.sameValue .one then .ok (v, .bool true) else if n.isZero then .ok (v, .bool false)
        else raise .mistyped
    | c => if c.isBoolean then .ok (v, c) else raise .mistyped
  settle A 16 bs

end StencilForge.Piecewise
