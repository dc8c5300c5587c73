import StencilForge.Assignment.Collection

/-!
# Assignment — common subexpressions

`Sharing.run` defines a new symbol for each part that occurs more than once.  So that more parts are equal, a negative
product is seen as minus one times a positive one and a power with negative exponent as an inverse, and sums, or
products, with several terms in common get a group of these terms as one argument.  A group is known by its number.
-/

namespace StencilForge.Sharing

variable (A : Algebra)

/-- An argument: an expression, or the group with a number. -/
inductive Part where
  | expr (e : Expr)
  | group (n : Nat)

def Part.same : Part → Part → Bool
  | .expr a, .expr b => a == b
  | .group m, .group n => m == n
  | _, _ => false

instance : BEq Part := ⟨Part.same⟩

structure Group where
  head : Head
  args : List Part
  deriving Inhabited

/-- The groups found so far, and the expressions that are seen as groups. -/
structure Plan where
  groups : List Group := []
  instead : Table Expr Nat := []

def Plan.add (p : Plan) (g : Group) : Nat × Plan := (p.groups.length, { p with groups := p.groups ++ [g] })

def Plan.put (p : Plan) (e : Expr) (g : Group) : Plan :=
  let (n, p) := p.add g
  { p with instead := .insert p.instead e n }

def isWhole : Expr → Bool
  | .atom _ => true
  | .node h _ => match h with
    | .access .. | .element | .resolved .. => true
    | _ => false

/-! ### Sums, products and inverses -/

structure Survey where
  seen : Exprs := []
  sums : Exprs := []
  products : Exprs := []
  plan : Plan := {}

def Survey.note (s : Survey) (e : Expr) : Survey :=
  let (e, s) :=
    if e.hasNegCoeff then
      let n := A.neg e
      if isWhole n then (e, s)
      else (n, { s with seen := insertNew s.seen n, plan := s.plan.put e ⟨.mul, [.expr .negOne, .expr n]⟩ })
    else (e, s)
  match e with
  | .mul _ => { s with products := insertNew s.products e }
  | .add _ => { s with sums := insertNew s.sums e }
  | .pow b x =>
    if x.hasNegCoeff then { s with plan := s.plan.put e ⟨.pow, [.expr (A.pow b (A.neg x)), .expr .negOne]⟩ }
    else s
  | _ => s

def survey (s : Survey) : Expr → Survey
  | .atom _ => s
  | .node h as =>
    if isWhole (.node h as) then s
    else match h with
      | .branch => as.foldl survey s
      | h =>
        if s.seen.contains (.node h as) then s
        else (as.foldl survey { s with seen := s.seen ++ [.node h as] }).note A (.node h as)

/-! ### Groups of common arguments -/

/-- The sets of arguments of sums or products, each argument known by a number. -/
structure Tracker where
  values : List Part := []
  sets : List Nats := []
  changed : Nats := []
  plan : Plan

variable (t : Tracker)

namespace Tracker

def number (p : Part) : Nat × Tracker :=
  (t.values.findIdx? (· == p)).elim (t.values.length, { t with values := t.values ++ [p] }) fun n => (n, t)

def set (i : Nat) : Nats := t.sets.getD i []

def addExpr (e : Expr) : Tracker :=
  let (ns, t) := e.args.foldl (fun (acc : Nats × Tracker) a =>
    let (n, t) := acc.2.number (.expr a)
    (insertNew acc.1 n, t)) (([] : Nats), t)
  { t with sets := t.sets ++ [ns] }

def parts (ns : Nats) : List Part := (ns.mergeSort (· ≤ ·)).filterMap (t.values[·]?)

/-- Puts the argument `n` in place of the arguments `common`. -/
def contract (common : Nats) (n : Nat) (t : Tracker) (i : Nat) : Tracker :=
  { t with sets := t.sets.set i (insertNew ((t.set i).filter (!common.contains ·)) n)
           changed := insertNew t.changed i }

/-- Later expressions with at least two arguments in common with the one at `i`, few common ones first. -/
def candidates (i : Nat) : Nats :=
  let count := fun j => ((t.set i).filter ((t.set j).contains ·)).length
  let js := (List.range t.sets.length).filter fun j => i < j && 2 ≤ count j
  js.mergeSort fun a b => count a < count b || (count a = count b && a ≤ b)

/-- Groups what the expression at `i` has in common with each candidate. -/
def combine (head : Head) (whole : Expr) (i : Nat) : Nats → Tracker → Tracker
  | [], t => t
  | j :: js, t =>
    let common := (t.set i).filter ((t.set j).contains ·)
    if common.length ≤ 1 then combine head whole i js t
    else
      let rest := (t.set i).filter (!common.contains ·)
      let (n, t) :=
        if rest.isEmpty then t.number (.expr whole)
        else
          let (g, plan) := t.plan.add ⟨head, t.parts common⟩
          let (n, t) := { t with plan }.number (.group g)
          (n, t.contract common n i)
      let t := t.contract common n j
      let also := js.filter fun k => common.all ((t.set k).contains ·)
      combine head whole i js (also.foldl (contract common n) t)

/-- Treats the expression at `i`; what changed is seen as a group from then on. -/
def step (head : Head) (t : Tracker) (p : Expr × Nat) : Tracker :=
  let t := combine head p.1 p.2 (t.candidates p.2) t
  if t.changed.contains p.2 then { t with plan := t.plan.put p.1 ⟨head, t.parts (t.set p.2)⟩ } else t

end Tracker

def group (head : Head) (es : Exprs) (plan : Plan) : Plan :=
  let es := es.mergeSort fun a b => a.args.length ≤ b.args.length
  let t := es.foldl Tracker.addExpr { plan }
  (es.zipIdx.foldl (Tracker.step head) t).plan

def planFor (es : Exprs) : Plan :=
  let s := es.foldl (survey A) {}
  group .mul s.products (group .add s.sums s.plan)

/-! ### Repeated parts -/

structure Repeats where
  seen : List Part := []
  again : List Part := []
  symbols : Exprs := []

def Plan.contents (plan : Plan) (p : Part) : Group :=
  let ofExpr := fun (e : Expr) => match e with
    | .atom _ => ⟨.add, []⟩
    | .node h as => (⟨h, as.map .expr⟩ : Group)
  match p with
  | .group n => plan.groups.getD n default
  | .expr e => (Table.get? plan.instead e).elim (ofExpr e) fun n => plan.groups.getD n default

def isBranch : Part → Bool
  | .expr (.branch _ _) => true
  | _ => false

/-- `fuel` bounds the nesting depth. -/
def repeats (plan : Plan) : Nat → Repeats → Part → Repeats
  | 0, r, _ => r
  | fuel + 1, r, p =>
    let whole := match p with
      | .expr e => given (isWhole e) e
      | .group _ => none
    match whole with
    | some e => if e.isSymbol then { r with symbols := insertNew r.symbols e } else r
    | none =>
      if isBranch p then (plan.contents p).args.foldl (repeats plan fuel) r
      else if r.seen.contains p then { r with again := insertNew r.again p }
      else (plan.contents p).args.foldl (repeats plan fuel) { r with seen := r.seen ++ [p] }

/-! ### Building expressions with symbols for repeated parts -/

structure Defined where
  symbols : Table Part Expr := []
  list : List (Expr × Expr) := []
  names : SymbolSource

def visitOrder (p : Part) (g : Group) : List Part :=
  let ordered := fun as =>
    (Arrange.sortBySize A (as.filterMap fun
      | .expr e => some e
      | .group _ => none)).map .expr
  match p, g.head with
  | .expr (.mul _), .mul => ordered g.args
  | .expr (.add _), .add => ordered g.args
  | _, _ => g.args

/-- `fuel` bounds the nesting depth. -/
def build (plan : Plan) (r : Repeats) : Nat → Part → StateT Defined Outcome Expr
  | 0, _ => raise .general
  | fuel + 1, p => do
    match p with
    | .expr (.atom a) => return .atom a
    | .expr (.node (.access f n b) as) => return .node (.access f n b) as
    | p => do
      let s ← get
      match Table.get? s.symbols p with
      | some x => return x
      | none => do
        let g := plan.contents p
        -- sums and products that are not seen as groups stay as they are if nothing in them changes
        let grouped := match p with
          | .expr e => (Table.get? plan.instead e).isSome
          | .group _ => true
        let args := if grouped then g.args else visitOrder A p g
        let new ← args.mapM (build plan r fuel)
        let stays := !grouped && (g.head matches .add || g.head matches .mul) &&
          (args.zip new).all fun (a, b) => a == .expr b
        let e ← match p, stays with
          | .expr e, true => pure e
          | .expr (.node h as), false =>
            if grouped then Build.node A g.head new
            else Build.node A h (Visit.withHidden h as new)
          | _, _ => Build.node A g.head new
        if r.again.contains p && !isBranch p then do
          let s ← get
          let (x, names) := s.names.fresh r.symbols
          set { symbols := .insert s.symbols p x, list := s.list ++ [(x, e)], names : Defined }
          return x
        else return e

structure Shared where
  definitions : List Assignment
  assignments : List Assignment
  names : SymbolSource

def run (names : SymbolSource) (as : List Assignment) : Outcome Shared := do
  let es := as.flatMap fun a => [a.lhs, a.rhs]
  let plan := planFor A es
  let fuel := 4 * (Expr.sizeList es + plan.groups.length) + 16
  let r := es.foldl (fun r e => repeats plan fuel r (.expr e)) {}
  let one := fun a => do
    let l ← build A plan r fuel (.expr a.lhs)
    let e ← build A plan r fuel (.expr a.rhs)
    (Assignment.make l e : Outcome Assignment)
  let (as, s) ← (as.mapM one : StateT Defined Outcome (List Assignment)).run { names }
  return { definitions := ← s.list.mapM fun (x, e) => Assignment.make x e, assignments := as, names := s.names }

end StencilForge.Sharing
