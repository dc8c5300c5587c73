import StencilForge.Kernel.Statement

/-!
# Kernel — groups of coordinates for pointers

Groups are described by coordinates or by words: `spatialInner0` is the innermost loop, `spatialOuter1` the outermost,
`index0` the first index coordinate.
-/

namespace StencilForge.BasePointer

inductive Item where
  | coordinate (k : Int)
  | word (w : String)
  deriving DecidableEq, Repr

def number (s : String) : Outcome Int := present .invalid (Decimal.readInt s)

/-- Negative positions count from the end. -/
def entry (xs : Ints) (k : Int) : Outcome Int := do return xs.getD (← Layout.place xs.length k) 0

def after? (w start : String) : Option String := (start.toList.isPrefixOf? w.toList).map .ofList

/-- Loops are ordered from the inside out. -/
def coordinates (inward : Ints) (spatial : Nat) : Item → Outcome Ints
  | .coordinate k => .ok [k]
  | .word w =>
    match after? w "spatial" with
    | some r =>
      match after? r "Inner", after? r "Outer" with
      | some n, _ => do return [← entry inward (← number n)]
      | none, some n => do return [← entry inward (-(← number n))]
      | none, none =>
        if r == "all" then .ok ((List.range spatial).map Int.ofNat)
        else raiseWith .invalid s!"Could not parse {r}"
    | none => match after? w "index" with
      | some n => do return [spatial + (← number n)]
      | none => raiseWith .invalid s!"Unknown specification {w}"

def take (count : Nat) (seen : Ints) (k : Int) : Outcome Ints := do
  requireWith (k < count) .invalid s!"Coordinate {k} does not exist"
  requireWith (!seen.contains k) .invalid s!"Coordinate {k} specified two times"
  return seen ++ [k]

def group (inward : Ints) (spatial count : Nat) (seen : Ints) (items : List Item) : Outcome Ints :=
  items.foldlM (fun seen i => do (← coordinates inward spatial i).foldlM (take count) seen) seen

def groups (description : List (List Item)) (loopOrder : Ints) (spatial index : Nat) : Outcome (List Ints) := do
  let count := spatial + index
  let found ← description.foldlM (fun found items => do
    let seen ← group loopOrder.reverse spatial count found.flatten items
    return found ++ [seen.drop found.flatten.length]) []
  let rest := ((List.range count).map Int.ofNat).filter (!found.flatten.contains ·)
  return found ++ [rest].filter (!·.isEmpty)

end StencilForge.BasePointer

/-!
## Kernel — addresses

For each group of coordinates a pointer is moved; the first group is left for the position behind the last pointer.
`Address.resolve` puts the definitions of pointers in front of the statements that use them.
-/

namespace StencilForge.Address

structure Plan where
  readOnly : Strings := []
  groups : Table String (List Ints) := []
  /-- Symbols that stand for the coordinates of a field instead of loop counters. -/
  fixed : Table String Exprs := []

def fieldPointer (readOnly : Strings) (f : GridField) : Symbol :=
  ⟨"_data_" ++ f.name, .pointer f.name (.pointer f.dtype.innermost (readOnly.contains f.name) true)⟩

/-! ### Names of pointers -/

def digest (s : String) : UInt64 :=
  s.toList.foldl (fun h c => (h ^^^ .ofNat c.toNat) * 1099511628211) 14695981039346656037

def hex16 (n : UInt64) : String :=
  let ds := Nat.toDigits 16 n.toNat
  .ofList (.replicate (16 - ds.length) '0' ++ ds)

/-- A minus sign is written `m`. -/
def signed (n : Int) : String := if n < 0 then "m" ++ toString n.natAbs else toString n.natAbs

def namePart (coord value : Int) : String := "_" ++ signed coord ++ signed value

/-- Where an access stands along a coordinate. -/
structure Place where
  coord : Int
  terms : Exprs
  shown : Expr

variable (A : Algebra) (plan : Plan) (f : GridField) (a : Expr)

def describe (ps : List Place) : String × Expr :=
  let known := ps.filterMap fun p => match p.shown with
    | .lit n => some (namePart p.coord n)
    | _ => none
  let open_ := ps.filterMap fun p => match p.shown with
    | .lit _ => none
    | e => some (Text.ofExpr A e)
  let name := .join known ++ if open_.isEmpty then "" else hex16 (digest (",".intercalate open_))
  let distance := ps.foldl (fun d p =>
    let stride := .ofExtent (f.strides.getD p.coord.toNat (.known 0))
    p.terms.foldl (fun d t => A.add2 d (A.mul2 stride t.ofPosition)) d) .zero
  (name, distance)

/-! ### One access -/

def spatialValue (coord : Int) : Expr :=
  if a.isAbsolute then .zero
  else
    let c := match Table.get? plan.fixed f.name with
      | some cs => cs.getD coord.toNat .zero
      | none => .sym (Counter.symbol coord)
    A.mul2 c (.int f.dtype.itemSize)

def place (coord : Int) : Outcome Place := do
  let dim := f.spatialDimensions
  if coord < dim then
    let offset := a.offsets.getD coord.toNat (.lit 0)
    return ⟨coord, [spatialValue A plan f a coord, offset], offset⟩
  else
    let i := a.index.getD (coord.toNat - dim) (.lit 0)
    match f.dtype with
    | .record ms .. =>
      require (f.indexDimensions == 1) .violated
      match i with
      | .atom (.member n) =>
        let m ← present .missing (ms.find? (·.name == n))
        return ⟨coord, [.lit m.offset], .lit m.offset⟩
      | _ => raise .violated
    | _ => return ⟨coord, [i], i⟩

def advance (group : Ints) (p : Symbol) :
    Outcome (Symbol × Expr) := do
  let ps ← group.mapM (place A plan f a)
  let (name, distance) := describe A f ps
  return (.typed (p.name ++ name) (p.dtype?.getD .double), distance)

abbrev Definitions := List (Expr × Expr)

def groupsOf : List Ints :=
  (Table.get? plan.groups f.name).getD [(List.range f.dimensions).map Int.ofNat]

def access : Outcome (Expr × Definitions) := do
  let first := fieldPointer plan.readOnly f
  let groups := groupsOf plan f
  let (last, defs) ← (groups.drop 1).reverse.foldlM (fun (p, ds) g => do
    let (q, distance) ← advance A plan f a g p
    return (q, ds ++ [(.sym q, A.add2 (.sym p) distance)])) (first, ([] : Definitions))
  let (_, position) ← advance A plan f a (groups.headD []) last
  let e := .node (.resolved f a.offsets.length) (.sym last :: position :: (a.offsets ++ a.index))
  match f.dtype, a.index with
  | .record ms .., .atom (.member n) :: _ =>
    let m ← present .missing (ms.find? (·.name == n))
    return (Build.cast .reinterpret e [.type (.basic m.scalar false)], defs)
  | _, _ => return (e, defs)

/-! ### Expressions -/

abbrev Resolve := StateT Definitions Outcome

/-- Sums, products and choices are left as they are. -/
def rebuild (h : Head) (as : Exprs) : Outcome Expr :=
  match h with
  | .add | .mul | .piecewise => .ok (.node h as)
  | h => Build.node A h as

section

variable (at? : Expr → Option (Resolve Expr))

mutual

/-- `fuel` bounds the nesting depth. -/
def expression : Nat → Expr → Resolve Expr
  | 0, e => return e
  | fuel + 1, e => match e with
    | .atom a => return .atom a
    | .node h as => match h with
      | .access f n abs => do
        let a ← if (Access.indirectFields e).isEmpty then pure e
          else do
            let os ← positions fuel e.offsets
            let is ← positions fuel e.index
            Access.make f os (some is) abs
        match at? (.node (.access f n abs) (a.offsets ++ a.index)) with
        | some r => r
        | none => return e
      | .resolved .. => return e
      | h => do
        let bs ← expressions fuel as
        if as.isEmpty then return e
        else rebuild A h (Visit.withHidden h as bs)

def expressions : Nat → Exprs → Resolve Exprs
  | 0, es => return es
  | _ + 1, [] => return []
  | fuel + 1, a :: as => do return (← expression fuel a) :: (← expressions fuel as)

/-- Plain positions stay. -/
def positions : Nat → Exprs → Resolve Exprs
  | 0, es => return es
  | _ + 1, [] => return []
  | fuel + 1, a :: as => do
    let b ← match a with
      | .lit n => pure (.lit n)
      | .atom (.member n) => pure (.atom (.member n))
      | e => expression fuel e
    return b :: (← positions fuel as)

end

def inExpression (e : Expr) : Resolve Expr :=
  expression A at? (4 * e.size + 8) e

/-! ### Statements -/

/-- A declaration moves in front of loops and branches that stand directly before. -/
def insertAtEnd (before : Body) (s : Statement) : Body :=
  if s.isDeclaration then
    let tail := before.reverse.takeWhile fun t => t.isLoop || t.isBranch
    before.take (before.length - tail.length) ++ s :: tail.reverse
  else before ++ [s]

def insertDefinitions (before after : Body) (ds : Definitions) : Body :=
  ds.foldl (fun before (p, v) =>
    if (Statement.definedList before).contains p || (Statement.definedList after).contains p then before
    else insertAtEnd before (.assign p v false)) before

mutual

/-- Gives the definitions that have to stand before the statement. -/
def statement (plain : Bool) : Statement → Outcome (Statement × Definitions)
  | .assign lhs rhs k => do
    require plain .violated
    let ((l, r), ds) ← (do return (← inExpression A at? lhs, ← inExpression A at? rhs)).run []
    return (.assign l r k, ds)
  | .branch cond yes e no => do
    require plain .violated
    let (c, ds) ← (inExpression A at? cond).run []
    return (.branch c (← block true [] yes) e (← block true [] no), ds)
  | .block p body => do return (.block p (← block p.isNone [] body), [])
  | .loop l body => do return (.loop l (← block true [] body), [])
  | s => .ok (s, [])

def block (plain : Bool) (done : Body) : Body → Outcome Body
  | [] => .ok done
  | s :: r => do
    let (t, ds) ← statement plain s
    block plain (insertDefinitions done (t :: r) ds ++ [t]) r

end

end

def at? (e : Expr) : Option (Resolve Expr) :=
  e.field?.map fun f => do
    let (r, ds) ← access A plan f e
    modify (· ++ ds)
    return r

def resolve (body : Body) : Outcome Body :=
  block A (at? A plan) true [] body

end StencilForge.Address
