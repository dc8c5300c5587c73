import StencilForge.Assignment.Basic
import StencilForge.Expr.Cost
import StencilForge.Kernel.Statement

/-!
# Assignment — ordering

`Ordering.topological` takes, again and again, the first item that needs nothing which is still to come.
-/

namespace StencilForge

namespace Ordering

/-- Removes the first item that no remaining item comes before; `fuel` bounds the number of items. -/
def topologicalDeep {α : Type} [BEq α] (before : α → α → Bool) : Nat → List α → Option (List α)
  | _, [] => some []
  | 0, _ => none
  | fuel + 1, xs => match xs.find? fun x => !xs.any fun y => before y x with
    | some x => (topologicalDeep before fuel (xs.erase x)).map (x :: ·)
    | none => none

/-- Distinct items in an order in which `before` holds only forward, as close to the given order as possible. -/
def topological {α : Type} [BEq α] (before : α → α → Bool) (xs : List α) : Option (List α) :=
  topologicalDeep before xs.length xs

structure Item where
  defines : Exprs
  needs : Exprs

def Item.ofAssignment (a : Assignment) : Item := ⟨[a.lhs], Statement.variablesOf a.rhs⟩

/-- A statement; an assignment also needs the place that it writes to. -/
def Item.ofStatement (s : Statement) : Item :=
  match s with
  | .assign lhs .. => ⟨[lhs], s.undefined⟩
  | s => ⟨s.defined, s.undefined⟩

def positions (items : List Item) : Outcome Nats :=
  let numbered := items.zipIdx
  let before := fun a b => a.1.defines.any (b.1.needs.contains ·)
  let edges := numbered.map fun a => (numbered.filter (before a)).map (·.2)
  let isBefore := fun i j => (edges.getD i []).contains j
  present .invalid (topological isBefore (.range items.length))

def sort (as : List Assignment) : Outcome (List Assignment) := do
  return (← positions (as.map .ofAssignment)).filterMap (as[·]?)

end Ordering

/-!
## Assignment — collections

Main assignments define what is wanted, subexpressions the symbols that these use.  Each collection has its own source
of symbols.  The operations here keep the values of the main assignments.
-/

/-- A source of symbols: a stem and the number of the next symbol. -/
structure SymbolSource where
  stem : String := "xi"
  next : Nat := 0
  deriving Repr, Inhabited, DecidableEq

variable (s : SymbolSource)

namespace SymbolSource

def symbol (n : Nat) : Expr := .symbol s!"{s.stem}_{n}"

def head : Expr := s.symbol s.next

def drop (n : Nat) : SymbolSource := { s with next := s.next + n }

def take (n : Nat) : Exprs := (List.range n).map fun i => s.symbol (s.next + i)

def dropExcluded (excluded : Exprs) : Nat → SymbolSource → SymbolSource
  | 0, s => s
  | fuel + 1, s => if excluded.contains s.head then dropExcluded excluded fuel (s.drop 1) else s

def fresh (excluded : Exprs) : Expr × SymbolSource :=
  let s := dropExcluded excluded excluded.length s
  (s.head, s.drop 1)

end SymbolSource

structure Collection where
  main : List Assignment
  sub : List Assignment := []
  hints : Strings := []
  names : SymbolSource := {}
  /-- Whether the only subexpression stands alone, not in a list; such a collection can only be shown. -/
  lone : Bool := false
  deriving Inhabited

namespace Collection

variable (A : Algebra) (c : Collection) (as : List Assignment) (xs : Exprs)

/-- Of two assignments for one variable the later one counts. -/
def ofTable (ps : List (Expr × Expr)) : Outcome (List Assignment) :=
  (ps.foldl (fun (t : Table Expr Expr) (l, r) => Table.insert t l r) []).mapM fun (l, r) => Assignment.make l r

def subexpressions : Outcome (List Assignment) := do
  if c.lone then raise .mistyped
  return c.sub

def all : Outcome (List Assignment) := do return (← c.subexpressions) ++ c.main

def withLists (main sub : List Assignment) : Collection := { c with main, sub, lone := false }

/-! ### What a collection defines and uses -/

def defined : Exprs := c.main.foldl (fun xs a => insertNew xs a.lhs) []

def bound : Outcome Exprs := do
  let as ← c.all
  let xs := as.foldl (fun xs a => insertNew xs a.lhs) []
  requireWith (xs.length == as.length) .violated "Not in SSA form - same symbol assigned multiple times"
  return xs

def free : Outcome Exprs := do
  let used := (← c.all).foldl (fun xs a => unionNew xs a.rhs.symbols) []
  let bound ← c.bound
  return used.filter (!bound.contains ·)

/-- The right side of a variable; of several the last one. -/
def definition? (x : Expr) : Option Expr := (as.reverse.find? (·.lhs == x)).map (·.rhs)

/-- All symbols needed, directly or through others; `fuel` bounds their number. -/
def neededDeep : Nat → Exprs → Exprs → Exprs
  | 0, _, done => done
  | _, [], done => done
  | fuel + 1, x :: queue, done =>
    if done.contains x then neededDeep fuel queue done
    else
      let more := (definition? as x).elim [] (·.symbols)
      neededDeep fuel (queue ++ more) (done ++ [x])

def neededBy : Exprs :=
  let n := as.foldl (fun n a => n + a.rhs.symbols.length) 0
  neededDeep as (xs.length + n + as.length * n + 1) xs []

def needed : Outcome Exprs := do return neededBy (← c.all) xs

def cost : Outcome Cost := do return Cost.sum (← (← c.all).mapM fun a => Cost.ofExpr A .any a.rhs)

def sameAs (c d : Collection) : Outcome Bool := do
  let xs ← c.all
  let ys ← d.all
  return xs.all (ys.contains ·) && ys.all (xs.contains ·)

def find (p : Expr → Bool) (c : Collection) : Outcome Exprs := do
  match ← c.all with
  | [] => raise .mistyped
  | as => return as.foldl (fun xs a => unionNew (unionNew xs (Visit.all p a.lhs)) (Visit.all p a.rhs)) []

/-! ### New collections -/

structure Replacement where
  table : Table Expr Expr
  define : Bool := false
  onLeft : Bool := true
  sort : Bool := true

def replace (r : Replacement) : Outcome Collection := do
  let put := fun e => Substitute.table A r.table e
  let apply := fun a => do Assignment.make (← if r.onLeft then put a.lhs else pure a.lhs) (← put a.rhs)
  let sub ← (← c.subexpressions).mapM apply
  let main ← c.main.mapM apply
  if r.define then do
    let defs ← r.table.mapM fun (old, new) => Assignment.make new old
    let sub := defs ++ sub
    return c.withLists main (← if r.sort then Ordering.sort sub else pure sub)
  else return c.withLists main sub

/-- The state of a merge: the renamed symbols, the subexpressions taken over, the source of symbols. -/
structure Merge where
  renamed : Table Expr Expr := []
  taken : List Assignment := []
  names : SymbolSource

/-- Takes over a subexpression: one that is there already is dropped, one whose name is in use is renamed. -/
def Merge.step (own : List Assignment) (m : Merge) (a : Assignment) : Outcome Merge :=
  match definition? own a.lhs with
  | some e =>
    if e == a.rhs then .ok m
    else do
      let x := m.names.head
      let b ← Assignment.make x (← Substitute.table A m.renamed a.rhs)
      return { renamed := .insert m.renamed a.lhs x, taken := m.taken ++ [b], names := m.names.drop 1 }
  | none => do
    let b ← a.mapBoth (Substitute.table A m.renamed ·)
    return { m with taken := m.taken ++ [b] }

def merge (c d : Collection) : Outcome Collection := do
  requireWith (!c.defined.any (d.defined.contains ·)) .violated
    "Cannot new_merged, since both collection define the same symbols"
  let own ← c.subexpressions
  let m ← (← d.subexpressions).foldlM (Merge.step A own) { names := c.names }
  let main ← d.main.mapM (·.mapBoth (Substitute.table A m.renamed ·))
  return { c.withLists (c.main ++ main) (own ++ m.taken) with names := m.names }

def filter : Outcome Collection := do
  let needed ← c.needed xs
  return { main := (← c.all).filter fun a => xs.contains a.lhs
           sub := (← c.subexpressions).filter fun a => needed.contains a.lhs && !xs.contains a.lhs }

def withoutUnused : Outcome Collection := c.filter (c.main.map (·.lhs))

def insert (x : Expr) : Outcome Collection := do
  let sub ← c.subexpressions
  match (sub.reverse.find? (·.lhs == x)) with
  | none => return c
  | some d =>
    let put := fun a => do Assignment.make a.lhs (← Substitute.table A [(d.lhs, d.rhs)] a.rhs)
    return c.withLists (← c.main.mapM put) (← (sub.filter fun a => !(a.lhs == x)).mapM put)

/-- The subexpressions kept, and what stands for the others. -/
structure Inlining where
  kept : List Assignment := []
  table : Table Expr Expr := []

def Inlining.step (keep : Exprs) (s : Inlining) (a : Assignment) : Outcome Inlining := do
  let a ← a.mapBoth (Substitute.table A s.table ·)
  return if keep.contains a.lhs then { s with kept := s.kept ++ [a] }
    else { s with table := .insert s.table a.lhs a.rhs }

/-- Inserts all subexpressions but those kept.  If the first one is kept it has to be the only one. -/
def inline (keep : Exprs) : Outcome Collection := do
  match ← c.subexpressions with
  | [] => return c.withLists c.main []
  | first :: rest =>
    let lone := keep.contains first.lhs
    let start := if lone then {} else { table := [(first.lhs, first.rhs)] }
    let s ← rest.foldlM (fun s a => do
      let t ← Inlining.step A keep s a
      if lone && t.kept.length > s.kept.length then raise .noSuchPart
      return t) start
    let main ← c.main.mapM (·.mapBoth (Substitute.table A s.table ·))
    return { c.withLists main (if lone then [first] else s.kept) with lone }

/-- Applies a function to all assignments; hints and names are not kept. -/
def rebuilt (f : Assignment → Outcome Assignment) : Outcome Collection := do
  return { main := ← c.main.mapM f, sub := ← (← c.subexpressions).mapM f }

/-! ### Texts -/

def text : Outcome String := do
  let lines := fun as => .join (as.map fun a => s!"\t{a.text A}\n")
  return s!"Subexpressions:\n{lines (← c.subexpressions)}Main Assignments:\n" ++ lines c.main

def title : String := "Equation Collection for " ++ ",".intercalate (c.main.map fun a => Text.plain A a.lhs)

def htmlTable : Outcome String := do
  let border := "style=\"border:none\""
  let rows ← as.mapM fun a => do return s!"<tr {border}> <td {border}>$$" ++ (← a.latex A) ++ "$$</td>  </tr> "
  return "<table style=\"border:none; width: 100%; \">" ++ .join rows ++ "</table>"

def html : Outcome String := do
  let sub ← c.subexpressions
  let first ← if sub.isEmpty then pure "" else do pure s!"<div>Subexpressions:</div>{← htmlTable A sub}"
  return s!"{first}<div>Main Assignments:</div>{← htmlTable A c.main}"

end Collection

end StencilForge
