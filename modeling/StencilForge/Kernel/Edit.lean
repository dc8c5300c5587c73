import StencilForge.Kernel.Statement

/-!
# Kernel — changes of blocks

Blocks, loops and branches are numbered as they are met from the outside to the inside; the body is the first block.
`Edit.tidy` removes blocks that are not needed.
-/

namespace StencilForge.Edit

/-! ### Blocks that are not needed -/

/-- A block of at most one statement is not needed. -/
def tidied : Statement → Body
  | .block p body =>
    let body := body.flatMap tidied
    if body.length ≤ 1 then body else [.block p body]
  | .loop l body => [.loop l (body.flatMap tidied)]
  | .branch c yes e no => [.branch c (yes.flatMap tidied) e (no.flatMap tidied)]
  | s => [s]

def tidy (body : Body) : Body := body.flatMap tidied

/-! ### Parts by number -/

/-- The number that is left to count, or nothing once it is done. -/
abbrev Search := StateT (Option Nat) Outcome

def isNext : Search Bool := do
  match ← get with
  | some 0 => do
    set (none : Option Nat)
    return true
  | some (n + 1) => do
    set (some n)
    return false
  | none => return false

/-- A part that is left out stays. -/
structure Change where
  block : Option (Body → Outcome Body) := none
  loop : Option (Loop → Body → Outcome Body) := none
  branch : Option (Expr → Body → Bool → Body → Outcome Body) := none
  assign : Option (Expr → Expr → Bool → Outcome Body) := none

def tried (found : Option (Outcome Body)) (otherwise : Search Body) : Search Body := do
  match found with
  | some r => do if ← isNext then r else otherwise
  | none => otherwise

def walk (c : Change) : Statement → Search Body
  | .block p body => do return [.block p (← tried (c.block.map (· body)) (body.flatMapM (walk c)))]
  | .loop l body => tried (c.loop.map (· l body)) do
    return [.loop l (← tried (c.block.map (· body)) (body.flatMapM (walk c)))]
  | .branch e yes hasElse no => tried (c.branch.map (· e yes hasElse no)) do
    let yes ← tried (c.block.map (· yes)) (yes.flatMapM (walk c))
    if hasElse then return [.branch e yes hasElse (← tried (c.block.map (· no)) (no.flatMapM (walk c)))]
    else return [.branch e yes hasElse no]
  | .assign l r k => tried (c.assign.map (· l r k)) (return [.assign l r k])
  | s => return [s]

/-- A number that no part has is refused. -/
def change (c : Change) (i : Nat) (body : Body) : Outcome Body := do
  let (body, left) ← (tried (c.block.map (· body)) (body.flatMapM (walk c))).run (some i)
  if left.isSome then raise .outOfRange
  return body

def block (i : Nat) (f : Body → Outcome Body) (body : Body) : Outcome Body :=
  change { block := some f } i body

def loop (i : Nat) (f : Loop → Body → Outcome Body) (body : Body) :
    Outcome Body :=
  change { loop := some f } i body

def branch (i : Nat) (f : Expr → Body → Bool → Body → Outcome Body)
    (body : Body) : Outcome Body :=
  change { branch := some f } i body

def assignment (i : Nat) (f : Expr → Expr → Bool → Outcome Body) (body : Body) :
    Outcome Body :=
  change { assign := some f } i body

/-! ### All parts -/

def blocksIn : Statement → List (Option String)
  | .block p body => p :: body.flatMap blocksIn
  | .loop _ body => none :: body.flatMap blocksIn
  | .branch _ yes e no => none :: yes.flatMap blocksIn ++ (if e then [none] else []) ++ no.flatMap blocksIn
  | _ => []

def blocks (body : Body) : List (Option String) := none :: body.flatMap blocksIn

def conditions : Statement → Exprs
  | .block _ body | .loop _ body => body.flatMap conditions
  | .branch c yes _ no => c :: yes.flatMap conditions ++ no.flatMap conditions
  | _ => []

def located (around : List Loop) : Statement → List (Expr × Expr × List Loop)
  | .assign l r _ => [(l, r, around)]
  | .block _ body => body.flatMap (located around)
  | .loop l body => body.flatMap (located (around ++ [l]))
  | .branch _ yes _ no => yes.flatMap (located around) ++ no.flatMap (located around)
  | _ => []

end StencilForge.Edit
