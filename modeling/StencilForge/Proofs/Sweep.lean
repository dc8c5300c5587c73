import StencilForge.Proofs.Variables

/-!
# Proofs — visiting the cells of a domain

Assignments without loops and memory layout: an access reads or writes the element at the cell plus
the offsets (`Sweep.cell`), and symbols live as long as the cell is visited.  A `Placement` gives
each element a key of the memory.
-/

namespace StencilForge

abbrev Placement (K : Type) := Ints → GridField → Ints → Ints → Option K

namespace Sweep

variable {V K : Type} [DecidableEq K]

structure State (V K : Type) where
  env : Symbol → Option V
  mem : K → Option V

def index? (M : Model V) (vs : List (Option V)) : Option Ints := vs.mapM fun v => v.bind M.toInt?

def view (M : Model V) (place : Placement K) (c : Ints) (s : State V K) : View V where
  symbol := s.env
  access := fun f os vs => (index? M vs).bind fun is => (place c f os is).bind s.mem
  load := fun _ _ => none

def key? (M : Model V) (place : Placement K) (c : Ints) (s : State V K) (e : Expr) : Option K :=
  e.field?.bind fun f => (Model.positions? e.offsets).bind fun os =>
    (index? M (e.index.map (M.eval (view M place c s)))).bind fun is => place c f os is

def store (M : Model V) (place : Placement K) (c : Ints) (s : State V K) (lhs : Expr)
    (v : Option V) : State V K :=
  match lhs with
  | .sym x => { s with env := Function.update s.env x v }
  | .node (.access f n false) as =>
    match key? M place c s (.node (.access f n false) as) with
    | some k => { s with mem := Function.update s.mem k v }
    | none => s
  | _ => s

/-- Only assignments have a meaning here. -/
def step (M : Model V) (place : Placement K) (c : Ints) (s : State V K) : Statement → State V K
  | .assign lhs rhs _ => store M place c s lhs (M.eval (view M place c s) rhs)
  | _ => s

/-- The memory after a cell; symbols have their values `σ` before. -/
def cell (M : Model V) (place : Placement K) (σ : Symbol → Option V) (body : Body) (c : Ints)
    (m : K → Option V) : K → Option V :=
  (body.foldl (step M place c) ⟨σ, m⟩).mem

def run (M : Model V) (place : Placement K) (σ : Symbol → Option V) (body : Body)
    (cells : List Ints)
    (m : K → Option V) : K → Option V :=
  cells.foldl (fun m c => cell M place σ body c m) m

end Sweep

end StencilForge
