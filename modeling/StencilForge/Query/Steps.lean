import StencilForge.Document.Expr

/-!
# Questions — steps

A step that fails answers its failure, and the steps after it go on from the state that it left.
-/

namespace StencilForge.Query

open Document

def steps (j : Json) : Outcome (List (String × List Json)) :=
  j "steps" |> listOf fun
    | .arr (.str m :: as) => .ok (m, as)
    | _ => bad

def runSteps (fault : Failure → Json) {σ : Type} (init : σ) (ss : List (String × List Json))
    (step : σ → String → List Json → σ × Answer) : Json :=
  .arr (ss.foldl (fun (st : σ × List Json) s =>
    let (next, r) := step st.1 s.1 s.2
    (next, st.2 ++ [match r with
      | .ok j => j
      | .error f => fault f])) (init, [])).2

def keeping {σ : Type} (old : σ) (r : Outcome (σ × Json)) : σ × Answer :=
  match r with
  | .ok (s, j) => (s, .ok j)
  | .error f => (old, .error f)

def asStencil : Json → Outcome Stencil := listOf asInts

def firstField (j : Json) : Outcome GridField := do
  match ← readFields j with
  | f :: _ => return f
  | [] => bad

end StencilForge.Query
