import StencilForge.Kernel.Address

/-!
# Kernel — moving constants out of loops

An assignment is moved outward as far as it does not depend on what it leaves; branches are never left.  Where the
outer block assigns the same value, its variable is used; where it assigns another one to the same variable, the moved
variable is renamed.
-/

namespace StencilForge.Motion

inductive Frame where
  | block (pragma : Option String) (before after : Body)
  | loop (l : Loop) (before after : Body)
  | yes (cond : Expr) (hasElse : Bool) (no : Body) (before after : Body)
  | no (cond : Expr) (yes : Body) (before after : Body)

namespace Frame

def before : Frame → Body
  | block _ b _ | loop _ b _ | yes _ _ _ b _ | no _ _ b _ => b

def after : Frame → Body
  | block _ _ a | loop _ _ a | yes _ _ _ _ a | no _ _ _ a => a

def withBefore (b : Body) : Frame → Frame
  | block p _ a => block p b a
  | loop l _ a => loop l b a
  | yes c e n _ a => yes c e n b a
  | no c y _ a => no c y b a

def close (body : Body) : Frame → Statement
  | block p _ _ => .block p body
  | loop l _ _ => .loop l body
  | yes c e n _ _ => .branch c body e n
  | no c y _ _ => .branch c y true body

def isBranch : Frame → Bool
  | yes .. | no .. => true
  | _ => false

def defines (inner : Exprs) : Frame → Exprs
  | block .. => inner
  | loop l .. => [l.counter]
  | yes .. | no .. => []

end Frame

/-- `inner` are the symbols that the innermost list defines. -/
def climb (needs : Exprs) : Exprs → List Frame → Nat
  | inner, frames =>
    if needs.any inner.contains then 0
    else match frames with
      | [] => 0
      | f :: fs =>
        if f.isBranch then 0
        else
          let own := f.defines inner
          -- the statement around the list may define what is needed
          if needs.any own.contains then 0
          else
            let outer := unionNew (unionNew (Statement.definedList f.before) own) (Statement.definedList f.after)
            1 + climb needs outer fs
  termination_by _ fs => fs.length

def topAssignments (body : Body) : List (Expr × Expr) :=
  body.filterMap fun
    | .assign l r _ => some (l, r)
    | _ => none

structure State where
  frames : List Frame
  done : Body := []
  renamed : Table Expr Expr := []
  fresh : Nat

def insertAt (fs : List Frame) (k : Nat) (s : Statement) : List Frame :=
  fs.modify (k - 1) fun f => f.withBefore (Address.insertAtEnd f.before s)

/-- Moves one assignment `k` frames outward. -/
def move (st : State) (lhs rhs : Expr) (isConst : Bool) (k : Nat) : Outcome State := do
  let outer := match st.frames[k - 1]? with
    | some f => topAssignments f.before ++ topAssignments f.after
    | none => []
  match outer.find? (·.1 == lhs) with
  | none => match outer.find? (·.2 == rhs) with
    | some (other, _) => return { st with renamed := .insert st.renamed lhs other }
    | none => return { st with frames := insertAt st.frames k (.assign lhs rhs isConst) }
  | some (_, r) =>
    if r == rhs then return st
    else match lhs with
      | .sym s => match s.dtype? with
        | some t =>
          let new := .typedSymbol ("Dummy_" ++ toString st.fresh) t
          return { st with
            frames := insertAt st.frames k (.set new rhs)
            renamed := .insert st.renamed lhs new
            fresh := st.fresh + 1 }
        | none => raise .violated
      | _ => raise .violated

def step (A : Algebra) (st : State) (s : Statement) : Outcome State := do
  let s ← s.replace A st.renamed
  match s with
  | .assign lhs rhs c =>
    let k := climb s.undefined (Statement.definedList st.done) st.frames
    if k = 0 then return { st with done := st.done ++ [s] }
    else move st lhs rhs c k
  | s => return { st with done := st.done ++ [s] }

mutual

/-- Gives the list, the changed surroundings and the next number.  `fuel` bounds the nesting depth. -/
def list (A : Algebra) : Nat → List Frame → Nat → Body → Outcome (Body × List Frame × Nat)
  | 0, fs, n, body => .ok (body, fs, n)
  | fuel + 1, fs, n, body => do
    let st ← body.foldlM (step A) { frames := fs, fresh := n }
    inside A fuel st.frames st.fresh [] st.done

def inside (A : Algebra) : Nat → List Frame → Nat → Body → Body →
    Outcome (Body × List Frame × Nat)
  | 0, fs, n, before, after => .ok (before ++ after, fs, n)
  | _ + 1, fs, n, before, [] => .ok (before, fs, n)
  | fuel + 1, fs, n, before, s :: after => do
    match s with
    | .branch c y e no => do
      let (y, f, fs, n) ← opened A fuel (.yes c e no before after) fs n y
      let (no, f, fs, n) ← if e then opened A fuel (.no c y f.before after) fs n no else pure (no, f, fs, n)
      inside A fuel fs n (f.before ++ [.branch c y e no]) after
    | .block p body => do
      let (body, f, fs, n) ← opened A fuel (.block p before after) fs n body
      inside A fuel fs n (f.before ++ [.block p body]) after
    | .loop l body => do
      let (body, f, fs, n) ← opened A fuel (.loop l before after) fs n body
      inside A fuel fs n (f.before ++ [.loop l body]) after
    | s => inside A fuel fs n (before ++ [s]) after

/-- Gives the list, its frame, the outer frames and the next number. -/
def opened (A : Algebra) : Nat → Frame → List Frame → Nat → Body →
    Outcome (Body × Frame × List Frame × Nat)
  | 0, f, fs, n, body => .ok (body, f, fs, n)
  | fuel + 1, f, fs, n, body => do
    match ← list A fuel (f :: fs) n body with
    | (body, g :: gs, n) => return (body, g, gs, n)
    | (body, [], n) => return (body, f, fs, n)

end

/-- Gives the body and the next number. -/
def moveConstants (A : Algebra) (fresh : Nat) (body : Body) : Outcome (Body × Nat) := do
  let (body, _, n) ← list A (6 * Statement.sizeList body + 10) [] fresh body
  return (body, n)

end StencilForge.Motion
