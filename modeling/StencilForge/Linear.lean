import StencilForge.Expr.Collect

/-!
# Linear algebra — elimination

Elimination without fractions: rows are combined crosswise, and each pivot is made one at the end.
-/

namespace StencilForge

abbrev Matrix := List Exprs

variable (m : Matrix)

namespace Matrix

variable (A : Algebra)

def zero (rows cols : Nat) : Matrix := .replicate rows (.replicate cols .zero)

def entry (i j : Nat) : Expr := (m.getD i []).getD j .zero

def row (i : Nat) : Exprs := m.getD i []

def setEntry (i j : Nat) (e : Expr) : Matrix := m.modify i (·.set j e)

def cols : Nat := (m.headD []).length

def isNull (e : Expr) : Bool := e.num?.any Number.isZero

/-- The first entry that is not zero, or the largest one if there are binary numbers. -/
def pivot? (col : Exprs) : Option Nat :=
  let size := fun (e : Expr) => match e with
    | .num n => (n.abs.toRat?).getD 0
    | _ => 0
  if col.any Expr.isFloat then
    let best := col.zipIdx.foldl (fun (b : Option (Rat × Nat)) (e, i) =>
      let s := size e
      match b with
      | none => if s > 0 then some (s, i) else none
      | some (t, k) => if s > t then some (s, i) else some (t, k)) none
    best.map (·.2)
  else col.findIdx? (!isNull ·)

def swapRows (i j : Nat) : Matrix := (m.set i (m.row j)).set j (m.row i)

/-- An expression that cannot be expanded stays. -/
def tidy (e : Expr) : Expr :=
  match Build.expand A e with
  | .ok f => f
  | .error _ => e

def crossCancel (a b : Expr) (x y : Exprs) : Exprs :=
  List.zipWith (fun u v => tidy A (A.sub (A.mul [a, u]) (A.mul [b, v]))) x y

/-- Column by column; gives the columns of the pivots. -/
def eliminate : Nat → Nat → Nat → Matrix → Nats → Matrix × Nats
  | 0, _, _, m, ps => (m, ps)
  | fuel + 1, r, c, m, ps =>
    if c < m.cols && r < m.length then
      match pivot? ((m.drop r).map (·.getD c .zero)) with
      | none => eliminate fuel r (c + 1) m ps
      | some k =>
        let m := swapRows m r (r + k)
        let p := m.entry r c
        let lead := m.row r
        let m : Matrix := m.zipIdx.map fun (x, i) =>
          if i = r then x
          else
            let v := x.getD c .zero
            if isNull v then x else crossCancel A p v x lead
        eliminate fuel (r + 1) (c + 1) m (ps ++ [c])
    else (m, ps)

def reduced (m : Matrix) : Matrix :=
  let (m, ps) := eliminate A (m.cols + 1) 0 0 m []
  m.zipIdx.map fun (x, i) => match ps[i]? with
    | none => x
    | some c =>
      let p := x.getD c .zero
      x.zipIdx.map fun (e, j) => if j = c then .one else if j < c then e else A.div e p

end Matrix

/-!
## Linear algebra — systems of equations

Equations are expressions that are to be zero; `LinearSystem.solutionStructure` says how many solutions there are, and
`LinearSystem.solution` gives them, with the last unknowns as parameters.
-/

/-- The matrix has a column for each unknown and one for the right side. -/
structure LinearSystem where
  unknowns : Exprs
  matrix : Matrix
  /-- The next row to be filled; rows count from the end if it is negative. -/
  nextZeroRow : Int := 0
  isReduced : Bool := true

namespace LinearSystem

inductive Structure where
  | none
  | single
  | multiple
  deriving DecidableEq, Repr

variable (A : Algebra) (s : LinearSystem)

def empty (unknowns : Exprs) : LinearSystem where
  unknowns := unknowns
  matrix := .zero unknowns.length (unknowns.length + 1)

def columns : Nat := s.unknowns.length + 1

def copy : LinearSystem := { s with isReduced := true }

def resize (rows : Nat) : LinearSystem :=
  if s.nextZeroRow + rows > s.matrix.length then { s with matrix := s.matrix ++ .zero rows s.columns }
  else s

def rowIndex (i : Int) : Nat := (if i < 0 then i + s.matrix.length else i).toNat

/-- An expression that is not linear in the unknowns takes a row all the same. -/
def add (e : Expr) : LinearSystem × Outcome Unit :=
  let s := s.resize 1
  match Build.expand A e with
  | .error f => (s, .error f)
  | .ok e =>
    let i := s.rowIndex s.nextZeroRow
    let cs := s.unknowns.map (Coefficient.of A e)
    let control := A.add (.zipWith (fun u c => A.mul [u, c]) s.unknowns cs)
    let rest := A.sub e control
    let s := { s with
      nextZeroRow := s.nextZeroRow + 1
      matrix := s.matrix.modify i fun r => cs ++ r.drop cs.length }
    if rest.hasSymbols then (s, raiseWith .invalid "Not a linear equation in the unknowns")
    else ({ s with
      matrix := s.matrix.setEntry i (s.columns - 1) (A.neg rest)
      isReduced := false }, .ok ())

def addAll (es : Exprs) : LinearSystem × Outcome Unit :=
  es.foldl (fun (s, r) e => match r with
    | .ok _ => add A s e
    | .error f => (s, .error f)) (s.resize es.length, .ok ())

def setZero (unknown : Int) : Outcome LinearSystem := do
  require (unknown < s.unknowns.length) .violated
  let s := s.resize 1
  let j := if unknown < 0 then unknown + s.columns else unknown
  if j < 0 then raise .outOfRange
  return { s with
    matrix := s.matrix.setEntry (s.rowIndex s.nextZeroRow) j.toNat .one
    nextZeroRow := s.nextZeroRow + 1
    isReduced := false }

def firstZeroRow (m : Matrix) : Int :=
  let zeros := (m.reverse.takeWhile fun r => r.all Matrix.isNull).length
  if zeros = m.length then -1 else m.length - zeros

def reduce : LinearSystem :=
  if s.isReduced then s
  else
    let m := s.matrix.reduced A
    { s with matrix := m, nextZeroRow := firstZeroRow m, isReduced := true }

def rank : Int := (s.reduce A).nextZeroRow

def solutionStructure : Outcome Structure := do
  let s := s.reduce A
  let n := s.nextZeroRow
  if n = 0 then return .multiple
  let i := if n - 1 < 0 then n - 1 + s.matrix.length else n - 1
  if i < 0 || i ≥ s.matrix.length then raise .outOfRange
  let row := s.matrix.row i.toNat
  let right := row.getD (row.length - 1) .zero
  let left := row.getD (row.length - 2) .zero
  let before := row.take (row.length - 2)
  let inconsistent := Matrix.isNull left && !Matrix.isNull right
  let unknowns := (s.unknowns.length : Int)
  if row.length < 2 then raise .invalid
  else if n > unknowns then return .none
  else if n = unknowns then return if inconsistent then .none else .single
  else return if inconsistent && before.all Matrix.isNull then .none else .multiple

/-- Ones on the diagonal, unknowns exchanged where a pivot is missing.  Nothing if there is no solution. -/
def echelon : Nat → Nat → Matrix → Exprs → Option (Matrix × Exprs)
  | 0, _, m, us => some (m, us)
  | fuel + 1, i, m, us =>
    let k := us.length
    if i < m.length then
      if i = k then if (m.drop i).any fun r => !Matrix.isNull (r.getD k .zero) then none else some (m.take i, us)
      else
        let row := m.row i
        let place := if !Matrix.isNull (row.getD i .zero) then some i
          else ((row.take k).zipIdx.find? fun (e, j) => j > i && !Matrix.isNull e).map (·.2)
        match place with
        | none =>
          if !Matrix.isNull (row.getD k .zero) then none
          else echelon fuel i (m.eraseIdx i) us
        | some j =>
          let swap := fun {α : Type} (d : α) (xs : List α) => (xs.set i (xs.getD j d)).set j (xs.getD i d)
          let us := swap .zero us
          let m : Matrix := m.map (swap .zero)
          let p := A.inv (m.entry i i)
          let lead := (m.row i).map fun e => A.mul [e, p]
          let m : Matrix := m.set i lead
          let m : Matrix := m.zipIdx.map fun (x, r) =>
            let c := x.getD i .zero
            if r > i && !Matrix.isNull c then List.zipWith (fun u v => Matrix.tidy A (A.sub u (A.mul [v, c]))) x lead
            else x
          echelon fuel (i + 1) m us
    else some (m, us)

def backSubstitute (m : Matrix) (us : Exprs) : Table Expr Expr :=
  (List.range m.length).reverse.foldl (fun found r =>
    let row := m.row r
    let used := (us.zipIdx.filter (·.2 > r)).map fun (u, j) =>
      A.mul [row.getD j .zero, if j < m.length then (Table.get? found u).getD u else u]
    let v := used.foldl (fun c t => A.sub c t) (row.getD us.length .zero)
    found ++ [(us.getD r .zero, Matrix.tidy A v)]) []

def solution : Option (Table Expr Expr) := do
  let (m, us) ← echelon A (s.matrix.length + s.unknowns.length + 1) 0 s.matrix s.unknowns
  return backSubstitute A m us

def uniqueWithZeros : Outcome Unit := do
  if (← s.solutionStructure A) = .multiple then
    raiseWith .invalid "Function works only for underdetermined systems"

end LinearSystem

end StencilForge
