import StencilForge.Kernel.LoopNest

/-!
# Kernel — vector instructions

`Vector.loops` makes steps of the vector width and reads and writes whole vectors, `Vector.insertCasts` turns scalars
into vectors where they meet vectors.
-/

namespace StencilForge.Vector

structure Options where
  /-- Without one nothing is changed. -/
  instructions : Option String := some "avx"
  aligned : Bool := false
  streaming : GridField → Bool := fun _ => false
  unitStride : Bool := false
  /-- Whether lines are long enough to compute beyond their end. -/
  padded : Bool := true

variable (A : Algebra) (width : Nat) (o : Options) (body : Body)

def unitStride (k : Kernel) : Outcome Kernel := do
  let coords := unionNew [] ((LoopNest.innermost k.body).map (·.1.coord))
  let [coord] := coords
    | raiseWith .invalid "Inner loops iterate over different coordinates"
  let table : Table Expr Expr := (← k.parameters).filterMap fun p => match p.symbol.kind with
    | .stride _ i => if (i : Int) == coord then some (.sym p.symbol, .one) else none
    | _ => none
  return { k with body := ← Statement.replaceList A table k.body }

def elements : Exprs :=
  Statement.collectList (Visit.all fun
    | .node .element _ | .node (.resolved ..) _ => true
    | _ => false) body

/-- Nothing if some element does not move by one when the counter does. -/
def vectorElements (counter : Expr) (body : Body) :
    Outcome (Option (Table Expr Expr)) := do
  let moving := (elements body).filter fun
    | .node _ (_ :: i :: _) => i.has counter
    | _ => false
  let rests := moving.map fun e => (e, A.sub ((e.args.getD 1 .zero)) counter)
  if rests.any fun (_, r) => r.has counter then return none
  else return some (← rests.mapM fun (e, r) => do
    let some (.pointer base ..) := (match e.args.head? with
        | some (.sym s) => s.dtype?
        | _ => none)
      | raise .violated
    let streaming := e.isResolved && e.field?.any o.streaming
    let aligned := o.aligned && r.isZero
    return (e, .node (.cast .vectorAccess) [e, .type (.vector base width), .bool aligned, .bool streaming]))

def vectorLoop (l : Loop) (body : Body) : Outcome Statement := do
  match ← vectorElements A width o (.sym (Counter.symbol l.coord)) (.loop l body :: []) with
  | none => return .loop l body
  | some t => (Statement.loop { l with step := .lit width } body).replace A t

def firstLoop (f : Loop → Body → Outcome Statement) : Body → Outcome Body
  | [] => .ok []
  | .loop l b :: r => do return (← f l b) :: r
  | s :: r => do return s :: (← firstLoop f r)

def rounded (f : Fn) (n : Expr) (width : Nat) : Outcome Expr := do
  match n with
  | .lit m => match ← IntegerFunction.rounding true f [.int m, .int width] with
    | .num k => return .lit (k.int?.getD 0)
    | e => return e
  | e => Build.node A (.fn f) [e, .int width]

/-- Of plain integers it is one again. -/
def plus (a b : Expr) : Expr :=
  match a, b with
  | .lit m, .lit n => .lit (m + n)
  | a, b => A.add2 a.ofPosition b.ofPosition

def innermostLoop (l : Loop) (body : Body) : Outcome Statement := do
  if o.aligned && o.padded then
    let stop := plus A l.start (← rounded A .moduloCeil (l.range A) width)
    vectorLoop A width o { l with stop } body
  else
    let place := plus A (← rounded A .moduloFloor (l.range A) width) l.start
    let parts ← l.cut A body [place]
    return .block none (← firstLoop (vectorLoop A width o) parts)

def loops : Outcome Body := body.mapM (LoopNest.mapInnermost (innermostLoop A width o))

/-! ### Scalars that meet vectors -/

def castTo (t : DataType) (e : Expr) (own : DataType) : Expr := if own == t then e else Build.cast .plain e [.type t]

def isLanewise : Head → Bool
  | .add | .mul | .rel _ | .and | .or | .not => true
  | .fn f => match f with
    | .fastDivision | .fastSqrt | .fastInvSqrt | .vecAny | .vecAll => true
    | _ => false
  | _ => false

def widen (t : DataType) (w : Option Nat) : DataType :=
  match t.isVector, w with
  | false, some w => .vector t w
  | _, _ => t

mutual

def expression (A : Algebra) : Expr → Outcome Expr
  | .atom a => .ok (.atom a)
  | .node h as => match h, as with
    | .pow, [b, x] => do Build.node A .pow [← expression A b, x]
    | .piecewise, bs => do
      let bs' ← branches A bs
      let values ← bs'.mapM fun (v, _) => Typing.typeOf v
      let conds ← bs'.mapM fun (_, c) => Typing.typeOf c
      let value ← Typing.typeOf (.node .piecewise bs)
      let cond ← DataType.collate conds
      let valueType := widen value cond.width?
      let condType := widen cond valueType.width?
      let new := ((bs'.zip values).zip conds).map fun (((v, c), tv), tc) =>
        Expr.branch (castTo valueType v tv) (castTo condType c tc)
      Build.node A .piecewise new
    | h, as =>
      if isLanewise h then do
        let bs ← expressions A as
        let ts ← bs.mapM Typing.typeOf
        if !ts.any (·.isVector) then return .node h as
        let t ← DataType.collate ts
        Build.node A h ((bs.zip ts).map fun (b, own) => castTo t b own)
      else .ok (.node h as)

def expressions (A : Algebra) : Exprs → Outcome Exprs
  | [] => .ok []
  | a :: as => do return (← expression A a) :: (← expressions A as)

def branches (A : Algebra) : Exprs → Outcome (List (Expr × Expr))
  | [] => .ok []
  | .node .branch [v, c] :: r => do
    let v ← expression A v
    let c ← expression A c
    return (v, c) :: (← branches A r)
  | _ :: r => branches A r

end

/-- Elements of fields are left alone. -/
def inserted (t : Table Expr Expr) (e : Expr) : Outcome Expr := do
  expression A (← Substitute.table A t e fun e => e.isResolved)

mutual

/-- Gives the symbols that are vectors from now on too. -/
def statement (A : Algebra) (t : Table Expr Expr) : Statement → Outcome (Statement × Table Expr Expr)
  | .assign lhs rhs k => do
    let rhs ← inserted A t rhs
    let type ← Typing.typeOf rhs
    match lhs, type with
    | .sym s, .vector _ w => match s.dtype? with
      | some own =>
        if own.isVector then return (.assign lhs rhs k, t)
        else
          let new := .typedSymbol s.name (.vector own w)
          return (.assign new rhs k, .insert t lhs new)
      | none => return (.assign lhs rhs k, t)
    | _, _ => return (.assign lhs rhs k, t)
  | .block p body => do return (.block p (← statements A t body), t)
  | .loop l body => do return (.loop l (← statements A t body), t)
  | .branch c yes e no => do
    let c ← inserted A t c
    return (.branch c (← statements A t yes) e (← statements A t no), t)
  | s => .ok (s, t)

def statements (A : Algebra) (t : Table Expr Expr) : Body → Outcome Body
  | [] => .ok []
  | s :: r => do
    let (s, t) ← statement A t s
    return s :: (← statements A t r)

end

def insertCasts : Outcome Body := statements A [] body

def vectorize (k : Kernel) : Outcome Kernel := do
  let some name := o.instructions
    | return k
  let fs := k.fields
  let k ← if o.unitStride then unitStride A k else pure k
  let floats : List DataType := unionNew [] ((fs.map (·.dtype)).filter (·.isFloat))
  let [.basic (.float bits) _] := floats
    | raiseWith .unsupported
        "Cannot vectorize kernels that contain accesses to differently typed floating point fields"
  require (bits == 64 || bits == 32) .violated
  let some v := InstructionSet.ofNames? (if bits == 64 then "double" else "float") name
    | raise .missing
  let body ← loops A v.width o k.body
  return { k with vectors := some v, isCut := k.isCut || !(o.aligned && o.padded), body := ← insertCasts A body }

end StencilForge.Vector
