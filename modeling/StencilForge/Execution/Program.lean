import StencilForge.Code.Statement
import StencilForge.Execution.Meaning

/-!
# Execution — random numbers

Ten rounds of multiplications mix four counter words with two key words.  Two words make a double, one word a
single-precision number, strictly between zero and one.
-/

namespace StencilForge.Execution.Philox

structure Counters where
  a : UInt32
  b : UInt32
  c : UInt32
  d : UInt32

structure Keys where
  a : UInt32
  b : UInt32

def word (ns : Ints) (i : Nat) : UInt32 := .ofInt (ns.getD i 0)

def counters (ns : Ints) : Counters := ⟨word ns 0, word ns 1, word ns 2, word ns 3⟩

def keys (ns : Ints) : Keys := ⟨word ns 4, word ns 5⟩

def multiply (x y : UInt32) : UInt32 × UInt32 :=
  let p := x.toUInt64 * y.toUInt64
  ((p >>> 32).toUInt32, p.toUInt32)

def round (c : Counters) (k : Keys) : Counters :=
  let (high0, low0) := multiply 0xD2511F53 c.a
  let (high1, low1) := multiply 0xCD9E8D57 c.c
  { a := high1 ^^^ c.b ^^^ k.a, b := low1, c := high0 ^^^ c.d ^^^ k.b, d := low0 }

def bump (k : Keys) : Keys := ⟨k.a + 0x9E3779B9, k.b + 0xBB67AE85⟩

def mix (c : Counters) (k : Keys) : Counters := ((List.range 10).foldl (fun s _ => (round s.1 s.2, bump s.2)) (c, k)).1

def scale (digits places : Nat) : Rat := mkRat digits (10 ^ places)

variable {ρ : Type} (R : Arithmetic ρ)

def double (x y : UInt32) : ρ :=
  let z := x.toUInt64 ^^^ (y.toUInt64 <<< 21)
  let unit := R.ofRat false (scale 11102230246251565 32)
  R.add (R.mul (R.ofRat false z.toNat) unit) (R.div unit (R.ofRat false 2))

def single (x : UInt32) : ρ :=
  let unit := R.ofRat true (scale 23283064 17)
  R.single (R.add (R.single (R.mul (R.ofRat true x.toNat) unit)) (R.single (R.div unit (R.ofRat true 2))))

def draw (singles : Bool) (c : Counters) (k : Keys) : List ρ :=
  let r := mix c k
  if singles then [r.a, r.b, r.c, r.d].map (single R) else [double R r.a r.b, double R r.c r.d]

end StencilForge.Execution.Philox

/-!
## Execution — programs

`Program.ofKernel` translates a kernel and refuses unknown names, names declared twice in one block, and operations
without a meaning.  `Step.run` carries a step out.
-/

namespace StencilForge.Execution

inductive Step where
  | declare (name : String) (value : Term)
  | store (place value : Term)
  | storeLanes (size : Nat) (place value : Term)
  | block (body : List Step)
  | loop (counter : String) (start stop step : Term) (body : List Step)
  | branch (cond : Term) (yes no : List Step)
  | skip
  /-- The words are the counters and the keys. -/
  | draw (single : Bool) (names : Strings) (words : List Term)
  | allocate (name : String) (s : Scalar) (bytes : Term) (offset : Int)
  | tables (ts : List (String × Scalar × Ints))

/-! ### From statements to steps -/

namespace Program

open Meaning (Scope)

variable (A : Algebra) (v : Option InstructionSet)

def declare (own : Strings) (scope : Scope) (name : String) (t : DataType) : Outcome (Strings × Scope) :=
  if Meaning.isName name && !own.contains name && !Dialect.reserved.contains name then
    .ok (name :: own, (name, t) :: scope)
  else refused

def store (scope : Scope) (lhs rhs : Expr) : Outcome Step := do
  let t ← Typing.typeOf lhs
  let fuel := 6 * lhs.depth + 40
  match t.isVector, lhs with
  | true, .node (.cast _) (x :: _) => do
    let r ← Typing.typeOf rhs
    let rhs := if r.isVector then rhs else Build.cast .plain rhs [.type (.vector r 4)]
    let value ← Meaning.ofExpr A v scope rhs
    let (s, _) ← value.lanes
    return .storeLanes s.size (← Meaning.place A v scope fuel x).term value.term
  | true, _ => refused
  | false, lhs => do
    let p ← Meaning.place A v scope fuel lhs
    match p.type with
    | .pointer (.basic s _) .. => return .store p.term (← (← Meaning.ofExpr A v scope rhs).converted s).term
    | _ => refused

/-- A counter is below a real number if it is below the next integer. -/
def bound (scope : Scope) (e : Expr) : Outcome Term := do
  let x ← Meaning.ofExpr A v scope e
  let x ← if (← x.scalar).isFloat then Typed.call "ceil" [x] else pure x
  return (← x.converted (.int 64)).term

mutual

/-- `own` are the names declared in the block so far. -/
def step (inLoop : Bool) (own : Strings) (scope : Scope) : Statement → Outcome (Step × Strings × Scope)
  | .assign lhs rhs _ => do
    if Statement.declares lhs then
      match lhs with
      | .sym x => do
        let some t := x.dtype?
          | refused
        let name ← Code.symbolName {} x
        let value ← (← Meaning.ofExpr A v scope rhs).toType t
        let (own, scope) ← declare own scope name t
        return (.declare name value.term, own, scope)
      | _ => refused
    else return (← store A v scope lhs rhs, own, scope)
  | .block _ body => do return (.block (← steps inLoop [] scope body), own, scope)
  | .loop l body => do
    let start ← bound A v scope l.start
    let inner := (l.counterName, .basic (.int 32) false) :: scope
    let stop ← bound A v inner l.stop
    let by_ ← bound A v inner l.step
    return (.loop l.counterName start stop by_ (← steps true [] inner body), own, scope)
  | .branch cond yes _ no => do
    let c ← (← Meaning.ofExpr A v scope cond).condition
    return (.branch c.term (← steps inLoop [] scope yes) (← steps inLoop [] scope no), own, scope)
  | .skip => if inLoop then .ok (.skip, own, scope) else refused
  | .snippet x => match x.kind with
    | .print => .ok (.block [], own, scope)
    | .directions => do
      let (own, scope) ← x.tables.foldlM (fun (own, scope) (n, s, _) =>
        declare own scope n (.pointer (.ofScalar s) false false)) (own, scope)
      return (.tables x.tables, own, scope)
    | .plain => refused
  | .random r => do
    if r.generator != .philox then refused
    let words ← (Code.drawParameters A r).mapM fun e => do
      return (← (← Meaning.ofExpr A v scope e).converted (.uint 32)).term
    let type := if r.single then .single else .double
    let (own, scope) ← r.results.foldlM (fun (own, scope) x => declare own scope x.name type) (own, scope)
    return (.draw r.single (r.results.map (·.name)) words, own, scope)
  | .allocate m => do
    let s ← Code.scratchType m
    let n ← bound A v scope (← Code.scratchBytes A m)
    let offset ← Code.scratchOffset m
    let (own, scope) ← declare own scope m.pointer.name (m.pointer.dtype?.getD .double)
    return (.allocate m.pointer.name s n (offset * s.size), own, scope)
  | .release _ => .ok (.block [], own, scope)

def steps (inLoop : Bool) (own : Strings) (scope : Scope) : Body → Outcome (List Step)
  | [] => .ok []
  | x :: r => do
    let (y, own, scope) ← step inLoop own scope x
    return y :: (← steps inLoop own scope r)

end

def ofKernel (k : Kernel) : Outcome (List Step) := do
  let (own, scope) ← (← k.parameters).foldlM (fun (own, scope) p => match p.symbol.dtype? with
    | some t => declare own scope p.symbol.name t
    | none => refused) (([] : Strings), ([] : Scope))
  steps A k.vectors false own scope k.body

end Program

/-! ### Running -/

structure Machine (ρ : Type) where
  memory : Memory ρ
  locals : Variables ρ := []

namespace Step

variable {ρ : Type} [Inhabited ρ] (R : Arithmetic ρ)

def eval (t : Term) : Action (Machine ρ) (Value ρ) := do
  let s ← get
  match t.value R s.memory s.locals with
  | .ok v => return v
  | .error f => throw f

def evalInt (t : Term) : Action (Machine ρ) Int := do
  match ← eval R t with
  | .whole n => return n
  | _ => throw ⟨.mistyped, none⟩

def evalAddress (t : Term) : Action (Machine ρ) (String × Int) := do
  match ← eval R t with
  | .address n k => return (n, k)
  | _ => throw ⟨.mistyped, none⟩

def setVariable (name : String) (v : Value ρ) : Action (Machine ρ) Unit :=
  modify fun s => { s with locals := (name, v) :: s.locals }

def setCell (memory : String) (place : Int) (v : Value ρ) : Action (Machine ρ) Unit := do
  let s ← get
  match s.memory.store memory place v with
  | .ok m => set { s with memory := m }
  | .error f => throw f

def addMemory (name : String) (s : Scalar) (vs : List (Value ρ)) (place : Int) : Action (Machine ρ) Unit :=
  modify fun m => { memory := .insert m.memory name (.ofScalars s vs)
                    locals := (name, .address name place) :: m.locals }

/-- Variables declared inside are forgotten. -/
def inBlock {α : Type} (a : Action (Machine ρ) α) : Action (Machine ρ) α := do
  let before := (← get).locals
  let r ← a
  modify fun s => { s with locals := before }
  return r

def turns (start stop step : Int) : Nat := if step ≤ 0 then 0 else ((stop - start + step - 1) / step).toNat

mutual

/-- Tells whether to go on with the next step. -/
def run : Step → Action (Machine ρ) Bool
  | .declare name t => do
    setVariable name (← eval R t)
    return true
  | .store p t => do
    let (n, k) ← evalAddress R p
    setCell n k (← eval R t)
    return true
  | .storeLanes size p t => do
    let (n, k) ← evalAddress R p
    let vs := (← eval R t).toLanes
    vs.zipIdx.forM fun (v, i) => setCell n (k + (size * i : Nat)) v
    return true
  | .block body => inBlock (runAll body)
  | .loop c start stop by_ body => do
    let first ← evalInt R start
    let last ← evalInt R stop
    let step ← evalInt R by_
    (List.range (turns first last step)).forM fun i => inBlock do
      setVariable c (.whole (first + step * i))
      let _ ← runAll body
    return true
  | .branch c yes no => do if (← eval R c).isTrue then inBlock (runAll yes) else inBlock (runAll no)
  | .skip => return false
  | .draw single names words => do
    let ns ← words.mapM (evalInt R)
    let xs := Philox.draw R single (Philox.counters ns) (Philox.keys ns)
    (names.zip xs).forM fun (n, x) => setVariable n (.real x)
    return true
  | .allocate name s bytes offset => do
    let n ← evalInt R bytes
    addMemory name s (.replicate (n.toNat / s.size) (.convert R s (.whole 0))) offset
    return true
  | .tables ts => do
    ts.forM fun (name, s, ns) => addMemory name s (ns.map .whole) 0
    return true

def runAll : List Step → Action (Machine ρ) Bool
  | [] => return true
  | s :: r => do if ← run s then runAll r else return false

end

end Step

end StencilForge.Execution
