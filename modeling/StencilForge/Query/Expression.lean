import StencilForge.Code.Expression
import StencilForge.Query.Steps

/-!
# Questions about expressions, scopes and linear systems
-/

namespace StencilForge.Query

open Document IntegerFunction

variable (fault : Failure → Json) (j : Json)

def expr : Answer := do
  let c ← readNames j
  return .obj [("expr", ← ofFormula (← readFormula c (j "expr")))]

def scopeStep (s : Scopes String) (m : String) (as : List Json) : Scopes String × Answer :=
  let report := fun v s => .arr [v, sortedTexts s.free, nat s.depth]
  let x := match as with
    | [.str x] => x
    | _ => ""
  match m with
  | "push" => (s.push, .ok (report .null s.push))
  | "pop" => let (t, r) := s.pop; (t, r.map fun _ => report .null t)
  | "access_symbol" => (s.access x, .ok (report .null (s.access x)))
  | "define_symbol" => keeping s (do let t ← s.define x; return (t, report .null t))
  | "is_defined" => (s, .ok (report (.bool (s.isDefined x)) s))
  | "is_defined_locally" => keeping s (do return (s, report (.bool (← s.isDefinedLocally x)) s))
  | _ => (s, bad)

def scopes : Answer := do return runSteps fault {} (← steps j) scopeStep

def latex : Answer := do
  let c ← readNames j
  match ← readFormula c (j "expr") with
  | .assignment a => return .obj [("latex", .str (← a.latex A)), ("str", .str (a.text A))]
  | .expr e => return .obj [("latex", .str (← Latex.ofExpr A e)), ("str", .str (Text.plain A e))]
  | _ => bad

def dialect : Dialect := (Dialect.ofName? (strD j "dialect" "c")).getD .c

def integerFunction : Answer := do
  let c ← readNames j
  let some f := functionOf (strD j "fn") | bad
  let js ← asList (j "args")
  -- plain numbers are machine numbers
  let machine := js.all fun a => a matches .int _ || a matches .float _
  let v ← if isRounding f then rounding machine f (← readExprs c js) else ofOperands f (← js.mapM (readOperand c true))
  let code ← if isRounding f && !v.isNum then do pure (Json.str (← Code.expression A {} v)) else pure .null
  return .obj [("value", ← ofExpr v), ("c", code)]

/-- Casts and addresses are looked through. -/
def canonicalForm (e : Expr) : Outcome Expr :=
  let (e, otherwise) := match e with
    | .node (.cast _) (e :: _) | .node (.fn .addressOf) (e :: _) => (e, Failure.Kind.unsupported)
    | e => (e, .noSuchPart)
  match e with
  | .rel .. => .ok (Relation.canonical A e)
  | .bool _ => .ok e
  | _ => raise otherwise

def ownType : Expr → Option DataType
  | .sym s => s.dtype?
  | .node (.access f ..) _ | .node (.resolved f _) _ => some f.dtype
  | .node (.cast _) (_ :: .type t :: _) => some t
  | _ => none

/-- The address of something without a type is one of anything. -/
def ofOwnType : Expr → Answer
  | .node (.fn .addressOf) (e :: _) => (ownType e).elim (.ok (.str "void * RESTRICT")) (ofType <| .pointer · false true)
  | e => do ofType (← present .noSuchPart (ownType e))

/-- Conditions say nothing about that. -/
def commutes : Expr → Option Bool
  | .node (.cast _) (e :: _) | .node (.fn .addressOf) (e :: _) => commutes e
  | .bool _ | .node (.rel _) _ | .node .and _ | .node .or _ | .node .not _ => none
  | _ => some true

def expressionProperties : Answer := do
  let c ← readNames j
  let e ← readExpr c (j "expr")
  let one := fun
    | "canonical" => do ofExpr (← canonicalForm e)
    | "is_commutative" => .ok (optional .bool (commutes e))
    | "dtype" => ofOwnType e
    | _ => bad
  let answers ← (← asList (j "get")).mapM fun p => do
    match one (← asStr p) with
    | .ok v => return v
    | .error f => return fault f
  return .arr answers

def code : Answer := do
  let c ← readNames j
  let e ← readExpr c (j "expr")
  return .obj [("code", .str (← Code.expression A { dialect := dialect j } e))]

def systemStep (c : Names) (s : LinearSystem) (m : String) (as : List Json) : LinearSystem × Answer :=
  let size := fun (s : LinearSystem) => .arr [.int s.nextZeroRow, .arr [nat s.matrix.length, nat s.columns]]
  let after := fun (p : LinearSystem × Outcome Unit) => (p.1, p.2.map fun _ => size p.1)
  let add := fun
    | .ok es => after (s.addAll A es)
    | .error f => (s, .error f)
  match m, as with
  | "add", [e] => add (readExprs c [e])
  | "add_all", [.arr es] => add (readExprs c es)
  | "zero", [.int i] => keeping s (do let t ← s.setZero i; return (t, size t))
  | "copy", _ => (s.copy, .ok (size s.copy))
  | "structure", _ => (s.reduce A, (s.solutionStructure A).map fun x => .str (match x with
      | .none => "none" | .single => "single" | .multiple => "multiple"))
  | "rank", _ => (s.reduce A, .ok (.int (s.rank A)))
  | "matrix", _ => let t := s.reduce A; (t, ofRows t.matrix)
  | "solution", _ => let t := s.reduce A; (t, (t.solution A).elim (.ok .null) (ofTable ofExpr))
  | "unique", _ => (s.reduce A, (s.uniqueWithZeros A).map fun _ => .null)
  | _, _ => (s, bad)

def linearSystem : Answer := do
  let c ← readNames j
  let us ← readExprs c (← asList (j "unknowns"))
  return runSteps fault (.empty us) (← steps j) (systemStep c)
end StencilForge.Query
