import StencilForge.Kernel.Statement

/-!
# Kernel — types of symbols and conditions on assignments

`Constraint.run` types every symbol and checks that statements can be a kernel: a symbol is assigned once in its scope
and not after it was read, a value is written at one offset only, and a field that is written is read at that offset,
so that cells can be visited in any order.
-/

namespace StencilForge

structure SymbolTypes where
  entries : List (String × String) := []
  fallback : Option String := none

namespace SymbolTypes

def get (t : SymbolTypes) (name : String) : Outcome String :=
  match t.entries.find? (·.1 == name), t.fallback with
  | some (_, s), _ => .ok s
  | none, some s => .ok s
  | none, none => raise .missing

def constantName : String := "_constant"

def put (t : SymbolTypes) (name type : String) : SymbolTypes := { t with entries := Table.insert t.entries name type }

def truths : Statement → Strings
  | .assign lhs rhs _ =>
    let truth := match rhs with
      | .sym _ | .node (.access ..) _ => false
      | .fn .vecAny _ | .fn .vecAll _ => true
      | e => e.isBoolean
    match truth, lhs with
    | true, .sym s => [s.name]
    | _, _ => []
  | .branch _ yes _ no => yes.flatMap truths ++ no.flatMap truths
  | _ => []

/-- Symbols that get truth values assigned are truth values. -/
def ofDefault (type : String) (body : Body) : SymbolTypes :=
  (body.flatMap truths).foldl (fun t n => t.put n "bool") { fallback := some type }

end SymbolTypes

namespace Constraint

/-- What is written at one offset only. -/
structure Slot where
  field : GridField
  index : Exprs

instance : BEq Slot := ⟨fun a b => a.field == b.field && a.index == b.index⟩

structure State where
  types : SymbolTypes
  strict : Bool
  scopes : Scopes Expr := {}
  writes : Table Slot Exprs := []
  read : Fields := []

abbrev Check := StateT State Outcome

variable (A : Algebra)

/-- A single value is followed by a comma. -/
def tupleText : Exprs → String
  | [e] => s!"({Text.ofExpr A e},)"
  | es => "(" ++ ", ".intercalate (es.map (Text.ofExpr A)) ++ ")"

def noteRead (fs : Fields) : Check Unit := modify fun s => { s with read := unionNew s.read fs }

def use (e : Expr) : Check Unit := do
  match e, e.field? with
  | .node (.access ..) _, some f =>
    let s ← get
    if s.strict then
      match Table.get? s.writes ⟨f, e.index⟩ with
      | some w =>
        if w != e.offsets then
          let message := s!"Violation of loop independence condition. Field {f.name} is read at " ++
            tupleText A e.offsets ++ " and written at " ++ tupleText A w
          raiseWith .invalid message
      | none => pure ()
    noteRead (f :: Access.indirectFields e)
  | e, _ => modify fun s => { s with scopes := s.scopes.access e }

def typed (name : String) : Check Expr := do
  let t ← (← get).types.get name
  return .typedSymbol name (← DataType.ofText t)

def constant (e : Expr) : Check Expr := do
  let t ← (← get).types.get SymbolTypes.constantName
  return Build.cast .plain e [.type (← DataType.ofName t)]

def isUnit : Expr → Bool
  | .num n => n.sameValue .one || n.sameValue .negOne
  | _ => false

mutual

def expression (numbers : Bool) : Expr → Check Expr
  | .atom a => match a with
    | .sym s => do
      use A (.sym s)
      if s.isTyped then return .sym s else typed s.name
    | .num n => if numbers then constant (.num n) else return .num n
    | a => return .atom a
  | .node h as => match h, as with
    | .access f n k, as => do
      use A (.node (.access f n k) as)
      return .node (.access f n k) as
    | .element, as => return .node .element as
    | .resolved f n, as => return .node (.resolved f n) as
    | .mul, as => do Build.node A .mul (← factors numbers as)
    | .cast _, e :: t :: _ => do return Build.cast .plain (← expression false e) [t]
    | .pow, [b, x] => do Build.node A .pow [← expression numbers b, x]
    | h, as => do
      let bs ← expressions numbers as
      if bs.isEmpty then return .node h as
      else Build.node A h (Visit.withHidden h as bs)

def expressions (numbers : Bool) : Exprs → Check Exprs
  | [] => return []
  | a :: as => do return (← expression numbers a) :: (← expressions numbers as)

def factors (numbers : Bool) : Exprs → Check Exprs
  | [] => return []
  | a :: as => do
    let b ← if isUnit a then pure a else expression numbers a
    return b :: (← factors numbers as)

end

def target : Expr → Check Expr
  | .sym s => do
    let st ← get
    if ← st.scopes.isDefinedLocally (.sym s) then
      raiseWith .invalid s!"Assignments not in SSA form, multiple assignments to {s.name}"
    if st.scopes.free.contains (.sym s) then
      raiseWith .invalid s!"Symbol {s.name} is written, after it has been read"
    let scopes ← st.scopes.define (.sym s)
    set { st with scopes }
    if s.isTyped then return .sym s else typed s.name
  | .node (.access f n abs) as => do
    let e := .node (.access f n abs) as
    let st ← get
    let slot := ⟨f, e.index⟩
    match Table.get? st.writes slot with
    | some w =>
      if w != e.offsets then raiseWith .invalid s!"Field {f.name} is written at two different locations"
    | none => set { st with writes := .insert st.writes slot e.offsets }
    return e
  | _ => raise .violated

def inScope {α : Type} (x : Check α) : Check α := do
  modify fun s => { s with scopes := s.scopes.push }
  let r ← x
  modify fun s => { s with scopes := s.scopes.pop.1 }
  return r

mutual

def statement : Statement → Check Statement
  | .assign lhs rhs _ => do
    let rhs ← expression A true rhs
    return .set (← target lhs) rhs
  | .block _ body => do return .block none (← inScope (statements body))
  | .branch cond yes e no => inScope do
      let no ← if e then inScope (statements no) else pure []
      let cond ← expression A false cond
      let yes ← inScope (statements yes)
      return .branch cond yes e no
  | .loop .. => raiseWith .invalid "Invalid object in kernel <class 'pystencils.astnodes.LoopOverCoordinate'>"
  | s => return s

def statements : Body → Check Body
  | [] => return []
  | s :: r => do return (← statement s) :: (← statements r)

end

structure Typed where
  body : Body
  read : Fields
  written : Fields

def run (types : SymbolTypes) (strict : Bool) (body : Body) : Outcome Typed := do
  let (body, s) ← (statements A body).run { types, strict }
  return { body, read := s.read, written := unionNew [] (s.writes.map (·.1.field)) }

def Typed.fields (t : Typed) : Fields := unionNew t.read t.written

def Typed.readOnly (t : Typed) : Strings := (t.read.filter (!t.written.contains ·)).map (·.name)

end Constraint

end StencilForge
