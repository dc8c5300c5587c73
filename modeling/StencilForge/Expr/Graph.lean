import StencilForge.Code.Expression
import StencilForge.Literal

/-!
# Expr — graphs

The tree of an expression as a directed graph in text form.  A node is known by its expression and its position, so
that equal parts stay apart.
-/

namespace StencilForge.Expr

variable (A : Algebra)

def construction : Expr → String
  | .atom a => match a with
    | .num (.rat q) =>
      if q.den = 1 then s!"Integer({q.num})"
      else s!"Rational({q.num}, {q.den})"
    | .num (.float b) => s!"Float('{Code.floatText b}', precision={Number.precision})"
    | .num n => Text.numberText n
    | .const c => Text.constantText c
    | .bool b => if b then "true" else "false"
    | .sym s => Symbol.className s ++ s!"({Literal.string s.name})"
    | .type t => t.className ++ "()"
    | .lit n => s!"Integer({n})"
    | .member s => s
    | .field f => f.name
  | .node h as => match h with
    | .access .. => s!"Access({Literal.string (Expr.node h as).accessName})"
    | .resolved .. => h.className ++ "(" ++ ", ".intercalate ((as.map construction).take 2) ++ ")"
    | .placeholder .. => h.className ++ "(" ++ ", ".intercalate (as.map construction).dropLast ++ ")"
    | _ => h.className ++ "(" ++ ", ".intercalate (as.map construction) ++ ")"

/-- Truth values, types and pairs do not. -/
def isQuantity : Expr → Bool
  | .atom (.bool _) | .atom (.type _) => false
  | .node (.rel _) _ | .node .and _ | .node .or _ | .node .not _ | .node .branch _ | .node .tuple _ => false
  | _ => true

namespace Graph

def positionText : Nats → String
  | [i] => s!"({i},)"
  | is => "(" ++ ", ".intercalate (is.map toString) ++ ")"

def name (e : Expr) (position : Nats) : String := s!"\"{e.construction}_{positionText position}\""

def label (e : Expr) : String :=
  match e with
  | .atom (.type _) => e.className
  | .atom _ | .node (.access ..) _ => Text.plain A e
  | _ => e.className

def node (e : Expr) (position : Nats) : String :=
  let colour := if e.isQuantity then "black" else "blue"
  name e position ++ s!" [\"color\"=\"{colour}\", \"label\"=\"{label A e}\", \"shape\"=\"ellipse\"];"

mutual

def below (position : Nats) : Expr → Strings × Strings
  | .atom a => ([node A (.atom a) position], [])
  | .node h as =>
    let e := Expr.node h as
    let count := e.args.length
    let own := e.args.zipIdx.map fun (a, i) => name e position ++ " -> " ++ name a (position ++ [i]) ++ ";"
    let (ns, es) := belowAll position 0 count as
    (node A e position :: ns, own ++ es)

def belowAll (position : Nats) (i count : Nat) : Exprs → Strings × Strings
  | [] => ([], [])
  | a :: as =>
    if i < count then
      let (ns, es) := below (position ++ [i]) a
      let (ms, fs) := belowAll position (i + 1) count as
      (ns ++ ms, es ++ fs)
    else ([], [])

end

def heading (s : String) : String := s!"#########\n# {s} #\n#########\n\n"

def text (style : String) (e : Expr) : String :=
  let (nodes, edges) := below A [] e
  s!"digraph\x7b\n\n# Graph style\n\"graph_attr\"=\"{style}\"\n\"ordering\"=\"out\"\n\"rankdir\"=\"TD\"\n\n" ++
    heading "Nodes" ++ "\n".intercalate nodes ++ "\n\n" ++ heading "Edges" ++ "\n".intercalate edges ++ "\n\x7d\n"

end Graph

end StencilForge.Expr
