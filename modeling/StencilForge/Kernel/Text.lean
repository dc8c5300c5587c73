import StencilForge.Kernel.Basic
import StencilForge.Literal

/-!
# Kernel — outlines

A short text of statements and kernels for people to read.
-/

namespace StencilForge

namespace Statement

variable (A : Algebra)

def loopHead (l : Loop) : String :=
  let c := l.counterName
  s!"for({c}={Text.plain A l.start}; {c}<{Text.plain A l.stop}; {c}+=" ++ Text.plain A l.step ++ ")"

def arrow (lhs rhs : Expr) : String := Text.ofExpr A lhs ++ " ← " ++ Text.ofExpr A rhs

def deeper (s : String) : String := Lines.indent "\t" s

def drawOutline (r : RandomDraw) : String :=
  ", ".intercalate (r.results.map (·.name)) ++ " <- " ++ (match r.generator with
    | .philox => "Philox"
    | .aesni => "Aesni") ++ "RNG"

mutual

def outline : Statement → String
  | .assign lhs rhs _ => arrow A lhs rhs
  | .block _ body => outlineBlock body
  | .loop l body => loopHead A l ++ "\n" ++ deeper (outlineBlock body)
  | .branch c .. => s!"if:({Text.plain A c}) "
  | .random r => drawOutline r
  | _ => ""

def outlineBlock : Body → String
  | body => "Block " ++ .join (body.map fun s => outline s ++ "\n")

end

end Statement

namespace Kernel

variable (A : Algebra)

def title (k : Kernel) : Outcome String := do
  let ps := (← k.parameters).map fun p => p.symbol.name
  return s!"KernelFunction {k.name}([" ++ ", ".intercalate ps ++ "])"

def outline (k : Kernel) : Outcome String := do
  return s!"{← k.title}\n" ++ Statement.deeper (Statement.outlineBlock A k.body)

mutual

def headersOf : Statement → Strings
  | .block _ body => headersOfList body
  | .loop _ body => headersOfList body
  | .branch _ yes _ no => headersOfList yes ++ headersOfList no
  | .snippet s => s.headers
  | .random r => [match r.generator with
      | .philox => "\"philox_rand.h\""
      | .aesni => "\"aesni_rand.h\""]
  | .allocate _ => ["<stdlib.h>"]
  | _ => []

def headersOfList : Body → Strings
  | [] => []
  | s :: r => headersOf s ++ headersOfList r

end

def headers (k : Kernel) : Strings :=
  let vectors := k.vectors.elim [] (·.headers)
  let fields := if k.bundled then ["<PyStencilsField.h>"] else []
  (unionNew [] (vectors ++ fields ++ headersOfList k.body)).mergeSort (· ≤ ·)

end Kernel

/-!
## Kernel — graphs

A coloured node for each loop, block, branch and assignment, and an edge to each part.
-/

namespace Graph

/-- Nodes are known by numbers. -/
inductive Item where
  | node (id : Nat) (label colour : String)
  | edge (parent child : Nat)
  deriving Repr

/-! ### Attributes -/

def isPlain (s : String) : Bool :=
  let digits := fun cs => cs.all Char.isDigit
  match s.toList with
  | [] => false
  | c :: r =>
    if c.isAlpha || c == '_' then r.all fun c => c.isAlphanum || c == '_'
    else
      let cs := if c == '-' then r else c :: r
      match cs.span (· != '.') with
      | ([], '.' :: f) => !f.isEmpty && digits f
      | (w, '.' :: f) => digits w && digits f
      | (w, _) => !w.isEmpty && digits w

def isMarkup (s : String) : Bool :=
  let s := s.trimAscii.toString
  s.startsWith "<" && s.endsWith ">"

def keywords : Strings := ["node", "edge", "graph", "digraph", "subgraph", "strict"]

def escape : Bool → Chars → Chars
  | _, [] => []
  | escaped, c :: r =>
    if c == '"' && !escaped then '\\' :: c :: escape false r
    else c :: escape (c == '\\' && !escaped) r

def quoted (s : String) : String :=
  if isMarkup s || (isPlain s && !keywords.contains s.toLower) then s
  else "\"" ++ .ofList (escape false s.toList) ++ "\""

/-! ### Trees -/

structure Labels where
  loop : Loop → String
  assign : Expr → Expr → String

variable (A : Algebra)

def Labels.full : Labels := ⟨Statement.loopHead A, Statement.arrow A⟩

def Labels.short : Labels := ⟨fun l => s!"Loop over dim {l.coord}", fun lhs _ => Text.ofExpr A lhs⟩

variable (labels : Labels)

def fresh : StateM Nat Nat := modifyGet fun n => (n, n + 1)

def ofParts (label : String) (parts : List (Nat × List Item)) : StateM Nat (Nat × List Item) := do
  let n ← fresh
  return (n, parts.flatMap (·.2) ++ .node n label "#dbc256" :: parts.map fun (k, _) => .edge n k)

def ofStatement : Statement → StateM Nat (Nat × List Item)
  | .assign lhs rhs _ => do
    let n ← fresh
    return (n, [.node n (labels.assign lhs rhs) "#56db7f"])
  | .block pragma body => do ofParts (pragma.getD "Block") (← body.mapM ofStatement)
  | .loop l body => do
    let n ← fresh
    let (b, items) ← ofParts "Block" (← body.mapM ofStatement)
    return (n, .node n (labels.loop l) "#3498db" :: items ++ [.edge n b])
  | .branch c yes hasElse no => do
    let n ← fresh
    let (y, first) ← ofParts "Block" (← yes.mapM ofStatement)
    let head := .node n s!"if:({Text.ofExpr A c}) " "#56bd7f" :: first ++ [.edge n y]
    if hasElse then
      let (z, second) ← ofParts "Block" (← no.mapM ofStatement)
      return (n, head ++ second ++ [.edge n z])
    else return (n, head)
  | _ => do return (← fresh, [])

def ofKernel (title : String) (k : Kernel) : StateM Nat (List Item) := do
  let n ← fresh
  let (b, items) ← ofParts "Block" (← k.body.mapM (ofStatement A labels))
  return .node n title "#a056db" :: items ++ [.edge n b]

/-- Its name, the fields whose elements it uses, and its numbers. -/
def shortTitle (k : Kernel) : Outcome String := do
  let ps ← k.parameters
  let fields := ps.filterMap fun p => if p.kind == .pointer then p.fields.head?.map (·.name) else none
  let numbers := ps.filterMap fun p => given (p.kind == .scalar) p.symbol.name
  return s!"Func: {k.name} (" ++ ",".intercalate (fields ++ numbers) ++ ")"

/-! ### Text -/

def numbers (items : List Item) : Nats :=
  (items.flatMap fun
    | .node n .. => [n]
    | .edge a b => [a, b]).foldl (fun ns n => if ns.contains n then ns else ns ++ [n]) []

def text (style : List (String × String)) (items : List Item) : String :=
  let order := numbers items
  let ref := fun n => "#" ++ toString (order.idxOf n)
  let attributes := style.map fun (k, v) => quoted k ++ "=" ++ quoted v
  let head := if style.isEmpty then [] else ["\tgraph [" ++ " ".intercalate attributes ++ "]"]
  let lines := items.map fun
    | .node n label colour => s!"\t{ref n} [label={quoted label} fillcolor=\"{colour}\" style=filled]"
    | .edge a b => s!"\t{ref a} -> " ++ ref b
  "digraph \x7b\n" ++ "".intercalate ((head ++ lines).map (· ++ "\n")) ++ "\x7d\n"

end Graph

end StencilForge
