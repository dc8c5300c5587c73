import StencilForge.Decimal
import StencilForge.Field.Basic

/-!
# Field — descriptions

Fields described in one line, as in `src, dst(9): double[2D]`: names with the shape of their values per cell, then the
element type and the number of spatial dimensions or the extents.
-/

namespace StencilForge.FieldDescription

variable (cs : Chars)

def isWord (c : Char) : Bool := c.isAlphanum || c == '_' || c.toNat ≥ 0xAA && !isMark c
where
  isMark c : Bool :=
    let n := c.toNat
    [0xAB, 0xAC, 0xAD, 0xAE, 0xAF, 0xB0, 0xB1, 0xB4, 0xB6, 0xB7, 0xB8, 0xBB, 0xBF, 0xD7, 0xF7].contains n
      || 0x2000 ≤ n && n ≤ 0x206F || 0x20A0 ≤ n && n ≤ 0x20CF || 0x2190 ≤ n && n ≤ 0x23FF
      || 0x2500 ≤ n && n ≤ 0x2BFF || 0x3000 ≤ n && n ≤ 0x3004

def skipBlanks : Chars := cs.dropWhile Char.isWhitespace

def bracketed (opening closing : Char) : Chars → Option (Chars × Chars)
  | c :: r =>
    if c == opening then
      let body := r.takeWhile (· != closing)
      match r.dropWhile (· != closing) with
      | _ :: rest => if body.isEmpty then none else some (body, rest)
      | [] => none
    else none
  | [] => none

def integers : Outcome Ints :=
  (cs.splitOn ',').mapM fun p => match Decimal.readChars p with
    | some n => .ok n
    | none => raise .invalid

def skipComma : Chars :=
  match skipBlanks cs with
  | ',' :: r => r
  | r => r

/-- Reading ends at the first thing that is not a name. -/
def names : Nat → Chars → Outcome (List (String × Ints))
  | 0, _ => .ok []
  | fuel + 1, cs => do
    let cs := skipBlanks cs
    let name := cs.takeWhile isWord
    if name.isEmpty then return []
    let rest := cs.dropWhile isWord
    let (index, rest) ← match bracketed '(' ')' (skipBlanks rest) with
      | some (body, r) => do pure (← integers body, r)
      | none => pure ([], rest)
    return (.ofList name, index) :: (← names fuel (skipComma rest))

/-- The number of dimensions, or their extents. -/
inductive Grid where
  | dimensions (n : Int)
  | extents (ns : Ints)
  deriving DecidableEq, Repr

def unreadable {α : Type} : Outcome α := raiseWith .invalid "Could not parse field description"

def grid : Outcome (String × Grid) := do
  let cs := skipBlanks cs
  let dtype := .ofList (cs.takeWhile isWord)
  match bracketed '[' ']' (skipBlanks (cs.dropWhile isWord)) with
  | none => unreadable
  | some (body, _) =>
    let dtype := if dtype == "" then "float64" else dtype.toLower
    match skipBlanks body.reverse with
    | 'd' :: r | 'D' :: r => match Decimal.readChars r.reverse with
      | some n => return (dtype, .dimensions n)
      | none => raise .invalid
    | _ => return (dtype, .extents (← integers body))

structure Parsed where
  fields : List (String × Ints)
  dtype : String
  grid : Grid

def parse (s : String) : Outcome Parsed := do
  let (left, right) ← match s.toList.splitOn ':' with
    | [l] => pure (l, "float64[2D]".toList)
    | [l, r] => pure (l, r)
    | _ => raise .invalid
  let fields ← names (left.length + 1) left
  if right.isEmpty then unreadable
  let (dtype, g) ← grid right
  return ⟨fields, dtype, g⟩

def create (p : Parsed) (layout : String) (name : String) (index : Ints) : Outcome GridField := do
  match p.grid with
  | .extents ns =>
    let t ← DataType.ofName p.dtype
    GridField.fixed name (ns ++ index) index.length t (.named layout) none
  | .dimensions n =>
    -- the layout is looked at before the type
    let _ ← Layout.spatialOfName layout n.toNat
    let t ← DataType.ofName p.dtype
    GridField.generic name n.toNat t 0 (.named layout) (some (index.map .known)) .generic

structure Template where
  name : String
  storage : Storage
  dtype : DataType

/-- The last extents are those of the index. -/
def ofTemplate (t : Template) (index : Ints) : Outcome GridField := do
  let last := t.storage.shape.drop (t.storage.shape.length - index.length)
  require (last == index) .violated
  GridField.ofStorage t.name t.storage t.dtype index.length

/-- Fields with a template take its shape; without a description there is a field for each template. -/
def fieldsWith (s : String) (layout : Option String) (indexDimensions : Nat) (ts : List Template) :
    Outcome Fields := do
  if s == "" then
    requireWith layout.isNone .violated "Layout can not be specified when creating Field from numpy array"
    ts.mapM fun t => GridField.ofStorage t.name t.storage t.dtype indexDimensions
  else
    let p ← parse s
    p.fields.mapM fun (n, i) => match ts.find? (·.name == n) with
      | some t => ofTemplate t i
      | none => create p (layout.getD "numpy") n i

def fields (s : String) (layout : Option String) : Outcome Fields := fieldsWith s layout 0 []

end StencilForge.FieldDescription
