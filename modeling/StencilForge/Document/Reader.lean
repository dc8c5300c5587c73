import StencilForge.Field.Description
import StencilForge.Json

/-!
# Documents — reading parts

What has not the expected form is refused.
-/

namespace StencilForge.Document

variable (j : Json) (k : String)

abbrev Answer := Outcome Json

def bad {α : Type} : Outcome α := raise .general

def field : Json := (j.get? k).getD .null

instance : CoeFun Json fun _ => String → Json := ⟨field⟩

def has : Bool := (j.get? k).isSome

def asStr : Json → Outcome String
  | .str s => .ok s
  | _ => bad

def asInt : Json → Outcome Int
  | .int n => .ok n
  | .float x => .ok ((Number.ofFloat x).floor?.getD 0)
  | .bool b => .ok (if b then 1 else 0)
  | _ => bad

def asBool : Json → Bool
  | .bool b => b
  | .int n => n != 0
  | .null => false
  | .str s => s != ""
  | .arr xs => !xs.isEmpty
  | .obj ps => !ps.isEmpty
  | .float x => x != 0

def asList : Json → Outcome (List Json)
  | .arr xs => .ok xs
  | _ => bad

def listOf {α : Type} (one : Json → Outcome α) (j : Json) : Outcome (List α) := do (← asList j).mapM one

def asInts : Outcome Ints := listOf asInt j

def asStrs : Outcome Strings := listOf asStr j

def str? : Option String :=
  match j.get? k with
  | some (.str s) => some s
  | _ => none

def int? : Option Int :=
  match j.get? k with
  | some (.int n) => some n
  | _ => none

def list? : Option (List Json) :=
  match j.get? k with
  | some (.arr xs) => some xs
  | _ => none

def pairs : List (String × Json) :=
  match j.get? k with
  | some (.obj ps) => ps
  | _ => []

def strD (d : String := "") : String := (str? j k).getD d

def intD (d : Int := 0) : Int := (int? j k).getD d

def natD (d : Nat := 0) : Nat := (intD j k d).toNat

def boolD (d : Bool := false) : Bool :=
  (j.get? k).elim d asBool

def nat (n : Nat) : Json := .int n

def ints (ns : Ints) : Json := .arr (ns.map .int)

def texts (ss : Strings) : Json := .arr (ss.map .str)

def sortedTexts (ss : Strings) : Json := texts (ss.mergeSort (· ≤ ·))

def optional {α : Type} (f : α → Json) : Option α → Json
  | some a => f a
  | none => .null

def sorted (js : List Json) : List Json := ((js.map fun j => (j.compact, j)).mergeSort fun a b => a.1 ≤ b.1).map (·.2)

def depth : Json → Nat :=
  Json.fold (fun _ => 0) (fun ds => ds.foldl max 0 + 1) fun ps => (ps.map (·.2)).foldl max 0 + 1

def ofInt (n : Int) : Json := if n.natAbs < 2 ^ 53 then .int n else .arr [.str "int", .str (toString n)]

def ofFloat (x : Float) : Json := .arr [.str "float", .str (Double.text x)]

/-!
## Documents — types

Types are read from names and lists (`["ptr", …]`, `["vec", …]`, `["struct", …]`).
-/

/-- `fuel` bounds the nesting depth. -/
def readTypeDeep : Nat → Json → Outcome DataType
  | 0, _ => bad
  | fuel + 1, j => match j with
    | .str s => DataType.ofName s
    | .arr [.str "ptr", t, c, r] => do return .pointer (← readTypeDeep fuel t) (asBool c) (asBool r)
    | .arr [.str "ptr", t, c] => do return .pointer (← readTypeDeep fuel t) (asBool c) true
    | .arr [.str "ptr", t] => do return .pointer (← readTypeDeep fuel t) false true
    | .arr [.str "vec", t, .int w] => do return .vector (← readTypeDeep fuel t) w.toNat
    | .arr [.str "composite", .str s] => DataType.ofDeclaration s
    | .arr (.str "struct" :: .arr ms :: rest) => do
      let ms ← ms.mapM fun
        | .arr [.str n, .str t] => do
          match ← DataType.ofName t with
          | .basic s _ => return (n, s)
          | _ => bad
        | _ => bad
      return .ofMembers ms (rest.any asBool)
    | _ => bad

def readType : Outcome DataType := readTypeDeep (depth j + 1) j

/-- Doubles if nothing is said. -/
def readElementType : Outcome DataType :=
  (j.get? "dtype").elim (.ok .double) readType

def ofType (t : DataType) : Answer := .str <$> t.cName

/-!
## Documents — descriptions of fields

A text (`desc`), or name and properties: with a symbolic shape (`generic`), a fixed one (`fixed`), or that of an array
(`array`).
-/

def readFieldKind : String → FieldKind
  | "INDEXED" => .indexed
  | "BUFFER" => .buffer
  | "CUSTOM" => .custom
  | _ => .generic

def fieldKindName : FieldKind → String
  | .generic => "GENERIC"
  | .indexed => "INDEXED"
  | .buffer => "BUFFER"
  | .custom => "CUSTOM"

def readLayout (d : String) : Outcome GridField.LayoutChoice :=
  match j with
  | .str s => .ok (.named s)
  | .arr _ => .coordinates <$> asInts j
  | _ => .ok (.named d)

def readStorage : Outcome (DataType × Storage) := do
  let shape ← asInts (j "shape")
  let layout ← (j.get? "layout").mapM asInts
  let t ← readElementType j
  return (t, ← Storage.withLayout (GridField.elementSize t) shape (layout.getD (Layout.ascending shape.length)) none)

def readFieldSpec : Outcome Fields := do
  let indexDimensions := natD j "index_dimensions"
  let fs ← match str? j "desc", str? j "generic", str? j "fixed", str? j "array" with
    | some d, _, _, _ => FieldDescription.fields d (str? j "layout")
    | _, some n, _, _ => do
      let layout ← readLayout (j "layout") "numpy"
      let shape ← (j.get? "index_shape").mapM asInts
      let t ← readElementType j
      pure [← GridField.generic n (natD j "dim" 2) t indexDimensions layout (shape.map (·.map .known))
        (readFieldKind (strD j "type" "GENERIC"))]
    | _, _, some n, _ => do
      let layout ← readLayout (j "layout") "numpy"
      let strides ← (j.get? "strides").mapM asInts
      let t ← readElementType j
      pure [← GridField.fixed n (← asInts (j "shape")) indexDimensions t layout strides]
    | _, _, _, some n => do
      let (t, s) ← readStorage j
      pure [← GridField.ofStorage n s t indexDimensions]
    | _, _, _, _ => bad
  return fs.map fun f => { f with
    latexName := (str? j "latex_name").orElse fun _ => f.latexName
    kind := ((str? j "type").map readFieldKind).getD f.kind }

def readFields : Outcome Fields := do
  return (← ((list? j "fields").getD []).mapM readFieldSpec).flatten

end StencilForge.Document
