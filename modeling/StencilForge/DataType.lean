import StencilForge.Failure

/-!
# Data types

`DataType.cName` is the name in generated code, `DataType.collate` the common type of the operands of an expression.
-/

namespace StencilForge

inductive Scalar where
  | bool
  | int (bits : Nat)
  | uint (bits : Nat)
  | float (bits : Nat)
  | complex (bits : Nat)
  | text (length : Nat)
  | bytes (length : Nat)
  | object
  deriving DecidableEq, Repr

namespace Scalar

def size : Scalar → Nat
  | bool => 1
  | int b => b / 8
  | uint b => b / 8
  | float b => b / 8
  | complex b => b / 8
  | text n => 4 * n
  | bytes n => n
  | object => 8

def name : Scalar → String
  | bool => "bool"
  | int b => s!"int{b}"
  | uint b => s!"uint{b}"
  | float b => s!"float{b}"
  | complex b => s!"complex{b}"
  | text n => s!"<U{n}"
  | bytes n => s!"|S{n}"
  | object => "object"

def isInt : Scalar → Bool
  | int _ | uint _ => true
  | _ => false

def isUInt : Scalar → Bool
  | uint _ => true
  | _ => false

def isFloat : Scalar → Bool
  | float _ => true
  | _ => false

def isComplex : Scalar → Bool
  | complex _ => true
  | _ => false

def isOther : Scalar → Bool
  | bool | object => true
  | text n => n == 0
  | bytes n => n == 0
  | _ => false

def ofName? : String → Option Scalar
  | "bool" | "bool_" | "bool8" | "?" | "b1" => some bool
  | "int8" | "i1" | "byte" | "b" => some (int 8)
  | "int16" | "i2" | "short" | "h" => some (int 16)
  | "int32" | "i4" | "intc" | "i" => some (int 32)
  | "int64" | "i8" | "int" | "int_" | "intp" | "int0" | "long" | "longlong" | "l" | "q" | "p" => some (int 64)
  | "uint8" | "u1" | "ubyte" | "B" => some (uint 8)
  | "uint16" | "u2" | "ushort" | "H" => some (uint 16)
  | "uint32" | "u4" | "uintc" | "I" => some (uint 32)
  | "uint64" | "u8" | "uint" | "uintp" | "uint0" | "ulong" | "ulonglong" | "L" | "Q" | "P" => some (uint 64)
  | "float16" | "f2" | "half" | "e" => some (float 16)
  | "float32" | "f4" | "single" | "f" => some (float 32)
  | "float64" | "f8" | "double" | "float" | "float_" | "d" => some (float 64)
  | "float128" | "f16" | "longdouble" | "longfloat" | "g" => some (float 128)
  | "complex64" | "c8" | "csingle" | "singlecomplex" | "F" => some (complex 64)
  | "complex128" | "c16" | "complex" | "complex_" | "cdouble" | "cfloat" | "D" => some (complex 128)
  | "complex256" | "c32" | "clongdouble" | "clongfloat" | "longcomplex" | "G" => some (complex 256)
  | "str" | "str_" | "unicode" | "unicode_" | "U" | "str0" => some (text 0)
  | "bytes" | "bytes_" | "string_" | "S" | "bytes0" => some (bytes 0)
  | "object" | "object_" | "O" | "object0" => some object
  | _ => none

def floatFor (bits : Nat) : Nat := if bits ≤ 8 then 16 else if bits ≤ 16 then 32 else 64

def promote : Scalar → Scalar → Scalar
  | bool, y => y
  | x, bool => x
  | int a, int b => int (max a b)
  | uint a, uint b => uint (max a b)
  | int a, uint b | uint b, int a => if a > b then int a else if b ≥ 64 then float 64 else int (2 * b)
  | float a, float b => float (max a b)
  | float a, int b | int b, float a => float (max a (floatFor b))
  | float a, uint b | uint b, float a => float (max a (floatFor b))
  | complex a, complex b => complex (max a b)
  | complex a, float b | float b, complex a => complex (max a (2 * max 32 b))
  | complex a, int b | int b, complex a => complex (max a (2 * max 32 (floatFor b)))
  | complex a, uint b | uint b, complex a => complex (max a (2 * max 32 (floatFor b)))
  | text a, text b => text (max a b)
  | text a, _ | _, text a => text (max a 21)
  | bytes a, bytes b => bytes (max a b)
  | bytes a, _ | _, bytes a => bytes (max a 21)
  | object, _ | _, object => object

def cName : Scalar → Outcome String
  | float 64 => .ok "double"
  | float 32 => .ok "float"
  | int b => .ok s!"int{b}_t"
  | uint b => .ok s!"uint{b}_t"
  | bool => .ok "bool"
  | s => raiseWith .unsupported s!"Can map numpy to C name for {s.name}"

end Scalar

structure Member where
  name : String
  scalar : Scalar
  offset : Nat
  deriving DecidableEq, Repr

inductive DataType where
  | basic (scalar : Scalar) (const : Bool)
  | pointer (base : DataType) (const : Bool) (restrict : Bool)
  | vector (base : DataType) (width : Nat)
  | record (members : List Member) (size : Nat) (const : Bool)
  | written (text : String)
  deriving DecidableEq, Repr, Inhabited

variable (t : DataType) (s : String)

namespace DataType

def ofScalar (s : Scalar) : DataType := .basic s false

def double : DataType := .basic (.float 64) false
def single : DataType := .basic (.float 32) false
def integer : DataType := .basic (.int 64) false
def boolean : DataType := .basic .bool false

def extent : DataType := .basic (.int 64) true

/-- Objects have no plain type. -/
def ofName : Outcome DataType :=
  match Scalar.ofName? s with
  | some .object => raise .violated
  | some k => .ok (.basic k false)
  | none => raise .mistyped

/-- An unknown name is kept as it is written. -/
def ofText : Outcome DataType := if (Scalar.ofName? s).isNone then .ok (.written s) else ofName s

def layMembers (aligned : Bool) : Nat → List (String × Scalar) → List Member × Nat
  | at_, [] => ([], at_)
  | at_, (n, s) :: r =>
    let o := if aligned && s.size != 0 then (at_ + s.size - 1) / s.size * s.size else at_
    let (ms, e) := layMembers aligned (o + s.size) r
    (⟨n, s, o⟩ :: ms, e)

def ofMembers (ms : List (String × Scalar)) (aligned : Bool) : DataType :=
  let (l, e) := layMembers aligned 0 ms
  let a := ms.foldl (fun a m => max a m.2.size) 1
  .record l (if aligned then (e + a - 1) / a * a else e) false

def scalar? : DataType → Option Scalar
  | .basic s _ => some s
  | _ => none

def isInt : Bool := t.scalar?.any Scalar.isInt
def isUInt : Bool := t.scalar?.any Scalar.isUInt
def isFloat : Bool := t.scalar?.any Scalar.isFloat

def isVector : DataType → Bool
  | .vector .. => true
  | _ => false

def isPointer : DataType → Bool
  | .pointer .. => true
  | _ => false

def isBasic : DataType → Bool
  | .basic .. => true
  | _ => false

def isRecord : DataType → Bool
  | .record .. => true
  | _ => false

def width? : DataType → Option Nat
  | .vector _ w => some w
  | _ => none

def base? : DataType → Option DataType
  | .pointer b .. | .vector b _ => some b
  | _ => none

def innermost : DataType → DataType
  | .pointer b .. => b.innermost
  | .vector b _ => b.innermost
  | t => t

/-- Records count bytes. -/
def itemSize : DataType → Nat
  | .basic .. => 1
  | .pointer b .. => b.itemSize
  | .vector b w => w * b.itemSize
  | .record _ n _ => n
  | .written _ => 1

def peelVector : DataType → DataType
  | .vector b _ => b.peelVector
  | t => t

def members : DataType → List Member
  | .record ms .. => ms
  | _ => []

def member? (n : String) : Option Member := t.members.find? (·.name == n)

def suffix (b : Bool) (s : String) : String := if b then s else ""

/-- `vectorName` names vectors of a base type, whose own name it gets too. -/
def cNameWith (vectorName : Outcome String → DataType → Nat → Outcome String) : DataType → Outcome String
  | .basic s c => do return (← s.cName) ++ suffix c " const"
  | .pointer b c r => do return s!"{← b.cNameWith vectorName} *" ++ suffix r " RESTRICT" ++ suffix c " const"
  | .vector b w => vectorName (b.cNameWith vectorName) b w
  | .record _ _ c => .ok ("uint8_t" ++ suffix c " const")
  | .written s => .ok s

def cName : Outcome String := t.cNameWith fun base _ w => do return s!"{← base}[{w}]"

def text : String :=
  match t.cName with
  | .ok s => s
  | .error _ => ""

def words : Strings := (s.splitToList Char.isWhitespace).filter (· != "")

def cutAtStars (ws : Strings) : List Strings :=
  let step := fun st w => if w == "*" then (st.1 ++ [st.2], [w]) else (st.1, st.2 ++ [w])
  let (parts, last) := ws.foldl step ([], [])
  if last.isEmpty then parts else parts ++ [last]

/-- A declaration is for example `const double * restrict`. -/
def ofDeclaration : Outcome DataType := do
  match cutAtStars (words s.toLower) with
  | [] => raise .outOfRange
  | base :: stars =>
    let const := base.contains "const"
    let base := base.erase "const"
    match base with
    | [w] =>
      let glued := w.endsWith "*"
      let w := if glued then (w.dropEnd 1).toString else w
      let stars := if glued then stars ++ [["*"]] else stars
      let .basic k _ ← ofName w | raise .violated
      stars.foldlM (fun t part => do
        let restrict := part.contains "restrict"
        let part := part.erase "restrict"
        let const := part.contains "const"
        let part := part.erase "const"
        require (part == ["*"]) .violated
        return .pointer t const restrict) (.basic k const)
    | _ => raise .violated

/-- A pointer may be joined by integers only; one vector makes the result a vector; beside a float integers do not
count. -/
def collate (ts : List DataType) : Outcome DataType := do
  if ts.any isPointer then
    let step := fun (p : Option DataType) (t : DataType) =>
      if t.isPointer then
        if p.isSome then raiseWith .invalid "Cannot collate the combination of two pointer types"
        else pure (some t)
      else if t.isBasic && t.isInt then pure p
      else raiseWith .invalid "Invalid pointer arithmetic"
    present .violated (← ts.foldlM step none)
  else
    let widths := ts.filterMap width?
    unless widths.all (some · == widths.head?) do
      raiseWith .invalid "Collation failed because of vector types with different width"
    let flat := ts.map peelVector
    require (flat.all isBasic) .violated
    let ss := flat.filterMap scalar?
    let ss := if ss.any Scalar.isFloat then ss.filter Scalar.isFloat else ss
    match ss with
    | [] => raise .invalid
    | s :: r =>
      let t : DataType := .basic (r.foldl .promote s) false
      return match widths with
        | [] => t
        | w :: _ => .vector t w

end DataType

/-!
## Data types — values that cross a call

An argument of compiled code is a number of some bytes or an address.
-/

inductive NativeType where
  | signed (bytes : Nat)
  | unsigned (bytes : Nat)
  | floating (bytes : Nat)
  | address (target : NativeType)
  deriving DecidableEq, Repr

/-- Vectors, truth values and some scalars cannot be passed. -/
def DataType.native : DataType → Outcome NativeType
  | .pointer b .. => do return .address (← b.native)
  | .record .. => .ok (.address (.unsigned 1))
  | .basic s _ => match s with
    | .int b => .ok (.signed (b / 8))
    | .uint b => .ok (.unsigned (b / 8))
    | .float 32 => .ok (.floating 4)
    | .float 64 => .ok (.floating 8)
    | _ => raise .missing
  | .vector .. | .written _ => raise .noSuchPart

/-!
## Data types — descriptions of elements

Scalars are described by name, records by the names, forms and places of their members.
-/

/-- Byte order, kind and size in bytes. -/
def Scalar.form (s : Scalar) : String :=
  let kind := match s with
    | .bool => "b"
    | .int _ => "i"
    | .uint _ => "u"
    | .float _ => "f"
    | .complex _ => "c"
    | .text _ => "U"
    | .bytes _ => "S"
    | .object => "O"
  let order := match s with
    | .bytes _ | .object => "|"
    | s => if s.size = 1 then "|" else "<"
  order ++ kind ++ (match s with
    | .object => ""
    | .text n => toString n
    | s => toString s.size)

namespace DataType

def isPacked : Nat → List Member → Nat → Bool
  | place, [], size => place == size
  | place, m :: r, size => m.offset == place && isPacked (place + m.scalar.size) r size

def description : DataType → Outcome String
  | .basic s _ => .ok s.name
  | .record ms size _ =>
    let quoted := fun s => s!"'{s}'"
    let list := fun xs => "[" ++ ", ".intercalate xs ++ "]"
    if isPacked 0 ms size then .ok (list (ms.map fun m => s!"({quoted m.name}, {quoted m.scalar.form})"))
    else
      .ok ("\x7b'names': " ++ list (ms.map fun m => quoted m.name) ++
        ", 'formats': " ++ list (ms.map fun m => quoted m.scalar.form) ++
        ", 'offsets': " ++ list (ms.map fun m => toString m.offset) ++ s!", 'itemsize': {size}, 'aligned': True\x7d")
  | _ => raise .noSuchPart

end DataType

end StencilForge
