import StencilForge.DataType

/-!
# Code — dialects

The languages of kernels, and the functions each of them knows by name.
-/

namespace StencilForge

inductive Dialect where
  | c
  | cuda
  | opencl
  deriving DecidableEq, Repr

namespace Dialect

def language : Dialect → String
  | c => "C"
  | cuda => "CUDA"
  | opencl => "OpenCL"

def ofName? : String → Option Dialect
  | "c" => some c
  | "cuda" => some cuda
  | "opencl" => some opencl
  | _ => none

def sharedNames : Strings :=
  ["sin", "cos", "tan", "asin", "acos", "atan", "atan2", "exp", "log", "erf", "sinh", "cosh", "tanh", "floor", "exp2",
   "expm1", "log10", "log2", "log1p", "hypot", "fma", "erfc", "asinh", "acosh", "atanh"]

def renamed : List (String × String) := [("ceiling", "ceil"), ("Cbrt", "cbrt"), ("loggamma", "lgamma"), ("gamma", "tgamma")]

def libraryFunctions : Strings := ["Abs", "Sqrt"] ++ sharedNames ++ renamed.map (·.1)

def cudaNames : Strings :=
  let real :=
    ["rsqrt", "cbrt", "rcbrt", "hypot", "rhypot", "norm3d", "rnorm3d", "norm4d", "rnorm4d", "norm", "rnorm", "exp",
     "exp2", "exp10", "expm1", "log", "log2", "log10", "log1p", "sin", "cos", "tan", "sincos", "sinpi", "cospi",
     "sincospi", "asin", "acos", "atan", "atan2", "sinh", "cosh", "tanh", "asinh", "acosh", "atanh", "pow", "erf",
     "erfc", "erfinv", "erfcinv", "erfcx", "normcdf", "normcdfinv", "lgamma", "tgamma", "fma", "frexp", "ldexp",
     "scalbn", "scalbln", "logb", "ilogb", "j0", "j1", "jn", "y0", "y1", "yn", "cyl_bessel_i0", "cyl_bessel_i1",
     "fmod", "remainder", "remquo", "fdim", "trunc", "round", "rint", "nearbyint", "ceil", "floor", "lrint", "lround",
     "llrint", "llround"]
  let rough := ["fdivide", "sin", "cos", "tan", "sincos", "log", "log2", "log10", "exp", "exp10", "pow"]
  let rounded := ["fadd", "fsub", "fmul", "fmaf", "frcp", "fsqrt", "frsqrt", "fdiv", "dadd", "dsub", "dmul", "fma",
    "ddiv", "drcp", "dsqrt"]
  ["__prof_trigger", "printf", "__syncthreads", "__syncthreads_count", "__syncthreads_and", "__syncthreads_or",
   "__syncwarp", "__threadfence", "__threadfence_block", "__threadfence_system", "atomicAdd", "atomicSub",
   "atomicExch", "atomicMin", "atomicMax", "atomicInc", "atomicDec", "atomicAnd", "atomicOr", "atomicXor",
   "atomicCAS", "__all_sync", "__any_sync", "__ballot_sync", "__active_mask", "__shfl_sync", "__shfl_up_sync",
   "__shfl_down_sync", "__shfl_xor_sync", "__match_any_sync", "__match_all_sync", "__isGlobal", "__isShared",
   "__isConstant", "__isLocal", "tex1Dfetch", "tex1D", "tex2D", "tex3D", "sqrt", "mod", "modff"] ++
    real ++ real.map (· ++ "f") ++ rough.map (fun n => s!"__{n}f") ++
    rounded.flatMap fun n => ["rn", "rz", "ru", "rd"].map fun r => s!"__{n}_{r}"

def openclNames : Strings :=
  let rough := ["cos", "divide", "exp", "exp2", "exp10", "log", "log2", "log10", "powr", "recip", "rsqrt", "sin", "sqrt", "tan"]
  ["acos", "acosh", "acospi", "asin", "asinh", "asinpi", "atan", "atan2", "atanh", "atanpi", "atan2pi", "cbrt",
   "ceil", "copysign", "cos", "cosh", "cospi", "erfc", "erf", "exp", "exp2", "exp10", "expm1", "fabs", "fdim",
   "floor", "fma", "fmax", "fmin45", "fmin", "fmod", "fract", "frexp", "hypot", "ilogb", "ldexp", "lgamma",
   "lgamma_r", "log", "log2", "log10", "log1p", "logb", "mad", "maxmag", "minmag", "modf", "nextafter", "pow", "pown",
   "powr", "remquo", "intn", "rint", "rootn", "round", "rsqrt", "sin", "sincos", "sinh", "sinpi", "sqrt", "tan",
   "tanh", "tanpi", "tgamma", "trunc"] ++ rough.map ("half_" ++ ·) ++ rough.map ("native_" ++ ·)

/-- `whole` says whether the argument is an integer. -/
def known? (d : Dialect) (name : String) (whole : Bool) : Option String :=
  let ofC := if name == "Abs" then some (if whole then "abs" else "fabs")
    else if sharedNames.contains name || name == "Heaviside" then some name else renamed.lookup name
  match d with
  | c => ofC
  | cuda => if cudaNames.contains name then some name else ofC
  | opencl => given (openclNames.contains name) name

def reserved : Strings :=
  ["auto", "break", "case", "char", "const", "continue", "default", "do", "double", "else", "enum",
   "extern", "float", "for", "goto", "if", "int", "long", "register", "return", "short", "signed",
   "sizeof", "static", "struct", "entry", "switch", "typedef", "union", "unsigned", "void", "volatile",
   "while", "inline", "restrict"]

end Dialect

/-!
## Code — vector instructions

The vector instructions of a processor: how wide a vector is, and templates with numbered gaps for the operands.
-/

inductive Isa where
  | sse
  | avx
  | avx512
  deriving DecidableEq, Repr

structure InstructionSet where
  isa : Isa
  /-- Lanes are floats; otherwise doubles. -/
  single : Bool
  deriving DecidableEq, Repr

namespace InstructionSet

variable (s : InstructionSet)

def ofNames? (lane isa : String) : Option InstructionSet := do
  let single ← match lane with
    | "double" => some false
    | "float" => some true
    | _ => none
  let isa ← match isa with
    | "sse" => some .sse
    | "avx" => some .avx
    | "avx512" => some .avx512
    | _ => none
  return ⟨isa, single⟩

def bits : Nat :=
  match s.isa with
  | .sse => 128
  | .avx => 256
  | .avx512 => 512

def width : Nat := s.bits / (if s.single then 32 else 64)

def stem : String :=
  match s.isa with
  | .sse => "_mm"
  | .avx => "_mm256"
  | .avx512 => "_mm512"

def ending : String := if s.single then "ps" else "pd"

def gap (n : Nat) : String := s!"\x7b{n}\x7d"

def intrinsic (name : String) (args : Strings) : String :=
  s.stem ++ s!"_{name}_{s.ending}(" ++ ",".intercalate args ++ ")"

def compareConstants : List (String × String) :=
  [("==", "_CMP_EQ_UQ"), ("!=", "_CMP_NEQ_UQ"), (">=", "_CMP_GE_OQ"), ("<=", "_CMP_LE_OQ"),
   ("<", "_CMP_NGE_UQ"), (">", "_CMP_NLE_UQ")]

def maskWidth : String := if s.single then "16" else "8"

/-- The bits that are asked for where all lanes should hold. -/
def fullMask : Nat := if s.isa == .avx512 then Nat.pow 2 s.width - 1 else 15

/-- `none` where there is no such instruction. -/
def templates : List (String × Option String) :=
  let wide := s.isa == .avx512
  let call := fun name n => some (s.intrinsic name ((List.range n).map gap))
  let mask := s.maskWidth
  let compare := compareConstants.map fun (op, k) =>
    (op, some (s!"{s.stem}_cmp_{s.ending}" ++ (if wide then "_mask" else "") ++ s!"({gap 0},{gap 1},{k})"))
  let two := fun name => some (name ++ mask ++ s!"({gap 0}, {gap 1})")
  let twice := fun name => some (name ++ mask ++ s!"_u8({gap 0}, {gap 0})")
  let vector := s!"__m{s.bits}"
  [("+", call "add" 2), ("-", call "sub" 2), ("*", call "mul" 2), ("/", call "div" 2),
   ("&", if wide then two "_kand_mask" else call "and" 2), ("|", if wide then two "_kor_mask" else call "or" 2),
   ("blendv", if wide
      then some s!"{s.stem}_mask_blend_{s.ending}({gap 2}, {gap 0}, {gap 1})"
      else call "blendv" 3),
   ("sqrt", call "sqrt" 1), ("makeVec", some (s.intrinsic "set" (.replicate s.width (gap 0)))),
   ("makeZero", some s!"{s.stem}_setzero_{s.ending})"), ("loadU", call "loadu" 1), ("loadA", call "load" 1),
   ("storeU", call "storeu" 2), ("storeA", call "store" 2), ("stream", call "stream" 2)] ++ compare ++
  [("rsqrt", match s.isa, s.single with
      | .avx512, _ => some s!"{s.stem}_rsqrt14_{s.ending}({gap 0})"
      | .avx, true => some s!"{s.stem}_rsqrt_ps({gap 0})"
      | _, _ => none),
   ("double", some s!"{vector}d"), ("float", some vector), ("int", some s!"{vector}i"),
   ("bool", some (if wide then "__mmask" ++ mask else vector ++ "d")),
   ("any", if wide then twice "!_ktestz_mask" else some s!"{s.stem}_movemask_{s.ending}({gap 0}) > 0"),
   ("all", if wide then twice "_kortestc_mask" else
      some (s!"{s.stem}_movemask_{s.ending}({gap 0}) == 0x" ++ (String.ofList (Nat.toDigits 16 s.fullMask)).toUpper))]

def template? (op : String) : Option String := ((s.templates.find? (·.1 == op)).map (·.2)).join

/-- A brace, a digit and a brace stand for an operand. -/
def fillChars (args : Strings) : Chars → Chars
  | a :: d :: b :: r =>
    if a == '\x7b' && b == '\x7d' && d.isDigit then (args.getD (d.toNat - '0'.toNat) "").toList ++ fillChars args r
    else a :: fillChars args (d :: b :: r)
  | cs => cs

def write (op : String) (args : Strings) : String :=
  (s.template? op).elim "" fun t => .ofList (fillChars args t.toList)

def vectorName : DataType → Outcome String
  | .basic (.int 64) false => .ok (s.write "int" [])
  | .basic (.float 64) false => .ok (s.write "double" [])
  | .basic (.float 32) false => .ok (s.write "float" [])
  | .basic .bool false => .ok (s.write "bool" [])
  | _ => raise .unsupported

def headers : Strings :=
  match s.isa with
  | .sse => ["<immintrin.h>", "<xmmintrin.h>", "<emmintrin.h>", "<pmmintrin.h>", "<tmmintrin.h>",
      "<smmintrin.h>", "<nmmintrin.h>"]
  | _ => ["<immintrin.h>"]

end InstructionSet

end StencilForge
