import StencilForge.Code.Statement
import StencilForge.Kernel.Text

/-!
# Code — benchmark programs

A program that calls a kernel many times.  The extents of all arrays have to be known.
-/

namespace StencilForge.Benchmark

structure Options where
  likwid : Bool := false
  openmp : Bool := false
  timing : Bool := false

structure Buffer where
  name : String
  dtype : String
  size : Int

structure Constant where
  name : String
  dtype : String

inductive Argument where
  | buffer (b : Buffer)
  | constant (c : Constant)

def Argument.name : Argument → String
  | .buffer b => b.name
  | .constant c => c.name

def elements (f : GridField) : Int := f.shape.foldl (fun n x => n * match x with
  | .known k => k
  | _ => 1) 1

def arguments (k : Kernel) : Outcome (List Argument) := do
  (← k.parameters).mapM fun p => do
    let t := p.symbol.dtype?.getD .double
    match p.kind, p.fields.head? with
    | .scalar, _ => return .constant ⟨p.symbol.name, t.text⟩
    | .pointer, some f => return .buffer ⟨f.name, t.innermost.text, elements f⟩
    | _, _ => raiseWith .violated "Benchmark implemented only for kernels with fixed loop size"

def withoutThreads (k : Kernel) : Kernel :=
  match k.body with
  | .block (some _) body :: r => { k with body := .block (some "") body :: r }
  | _ => k

def allocation (b : Buffer) : String :=
  let n := toString b.size
  s!"\n\n  // Initialization {b.name}\n  double * {b.name} = (double *) aligned_malloc(sizeof({b.dtype}) *" ++
    s!" {n}, 64);\n  for (unsigned long long i = 0; i < {n}; ++i)\n    {b.name}[i] = 0.23;" ++
    s!"\n\n  if(var_false)\n    dummy({b.name});"

def definition (c : Constant) : String :=
  s!"\n\n  // Constant {c.name}\n  {c.dtype} {c.name};\n  {c.name} = 0.23;" ++
    s!"\n  if(var_false)\n      dummy(& {c.name});"

def program (A : Algebra) (o : Options) (k : Kernel) : Outcome String := do
  let as ← arguments k
  let buffers := as.filterMap fun a => match a with
    | .buffer b => some b
    | _ => none
  let constants := as.filterMap fun a => match a with
    | .constant c => some c
    | _ => none
  let k := if o.likwid && o.openmp then withoutThreads k else k
  let code ← Code.kernel A .c k
  let given := fun (b : Bool) (s : String) => if b then s else ""
  let each := fun (xs : Strings) => "".intercalate xs
  return "\n#include \"kerncraft.h\"\n#include <stdlib.h>\n#include <stdint.h>\n#include <stdbool.h>\n#include <math.h>\n" ++
    "#include <stdio.h>\n\n" ++ "\n".intercalate (k.headers.map ("#include " ++ ·)) ++
    given o.likwid "\n#include <likwid.h>" ++
    "\n\n#define RESTRICT __restrict__\n#define FUNC_PREFIX\nvoid dummy(void *);\n" ++
    "void timing(double* wcTime, double* cpuTime);\nextern int var_false;\n\n\n" ++ code ++
    "\n\n\nint main(int argc, char **argv)\n\x7b" ++ given o.likwid "\n  likwid_markerInit();" ++
    each (buffers.map allocation) ++ each (constants.map definition) ++
    given (o.likwid && o.openmp) "\n  #pragma omp parallel\n  \x7b" ++
    given o.likwid "\n  likwid_markerRegisterRegion(\"loop\");" ++
    given (o.likwid && o.openmp) "\n  #pragma omp barrier" ++
    "\n\n  for(int warmup = 1; warmup >= 0; --warmup) \x7b\n    int repeat = 2;\n    if(warmup == 0) \x7b\n" ++
    "      repeat = atoi(argv[1]);" ++ given o.likwid "\n      likwid_markerStartRegion(\"loop\");" ++ "\n    \x7d" ++
    given o.timing ("\n    double wcStartTime, cpuStartTime, wcEndTime, cpuEndTime;\n" ++
      "    timing(&wcStartTime, &cpuStartTime);") ++
    s!"\n    \n    for (; repeat > 0; --repeat)\n    \x7b\n      {k.name}(" ++ ",".intercalate (as.map Argument.name) ++
    ");\n\n      // Dummy calls" ++ each (buffers.map fun b => s!"\n      if(var_false) dummy((void*){b.name});") ++
    each (constants.map fun c => s!"\n      if(var_false) dummy((void*)&{c.name});") ++ "\n    \x7d" ++
    given o.timing ("\n    timing(&wcEndTime, &cpuEndTime);\n    if( warmup == 0)\n" ++
      "        printf(\"%e\\n\", (wcEndTime - wcStartTime) / atoi(argv[1]) );") ++
    "\n\n  \x7d" ++ given o.likwid "\n  likwid_markerStopRegion(\"loop\");" ++ given (o.likwid && o.openmp) "\n  \x7d" ++
    given o.likwid "\n  likwid_markerClose();" ++ "\n\x7d"

end StencilForge.Benchmark

/-!
## Code — extension modules

The text of a module that makes kernels callable by name: functions that check arrays and numbers and hand them to the
kernel, and the table of these functions.
-/

namespace StencilForge.Binding

variable (name : String)

/-- Lines four blanks deeper; blank lines stay. -/
def indent (s : String) : String :=
  "".intercalate ((Lines.split s).map fun l =>
    if l.toList.all fun c => c.isWhitespace || Lines.isEnd c then l else "    " ++ l)

def fetch : String :=
  s!"\nPyObject * obj_{name} = PyDict_GetItemString(kwargs, \"{name}\");\n" ++
  s!"if( obj_{name} == NULL) \x7b  PyErr_SetString(PyExc_TypeError, \"Keyword argument '{name}" ++
  "' missing\"); return NULL; \x7d;\n"

def extractScalar (name type reader : String) : String :=
  fetch name ++ type ++ s!" {name} = ({type}) {reader}( obj_{name} );\n" ++
  "if( PyErr_Occurred() ) \x7b return NULL; \x7d\n"

def extractArray : String :=
  fetch name ++ s!"Py_buffer buffer_{name};\n" ++
  s!"int buffer_{name}_res = PyObject_GetBuffer(obj_{name}, &buffer_{name}" ++
  ", PyBUF_STRIDES | PyBUF_WRITABLE | PyBUF_FORMAT);\n" ++ s!"if (buffer_{name}_res == -1) \x7b return NULL; \x7d\n"

def releaseArray : String := s!"\nPyBuffer_Release(&buffer_{name});\n"

def check (cond what name expected : String) : String :=
  "\nif(!(" ++ cond ++ ")) \x7b \n    PyErr_SetString(PyExc_ValueError, \"Wrong " ++ what ++ " of array " ++ name ++
  ". Expected " ++ expected ++ "\"); \n    return NULL; \n\x7d\n"

def formatLetter : Scalar → String
  | .float 64 => "d" | .float 32 => "f" | .float _ => "e"
  | .int 64 => "l" | .int 32 => "i" | .int 16 => "h" | .int _ => "b"
  | .uint 64 => "L" | .uint 32 => "I" | .uint 16 => "H" | .uint _ => "B"
  | .bool => "?"
  | .complex 128 => "D" | .complex _ => "F"
  | .text _ => "U" | .bytes _ => "S" | .object => "O"

/-- Integers in round brackets; a single one is followed by a comma. -/
def tuple : Ints → String
  | [n] => "(" ++ toString n ++ ",)"
  | ns => "(" ++ ", ".intercalate (ns.map toString) ++ ")"

def both : Strings → String := " && ".intercalate

def knownExtent : Extent → Int
  | .known n => n
  | _ => 0

/-- The type of the elements counts if `typed`, the shape if it is fixed. -/
def checks (typed : Bool) (f : GridField) : String :=
  let size := GridField.elementSize f.dtype
  let buffer := "buffer_" ++ f.name
  let type := match f.dtype with
    | .basic s _ =>
      if typed && f.kind == .generic then
        check s!"{buffer}.format[0] == '{formatLetter s}'" "data type" f.name s.name
      else ""
    | _ => ""
  let itemSize := check s!"{buffer}.itemsize == {size}" "itemsize" f.name (toString size)
  let fixed := if !f.hasFixedShape then ""
    else
      let shape := f.spatialShape.zipIdx.map fun (n, i) =>
        buffer ++ s!".shape[{i}] == " ++ toString (knownExtent n)
      let strides := f.spatialStrides.map fun n => knownExtent n * size
      let cond := strides.zipIdx.map fun (n, i) =>
        s!"({buffer}.strides[{i}] == {n} || {buffer}.shape[{i}]<=1)"
      check (both shape) "shape" f.name (tuple (f.shape.map knownExtent)) ++
        check (both cond) "strides" f.name ("[" ++ ", ".intercalate (strides.map toString) ++ "]")
  type ++ itemSize ++ fixed

def sameShape : Fields → String
  | [] | [_] => ""
  | first :: rest =>
    let cond := rest.flatMap fun f => (List.range first.spatialDimensions).map fun i =>
      s!"(buffer_{f.name}.shape[{i}] == buffer_{first.name}.shape[{i}])"
    s!"\nif(!({both cond})) \x7b \n    PyErr_SetString(PyExc_TypeError, \"Arrays must have same shape\"); " ++
      "return NULL; \n\x7d"

def scalarReader : DataType → Outcome (String × String)
  | .basic (.float 32) _ => .ok ("PyFloat_AsDouble", "float")
  | .basic (.float 64) _ => .ok ("PyFloat_AsDouble", "double")
  | .basic (.int 16) _ => .ok ("PyLong_AsLong", "int16_t")
  | .basic (.int 32) _ => .ok ("PyLong_AsLong", "int32_t")
  | .basic (.int 64) _ => .ok ("PyLong_AsLong", "int64_t")
  | .basic (.uint 16) _ => .ok ("PyLong_AsUnsignedLong", "uint16_t")
  | .basic (.uint 32) _ => .ok ("PyLong_AsUnsignedLong", "uint32_t")
  | .basic (.uint 64) _ => .ok ("PyLong_AsUnsignedLong", "uint64_t")
  | .basic .. => raise .missing
  | _ => raise .noSuchPart

def parameter (checked typed : Bool) (p : Kernel.Parameter) : Outcome (String × String × String) := do
  let f := p.fields.headD default
  let buffer := "buffer_" ++ f.name
  match p.symbol.kind with
  | .pointer .. => do
    let t ← f.dtype.cName
    return (extractArray f.name ++ (if checked then checks typed f else ""), s!"({t} *){buffer}.buf",
      releaseArray f.name)
  | .stride _ i =>
    return ("", s!"{buffer}.strides[{i}] / " ++ toString (GridField.elementSize f.dtype), "")
  | .shape _ i => return ("", s!"{buffer}.shape[{i}]", "")
  | _ => do
    let (reader, type) ← scalarReader (p.symbol.dtype?.getD .double)
    return (extractScalar p.symbol.name type reader, p.symbol.name, "")

def sized (ps : List Kernel.Parameter) (k : FieldKind) : Fields :=
  (ps.filterMap fun p => match p.kind with
    | .pointer => p.fields.head?
    | _ => none).filter fun f => !f.hasFixedShape && f.kind == k

def function (checked : Bool) (name : String) (k : Kernel) : Outcome String := do
  let ps ← k.parameters
  let parts ← ps.mapM (parameter checked !k.isCut)
  let shapes := if checked then sameShape (sized ps .generic) ++ sameShape (sized ps .indexed) else ""
  let before := indent ("".intercalate (parts.map (·.1)) ++ shapes)
  let after := indent ("".intercalate (parts.map (·.2.2)))
  return s!"\nstatic PyObject * {name}(PyObject * self, PyObject * args, PyObject * kwargs)\n\x7b\n" ++
    "    if( !kwargs || !PyDict_Check(kwargs) ) \x7b \n" ++
    "        PyErr_SetString(PyExc_TypeError, \"No keyword arguments passed\"); \n        return NULL; \n    \x7d\n    " ++
    before ++ s!"\n    kernel_{name}(" ++ ", ".intercalate (parts.map (·.2.1)) ++ ");\n    " ++ after ++
    "\n    Py_RETURN_NONE;\n\x7d\n"

def table (moduleName : String) (names : Strings) : String :=
  let entry := fun n => s!"\x7b\"{n}\", (PyCFunction){n}, METH_VARARGS | METH_KEYWORDS, \"\"\x7d,"
  "\nstatic PyMethodDef method_definitions[] = \x7b\n    " ++ "\n".intercalate (names.map entry) ++
  "\n    \x7bNULL, NULL, 0, NULL\x7d\n\x7d;\n\nstatic struct PyModuleDef module_definition = \x7b\n" ++
  s!"    PyModuleDef_HEAD_INIT,\n    \"{moduleName}\",   /* name of module */\n" ++
  "    NULL,     /* module documentation, may be NULL */\n" ++
  "    -1,       /* size of per-interpreter state of the module,\n" ++
  "                 or -1 if the module keeps state in global variables. */\n    method_definitions\n\x7d;\n\n" ++
  s!"PyMODINIT_FUNC\nPyInit_{moduleName}(void)\n\x7b\n    return PyModule_Create(&module_definition);\n\x7d\n"

/-- How a compiler wants things. -/
structure Qualifiers where
  restrict : String := "__restrict__"
  function : String := ""

def moduleText (A : Algebra) (q : Qualifiers) (moduleName name : String) (k : Kernel) : Outcome String := do
  let headers := (unionNew ["<math.h>", "<stdint.h>"] k.headers).mergeSort (· ≤ ·)
  let includes := "\n".intercalate (("\"Python.h\"" :: headers).map ("#include " ++ ·))
  let code ← Code.kernel A .c { k with name := "kernel_" ++ name }
  let wrapper ← function true name k
  return s!"{includes}\n\n\n#define RESTRICT {q.restrict}\n#define FUNC_PREFIX {q.function}\n\n\n" ++
    code ++ "\n" ++ wrapper ++ "\n" ++ table moduleName [name] ++ "\n"

end StencilForge.Binding
