import StencilForge.Code.Program
import StencilForge.Compile.Configuration

/-!
# Compiling — flags

A flag that is added replaces all flags that begin like it, up to its equals sign.
-/

namespace StencilForge.CompilerFlags

def words (s : String) : Strings := ((s.split Char.isWhitespace).toList.map (·.toString)).filter (!·.isEmpty)

def stem (flag : String) : String := (String.ofList (flag.toList.takeWhile (· != '='))).trimAscii.toString

def add (flags flag : String) : String :=
  let flag := flag.trimAscii.toString
  let stem := stem flag
  " ".intercalate ((words flags).filter (!·.startsWith stem) ++ [flag])

end StencilForge.CompilerFlags

/-!
## Compiling — commands

The commands that compile a kernel into a module, for each platform; none if the object file exists.
-/

namespace StencilForge.Compile

variable (config : Json)

structure Command where
  words : Strings
  shell : Bool
  environment : Json

structure Result where
  library : String
  commands : List Command := []
  tree : FileTree := {}

def wordsOf (key : String) : Outcome Strings := do
  match ← Configuration.entry config key with
  | .str s => return DataType.words s
  | _ => raise .noSuchPart

def textOf (key : String) : Outcome String := do
  match ← Configuration.entry config key with
  | .str s => return s
  | j => return j.compact

/-- `text` gives the text of the module for a compiler's words. -/
def compile (platform name : String) (text : Binding.Qualifiers → Outcome String) (r : Result) :
    Outcome Result := do
  let os := (← match ← Configuration.entry config "os" with
    | .str s => pure s
    | _ => raise .noSuchPart).toLower
  let windows := os == "windows"
  let base := "@/" ++ name
  let source := base ++ ".cpp"
  let object := base ++ (if windows then ".obj" else ".o")
  let library := base ++ (if windows then ".pyd" else ".so")
  if r.tree.has object then return { r with library }
  let restrict ← textOf config "restrict_qualifier"
  let code ← text { restrict, function := if windows then "__declspec(dllexport)" else "" }
  let tree := r.tree.write source code
  let command := fun ws =>
    ({ words := ws, shell := windows, environment := (config.get? "env").getD (.obj []) } : Command)
  let headers := ["-I@python", "-I@include"]
  if windows then
    let first := ["cl.exe", "/c", "/EHsc"] ++ (← wordsOf config "flags") ++ headers ++ [source, "/Fo" ++ object]
    let second := ["link.exe", "@pythonlib", "/DLL", "/out:" ++ library, object]
    return { library, commands := r.commands ++ [command first, command second], tree }
  else
    let compiler ← textOf config "command"
    let flags ← wordsOf config "flags"
    let dynamic := if platform.toLower == "darwin" then ["-undefined", "dynamic_lookup"] else []
    let first := [compiler, "-c"] ++ flags ++ headers ++ ["-o", "@tmp", source]
    let second := [compiler, "-shared", object, "-o", "@tmp"] ++ dynamic ++ flags
    return { library, commands := r.commands ++ [command first, command second]
             tree := (tree.write object "").write library "" }

end StencilForge.Compile
