import StencilForge.Compile.Commands
import StencilForge.Query.Kernel

/-!
# Questions — compiling

The configuration of the compiler, the search for an installed one, and the commands that compile a kernel.
-/

namespace StencilForge.Query

open Document VisualStudio

variable (j : Json)

def readVariables : Outcome (Table String String) :=
  (pairs j "vars").mapM fun (k, v) => do return (k, ← asStr v)

def fileText : Json → String
  | .str s => s
  | j => j.compact

def readSurroundings : Outcome Configuration.Surroundings := do
  let files := [("env", "@/some/conf.json"), ("local", "@/pystencils.json"), ("home", "@/.config/pystencils/config.json")]
  let tree := files.foldl (fun t (key, path) => (j.get? key).elim t fun c => t.write path (fileText c)) {}
  let named := if has j "env" then [("PYSTENCILS_CONFIG", "@/some/conf.json")] else []
  let settings := (← readVariables j).foldl (fun t (k, v) => Table.insert t k v) (("HOME", "@") :: named)
  return { settings, tree, output := strD j "output", platform := strD j "platform" "Linux" }

def configuration : Answer := do
  let s ← readSurroundings j
  let (path, known) := s.configFile
  let (config, tree) ← Configuration.read s
  return .obj [("path", .str path), ("exists", .bool known), ("config", .obj config), ("files", texts tree.names)]

def ofVariables (t : Table String String) : Json := .obj (t.map fun (k, v) => (k, .str v))

def shownText : Json → String
  | .str s => s
  | .null => "None"
  | .bool b => if b then "True" else "False"
  | j => j.compact

def visualStudioStep (s : Surroundings) (fn : String) (args : List Json) :
    Commands Json := do
  match fn, args with
  | "get_environment", [v] => ofVariables <$> environment s v "x64"
  | "get_environment", [v, arch] => ofVariables <$> environment s v (shownText arch)
  | "find_latest_msvc_version_using_environment_variables", [] => .int <$> latest s
  | "normalize_msvc_version", [v] => .int <$> normalize v
  | "get_environment_from_vc_vars_file", [file, arch] => do
    return ofVariables (← ofSetup s (shownText file) (shownText arch))
  | "get_vc_vars_path_via_environment_variable", [v] => do
    return .str (← setupPath s (← present .mistyped (asInt v).toOption))
  | "get_environment_from_setup_tools", [_] => raise .noSuchPart
  | "find_vc_vars_all_via_filesystem_search", [base] => match base with
    | .str p => return optional .str (search s p)
    | _ => raise .mistyped
  | _, _ => raise .mistyped

def visualStudio : Answer := do
  let files ← ((list? j "files").getD []).mapM asStr
  let tree := files.foldl (fun t f => t.write f "") {}
  let s := { settings := ← readVariables j, tree, output := strD j "output" }
  let (value, commands) ← (visualStudioStep s (strD j "fn") ((list? j "args").getD [])).run []
  return .obj [("value", value), ("commands", texts commands)]

def ofCommand (c : Compile.Command) : Json := .arr [texts c.words, .bool c.shell, c.environment]

def moduleHead (text : String) : String := (text.splitOn "static PyObject").headD ""

def compileCommands : Answer := do
  let k ← kernelOf j
  let config := j "config"
  let platform := strD j "platform" "Linux"
  let text := fun q => Binding.moduleText A q "mod" k.name k
  let once := Compile.compile config platform "mod" text
  let first ← once { library := "" }
  let last ← if boolD j "again" then once first else pure first
  let source := (Table.get? last.tree.files ["mod.cpp"]).getD ""
  return masked (.obj [("lib", .str last.library), ("commands", .arr (last.commands.map ofCommand)),
    ("files", texts last.tree.names), ("source", .str (moduleHead source))])

end StencilForge.Query
