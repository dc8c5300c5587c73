import StencilForge.Expr.Algebra
import StencilForge.Literal

/-!
# Compiling — files

The folder that is both home and working directory, written `@`.  `Path.resolve` gives the parts of a path from that
folder on.
-/

namespace StencilForge

variable (s : String)

namespace Path

def isAbsolute : Bool := s.startsWith "/" || s == "@" || s.startsWith "@/"

def join (a b : String) : String :=
  if isAbsolute b then b else if a == "" || a.endsWith "/" then a ++ b else s!"{a}/{b}"

def parts : Strings :=
  (s.splitOn "/").foldl (fun ps p =>
    if p == "" || p == "." then ps else if p == ".." then ps.dropLast else ps ++ [p]) []

def resolve : Option Strings :=
  if s == "" || s.startsWith "/" then none
  else if s == "@" || s.startsWith "@/" then some (parts (s.drop 1).toString)
  else some (parts s)

def normal : String :=
  (resolve s).elim (if s == "" then "@" else "/" ++ "/".intercalate (parts s)) fun ps => "/".intercalate ("@" :: ps)

def expandHome (home s : String) : String :=
  if s == "~" then home else if s.startsWith "~/" then join home (s.drop 2).toString else s

end Path

structure FileTree where
  folders : List Strings := []
  files : Table Strings String := []

variable (t : FileTree) (ps : Strings) (path : String)

namespace FileTree

def hasFile : Bool := (Table.get? t.files ps).isSome

def hasFolder : Bool := ps.isEmpty || t.folders.contains ps

def has : Bool :=
  (Path.resolve path).elim false fun ps => t.hasFile ps || t.hasFolder ps

def read : Outcome String :=
  present .noFile ((Path.resolve path).bind (Table.get? t.files))

/-- Where a file is in the way nothing more is made. -/
def makeParts : FileTree :=
  let ways := (List.range ps.length).map fun i => ps.take (i + 1)
  let free := ways.takeWhile (!t.hasFile ·)
  { t with folders := free.foldl insertNew t.folders }

def makeFolder : FileTree :=
  (Path.resolve path).elim t t.makeParts

def write (path text : String) : FileTree :=
  match Path.resolve path with
  | some ps =>
    let t := t.makeParts ps.dropLast
    { t with files := .insert t.files ps text }
  | none => t

def names : Strings := ((t.folders ++ t.files.map (·.1)).map ("/".intercalate ·)).mergeSort (· ≤ ·)

def search (base name : String) : Strings :=
  match Path.resolve base with
  | none => []
  | some ps =>
    if !t.hasFolder ps then []
    else t.files.filterMap fun (fs, _) =>
      if ps.isPrefixOf fs && fs.getLast? == some name then some ((fs.drop ps.length).foldl Path.join base)
      else none

end FileTree

/-!
## Compiling — Visual Studio

Visual Studio is found by environment variables such as `VS140COMNTOOLS`, or else by a search for `vcvarsall.bat`,
which prints the environment when run.
-/

namespace VisualStudio

structure Surroundings where
  settings : Table String String := []
  tree : FileTree := {}
  output : String := ""

variable (s : Surroundings)

abbrev Commands := StateT Strings Outcome

def latest : Outcome Int :=
  let versions := s.settings.filterMap fun (k, _) => match k.toList with
    | 'V' :: 'S' :: a :: b :: c :: r =>
      if a.isDigit && b.isDigit && c.isDigit && "COMNTOOLS".toList.isPrefixOf r then
        Decimal.readInt (String.ofList [a, b])
      else none
    | _ => none
  match versions with
  | [] => raiseWith .invalid "Visual Studio not found."
  | v :: vs => .ok (vs.foldl max v)

def ofYear : Int → Int
  | 2015 => 14
  | 2013 => 12
  | 2012 => 11
  | n => n

/-- What follows a point is left out. -/
def normalize : Json → Outcome Int
  | .str s => (present .invalid (Decimal.readInt ((s.splitOn ".").headD ""))).map ofYear
  | .int n => .ok (ofYear n)
  | .bool b => .ok (if b then 1 else 0)
  | .float x =>
    if x.isNaN then raise .invalid
    else if x.isInf then raise .overflow
    else
      let n := (Number.ofFloat x.abs).floor?.getD 0
      .ok (ofYear (if x < 0 then -n else n))
  | _ => raise .mistyped

def setupPath (version : Int) : Outcome String :=
  (present .missing (Table.get? s.settings s!"VS{version}0COMNTOOLS")).map fun p =>
    Path.normal (Path.join p "../../VC/vcvarsall.bat")

def search (base : String) : Option String := ((s.tree.search base "vcvarsall.bat").mergeSort fun a b => b ≤ a).head?

def capital (c : Char) : String :=
  let n := c.toNat
  if c == 'ß' then "SS"
  else if c == 'ÿ' then "Ÿ"
  else if c == 'µ' then "Μ"
  else if (0xe0 ≤ n && n ≤ 0xfe && n != 0xf7) || (0x3b1 ≤ n && n ≤ 0x3c9 && n != 0x3c2) || (0x430 ≤ n && n ≤ 0x44f) then
    (Char.ofNat (n - 32)).toString
  else if n == 0x3c2 then "Σ"
  else if 0x450 ≤ n && n ≤ 0x45f then (Char.ofNat (n - 80)).toString
  else c.toUpper.toString

def capitals (s : String) : String := .join (s.toList.map capital)

/-- Names in capital letters, empty ones left out; the last value counts. -/
def parse (text : String) : Table String String :=
  (Lines.splitTrimmed text).foldl (fun t line =>
    let key := line.toList.takeWhile (· != '=')
    let value := line.toList.drop (key.length + 1)
    if key.isEmpty || value.isEmpty then t
    else .insert t (capitals (.ofList key)) (.ofList value)) []

def ofSetup (file arch : String) : Commands (Table String String) := do
  modify (· ++ [s!"cmd /u /c \"{file}\" {arch} && set"])
  return parse s.output

/-- If the version is not known, any version will do. -/
def find (version : String) : Outcome String := do
  let number := if version == "auto" || version == "latest" then latest s else normalize (.str version)
  match number with
  | .ok n => setupPath s n
  | .error _ =>
    match search s "C:\\Program Files (x86)\\Microsoft Visual Studio" <|>
      search s "C:\\Program Files\\Microsoft Visual Studio" with
    | some p => return p
    | none => raiseWith .invalid "Visual Studio not found. Write path to VS folder in pystencils config"

/-- `version` is a number, a year, `auto`, `latest`, or the folder of the installation. -/
def environment (version : Json) (arch : String) : Commands (Table String String) := do
  match version with
  | .str "setuptools" => raise .noSuchPart
  | .str v =>
    if v.toList.contains '\\' then ofSetup s ((search s v).getD "None") arch
    else ofSetup s (← find s v) arch
  | .arr _ | .obj _ => raise .unsupported
  | _ => raise .mistyped

end VisualStudio

/-!
## Compiling — configuration

Each platform has a standard configuration, which a file can change: the one that an environment variable names, or
one in the working directory, or one in the home folder.  If there is none, it is written.
-/

namespace Configuration

structure Surroundings extends VisualStudio.Surroundings where
  platform : String := "Linux"
  process : Nat := 7

variable (s : Surroundings) (config : List (String × Json))

namespace Surroundings

def valueOf (name : String) : Option String := Table.get? s.settings name

def home : String := (s.valueOf "HOME").getD "@"

def folderFor (variableName default_ : String) : String :=
  Path.join ((s.valueOf variableName).getD (Path.join s.home default_)) "pystencils"

def configFolder : String := s.folderFor "XDG_CONFIG_HOME" ".config"

def cacheFolder : String := s.folderFor "XDG_CACHE_HOME" ".cache"

def configFile : String × Bool :=
  let own := Path.join s.configFolder "config.json"
  match s.valueOf "PYSTENCILS_CONFIG" with
  | some p => (p, true)
  | none =>
    if s.tree.has "pystencils.json" then ("pystencils.json", true)
    else (own, s.tree.has own)

end Surroundings

def standardCompiler (platform : String) : Outcome (List (String × Json)) :=
  let unix := fun os command extra => [("os", .str os), ("command", .str command),
    ("flags", .str s!"-Ofast -DNDEBUG -fPIC -march=native {extra}-fopenmp -std=c++11"),
    ("restrict_qualifier", Json.str "__restrict__")]
  match platform.toLower with
  | "linux" => .ok (unix "linux" "g++" "")
  | "windows" => .ok [("os", .str "windows"), ("msvc_version", .str "latest"), ("arch", .str "x64"),
      ("flags", .str "/Ox /fp:fast /openmp /arch:avx"), ("restrict_qualifier", .str "__restrict")]
  | "darwin" => .ok (unix "darwin" "clang++" "-Xclang ")
  | _ => raise .unbound

def standard : Outcome (List (String × Json)) := do
  let cache := [("object_cache", Json.str (Path.join s.cacheFolder "objectcache")), ("clear_cache_on_start", .bool false)]
  return [("compiler", .obj (← standardCompiler s.platform)), ("cache", .obj cache)]

def entry (j : Json) (key : String) : Outcome Json :=
  match j with
  | .obj ps => present .missing (Table.get? ps key)
  | _ => raise .mistyped

def putIn (part key : String) (v : Json) : List (String × Json) :=
  match Table.get? config part with
  | some (.obj ps) => Json.put config part (.obj (Json.put ps key v))
  | _ => config

/-- The folder of compiled kernels is made. -/
def settleCache (tree : FileTree) (config : List (String × Json)) :
    Outcome (List (String × Json) × FileTree) := do
  match ← entry (← entry (.obj config) "cache") "object_cache" with
  | .bool false => return (config, tree)
  | .str p => do
    let p ← Template.fill [("pid", .int s.process)] (Path.expandHome s.home p)
    let _ ← entry (← entry (.obj config) "cache") "clear_cache_on_start"
    return (putIn config "cache" "object_cache" (.str p), tree.makeFolder p)
  | _ => raise .mistyped

def settleCompiler : Outcome (List (String × Json)) := do
  let compiler ← entry (.obj config) "compiler"
  if (← entry compiler "os") != .str "windows" then return config
  let version ← entry compiler "msvc_version"
  let arch ← match ← entry compiler "arch" with
    | .str a => pure a
    | j => pure j.compact
  let (found, _) ← (VisualStudio.environment s.toSurroundings version arch).run []
  let given ← match compiler.get? "env" with
    | none => pure []
    | some (.obj ps) => pure ps
    | some _ => raise .noSuchPart
  return putIn config "compiler" "env" (.obj (found.foldl (fun ps (k, v) => Json.put ps k (.str v)) given))

def read : Outcome (List (String × Json) × FileTree) := do
  let config ← standard s
  let (path, known) := s.configFile
  let (config, tree) ← if known then do
      match ← Json.parse (← s.tree.read path) with
      | .obj us => pure (← Json.update config us, s.tree)
      | _ => raise .noSuchPart
    else pure (config, s.tree.write path (Json.obj config).compact)
  let (config, tree) ← settleCache s tree config
  return (← settleCompiler s config, tree)

end Configuration

end StencilForge
