import StencilForge.CommandLine
import StencilForge.Study.Server

/-!
# Parameter studies — client

A client carries runs out and sends the results back.  Without a connection it waits and asks again; it ends when the
server has no more runs, or when its time is over.
-/

namespace StencilForge.Study

open CommandLine

/-- The log of the arguments, and the result of a run. -/
structure Runner where
  log : List Parameters := []
  result : Parameters → Json

namespace Runner

def run (r : Runner) (args : Parameters) : Runner × Json := ({ r with log := r.log ++ [args] }, r.result args)

end Runner

structure Client where
  name : String := "\x7bhostname\x7d_\x7bpid\x7d"
  server : String := "localhost"
  port : Int := 8342
  change : Json := .obj []
  maxTime : Option Float := none
  host : String := "host"
  process : Nat := 7

variable (c : Client) (name : String)

namespace Client

inductive Event where
  | request (url : String) (body : Json)
  | pause (seconds : Nat)

structure Session where
  runner : Runner
  events : List Event := []
  lines : Strings := []

def url : String := s!"http://{c.server}:{c.port}"

def note (e : Event) : Action Session Unit := modify fun s => { s with events := s.events ++ [e] }

def say (line : String) : Action Session Unit := modify fun s => { s with lines := s.lines ++ [line] }

def environment : Json := .obj [("host", .str "x")]

def carryOut (scenario : Json) : Action Session Unit := do
  let params ← Server.entry scenario "params"
  let args ← arguments params c.change
  let s ← get
  let (runner, result) := s.runner.run args
  set { s with runner }
  note (.request s!"{c.url}/result" (.obj [("params", params), ("changed_params", c.change), ("result", result),
    ("env", environment), ("client_name", .str name)]))

/-- `null` means no connection. -/
def work (answers : List Json) : Action Session Unit := do
  if c.maxTime.any (0 > ·) then say "Stopping client - maximum time reached"
  else loop answers
where
  loop : List Json → Action Session Unit
    | [] => ask
    | .null :: rest => do
      ask
      say s!"Cannot connect to server {c.url}  retrying in 5 seconds..."
      note (.pause 5)
      loop rest
    | scenario :: rest => do
      ask
      if (← Server.entry scenario "status") != .str "ok" then return
      c.carryOut name scenario
      loop rest
  ask : Action Session Unit := note (.request s!"{c.url}/next_scenario" (.obj [("client_name", .str name)]))

def run (answers : List Json) : Action Session Unit := do
  let name ← Template.fill [("hostname", .str c.host), ("pid", .int c.process)] c.name
  c.work name answers

end Client

/-!
## Parameter studies — sessions

Runs are carried out here, by clients of a server, or by a command line.
-/

structure Session where
  runs : List Run := []
  runner : Runner
  archives : Table String Archive := []
  current : String := ""

abbrev Step (α : Type) := Action Session α

namespace Session

def archive (s : Session) : Archive := (Table.get? s.archives s.current).getD []

def withArchive (s : Session) (a : Archive) : Session := { s with archives := .insert s.archives s.current a }

end Session

def add (r : Run) : Step Unit := modify fun s => { s with runs := s.runs ++ [r] }

def save (r : Record) : Step Unit := modify fun s => s.withArchive (s.archive ++ [r])

def carryOut (change : Json) (runs : List Run) : Step Unit :=
  runs.forM fun r => do
    let args ← arguments r.params change
    let s ← get
    let (runner, result) := s.runner.run args
    set { s with runner }
    save ⟨r.params, result, change⟩

def changeOr : Json → Json
  | .null => .obj []
  | j => j

def run (process count : Int) (change : Json) : Step Unit := do
  carryOut (changeOr change) (← Run.share (← get).runs process count)

def missing : Step (List Run) := do
  let s ← get
  return s.archive.missing s.runs

def runMissing (change : Json) : Step Unit := do carryOut (changeOr change) (← missing)

def openArchive : Step Unit := do
  if name.startsWith "mongo://" then raise .absent
  if name != "" then modify fun s => { s with current := name }

structure Report where
  lines : Strings := []
  listen : Option (Json × Json) := none
  replies : List Server.Reply := []
  events : List Client.Event := []
  finished : Bool := true

def serve (ip port : Json) (requests : List Server.Request) : Step Report := do
  let runs ← missing
  if runs.isEmpty then return { lines := ["No Scenarios to simulate"] }
  let s ← get
  let (server, replies, finished) := (Server.start runs s.archive).serve requests
  set (s.withArchive server.archive)
  let first := s!"Listening to connections on {Server.shown ip}:" ++ Server.shown port ++
    s!". Scenarios to simulate: {runs.length}"
  return { lines := first :: server.lines, listen := some (ip, port), replies, finished }

def attend (answers : List Json) : Step Report := do
  let s ← get
  let (t, outcome) := (c.run answers).perform { runner := s.runner }
  set { s with runner := t.runner }
  outcome
  return { lines := t.lines, events := t.events }

/-! ### Command line -/

def portFlag : Flag := { key := "port", names := ["-p", "--port"], isNumber := true }
def hostFlag : Flag := { key := "host", names := ["-H", "--host"] }
def databaseFlag : Flag := { key := "database", names := ["-d", "--database"] }
def overrideFlag : Flag := { key := "override", names := ["-P", "--parameter_override"] }
def nameFlag : Flag := { key := "name", names := ["-n", "--client_name"] }
def timeFlag : Flag := { key := "time", names := ["-t", "--max_time"], isNumber := true }

def commands : List Command :=
  [{ names := ["local", "l"], flags := [databaseFlag, overrideFlag] },
   { names := ["server", "s"], flags := [portFlag, hostFlag, databaseFlag] },
   { names := ["client", "c"], flags := [portFlag, hostFlag, nameFlag, overrideFlag, timeFlag] }]

structure Traffic where
  requests : List Server.Request := []
  answers : List Json := []

def command (vs : Values) (t : Traffic) : Step Report := do
  let text := fun key default_ => (Table.get? vs key).getD default_
  let number := fun key => (Table.get? vs key).bind Decimal.readInt
  match name with
  | "local" => do
    openArchive (text "database" "")
    runMissing (← Json.parse (text "override" "\x7b\x7d"))
    return {}
  | "server" => do
    openArchive (text "database" "")
    serve (.str (text "host" "0.0.0.0")) (.int ((number "port").getD 8342)) t.requests
  | _ => do
    let change ← Json.parse (text "override" "\x7b\x7d")
    attend { name := text "name" ({ } : Client).name, server := text "host" "localhost", port := (number "port").getD 8342,
             change := changeOr change, maxTime := (number "time").map fun n => (Number.ofInt n).toFloat } t.answers

/-- The code with which it exits, if it does not carry out anything. -/
def commandLine (argv : Strings) (t : Traffic) : Step (Except Nat Report) :=
  match read commands argv true with
  | .error code => return .error code
  | .ok none => return .ok {}
  | .ok (some (c, vs)) => .ok <$> command (c.names.headD "") vs t

end StencilForge.Study
