import StencilForge.Literal
import StencilForge.Study.Basic

/-!
# Parameter studies — server

A run is pending until a client fetches it, then it is with that client, and it is finished once the client delivers a
result.
-/

namespace StencilForge.Study

structure Server where
  all : List Run
  pending : List Run
  running : List (Json × Run) := []
  finished : List Run := []
  archive : Archive
  lines : Strings := []

namespace Server

def start (runs : List Run) (archive : Archive) : Server := { all := runs, pending := runs, archive }

def isDone (s : Server) : Bool := s.running.isEmpty && s.pending.isEmpty

def entry (body : Json) (key : String) : Outcome Json :=
  match body with
  | .obj _ => present .missing (body.get? key)
  | _ => raise .mistyped

def isName : Json → Bool
  | .arr _ | .obj _ => false
  | _ => true

def shown : Json → String
  | .str s => s
  | v => Literal.ofJson v

def wholePart : Json → Outcome Int
  | .float x => Slice.truncate x
  | j => do return (← present .mistyped (numberOf j)).floor?.getD 0

def work (runs : List Run) : Outcome Int := do wholePart (← runs.foldlM (fun t r => sum t r.weight) (.int 0))

def nextScenario (body : Json) : Action Server Json := do
  let client ← entry body "client_name"
  let s ← get
  match s.pending with
  | [] => return .obj [("status", .str "finished")]
  | r :: rest => do
    let runs := s!"{s.finished.length}/{s.all.length}"
    let work := toString (← work s.finished) ++ "/" ++ toString (← work s.all)
    let line := s!" # {shown client} fetched scenario. Scenarios: {runs}, Work: {work}"
    set { s with pending := rest, lines := s.lines ++ [line] }
    if !isName client then raise .mistyped
    modify fun s => { s with running := s.running.filter (!sameValue ·.1 client) ++ [(client, r)] }
    return .obj [("status", .str "ok"), ("params", r.params)]

def ordered : Json → Json := Json.fold id .arr fun ps => .obj (ps.mergeSort fun a b => a.1 ≤ b.1)

/-- The run counts as finished before the parameters in the message are compared with its own. -/
def storeResult (body : Json) : Action Server Json := do
  let client ← entry body "client_name"
  if !isName client then raise .mistyped
  let s ← get
  let some (_, r) := s.running.find? fun p => sameValue p.1 client
    | raise .missing
  set { s with finished := s.finished ++ [r], running := s.running.filter (!sameValue ·.1 client) }
  let params ← entry body "params"
  if (ordered params).compact != (ordered r.params).compact then raise .violated
  let result ← entry body "result"
  let _ ← entry body "env"
  let changed ← entry body "changed_params"
  modify fun s => { s with archive := s.archive ++ [⟨r.params, result, changed⟩] }
  return .obj []

/-! ### Requests -/

structure Request where
  method : String
  path : String
  /-- The message: a document, or the text that came instead. -/
  body : Outcome Json

structure Reply where
  status : Option Nat := none
  type : Option String := none
  body : Option Json := none
  failure : Option Failure := none

def action? : String → Option (Json → Action Server Json)
  | "/next_scenario" => some nextScenario
  | "/result" => some storeResult
  | _ => none

/-- Of an unknown path nothing is sent at all; a failure comes after the head of the answer. -/
def handle (s : Server) (r : Request) : Server × Reply :=
  if r.method != "GET" && r.method != "POST" then (s, { status := some 501, type := some "text/html;charset=utf-8" })
  else match action? r.path with
    | none => (s, {})
    | some f =>
      let (s, outcome) := (do f (← r.body) : Action Server Json).perform s
      let head : Reply := { status := some 200, type := some "application/json" }
      (s, match outcome with
        | .ok j => { head with body := some j }
        | .error e => { head with failure := some e })

/-- And one more; tells whether the server came to its end. -/
def serve (s : Server) : List Request → Server × List Reply × Bool
  | [] => (s, [], false)
  | r :: rest =>
    let (t, reply) := s.handle r
    if s.isDone then (t, [reply], true)
    else
      let (u, replies, done) := serve t rest
      (u, reply :: replies, done)

end Server

end StencilForge.Study
