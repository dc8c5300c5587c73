import StencilForge.Query.Steps
import StencilForge.Study.Session

/-!
# Questions — parameter studies
-/

namespace StencilForge.Query

open Document Study

variable (fault : Failure → Json)

def totals (args : Parameters) : Json :=
  let total := args.foldl (fun n (_, v) => match v with
    | .int k => n + k
    | .bool true => n + 1
    | _ => n) 0
  .obj [("total", .int total), ("n", nat args.length)]

def ofRun (r : Run) : Json := .arr [r.params, r.weight]

def ofRecord (r : Record) : Json := .arr [r.params, r.result, r.changed]

def takeLog : Step (Json × Json) := do
  let s ← get
  set { s with runner := { s.runner with log := [] } }
  return (.arr (s.runner.log.map .obj), .arr (sorted (s.archive.map ofRecord)))

def studyView : Step Json := do
  let (log, records) ← takeLog
  return .arr [.arr ((← get).runs.map ofRun), log, records]

def readRequests (j : Json) : Outcome (List Server.Request) := do
  (← asList j).mapM fun
    | .arr (.str method :: .str path :: rest) => .ok { method, path, body := match rest with
        | .str s :: _ => Json.parse s
        | b :: _ => .ok b
        | [] => raise .malformed }
    | _ => bad

def ofReply (r : Server.Reply) : Json :=
  .arr ([optional nat r.status, optional .str r.type, r.body.getD .null] ++ (r.failure.map fault).toList)

def ofClientEvent : Client.Event → Json
  | .request url body => .arr [.str url, body]
  | .pause n => .arr [.str "sleep", nat n]

def reportView (r : Report) : Step Json := do
  let (log, records) ← takeLog
  let listen := (r.listen.map fun (ip, port) => .arr [.str "listen", ip, port]).toList
  return .arr [.str (.join (r.lines.map (· ++ "\n"))),
    .arr (listen ++ r.replies.map (ofReply fault) ++ r.events.map ofClientEvent), .bool r.finished, log, records]

def combine (free : List (String × Json)) (options : Json) : Step Unit := do
  (← Run.combinations (pairs options "constant") free).forM fun ps => do
    let dropped := match options.get? "filter" with
      | some (.arr [.str k, v]) => sameValue (((Json.obj ps).get? k).getD .null) v
      | _ => false
    if dropped then return
    let ps ← ((options.get? "set").elim (.ok ps) (Study.changed ps) : Outcome Parameters)
    let weight ← match str? options "weight" with
      | some k => present .missing ((Json.obj ps).get? k)
      | none => pure (.int 1)
    add ⟨.obj ps, weight⟩

def readFree (j : Json) : Outcome (List (String × Json)) := do
  (← asList j).mapM fun
    | .arr [.str n, v] => .ok (n, v)
    | _ => bad

def ofExit (code : Nat) : Json := .arr [.str "exit", nat code]

def studyAction (m : String) (as : List Json) : Step Json := do
  let arg := fun k d => match (as[k]? : Option Json) with
    | some .null | none => d
    | some j => j
  match m with
  | "add" => add ⟨arg 0 .null, arg 1 (.int 1)⟩ *> studyView
  | "combine" => do
    combine (← readFree (arg 0 .null)) (arg 1 .null)
    studyView
  | "runs" => studyView
  | "run" => do
    run (← asInt (arg 0 (.int 0))) (← asInt (arg 1 (.int 1))) (arg 2 .null)
    studyView
  | "run_missing" => runMissing (arg 0 .null) *> studyView
  | "save" => save ⟨arg 0 .null, arg 1 .null, .obj []⟩ *> studyView
  | "cli" => do
    let words ← asList (arg 0 (.arr []))
    match ← commandLine (← (words.mapM asStr : Outcome Strings)) {} with
    | .error code => return ofExit code
    | .ok _ => studyView
  | "distribute" => do
    let runs ← Run.share (← get).runs (← asInt (arg 0 (.int 0))) (← asInt (arg 1 (.int 1)))
    return .arr (runs.map ofRun)
  | "simulated" => do return .bool (← (← get).archive.has (arg 0 .null))
  | "query" => do
    let query := match arg 0 .null with
      | .obj ps => ps
      | _ => []
    let found ← (← get).archive.select query
    return .arr (sorted (found.map fun r => .arr [r.params, r.result]))
  | "server" => do
    reportView fault (← serve (arg 1 (.str "0.0.0.0")) (arg 2 (.int 8342)) (← readRequests (arg 0 (.arr []))))
  | "client" => do
    let c : Client := { change := arg 4 (.obj []) }
    let text := fun k d => match arg k .null with
      | .str s => s
      | _ => d
    let c := { c with name := text 1 c.name, server := text 2 c.server }
    let c := match arg 3 .null with
      | .int port => { c with port }
      | _ => c
    let c := { c with maxTime := (Study.numberOf (arg 5 .null)).map (·.toFloat) }
    reportView fault (← attend c (← asList (arg 0 (.arr []))))
  | "net_cli" => do
    let argv ← ((as.drop 1).mapM asStr : Outcome Strings)
    let given ← asList (arg 0 (.arr []))
    let requests := match readRequests (.arr given) with
      | .ok rs => rs
      | .error _ => []
    match ← commandLine argv { requests, answers := given } with
    | .error code => return ofExit code
    | .ok r => reportView fault r
  | _ => raise .general

def study (j : Json) : Answer := do
  let s := { runner := { result := totals } }
  return runSteps fault s (← steps j) fun s m as => (studyAction fault m as).perform s

end StencilForge.Query
