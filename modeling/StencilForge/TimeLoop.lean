import StencilForge.Slice

/-!
# Time loops

The calls of one round make a fixed number of time steps; those left over are made one by one.  Calls are recorded; a
clock moves on by the same amount whenever it is read.
-/

namespace StencilForge

structure TimeLoop (ε : Type) where
  fixedSteps : Int := 2
  calls : List ε := []
  before : List ε := []
  after : List ε := []
  single : List ε := []
  stepsRun : Int := 0
  log : List ε := []
  tick : Float := 1
  readings : Nat := 0

namespace TimeLoop

variable {ε : Type}

def record (es : List ε) : Action (TimeLoop ε) Unit := modify fun t => { t with log := t.log ++ es }

def advance (n : Int) : Action (TimeLoop ε) Unit := modify fun t => { t with stepsRun := t.stepsRun + n }

def now : Action (TimeLoop ε) Float := do
  let t ← get
  set { t with readings := t.readings + 1 }
  return t.tick * .ofNat t.readings

def rounds (n : Int) : Action (TimeLoop ε) Unit := do
  let t ← get
  record (List.replicate n.toNat t.calls).flatten

def roundUp (a b : Int) : Outcome Int :=
  if b = 0 then raise .divisionByZero
  else .ok (if Int.fmod a b = 0 then a else (Int.fdiv a b + 1) * b)

def run (n : Int) : Action (TimeLoop ε) Unit := do
  let t ← get
  record t.before
  if t.fixedSteps = 0 then raise .divisionByZero
  let whole := .fdiv n t.fixedSteps
  rounds whole
  advance (max whole 0 * t.fixedSteps)
  let rest := (Int.fmod n t.fixedSteps).toNat
  record (List.replicate rest t.single).flatten
  advance rest
  record t.after

def quotient (x : Float) (y : Float) : Outcome Float := if y == 0 then raise .divisionByZero else .ok (x / y)

/-- In whole rounds; before that some are made that do not count. -/
def benchmarkRun (n warmUp : Int) : Action (TimeLoop ε) Float := do
  let t ← get
  let warmUp ← roundUp warmUp t.fixedSteps
  let all ← roundUp n t.fixedSteps
  record t.before
  rounds (.fdiv warmUp t.fixedSteps)
  advance warmUp
  let start ← now
  rounds (.fdiv all t.fixedSteps)
  let stop ← now
  advance all
  record t.after
  quotient (stop - start) (Number.ofInt n).toFloat

/-- `fuel` bounds their number.  Gives how many there were. -/
def roundsUntil (goal : Float) : Nat → Nat → Action (TimeLoop ε) Nat
  | 0, n => return n
  | fuel + 1, n => do
    if (← now) < goal then
      rounds 1
      roundsUntil goal fuel (n + 1)
    else return n

def enoughRounds (tick seconds : Float) : Nat :=
  match Slice.truncate (seconds / tick) with
  | .ok n => n.toNat + 2
  | .error _ => 0

/-- Gives the number of time steps and the time they took. -/
def runFor (seconds : Float) : Action (TimeLoop ε) (Int × Float) := do
  let t ← get
  record t.before
  let start ← now
  let n ← roundsUntil (start + seconds) (enoughRounds t.tick seconds) 0
  let stop ← now
  record t.after
  let steps := n * t.fixedSteps
  advance steps
  return (steps, stop - start)

/-- The number of time steps is estimated from some that are made before: a given number, or as many as fit in half a
second. -/
def benchmark (seconds : Float) (warmUp : Int) (estimate : Option Int) : Action (TimeLoop ε) Float := do
  let duration ← match estimate with
    | some n => benchmarkRun n warmUp
    | none => do
      run 1
      let (steps, time) ← runFor 0.5
      quotient time (Number.ofInt steps).toFloat
  let n ← Slice.truncate (← quotient seconds duration)
  benchmarkRun (max n 4) warmUp

end TimeLoop

end StencilForge
