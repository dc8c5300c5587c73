import StencilForge.Expr.Algebra

/-!
# Command lines

A long option may be cut short as long as it stays unique, and a value may follow the option or be part of its word.
An exit code is 0 after help, 2 after a mistake.
-/

namespace StencilForge.CommandLine

structure Flag where
  key : String
  names : Strings
  isNumber : Bool := false
  isHelp : Bool := false
  deriving Repr

variable (flags : List Flag) (s : String)

def help : Flag := { key := "help", names := ["-h", "--help"], isHelp := true }

structure Command where
  names : Strings
  flags : List Flag
  deriving Repr

abbrev Values := Table String String

inductive Word where
  | plain (s : String)
  | option (f : Flag) (name : String) (value : Option String)
  | unknown (s : String)
  | divider
  deriving Repr

/-- Cuts at the first equals sign. -/
def splitValue : String × Option String :=
  let name := s.toList.takeWhile (· != '=')
  if name.length = s.length then (s, none)
  else (.ofList name, some (.ofList (s.toList.drop (name.length + 1))))

def isNegativeNumber : Bool :=
  match s.toList with
  | '-' :: r =>
    let whole := r.takeWhile Char.isDigit
    match r.drop whole.length with
    | [] => !whole.isEmpty
    | '.' :: f => !f.isEmpty && f.all Char.isDigit
    | _ => false
  | _ => false

/-- The options whose names start with a word, with the value inside the word. -/
def candidates : List Word :=
  let named := flags.flatMap fun f => f.names.map fun n => (f, n)
  if "--".toList.isPrefixOf s.toList then
    let (start, value) := splitValue s
    (named.filter fun (_, n) => start.toList.isPrefixOf n.toList).map fun (f, n) => .option f n value
  else
    let short := .ofList (s.toList.take 2)
    named.filterMap fun (f, n) =>
      if n == short then some (.option f n (some (.ofList (s.toList.drop 2))))
      else if s.toList.isPrefixOf n.toList then some (.option f n none)
      else none

def classify : Except Nat Word :=
  let exact := fun n => flags.find? (·.names.contains n)
  match s.toList with
  | [] | ['-'] => .ok (.plain s)
  | '-' :: _ => match exact s with
    | some f => .ok (.option f s none)
    | none =>
      let (name, value) := splitValue s
      match (if value.isSome then exact name else none) with
      | some f => .ok (.option f name value)
      | none => match candidates flags s with
        | [w] => .ok w
        | _ :: _ => .error 2
        | [] => .ok (if isNegativeNumber s || s.toList.contains ' ' then .plain s else .unknown s)
  | _ => .ok (.plain s)

def classifyAll : Strings → Except Nat (List Word)
  | [] => .ok []
  | s :: r =>
    if s == "--" then .ok (.divider :: r.map .plain)
    else do return (← classify flags s) :: (← classifyAll r)

def store (f : Flag) (v : String) (vs : Values) : Except Nat Values :=
  if f.isNumber && (Decimal.readInt v).isNone then .error 2 else .ok ((f.key, v) :: vs)

def helpThen (next : List Word) : Chars → Nat
  | [] => 0
  | c :: r => match flags.find? (·.names.contains ("-" ++ c.toString)) with
    | none => 2
    | some f =>
      if f.isHelp then helpThen next r
      else if !r.isEmpty then 0
      else match next with
        | .plain _ :: _ => 0
        | _ => 2

/-- Words that belong to no option are a mistake, but only at the end. -/
def options : List Word → Bool → Values → Except Nat Values
  | [], clean, vs => if clean then .ok vs else .error 2
  | .option f name value :: r, clean, vs =>
    if f.isHelp then match value with
      | none => .error 0
      | some v => .error (if "--".toList.isPrefixOf name.toList then 2 else helpThen flags r v.toList)
    else match value, r with
      | some v, r => do options r clean (← store f v vs)
      | none, .plain v :: r => do options r clean (← store f v vs)
      | none, _ => .error 2
  | _ :: r, _, vs => options r false vs

/-- The command and its values, nothing for an empty line, or the exit code. -/
def read (commands : List Command) : Strings → Bool → Except Nat (Option (Command × Values))
  | [], clean => if clean then .ok none else .error 2
  | s :: r, clean => do
    match ← if s == "--" then pure .divider else classify [help] s with
    | .plain n => match commands.find? (·.names.contains n) with
      | some c => do
        let vs ← options (help :: c.flags) (← classifyAll (help :: c.flags) r) clean []
        return some (c, vs)
      | none => .error 2
    | .option _ name value => match value with
      | none => .error 0
      | some v => .error (if "--".toList.isPrefixOf name.toList then 2 else helpThen [help] [] v.toList)
    | .divider => .error 2
    | .unknown _ => read commands r false

end StencilForge.CommandLine
