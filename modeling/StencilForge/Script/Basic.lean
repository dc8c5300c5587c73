import StencilForge.Json

/-!
# Scripts — tokens

A line knows how far it is indented, and goes on while a bracket is open; blank lines and comments are left out.
-/

namespace StencilForge.Script

variable (s : String)

inductive Token where
  | name (s : String)
  | int (n : Nat)
  | real (x : Float)
  | text (s : String)
  | mark (s : String)
  deriving BEq

structure Line where
  indent : Nat
  tokens : List Token

namespace Token

def longMarks : Strings :=
  ["**=", "//=", ">>=", "<<=", "@=", "+=", "-=", "*=", "/=", "%=", "&=", "|=", "^=", "**", "//", "==", "!=", "<=", ">=",
   "<<", ">>", "->"]

def startsName (c : Char) : Bool := c.isAlpha || c == '_' || c.toNat > 127

def inName (c : Char) : Bool := startsName c || c.isDigit

/-- One without fraction and exponent is an integer. -/
def readNumber (cs : Chars) : Token × Chars :=
  let digit := fun c => c.isDigit || c == '_'
  let whole := cs.takeWhile digit
  let (x, rest) := Json.readFraction digit true false whole (cs.drop whole.length)
  (x.elim (.int (Json.natOf whole)) .real, rest)

/-- `depth` counts open brackets; `fuel` bounds the number of characters. -/
def scan : Nat → Nat → Chars → Line → List Line
  | 0, _, _, line => [line]
  | _, _, [], line => [line]
  | fuel + 1, depth, c :: r, line =>
    let push := fun t => { line with tokens := line.tokens ++ [t] }
    if c == '\n' then
      if depth > 0 then scan fuel depth r line
      else
        let blanks := r.takeWhile fun c => c == ' ' || c == '\t'
        let width := blanks.foldl (fun n c => if c == '\t' then (n / 8 + 1) * 8 else n + 1) 0
        line :: scan fuel 0 (r.drop blanks.length) ⟨width, []⟩
    else if c == ' ' || c == '\t' || c == '\r' then scan fuel depth r line
    else if c == '#' then scan fuel depth (r.dropWhile (· != '\n')) line
    else if c == '\'' || c == '"' then
      let body := r.takeWhile (· != c)
      scan fuel depth (r.drop (body.length + 1)) (push (.text (.ofList body)))
    else if startsName c then
      let name := (c :: r).takeWhile inName
      scan fuel depth ((c :: r).drop name.length) (push (.name (.ofList name)))
    else if c.isDigit || (c == '.' && (r.headD ' ').isDigit) then
      let (t, rest) := readNumber (c :: r)
      scan fuel depth rest (push t)
    else
      let mark := (longMarks.find? fun m => m.toList.isPrefixOf (c :: r)).getD c.toString
      let depth := if ["(", "[", "\x7b"].contains mark then depth + 1
        else if [")", "]", "\x7d"].contains mark then depth - 1 else depth
      scan fuel depth ((c :: r).drop mark.length) (push (.mark mark))

end Token

def lines : List Line :=
  let cs := '\n' :: s.toList
  (Token.scan (cs.length + 1) 0 cs ⟨0, []⟩).filter fun l => !l.tokens.isEmpty

/-!
## Scripts

A script is a function whose body makes assignments; `Script.Term` are its expressions, `Script.Command` its
statements.
-/

inductive Term where
  | int (n : Int)
  | real (x : Float)
  | truth (b : Bool)
  | nothing
  | text (s : String)
  | name (s : String)
  | unary (op : String) (a : Term)
  | binary (op : String) (a b : Term)
  | compare (a : Term) (ops : Strings) (bs : List Term)
  /-- The condition is decided at once. -/
  | choose (value cond other : Term)
  | branches (value cond other : Term)
  | attribute (a : Term) (name : String)
  | item (a index : Term)
  | call (f : Term) (as : List Term)
  | tuple (as : List Term)
  deriving Inhabited

inductive Command where
  | pass
  | augment (op : String) (target value : Term)
  | record (target value : Term)
  | define (name : String) (value : Term)
  | loop (name : String) (values : Term) (body : List Command)
  | run (e : Term)

structure Function where
  name : String
  parameters : Strings
  body : List Command

/-! ### Reading expressions -/

/-- Binary operators, those that bind least tightly first. -/
def levels : List Strings := [["|"], ["^"], ["&"], ["<<", ">>"], ["+", "-"], ["*", "/", "//", "%", "@"]]

def comparisons : Strings := ["<", ">", "<=", ">=", "==", "!="]

abbrev Parse := StateT (List Token) Option

def accept (t : Token) : Parse Bool
  | u :: r => some (if u == t then (true, r) else (false, u :: r))
  | [] => some (false, [])

def expect (t : Token) : Parse Unit := do guard (← accept t)

def oneOf (marks : Strings) : Parse (Option String) := marks.findM? (accept ∘ .mark)

/-- Further operands, each behind one of the marks; `n` bounds their number. -/
def further (marks : Strings) (operand : Parse Term) : Nat → Parse (List (String × Term))
  | 0 => failure
  | n + 1 => do
    match ← oneOf marks with
    | some m => return (m, ← operand) :: (← further marks operand n)
    | none => return []

def packed : List Term × Bool → Term
  | ([a], false) => a
  | (as, _) => .tuple as

section

variable (term : Parse Term)

/-- Tells whether there was a comma. -/
def items : Nat → Parse (List Term × Bool)
  | 0 => failure
  | n + 1 => do
    let a ← term
    if !(← accept (.mark ",")) then return ([a], false)
    (do return (a :: (← items n).1, true)) <|> return ([a], true)

def arguments (n : Nat) : Parse (List Term × Bool) := do
  if ← accept (.mark ")") then return ([], true)
  items term n <* expect (.mark ")")

def parseAtom (n : Nat) : Parse Term
  | .int n :: r => some (.int n, r)
  | .real x :: r => some (.real x, r)
  | .text s :: r => some (.text s, r)
  | .name "True" :: r => some (.truth true, r)
  | .name "False" :: r => some (.truth false, r)
  | .name "None" :: r => some (.nothing, r)
  | .name n :: r => if ["if", "else", "for", "in"].contains n then none else some (.name n, r)
  | .mark "(" :: r => (packed <$> arguments term n) r
  | _ => none

def trail : Nat → Term → Parse Term
  | 0, _ => failure
  | n + 1, a => do
    if ← accept (.mark ".") then
      let .name s :: r ← get | failure
      set r
      trail n (.attribute a s)
    else if ← accept (.mark "[") then
      let i ← items term n <* expect (.mark "]")
      trail n (.item a (packed i))
    else if ← accept (.mark "(") then trail n (.call a (← arguments term n).1)
    else return a

def parseUnary : Nat → Parse Term
  | 0 => failure
  | n + 1 => do
    match ← oneOf ["-", "+", "~"] with
    | some m => return .unary m (← parseUnary n)
    | none =>
      let a ← trail term n (← parseAtom term n)
      if ← accept (.mark "**") then return .binary "**" a (← parseUnary n) else return a

def arithmetic (n : Nat) : Parse Term :=
  levels.foldr (fun ops inner => do
    let a ← inner
    return (← further ops inner n).foldl (fun a (m, b) => .binary m a b) a) (parseUnary term n)

end

/-- The depth bounds the nesting. -/
def parseTerm : Nat → Parse Term
  | 0 => failure
  | n + 1 => do
    let sum := arithmetic (parseTerm n) n
    let compared := do
      let a ← sum
      let rest ← further comparisons sum n
      return if rest.isEmpty then a else .compare a (rest.map (·.1)) (rest.map (·.2))
    let a ← compared
    if !(← accept (.name "if")) then return a
    let c ← compared
    expect (.name "else")
    return .choose a c (← parseTerm n)

def parseTuple : Parse Term := do
  let n := (← get).length + 2
  return packed (← items (parseTerm n) n)

def wholeTerm (ts : List Token) : Option Term := do
  let (a, []) ← parseTuple.run ts | none
  return a

/-! ### Reading statements -/

def augmentingOp? (m : String) : Option String := ("**" :: levels.flatten).find? (· ++ "=" == m)

def simpleCommand : List Token → Option Command
  | [.name "pass"] => some .pass
  | ts =>
    let isSplit := fun
      | .mark m => m == "=" || (augmentingOp? m).isSome
      | _ => false
    let left := ts.takeWhile (!isSplit ·)
    match ts.drop left.length with
    | .mark "=" :: r => match left with
      | [.name n] => do return .define n (← wholeTerm r)
      | _ => none
    | .mark m :: r => do return .augment (← augmentingOp? m) (← wholeTerm left) (← wholeTerm r)
    | _ => .run <$> wholeTerm ts

def blockLines (indent : Nat) (ls : List Line) : List Line := ls.takeWhile (·.indent > indent)

/-- `fuel` bounds their number. -/
def commands : Nat → List Line → Option (List Command)
  | 0, _ => none
  | _, [] => some []
  | fuel + 1, l :: r => match l.tokens with
    | .name "for" :: .name x :: .name "in" :: ts => do
      let (values, rest) ← (parseTuple <* expect (.mark ":")).run ts
      let inside := blockLines l.indent r
      let body ← if rest.isEmpty then commands fuel inside else do pure [← simpleCommand rest]
      let after := if rest.isEmpty then r.drop inside.length else r
      return .loop x values body :: (← commands fuel after)
    | ts => do return (← simpleCommand ts) :: (← commands fuel r)

def parameterNames : List Token → Option (Strings × List Token)
  | .mark ")" :: .mark ":" :: r => some ([], r)
  | .mark "," :: r => parameterNames r
  | .name n :: r => (parameterNames r).map fun (ns, r) => (n :: ns, r)
  | _ => none

def read : Option Function :=
  match lines s with
  | l :: r => match l.tokens with
    | .name "def" :: .name n :: .mark "(" :: ts => do
      let (ps, rest) ← parameterNames ts
      let body ← if rest.isEmpty then commands (r.length + 1) r else do pure [← simpleCommand rest]
      return ⟨n, ps, body⟩
    | _ => none
  | [] => none

/-!
## Scripts — recording

A statement that combines and stores, whatever its operator, adds an assignment to the result, and a conditional
expression stands for one with branches.  Inside it, conditions are decided at once.
-/

def Term.recorded : Term → Term
  | .unary op a => .unary op a.recorded
  | .binary op a b => .binary op a.recorded b.recorded
  | .compare a ops bs => .compare a.recorded ops (bs.map recorded)
  | .choose v c o => .branches v c o
  | .attribute a n => .attribute a.recorded n
  | .item a i => .item a.recorded i.recorded
  | .call f as => .call f.recorded (as.map recorded)
  | .tuple as => .tuple (as.map recorded)
  | t => t

def Command.recorded : Command → Command
  | .pass => .pass
  | .augment _ t v => .record t.recorded v.recorded
  | .record t v => .record t.recorded v.recorded
  | .define n v => .define n v.recorded
  | .loop n values body => .loop n values.recorded (body.map recorded)
  | .run e => .run e.recorded

def Function.recorded (f : Function) : Function := { f with body := f.body.map Command.recorded }

end StencilForge.Script
