import StencilForge.Kernel.Statement

/-!
# Kernel — code that is given as text

The output of a symbol, and the tables of the directions of a stencil.
-/

namespace StencilForge.Snippet

def print (name : String) (symbol : Expr) : Snippet where
  kind := .print
  text := s!"\nstd::cout << \"{name}  =  \" << {name} << std::endl; \n"
  reads := [symbol]
  headers := ["<iostream>"]

def table (type name : String) (ns : Ints) : String :=
  s!"const {type} {name} [] = \x7b " ++ ", ".intercalate (ns.map toString) ++ " \x7d;\n"

def offsetName (coord : Nat) : String := "c" ++ ["x", "y", "z"].getD coord ""

/-- A coordinate of each direction, and the index of the opposite direction. -/
def directions (s : Stencil) : Outcome Snippet := do
  let dim := (s.headD []).length
  if s.isEmpty || dim > 3 then raise .outOfRange
  let inverse ← s.mapM fun d => do return ((← present .invalid (s.findIdx? (· == d.map (-·)))) : Int)
  let coords := List.range dim
  let offsets := coords.map fun i => (offsetName i, s.map fun d => d.getD i 0)
  let lines := offsets.map fun (n, ds) => table "int64_t" n ds
  return {
    kind := .directions
    text := "\n" ++ "".intercalate lines ++ table "int" "invdir" inverse
    tables := offsets.map (fun (n, ds) => (n, .int 64, ds)) ++ [("invdir", .int 32, inverse)]
    defines := coords.map (fun i => .typedSymbol (offsetName i) .integer) ++ [.typedSymbol "invdir" .integer] }

end StencilForge.Snippet

/-!
## Kernel — random numbers

Draws get new names for their results, so that they can be told apart.
-/

namespace StencilForge.RandomDraw

def keyCount : Generator → Nat
  | .philox => 2
  | .aesni => 4

def time : Expr := .typedSymbol "time_step" (.basic (.uint 32) false)

def seed : Expr := .typedSymbol "seed" (.basic (.uint 32) false)

def anonymous (n : Nat) : String := s!"Dummy_{n}"

/-- Results are named from the number `fresh` on; gives the next one too. -/
def make (fresh : Nat) (generator : Generator) (single : Bool) (dim : Nat) (time : Expr) (offsets : Exprs)
    (keys : Option Exprs) : Outcome (RandomDraw × Nat) := do
  let keys := keys.getD (.replicate (keyCount generator) (.lit 0))
  if keys.length != keyCount generator then
    raiseWith .invalid (s!"Provided {keys.length} keys but need " ++ toString (keyCount generator))
  if offsets.length != 3 then
    raiseWith .invalid s!"Provided {offsets.length} offsets but need 3"
  let count := if single then 4 else 2
  let type : DataType := if single then .single else .double
  let results := (List.range count).map fun i => Symbol.typed (anonymous (fresh + i)) type
  return ({ generator, single, dim, timeStep := time, offsets, keys, results }, fresh + count)

/-- The latest draw first, until there are `n` symbols; `fuel` bounds the number of draws. -/
def symbolsFrom (generator : Generator) (single : Bool) (dim : Nat) (seed : Expr) (n : Nat) :
    Nat → Nat → Nat → List RandomDraw → List Symbol → Outcome (List RandomDraw × List Symbol × Nat)
  | 0, fresh, _, draws, found => .ok (draws, found.take n, fresh)
  | fuel + 1, fresh, counter, draws, found =>
    if found.length ≥ n then .ok (draws, found.take n, fresh) else do
      let (d, fresh) ← make fresh generator single dim time [.lit 0, .lit 0, .lit 0] (some [.lit counter, seed])
      symbolsFrom generator single dim seed n fuel fresh (counter + 1) (d :: draws) (found ++ d.results)

/-- The draws, the latest first, the `n` symbols, and the next unused number. -/
def symbols (generator : Generator) (single : Bool) (dim : Nat) (seed : Expr) (n fresh : Nat) :
    Outcome (List RandomDraw × List Symbol × Nat) :=
  symbolsFrom generator single dim seed n n fresh 0 [] []

end StencilForge.RandomDraw
