import StencilForge.Expr.Basic

/-!
# Kernel — loop counters

The loops along a coordinate, and over blocks of cells along it, count with symbols of their own.
-/

namespace StencilForge

namespace Counter

variable (coord : Int)

def name : String := "ctr_" ++ toString coord

def blockName : String := "_blockctr_" ++ toString coord

def symbol : Symbol := .typed (name coord) .integer

def blockSymbol : Symbol := .typed (blockName coord) .integer

/-- A symbol without a type that is named as a counter is refused. -/
def coordinate? (s : Symbol) : Outcome (Option Int) :=
  if !s.name.startsWith "ctr" then .ok none
  else match s.dtype? with
    | none => raise .noSuchPart
    | some t =>
      if t != .integer then .ok none
      else some <$> present .invalid (Decimal.readInt (s.name.drop 4).toString)

end Counter

/-!
## Kernel — nested scopes

A symbol that is used where no open scope defines it is a free parameter.
-/

/-- Innermost first, and the symbols used without definition. -/
structure Scopes (α : Type) where
  stack : List (List α) := [[]]
  free : List α := []

namespace Scopes

variable {α : Type} [BEq α]

def depth (s : Scopes α) : Nat := s.stack.length

def isDefined (s : Scopes α) (x : α) : Bool := s.stack.any (·.contains x)

def isDefinedLocally (s : Scopes α) (x : α) : Outcome Bool :=
  match s.stack with
  | [] => raise .outOfRange
  | c :: _ => .ok (c.contains x)

def access (s : Scopes α) (x : α) : Scopes α :=
  if s.isDefined x || s.free.contains x then s else { s with free := s.free ++ [x] }

def define (s : Scopes α) (x : α) : Outcome (Scopes α) :=
  match s.stack with
  | [] => raise .outOfRange
  | c :: r => .ok { s with stack := (if c.contains x then c else c ++ [x]) :: r }

def push (s : Scopes α) : Scopes α := { s with stack := [] :: s.stack }

/-- The outermost scope can be closed too, but that is a failure. -/
def pop (s : Scopes α) : Scopes α × Outcome Unit :=
  match s.stack with
  | [] => (s, raise .outOfRange)
  | _ :: r => ({ s with stack := r }, require (!r.isEmpty) .violated)

end Scopes

end StencilForge
