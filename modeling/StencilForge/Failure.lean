/-!
# Failure

Why an operation refuses its input: a kind, and a message where the refusing rule has words of its own.
-/

namespace StencilForge

inductive Failure.Kind where
  | violated
  | invalid
  | mistyped
  | missing
  | outOfRange
  | noSuchPart
  | unsupported
  | failed
  | divisionByZero
  | unbound
  | unreadable
  | badAxis
  | absent
  | undefinedName
  | general
  | malformed
  | rejected
  | overflow
  | noFile
  deriving DecidableEq, Repr

structure Failure where
  kind : Failure.Kind
  message : Option String := none
  deriving DecidableEq, Repr

abbrev Ints := List Int
abbrev Nats := List Nat
abbrev Chars := List Char
abbrev Strings := List String

abbrev Outcome (α : Type) := Except Failure α

@[macro_inline] def given {α : Type} (c : Bool) (v : α) : Option α := if c then some v else none

namespace Failure

def raise {α : Type} (k : Kind) : Outcome α := .error ⟨k, none⟩

def raiseWith {α : Type} (k : Kind) (m : String) : Outcome α := .error ⟨k, some m⟩

def present {α : Type} (k : Kind) : Option α → Outcome α
  | some a => .ok a
  | none => raise k

def require (b : Bool) (k : Kind) : Outcome Unit := if b then .ok () else raise k

def requireWith (b : Bool) (k : Kind) (m : String) : Outcome Unit := if b then .ok () else raiseWith k m

end Failure

export Failure (raise raiseWith present require requireWith)

/-!
## Actions

What an action changed before it fails stays changed.
-/

abbrev Action (σ α : Type) := ExceptT Failure (StateM σ) α

namespace Action

variable {σ α : Type}

def perform (a : Action σ α) (s : σ) : σ × Outcome α :=
  let (r, s) := StateT.run (ExceptT.run a) s
  (s, r)

end Action

end StencilForge
