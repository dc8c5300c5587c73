/-!
# Sets of integer points

Conditions on linear forms: not negative, or a multiple of a number.  `IntegerSet.isEmpty` removes one coordinate
after the other: one with a lower bound need only be tried at the first few values above each of its lower bounds,
because the conditions repeat with a common period.
-/

namespace StencilForge.IntegerSet

structure Form where
  coeffs : List Int
  constant : Int
  deriving DecidableEq, Repr

variable (f : Form)

namespace Form

def value (x : List Int) : Int := ((f.coeffs.zip x).map fun (a, b) => a * b).foldr (· + ·) 0 + f.constant

def head : Int := f.coeffs.headD 0

def tail : Form := ⟨f.coeffs.tail, f.constant⟩

def scale (c : Int) (f : Form) : Form := ⟨f.coeffs.map (c * ·), c * f.constant⟩

def add (f g : Form) : Form := ⟨.zipWith (· + ·) f.coeffs g.coeffs, f.constant + g.constant⟩

def neg : Form := f.scale (-1)

def sub (f g : Form) : Form := f.add g.neg

def plus (c : Int) : Form := ⟨f.coeffs, f.constant + c⟩

def const (n : Nat) (c : Int) : Form := ⟨.replicate n 0, c⟩

def coordinate (n i : Nat) : Form := ⟨(List.range n).map fun k => if k = i then 1 else 0, 0⟩

end Form

inductive Condition where
  | nonneg (f : Form)
  | multiple (d : Nat) (f : Form)
  deriving DecidableEq, Repr

namespace Condition

def form : Condition → Form
  | nonneg f | multiple _ f => f

def holds (x : List Int) : Condition → Bool
  | nonneg f => decide (0 ≤ f.value x)
  | multiple d f => decide ((f.value x) % d = 0)

def period : Condition → Nat
  | nonneg _ => 1
  | multiple d _ => d

/-- The coefficient of the first coordinate becomes `m` or `-m`. -/
def level (m : Nat) (c : Condition) : Condition :=
  let a := c.form.head
  if a = 0 then c
  else
    let k := m / a.natAbs
    match c with
    | nonneg f => nonneg (f.scale k)
    | multiple d f => multiple (d * k) (f.scale k)

/-- The condition in which a form stands for `m` times the first coordinate. -/
def instantiate (g : Form) (c : Condition) : Condition :=
  let new := fun f => (f.tail).add (g.scale f.head.sign)
  match c with
  | nonneg f => nonneg (new f)
  | multiple d f => multiple d (new f)

end Condition

def commonMultiple (ns : List Nat) : Nat := ns.foldl .lcm 1

/-- One of these lists can be met exactly if the given one can. -/
def eliminate (n : Nat) (cs : List Condition) : List (List Condition) :=
  let m := commonMultiple ((cs.map fun c => c.form.head.natAbs).filter (· != 0))
  let cs := cs.map (Condition.level m)
  -- what stands for `m` times the coordinate has to be a multiple of `m`
  let whole := fun g => Condition.multiple m g
  let period := commonMultiple (m :: (cs.filter fun c => c.form.head != 0).map Condition.period)
  let lower := cs.filterMap fun
    | .nonneg f => if f.head > 0 then some f.tail.neg else none
    | _ => none
  if lower.isEmpty then
    -- far below all upper bounds only the multiples matter
    let rest := cs.filter fun
      | .nonneg f => f.head == 0
      | _ => true
    (List.range period).map fun j =>
      let g := .const n j
      whole g :: rest.map (.instantiate g)
  else
    lower.flatMap fun l => (List.range period).map fun j =>
      let g := l.plus j
      whole g :: cs.map (.instantiate g)

def isMet : Nat → List Condition → Bool
  | 0, cs => cs.all (Condition.holds [])
  | n + 1, cs => (eliminate n cs).any (isMet n)

def isEmpty (n : Nat) (cs : List Condition) : Bool := !isMet n cs

def opposite : Condition := .nonneg (f.neg.plus (-1))

def implies (n : Nat) (cs : List Condition) (fs : List Form) : Bool := fs.all fun f => isEmpty n (opposite f :: cs)

end StencilForge.IntegerSet
