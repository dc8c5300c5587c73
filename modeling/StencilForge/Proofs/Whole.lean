import StencilForge.Proofs.Machine
import StencilForge.Proofs.Outcome

/-!
# Proofs — whole numbers

A model that can be computed: integers, addresses and truth values.  The quotient of two integers
goes toward zero, as in generated code.
-/

namespace StencilForge

/-- Values that kernels compute addresses and conditions with. -/
inductive Whole where
  | int (n : Int)
  | address (array : String) (k : Int)
  | truth (b : Bool)
  deriving DecidableEq, Repr

namespace Whole

def int? : Whole → Option Int
  | .int n => some n
  | _ => none

def address? : Whole → Option (String × Int)
  | .address f k => some (f, k)
  | _ => none

def truth? : Whole → Option Bool
  | .truth b => some b
  | _ => none

def operation (h : Head) (xs : List Whole) : Option Whole :=
  match h, xs with
  | .add, [.address f k, .int n] => some (.address f (k + n))
  | .add, xs => (xs.mapM int?).map fun ns => .int ns.sum
  | .mul, xs => (xs.mapM int?).map fun ns => .int ns.prod
  | .rel r, [.int a, .int b] => some (.truth (r.holds (compare a b)))
  | .and, xs => (xs.mapM truth?).map fun bs => .truth (bs.all id)
  | .or, xs => (xs.mapM truth?).map fun bs => .truth (bs.any id)
  | .not, [.truth b] => some (.truth !b)
  | .fn .min, [.int a, .int b] => some (.int (min a b))
  | .fn .moduloFloor, [.int a, .int b] => some (.int (a.tdiv b * b))
  | _, _ => none

/-- A change of type looks at its operand only. -/
def apply (h : Head) (vs : List (Option Whole)) : Option Whole :=
  match h with
  | .cast _ => vs.head?.join
  | h => (vs.mapM id).bind (operation h)

def choose : List (Option Whole × Option Whole) → Option Whole
  | [] => none
  | (v, c) :: r => match c.bind truth? with
    | some true => v
    | some false => choose r
    | none => none

def atom : Atom → Option Whole
  | .lit n => some (.int n)
  | .num n => n.int?.map .int
  | .bool b => some (.truth b)
  | _ => none

theorem mapM_id_mono {vs ws : List (Option Whole)} (h : List.Forall₂ Refines vs ws) :
    ∀ xs, vs.mapM id = some xs → ws.mapM id = some xs := by
  induction h with
  | nil => exact fun xs hx => hx
  | cons hv _ ih =>
    intro xs hx
    simp only [List.mapM_cons, Option.bind_eq_bind, Option.bind_eq_some_iff] at hx ⊢
    obtain ⟨x, hx, rest, hrest, hxs⟩ := hx
    exact ⟨x, hv x hx, rest, ih rest hrest, hxs⟩

theorem apply_mono {h : Head} {vs ws : List (Option Whole)} (hv : List.Forall₂ Refines vs ws) :
    Refines (apply h vs) (apply h ws) := by
  have general : Refines ((vs.mapM id).bind (operation h)) ((ws.mapM id).bind (operation h)) := by
    intro x hx
    obtain ⟨xs, hxs, hop⟩ := Option.bind_eq_some_iff.1 hx
    rw [mapM_id_mono hv xs hxs]
    exact hop
  cases h with
  | cast k =>
    cases hv with
    | nil => exact .none _
    | cons hv _ => exact hv
  | _ => exact general

theorem choose_mono {xs ys : List (Option Whole × Option Whole)} (h : Selects truth? xs ys) :
    Refines (choose xs) (choose ys) := by
  induction h with
  | nil => exact .refl _
  | @cons v c v' c' xs ys hc hv _ ih =>
    have hcond : Refines (c.bind truth?) (c'.bind truth?) := hc.bind fun _ => .refl _
    rw [choose, choose]
    cases hb : c.bind truth? with
    | none => exact .none _
    | some b =>
      rw [hcond b hb] at hv ih ⊢
      cases b with
      | true => exact hv nofun
      | false => exact ih nofun

theorem mapM_int? (ns : Ints) : (ns.map int).mapM int? = some ns :=
    Outcome.mapM_map_eq_some fun _ => by rfl

theorem mapM_some (xs : List Whole) : (xs.map some).mapM id = some xs :=
    Outcome.mapM_map_eq_some fun _ => by rfl

theorem operation_add_ints (ns : Ints) : operation .add (ns.map .int) = some (.int ns.sum) := by
  unfold operation
  split
  · next h => cases ns <;> simp at h
  · rw [mapM_int?]; rfl
  all_goals simp_all

theorem operation_mul_ints (ns : Ints) : operation .mul (ns.map .int) = some (.int ns.prod) := by
  rw [operation, mapM_int?]; rfl

theorem mapM_map_int (ns : Ints) : (ns.map fun n => some (int n)).mapM id = some (ns.map .int) := by
  rw [← mapM_some, List.map_map]; rfl

def model : Model Whole where
  atom := atom
  apply := apply
  choose := choose
  int := .int
  address := .address
  toInt? := int?
  toAddress? := address?
  toBool? := truth?
  toInt?_int := fun _ => rfl
  toAddress?_address := fun _ _ => rfl
  atom_lit := fun _ => rfl
  atom_int := fun n => by simp [atom, Number.int?]
  apply_mono := apply_mono
  choose_mono := choose_mono
  add_ints := fun ns => (congrArg (·.bind (operation .add)) (mapM_map_int ns)).trans
    (operation_add_ints ns)
  mul_ints := fun ns => (congrArg (·.bind (operation .mul)) (mapM_map_int ns)).trans
    (operation_mul_ints ns)
  add_address := fun _ _ _ => rfl
  cast_plain := fun _ _ => rfl
  cast_boolean := fun _ _ => rfl
  atom_bool := fun _ => rfl

end Whole

/-! ### Lines of cells -/

def GridField.line (name : String) : GridField where
  name := name
  kind := .generic
  dtype := .double
  layout := [0]
  shape := [.shape [name] 0]
  strides := [.stride name 0]

def Loop.line (a b : Int) : Loop := { coord := 0, start := .lit a, stop := .lit b }

def Expr.onLine (f : String) (i : Expr) :
    Expr := .node (.resolved (.line f) 0) [.typedSymbol f (.pointer .double false true), i]

/-- The pointer of each line points to its first element, other symbols are two, every element is
one. -/
def Machine.State.ones (lines : Strings) : Machine.State Whole where
  env := fun x => if x.name ∈ lines then some (.address x.name 0) else some (.int 2)
  mem := fun _ => some (.int 1)

end StencilForge
