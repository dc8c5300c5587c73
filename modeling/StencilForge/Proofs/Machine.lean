import StencilForge.Proofs.Variables

/-!
# Proofs — running kernels

Arrays are memory, elements are reached through pointers, and symbols live as long as their block;
what the body of a loop declares is gone with each round.  Where it is not known what happens,
nothing is known about the memory afterwards.
-/

namespace StencilForge

open Function

def Loop.symbol (l : Loop) : Symbol := if l.isBlock then Counter.blockSymbol l.coord else
    Counter.symbol l.coord

theorem Loop.counter_eq (l : Loop) : l.counter = .sym l.symbol := rfl

theorem Loop.forall_bounds {l : Loop} {P : Expr → Prop} :
    (∀ e ∈ l.bounds, P e) ↔ P l.start ∧ P l.stop ∧ P l.step := by simp [bounds]

namespace Machine

variable {V : Type}

abbrev Memory (V : Type) := String × Int → Option V

/-- If it is not known which element, nothing is known about the array. -/
def write (m : Memory V) (f : String) (k : Option Int) (v : Option V) : Memory V :=
  match k with
  | some k => update m (f, k) v
  | none => fun p => if p.1 = f then none else m p

theorem write_refines {m m' : Memory V} {f : String} {k k' : Option Int} {v v' : Option V}
    (hk : Refines k k') (hv : Refines v v') (hm : ∀ p, Refines (m p) (m' p)) (p : String × Int) :
    Refines (write m f k v p) (write m' f k' v' p) := by
  cases k with
  | none =>
    by_cases hp : p.1 = f
    · simp [write, hp]
    · cases k' with
      | none => simpa [write, hp] using hm p
      | some k' =>
        have hne : p ≠ (f, k') := fun h => hp (congrArg Prod.fst h)
        simpa [write, hp, update_of_ne hne] using hm p
  | some k =>
    rw [hk k rfl]
    by_cases hp : p = (f, k)
    · simpa [write, hp] using hv
    · simpa [write, update_of_ne hp] using hm p

theorem write_of_ne {m : Memory V} {f : String} {k : Option Int} {v : Option V} {p : String × Int}
    (hp : p.1 ≠ f) : write m f k v p = m p := by
  cases k with
  | none => simp [write, hp]
  | some k => exact update_of_ne (fun h => hp (congrArg Prod.fst h)) ..

/-- Elements of arrays by their distance from the first one. -/
structure State (V : Type) where
  env : Symbol → Option V
  mem : Memory V

namespace State

/-- Accesses that are not resolved have no value. -/
def view (s : State V) : View V where
  symbol := s.env
  access := fun _ _ _ => none
  load := fun f k => s.mem (f, k)

/-- Nothing is known about the memory. -/
def lost (s : State V) : State V := { s with mem := fun _ => none }

def set (s : State V) (x : Symbol) (v : Option V) : State V := { s with env := update s.env x v }

@[simp] theorem set_env_self (s : State V) (x : Symbol) (v : Option V) :
    (s.set x v).env x = v := update_self ..

theorem set_env_of_ne (s : State V) {x y : Symbol} (v : Option V) (h : y ≠ x) :
    (s.set x v).env y = s.env y :=
  update_of_ne h ..

@[simp] theorem set_mem (s : State V) (x : Symbol) (v : Option V) : (s.set x v).mem = s.mem := rfl

def store (M : Model V) (s : State V) (lhs : Expr) (v : Option V) : State V :=
  match lhs with
  | .sym x => s.set x v
  | .node (.resolved f _) as => { s with mem := write s.mem f.name (M.element f.name 0 (as.map (M.eval s.view))) v }
  | _ => s

end State

/-- The integers from `a` up to `b`, in steps of `c`. -/
def range (a b c : Int) : Ints :=
  if 0 < c then (List.range ((b - a + c - 1) / c).toNat).map fun (i : Nat) => a + c * i else []

def int? (M : Model V) (s : State V) (e : Expr) : Option Int := (M.eval s.view e).bind M.toInt?

/-- The values that the counter of a loop takes. -/
def rounds (M : Model V) (s : State V) (l : Loop) : Option Ints := do
  return range (← int? M s l.start) (← int? M s l.stop) (← int? M s l.step)

mutual

def exec (M : Model V) : Statement → State V → State V
  | .assign lhs rhs _, s => s.store M lhs (M.eval s.view rhs)
  | .block _ body, s => { s with mem := (execList M body s).mem }
  | .loop l body, s => match rounds M s l with
    | some is => { s with mem := is.foldl (fun m i =>
      (execList M body ({ s with mem := m }.set l.symbol (some (M.int i)))).mem) s.mem }
    | none => s.lost
  | .branch cond yes _ no, s => match (M.eval s.view cond).bind M.toBool? with
    | some true => { s with mem := (execList M yes s).mem }
    | some false => { s with mem := (execList M no s).mem }
    | none => s.lost
  | _, s => s

def execList (M : Model V) : Body → State V → State V
  | [], s => s
  | st :: r, s => execList M r (exec M st s)

end

variable {M : Model V}

@[simp] theorem execList_nil (s : State V) : execList M [] s = s := rfl

@[simp] theorem execList_cons (st : Statement) (r : Body) (s : State V) :
    execList M (st :: r) s = execList M r (exec M st s) := rfl

theorem execList_append (a b : Body) (s : State V) :
    execList M (a ++ b) s = execList M b (execList M a s) := by
  induction a generalizing s with
  | nil => rfl
  | cons st a ih => exact ih _

@[simp] theorem exec_assign (lhs rhs : Expr) (k : Bool) (s : State V) :
    exec M (.assign lhs rhs k) s = s.store M lhs (M.eval s.view rhs) := rfl

@[simp] theorem store_sym (s : State V) (x : Symbol) (v : Option V) :
    s.store M (.sym x) v = s.set x v := rfl

theorem int?_of_eval {s : State V} {e : Expr} {n : Int} (h : M.eval s.view e = some (M.int n)) :
    int? M s e = some n := by
  rw [int?, h, Option.bind_some, M.toInt?_int]

theorem int?_lit (s : State V) (n : Int) :
    int? M s (.lit n) = some n := int?_of_eval (M.eval_lit s.view n)

theorem rounds_eq {l : Loop} {s s' : State V}
    (h : ∀ e ∈ l.bounds, M.eval s.view e = M.eval s'.view e) : rounds M s l = rounds M s' l := by
  obtain ⟨hstart, hstop, hstep⟩ := Loop.forall_bounds.1 h
  simp only [rounds, int?, hstart, hstop, hstep]

theorem view_resolved (s : State V) : s.view.Resolved := fun _ _ _ => rfl

end Machine

end StencilForge
