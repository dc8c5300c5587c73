import StencilForge.Kernel.Statement
import Mathlib

/-!
# Proofs — the meaning of expressions

A `Model` gives the operations a meaning; they may be undefined, and arithmetic is exact.  A `View`
has the values of symbols, of elements relative to the current cell, and of elements in memory, and
`Model.eval` is the value of an expression there.  What transforms an expression may give a value
where there was none, never another one (`Refines`, `Model.Keeps`).
-/

open List

namespace StencilForge

variable {V : Type}
variable {a b : Option V} {R : Expr → Expr → Prop}

/-- `b` has the value of `a`, if `a` has one. -/
def Refines (a b : Option V) : Prop := ∀ v, a = some v → b = some v

namespace Refines

@[simp] theorem refl (a : Option V) : Refines a a := fun _ h => h

@[simp] theorem none (b : Option V) : Refines Option.none b := fun _ h => nomatch h

theorem of_eq (h : a = b) : Refines a b := h ▸ refl a

theorem trans {c : Option V} (hab : Refines a b) (hbc : Refines b c) :
    Refines a c := fun v h => hbc v (hab v h)

theorem antisymm (hab : Refines a b) (hba : Refines b a) : a = b := by
  cases a with
  | none =>
    cases b with
    | none => rfl
    | some v => exact hba v rfl
  | some v => exact (hab v rfl).symm

theorem bind {W : Type} {f g : V → Option W} (h : Refines a b)
    (hf : ∀ v, Refines (f v) (g v)) : Refines (a.bind f) (b.bind g) := by
  intro v hv
  obtain ⟨x, hx, hfx⟩ := Option.bind_eq_some_iff.1 hv
  rw [h x hx]
  exact hf x v hfx

end Refines

/-- The conditions have the values of those of `xs`, and so have the branches that may run. -/
inductive Selects (truth : V → Option Bool) :
    List (Option V × Option V) → List (Option V × Option V) → Prop where
  | nil : Selects truth [] []
  | cons {v c v' c' : Option V} {xs ys : List (Option V × Option V)} (hc : Refines c c')
      (hv : c'.bind truth ≠ some false → Refines v v')
      (hr : c'.bind truth ≠ some true → Selects truth xs ys) : Selects truth ((v, c) :: xs)
        ((v', c') :: ys)

/-- Integers and addresses are values, and truth values can be told from others. -/
structure Model (V : Type) where
  /-- Numbers, constants, truth values, types. -/
  atom : Atom → Option V
  apply : Head → List (Option V) → Option V
  /-- The value of the first branch whose condition holds. -/
  choose : List (Option V × Option V) → Option V
  int : Int → V
  /-- The address of an element of an array, by its distance from the first one. -/
  address : String → Int → V
  toInt? : V → Option Int
  toAddress? : V → Option (String × Int)
  toBool? : V → Option Bool
  toInt?_int : ∀ n, toInt? (int n) = some n
  toAddress?_address : ∀ f k, toAddress? (address f k) = some (f, k)
  atom_lit : ∀ n, atom (.lit n) = some (int n)
  atom_int : ∀ n : Int, atom (.num (.rat n)) = some (int n)
  apply_mono : ∀ {h vs ws}, Forall₂ Refines vs ws → Refines (apply h vs) (apply h ws)
  choose_mono : ∀ {xs ys}, Selects toBool? xs ys → Refines (choose xs) (choose ys)
  add_ints : ∀ ns : Ints, apply .add (ns.map fun n => some (int n)) = some (int ns.sum)
  mul_ints : ∀ ns : Ints, apply .mul (ns.map fun n => some (int n)) = some (int ns.prod)
  add_address : ∀ f k n, apply .add [some (address f k), some (int n)] = some (address f (k + n))
  /-- Arithmetic is exact: a change of type keeps the value. -/
  cast_plain : ∀ v rest, apply (.cast .plain) (v :: rest) = v
  cast_boolean : ∀ v rest, apply (.cast .boolean) (v :: rest) = v
  atom_bool : ∀ b, (atom (.bool b)).bind toBool? = some b

structure View (V : Type) where
  symbol : Symbol → Option V
  access : GridField → Ints → List (Option V) → Option V
  load : String → Int → Option V
  /-- Which element of a vector is meant. -/
  lane : Int := 0
  /-- How far elements are moved: by the lane inside vectors. -/
  shift : Int := 0

namespace Model

def positions? (es : Exprs) : Option Ints := es.mapM Expr.int?

def element (M : Model V) (field : String) (shift : Int) : List (Option V) → Option Int
  | p :: q :: _ => (M.apply .add [p, q]).bind fun a => (M.toAddress? a).bind fun (f, k) =>
    if f = field then some (k + shift) else none
  | _ => none

def pair : List (Option V) → Option V × Option V
  | [v, c] => (v, c)
  | _ => (none, none)

mutual

/-- An access at positions that are not integers has none, and neither has an absolute one. -/
def eval (M : Model V) (w : View V) : Expr → Option V
  | .atom a => match a with
    | .sym s => w.symbol s
    | a => M.atom a
  | .node h as => match h with
    | .access f n absolute =>
      if absolute then none
      else (positions? (as.take n)).bind fun os => w.access f os ((evalList M w as).drop n)
    | .resolved f _ => (M.element f.name w.shift (evalList M w as)).bind (w.load f.name)
    | .cast .vectorAccess => ((evalList M { w with shift := w.lane } as).head?).join
    | .piecewise => M.choose (evalBranches M w as)
    | .series _ => none
    | .placeholder .. => M.apply h (evalList M w as).dropLast
    | h => M.apply h (evalList M w as)

def evalList (M : Model V) (w : View V) : Exprs → List (Option V)
  | [] => []
  | a :: as => eval M w a :: evalList M w as

def evalBranches (M : Model V) (w : View V) : Exprs → List (Option V × Option V)
  | [] => []
  | .node .branch as :: bs => pair (evalList M w as) :: evalBranches M w bs
  | _ :: bs => (none, none) :: evalBranches M w bs

end

variable (M : Model V) (w : View V)

@[simp] theorem evalList_eq_map (as : Exprs) : M.evalList w as = as.map (M.eval w) := by
  induction as with
  | nil => rfl
  | cons a as ih => simp only [evalList, map_cons, ih]

@[simp] theorem eval_sym (s : Symbol) : M.eval w (.sym s) = w.symbol s := rfl

@[simp] theorem eval_lit (n : Int) : M.eval w (.lit n) = some (M.int n) := M.atom_lit n

@[simp] theorem eval_int (n : Int) : M.eval w (.int n) = some (M.int n) := M.atom_int n

@[simp] theorem eval_add (as : Exprs) : M.eval w (.add as) = M.apply .add (as.map (M.eval w)) := by
  simp only [eval, evalList_eq_map]

@[simp] theorem eval_mul (as : Exprs) : M.eval w (.mul as) = M.apply .mul (as.map (M.eval w)) := by
  simp only [eval, evalList_eq_map]

theorem eval_of_int? {e : Expr} {n : Int} (h : e.int? = some n) : M.eval w e = some (M.int n) := by
  unfold Expr.int? at h
  split at h
  · next q =>
    unfold Number.int? at h
    split at h
    · next q =>
      split at h
      · next hden =>
        obtain rfl := Option.some.inj h
        have hq : q = q.num := Rat.ext rfl hden
        rw [hq]
        exact M.eval_int w q.num
      · cases h
    · cases h
  · obtain rfl := Option.some.inj h
    exact M.eval_lit w _
  · cases h

theorem eval_ofPosition (e : Expr) : M.eval w e.ofPosition = M.eval w e := by
  unfold Expr.ofPosition
  split
  · rw [eval_int, eval_lit]
  · rfl

theorem eval_resolved (f : GridField) (n : Nat) (as : Exprs) :
    M.eval w (.node (.resolved f n) as) = (M.element f.name w.shift (as.map (M.eval w))).bind
      (w.load f.name) := by
  simp only [eval, evalList_eq_map]

end Model

/-! ### Induction on expressions -/

namespace Expr

theorem size_le_sizeList {a : Expr} {as : Exprs} (h : a ∈ as) : a.size ≤ sizeList as := by
  induction as with
  | nil => cases h
  | cons b bs ih =>
    rcases mem_cons.1 h with rfl | h
    · exact Nat.le_add_right _ _
    · exact le_trans (ih h) (Nat.le_add_left _ _)

theorem size_lt_of_mem {h : Head} {a : Expr} {as : Exprs} (ha : a ∈ as) :
    a.size < (node h as).size :=
  Nat.lt_succ_of_le (size_le_sizeList ha)

theorem sizeInduction {P : Expr → Prop} (step : ∀ e, (∀ x : Expr, x.size < e.size → P x) → P e)
    (e : Expr) : P e :=
  (measure size).wf.induction e step

end Expr

/-! ### Keeping values -/

namespace View

def atLane (w : View V) : View V := { w with shift := w.lane }

end View

namespace Model

variable {as bs : Exprs} {h : Head}

/-- Other expressions are no branches. -/
def branch (M : Model V) (w : View V) : Expr → Option V × Option V
  | .node .branch as => pair (as.map (M.eval w))
  | _ => (none, none)

theorem evalBranches_eq_map (M : Model V) (w : View V) (bs : Exprs) :
    M.evalBranches w bs = bs.map (M.branch w) := by
  induction bs with
  | nil => rfl
  | cons b bs ih =>
    rw [map_cons, ← ih]
    cases b with
    | atom a => rfl
    | node h as => cases h <;> simp [evalBranches, branch]

/-- As a branch, `b` has the value and the condition of `a`. -/
structure Keeps (M : Model V) (w w' : View V) (a b : Expr) : Prop where
  value : Refines (M.eval w a) (M.eval w' b)
  branchValue : Refines (M.branch w a).1 (M.branch w' b).1
  branchCond : Refines (M.branch w a).2 (M.branch w' b).2

variable {M : Model V} {w w' : View V}

theorem pair_mono {vs vs' : List (Option V)} (h : Forall₂ Refines vs vs') :
    Refines (pair vs).1 (pair vs').1 ∧ Refines (pair vs).2 (pair vs').2 := by
  rcases h with _ | ⟨hv, _ | ⟨hc, _ | ⟨-, -⟩⟩⟩ <;> simp_all [pair]

theorem element_refines {f : String} {k : Int} {p p' q q' : Option V} (rest rest' : List (Option V))
    (hp : Refines p p')
    (hq : Refines q q') : Refines (M.element f k (p :: q :: rest))
    (M.element f k (p' :: q' :: rest')) :=
  .bind (M.apply_mono (.cons hp (.cons hq .nil))) fun _ => .refl _

theorem Keeps.selects (h : Forall₂ (M.Keeps w w') as bs) :
    Selects M.toBool? (as.map (M.branch w)) (bs.map (M.branch w')) := by
  induction h with
  | nil => exact .nil
  | cons hab _ ih => exact .cons hab.branchCond (fun _ => hab.branchValue) fun _ => ih

theorem Keeps.of_value {a b : Expr} (ha : ∀ as, a ≠ .node .branch as)
    (h : Refines (M.eval w a) (M.eval w' b)) :
    M.Keeps w w' a b := by
  have hb : M.branch w a = (none, none) := by
    unfold branch
    split
    · exact absurd rfl (ha _)
    · rfl
  exact ⟨h, by simp [hb], by simp [hb]⟩

theorem Keeps.refl (a : Expr) : M.Keeps w w a a := ⟨.refl _, .refl _, .refl _⟩

theorem Keeps.trans {u : View V} {a b c : Expr} (hab : M.Keeps w w' a b) (hbc : M.Keeps w' u b c) :
    M.Keeps w u a c :=
  ⟨hab.value.trans hbc.value, hab.branchValue.trans hbc.branchValue,
    hab.branchCond.trans hbc.branchCond⟩

/-- The arguments of a node that its value depends on. -/
def operands (h : Head) (as : Exprs) : Exprs :=
  match h with
  | .access .. | .series _ => []
  | .resolved .. => as.take 2
  | .placeholder .. => as.dropLast
  | _ => as

theorem mem_of_mem_operands {a : Expr} (ha : a ∈ operands h as) : a ∈ as := by
  cases h <;> simp only [operands, not_mem_nil] at ha
  case resolved => exact mem_of_mem_take ha
  case placeholder => exact dropLast_subset _ ha
  all_goals exact ha

theorem forall₂_operands (h : Head) (hr : Forall₂ R as bs) :
    Forall₂ R (operands h as) (operands h bs) := by
  cases h with
  | access f n b | series k => exact .nil
  | resolved f n => exact forall₂_take 2 hr
  | placeholder name id =>
    simp only [operands, dropLast_eq_take, hr.length_eq]
    exact forall₂_take _ hr
  | _ => exact hr

def isOperation : Head → Bool
  | .access .. | .resolved .. | .cast .vectorAccess => false
  | _ => true

theorem Keeps.operation (hh : isOperation h = true)
    (hk : Forall₂ (M.Keeps w w') (operands h as) (operands h bs)) :
    M.Keeps w w' (.node h as) (.node h bs) := by
  have hv : Forall₂ Refines ((operands h as).map (M.eval w)) ((operands h bs).map (M.eval w')) :=
    forall₂_map_left_iff.2 (forall₂_map_right_iff.2 (hk.imp fun _ _ hab => hab.value))
  by_cases hb : h = .branch
  · subst hb
    have hp := pair_mono hv
    exact ⟨by simpa [eval, operands] using M.apply_mono hv, hp.1, hp.2⟩
  refine .of_value (fun xs hx => hb (Expr.node.inj hx).1) ?_
  cases h with
  | access f n b | resolved f n => cases hh
  | cast k =>
    cases k with
    | vectorAccess => cases hh
    | plain | boolean | reinterpret => simpa [eval, operands] using M.apply_mono hv
  | piecewise => simpa only [eval, operands, evalBranches_eq_map] using M.choose_mono (selects hk)
  | series k => exact .none _
  | placeholder name id => simpa [eval, operands] using M.apply_mono hv
  | branch => exact absurd rfl hb
  | _ => simpa [eval, operands] using M.apply_mono hv

theorem Keeps.node (hh : ∀ f n b, h ≠ .access f n b)
    (hload : ∀ f n, h = .resolved f n → ∀ k, Refines (w.load f.name k) (w'.load f.name k))
    (hshift : w.shift = w'.shift) (hk : Forall₂ (M.Keeps w w') (operands h as) (operands h bs))
    (hl : Forall₂ (M.Keeps w.atLane w'.atLane) (operands h as) (operands h bs)) :
    M.Keeps w w' (.node h as) (.node h bs) := by
  by_cases hop : isOperation h = true
  · exact .operation hop hk
  refine .of_value (fun xs hx => hop (by rw [(Expr.node.inj hx).1]; rfl)) ?_
  cases h with
  | access f n b => exact absurd rfl (hh f n b)
  | resolved f n =>
    simp only [eval_resolved, hshift]
    refine .bind ?_ (hload f n rfl)
    rcases as with _ | ⟨p, _ | ⟨q, r⟩⟩
    · exact .none _
    · exact .none _
    · rcases bs with _ | ⟨p', _ | ⟨q', r'⟩⟩ <;> rcases hk with _ | ⟨hp, _ | ⟨hq, -⟩⟩
      exact element_refines _ _ hp.value hq.value
  | cast k =>
    cases k with
    | vectorAccess =>
      rcases hl with _ | ⟨he, -⟩
      · exact .none _
      · exact he.value
    | plain | boolean | reinterpret => exact absurd rfl hop
  | _ => exact absurd rfl hop

end Model

end StencilForge
