import StencilForge.Proofs.Variables

/-!
# Proofs — what is asked of an algebra

Of an algebra only that is known what its users rely on: what is built has the value of what was
asked for (`Algebra.Sound`), and is built by the same operations from the symbols and elements of
its arguments (`Algebra.Closed`).  `Expr.Over H P` says that an expression is built by the
operations `H` from symbols and elements with a property.
-/

open List

namespace StencilForge

open Build Expr

variable {V : Type} {A : Algebra} {M : Model V} {H : Head → Prop} {P Q : Expr → Prop}
    {w w' : View V}
variable {e : Expr} {as : Exprs} {s y : Symbol} {f : GridField} {m n : Int} {h : Head}

namespace Expr

/-- Symbols and elements of fields. -/
def isPlace : Expr → Bool
  | .sym _ | .node (.access ..) _ | .node (.resolved ..) _ => true
  | _ => false

inductive Over (H : Head → Prop) (P : Expr → Prop) : Expr → Prop where
  | leaf {e : Expr} (he : e.isPlace = true) (hp : P e) : Over H P e
  | atom {a : Atom} (ha : ∀ s, a ≠ .sym s) : Over H P (.atom a)
  | node {h : Head} {as : Exprs} (hh : H h) (has : ∀ a ∈ as, Over H P a) : Over H P (.node h as)

end Expr

/-- Sums, products and changes of type that keep the value are among them, elements of arrays are
not.  All arguments of an operation are operands. -/
structure Operations (H : Head → Prop) : Prop where
  add : H .add
  mul : H .mul
  cast : ∀ k, H (.cast k) ↔ k = .plain ∨ k = .boolean
  operation : ∀ {h}, H h → Model.isOperation h = true
  visible : ∀ {h}, H h → ∀ as, Model.operands h as = as
  element : ¬ H .element

theorem Operations.not_place (hH : Operations H) (hh : H h) (as : Exprs) :
    (node h as).isPlace = false := by
  have hop := hH.operation hh
  cases h with
  | access | resolved => cases hop
  | _ => rfl

namespace Expr.Over

theorem imp (h : Over H P e) (hpq : ∀ x, x.isPlace = true → P x → Q x) : Over H Q e := by
  induction h with
  | leaf he hp => exact .leaf he (hpq _ he hp)
  | atom ha => exact .atom ha
  | node hh _ ih => exact .node hh ih

theorem of_place (hH : Operations H) (h : Over H P e) (he : e.isPlace = true) : P e := by
  cases h with
  | leaf _ hp => exact hp
  | @atom a ha =>
    cases a with
    | sym s => exact absurd rfl (ha s)
    | _ => cases he
  | node hh _ => simp [hH.not_place hh] at he

theorem of_node (he : Over H P (.node h as)) (hn : (Expr.node h as).isPlace = false) :
    H h ∧ ∀ a ∈ as, Over H P a := by
  cases he with
  | leaf hplace _ => simp [hn] at hplace
  | node hh has => exact ⟨hh, has⟩

theorem sym (h : P (.sym s)) : Over H P (.sym s) := .leaf rfl h

theorem lit (n : Int) : Over H P (.lit n) := .atom nofun

theorem int (n : Int) : Over H P (.int n) := .atom nofun

theorem ofPosition (h : Over H P e) : Over H P e.ofPosition := by
  unfold Expr.ofPosition
  split
  · exact .int _
  · exact h

/-! ### Variables and loads -/

open Statement

variable (hH : Operations H)

include hH

theorem variables_node (as : Exprs) (hh : H h) :
    variablesOf (.node h as) = joinNew (as.map variablesOf) := by
  have hop := hH.operation hh
  have hvis := hH.visible hh
  cases h with
  | access f n b | resolved f n => cases hop
  | series k => exact absurd (hvis [.zero]) (by simp [Model.operands])
  | placeholder name id => exact absurd (hvis [.zero]) (by simp [Model.operands])
  | _ => simp only [variablesOf, variablesEach_eq_map]

theorem sym_mem_variables_iff (hh : H h) :
    .sym y ∈ variablesOf (.node h as) ↔ ∃ a ∈ as, .sym y ∈ variablesOf a := by
  simp [variables_node hH as hh, sym_mem_joinNew]

theorem variables_of_leaves (he : Over H P e)
    (hleaf : ∀ x, x.isPlace = true → P x → ∀ v ∈ variablesOf x, Q v) :
    ∀ v ∈ variablesOf e, Q v := by
  induction he with
  | leaf hplace hp => exact hleaf _ hplace hp
  | @atom a ha =>
    cases a with
    | sym s => exact absurd rfl (ha s)
    | _ => simp [variablesOf, isVariable]
  | @node h as hh _ ih =>
    rw [variables_node hH as hh]
    intro v hv
    obtain ⟨xs, hxs, hv⟩ := mem_of_mem_joinNew hv
    obtain ⟨a, ha, rfl⟩ := mem_map.1 hxs
    exact ih a ha v hv

/-- What the symbols and elements of an expression do not mention, the expression does not mention.
-/
theorem notMem_variables (he : Over H P e)
    (hleaf : ∀ x, x.isPlace = true → P x → .sym y ∉ variablesOf x) :
    .sym y ∉ variablesOf e := fun h =>
  he.variables_of_leaves hH (Q := (· ≠ .sym y))
    (fun x hx hp _ hv hvy => hleaf x hx hp (hvy ▸ hv)) _ h rfl

/-- What an expression does not mention, its symbols and elements do not mention. -/
theorem avoid (he : Over H P e) (hy : .sym y ∉ variablesOf e) :
    Over H (fun x => P x ∧ .sym y ∉ variablesOf x) e := by
  induction he with
  | leaf hplace hp => exact .leaf hplace ⟨hp, hy⟩
  | atom ha => exact .atom ha
  | node hh _ ih =>
    rw [sym_mem_variables_iff hH hh] at hy
    exact .node hh fun a ha => ih a ha fun h => hy ⟨a, ha, h⟩

theorem exists_leaf_of_loads {f : String} (he : Over H P e) (hf : f ∈ e.loads) :
    ∃ x, x.isPlace = true ∧ P x ∧ f ∈ x.loads ∧ ∀ y, .sym y ∈ variablesOf x →
      .sym y ∈ variablesOf e := by
  induction he with
  | leaf hplace hp => exact ⟨_, hplace, hp, hf, fun _ h => h⟩
  | atom ha => cases hf
  | @node h as hh _ ih =>
    have hf : f ∈ loadsList as := by
      have hop := hH.operation hh
      cases h with
      | access g n b | resolved g n => cases hop
      | _ => exact hf
    obtain ⟨a, ha, hf⟩ := mem_loadsList.1 hf
    obtain ⟨x, hplace, hp, hfx, hsub⟩ := ih a ha hf
    exact ⟨x, hplace, hp, hfx, fun y hy => (sym_mem_variables_iff hH hh).2 ⟨a, ha, hsub y hy⟩⟩

end Expr.Over

namespace Algebra

/-- What is built has the value of what was asked for. -/
def Sound (A : Algebra) (M : Model V) (H : Head → Prop) : Prop :=
  ∀ {h as e}, H h → node A h as = .ok e → ∀ w, Refines (M.eval w (.node h as)) (M.eval w e)

/-- What is built uses the same operations and no other symbols and elements. -/
def Closed (A : Algebra) (H : Head → Prop) : Prop :=
  ∀ {P h as e}, H h → (∀ a ∈ as, Over H P a) → node A h as = .ok e → Over H P e

theorem Sound.keeps (hS : A.Sound M H) {bs : Exprs} (hh : H h)
    (hk : M.Keeps w w' (.node h as) (.node h bs)) (hb : node A h bs = .ok e) :
    M.Keeps w w' (.node h as) e := by
  by_cases hbr : h = .branch
  · subst hbr
    obtain rfl := Except.ok.inj hb
    exact hk
  · exact .of_value (fun xs hx => hbr (node.inj hx).1) (hk.value.trans (hS hh hb w'))

theorem Sound.add (hS : A.Sound M H) (hH : Operations H) (as : Exprs) (w : View V) :
    Refines (M.apply .add (as.map (M.eval w))) (M.eval w (A.add as)) := by
  simpa using hS hH.add rfl w

theorem Sound.mul (hS : A.Sound M H) (hH : Operations H) (as : Exprs) (w : View V) :
    Refines (M.apply .mul (as.map (M.eval w))) (M.eval w (A.mul as)) := by
  simpa using hS hH.mul rfl w

theorem Closed.add (hC : A.Closed H) (hH : Operations H)
    (h : ∀ a ∈ as, Over H P a) : Over H P (A.add as) :=
  hC hH.add h rfl

theorem Closed.mul (hC : A.Closed H) (hH : Operations H)
    (h : ∀ a ∈ as, Over H P a) : Over H P (A.mul as) :=
  hC hH.mul h rfl

end Algebra

/-! ### Integers and addresses -/

namespace Algebra.Sound

variable (hS : A.Sound M H) (hH : Operations H) {a b : Expr}

include hS hH

theorem add_ints (ha : M.eval w a = some (M.int m)) (hb : M.eval w b = some (M.int n)) :
    M.eval w (A.add2 a b) = some (M.int (m + n)) := by
  have h := hS.add hH [a, b] w
  have hints := M.add_ints [m, n]
  simp only [map_cons, map_nil, sum_cons, sum_nil, add_zero] at hints h
  rw [ha, hb, hints] at h
  exact h _ rfl

theorem mul_ints (ha : M.eval w a = some (M.int m)) (hb : M.eval w b = some (M.int n)) :
    M.eval w (A.mul2 a b) = some (M.int (m * n)) := by
  have h := hS.mul hH [a, b] w
  have hints := M.mul_ints [m, n]
  simp only [map_cons, map_nil, prod_cons, prod_nil, mul_one] at hints h
  rw [ha, hb, hints] at h
  exact h _ rfl

theorem add_address {f : String} {k : Int} (ha : M.eval w a = some (M.address f k))
    (hb : M.eval w b = some (M.int n)) : M.eval w (A.add2 a b) = some (M.address f (k + n)) := by
  have h := hS.add hH [a, b] w
  simp only [map_cons, map_nil] at h
  rw [ha, hb, M.add_address] at h
  exact h _ rfl

theorem sub_ints (ha : M.eval w a = some (M.int m)) (hb : M.eval w b = some (M.int n)) :
    M.eval w (A.sub a b) = some (M.int (m - n)) := by
  have hneg : M.eval w (A.neg b) = some (M.int (-1 * n)) := hS.mul_ints hH (M.eval_int w (-1)) hb
  have := hS.add_ints hH ha hneg
  rwa [Int.neg_one_mul] at this

end Algebra.Sound

/-! ### Building nodes as asked -/

/-- Sums, products, minima and changes of type. -/
inductive Arithmetic : Head → Prop where
  | add : Arithmetic .add
  | mul : Arithmetic .mul
  | min : Arithmetic (.fn .min)
  | plain : Arithmetic (.cast .plain)
  | boolean : Arithmetic (.cast .boolean)

theorem Arithmetic.operations : Operations Arithmetic where
  add := .add
  mul := .mul
  cast := fun k => ⟨fun h => by cases h <;> simp, by rintro (rfl | rfl) <;> constructor⟩
  operation := fun h => by cases h <;> rfl
  visible := fun h _ => by cases h <;> rfl
  element := nofun

namespace Algebra

theorem eval_cast (M : Model V) {k : CastKind} (hk : k = .plain ∨ k = .boolean) (w : View V)
    (e : Expr) (rest : Exprs) :
    M.eval w (.node (.cast k) (e :: rest)) = M.eval w e := by
  rcases hk with rfl | rfl
  · exact M.cast_plain ..
  · exact M.cast_boolean ..

section

variable (hmul : ∀ as, A.mul as = .mul as) (hmin : ∀ as, A.apply .min as = .fn .min as)

include hmul hmin

/-- Up to the kind of a change of type. -/
theorem node_eq_ok (hh : Arithmetic h) (hb : node A h as = .ok e) :
    h = .add ∧ e = A.add as ∨ e = .node h as ∨ ∃ k k' a rest, (k = .plain ∨ k = .boolean) ∧
      (k' = .plain ∨ k' = .boolean) ∧
      h = .cast k ∧ as = a :: rest ∧ e = .node (.cast k') (a :: rest) := by
  cases hh with
  | add => exact .inl ⟨rfl, (Except.ok.inj hb).symm⟩
  | mul =>
    obtain rfl : A.mul as = e := Except.ok.inj hb
    exact .inr (.inl (hmul as))
  | min =>
    change extremum A .min as = .ok e at hb
    unfold extremum at hb
    split at hb
    · cases hb
    · exact .inr (.inl ((Except.ok.inj hb).symm.trans (hmin as)))
  | plain | boolean =>
    right
    cases as with
    | nil => exact .inl (Except.ok.inj hb).symm
    | cons a rest =>
      obtain rfl : cast _ a rest = e := Except.ok.inj hb
      exact .inr ⟨_, _, a, rest, by simp, by split <;> simp, rfl, rfl, rfl⟩

theorem sound_of_add (hadd : ∀ as w, Refines (M.eval w (.add as)) (M.eval w (A.add as))) :
    A.Sound M Arithmetic := by
  intro h as e hh hb w
  rcases node_eq_ok hmul hmin hh hb with ⟨rfl, rfl⟩ | rfl | ⟨k, k', a, rest, hk, hk', rfl, rfl, rfl⟩
  · exact hadd as w
  · exact .refl _
  · rw [eval_cast M hk, eval_cast M hk']
    exact .refl _

theorem over_of_add (hH : Operations H)
    (hadd : Over H P (A.add as)) (hh : Arithmetic h) (hop : H h) (has : ∀ a ∈ as, Over H P a)
    (hb : node A h as = .ok e) : Over H P e := by
  rcases node_eq_ok hmul hmin hh hb with ⟨rfl, rfl⟩ | rfl | ⟨k, k', a, rest, -, hk', rfl, rfl, rfl⟩
  · exact hadd
  · exact .node hop has
  · exact .node ((hH.cast k').2 hk') has

end

theorem bare_sound (M : Model V) : bare.Sound M Arithmetic :=
  sound_of_add (fun _ => rfl) (fun _ => rfl) fun _ _ => .refl _

theorem bare_closed : bare.Closed Arithmetic := fun hh has hb =>
  over_of_add (fun _ => rfl) (fun _ => rfl) Arithmetic.operations (.node .add has) hh hh has hb

end Algebra

end StencilForge
