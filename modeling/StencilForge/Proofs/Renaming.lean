import StencilForge.Kernel.Motion
import StencilForge.Proofs.Nest
import StencilForge.Proofs.Rebuilding

/-!
# Proofs — assignments in the innermost loop

The innermost assignments (`Motion.Plain`) read symbols and elements (`Motion.Source`); the position
of an element of an array that is written depends on the counter (`Motion.Moves`).  Renaming symbols
keeps values and form.
-/

open List

namespace StencilForge

variable {y : Symbol}

namespace Motion

open Expr Statement Substitute

variable {V : Type} {A : Algebra} {H : Head → Prop} {M : Model V} {W : String → Prop} {c : Symbol}
variable {e : Expr}

/-! ### What stays in the innermost loop -/

def probe (M : Model V) (c : Symbol) (n : Int) : View V where
  symbol := fun s => some (M.int (if s = c then n else 1))
  access := fun _ _ _ => none
  load := fun _ _ => none

/-- The value of an expression depends on the counter. -/
def Moves (M : Model V) (c : Symbol) (e : Expr) : Prop :=
  ∃ a b, M.eval (probe M c 0) e = some a ∧ M.eval (probe M c 1) e = some b ∧ a ≠ b

theorem Moves.mem_variables (h : Moves M c e) : .sym c ∈ variablesOf e := by
  by_contra hc
  obtain ⟨a, b, ha, hb, hne⟩ := h
  have heq : M.eval (probe M c 0) e = M.eval (probe M c 1) e := by
    refine Model.eval_congr (fun _ _ _ => rfl) (fun _ _ _ => rfl) (fun s hs => ?_)
      (fun _ _ _ => rfl) rfl rfl
    have hsc : s ≠ c := fun h => hc (h ▸ hs)
    simp [probe, hsc]
  exact hne (Option.some.inj (ha.symm.trans (heq.trans hb)))

/-- The place in an array that is written depends on the counter. -/
inductive Source (H : Head → Prop) (M : Model V) (W : String → Prop) (c : Symbol) :
    Expr → Prop where
  | sym (s : Symbol) : Source H M W c (.sym s)
  | element (f : GridField) (n : Nat) {p i : Expr} (r : Exprs) (hp : Over H IsSymbol p)
    (hi : Over H IsSymbol i)
      (hW : W f.name → Moves M c i) : Source H M W c (.node (.resolved f n) (p :: i :: r))

/-- An assignment to a symbol or to an element of an array that is written. -/
inductive Plain (H : Head → Prop) (M : Model V) (W : String → Prop) (c : Symbol) :
    Statement → Prop where
  | define (x : Symbol) {e : Expr} (k : Bool) (he : Over H (Source H M W c) e) :
    Plain H M W c (.assign (.sym x) e k)
  | store {f : GridField} {n : Nat} {p i : Expr} {r : Exprs} {e : Expr} (k : Bool) (hW : W f.name)
      (hl : Source H M W c (.node (.resolved f n) (p :: i :: r))) (he : Over H (Source H M W c) e) :
      Plain H M W c (.assign (.node (.resolved f n) (p :: i :: r)) e k)

theorem Source.isPlace {x : Expr} (h : Source H M W c x) : x.isPlace = true := by cases h <;> rfl

theorem loads_of_symbols (hH : Operations H) (he : Over H IsSymbol e) : e.loads = [] := by
  refine eq_nil_iff_forall_not_mem.2 fun f hf => ?_
  obtain ⟨_, -, ⟨s, rfl⟩, hs, -⟩ := he.exists_leaf_of_loads hH hf
  cases hs

theorem eval_of_symbols (hH : Operations H) (he : Over H IsSymbol e) {s s' : Machine.State V}
    (h : ∀ y, .sym y ∈ variablesOf e → s.env y = s'.env y) :
    M.eval s.view e = M.eval s'.view e := by
  refine Model.eval_congr (Machine.view_resolved s) (Machine.view_resolved s') h
    (fun f hf => ?_) rfl rfl
  rw [loads_of_symbols hH he] at hf
  cases hf

theorem counter_mem_of_loads (hH : Operations H) (he : Over H (Source H M W c) e) {f : String}
    (hW : W f)
    (hf : f ∈ e.loads) : .sym c ∈ variablesOf e := by
  obtain ⟨x, -, hx, hfx, hsub⟩ := he.exists_leaf_of_loads hH hf
  refine hsub c ?_
  cases hx with
  | sym s => cases hfx
  | element g n r hp hi hWg =>
    have hfg : f = g.name := by simpa [loads, loads_of_symbols hH hp, loads_of_symbols hH hi] using hfx
    exact sym_mem_variablesOf (by simp [Model.operands]) (hWg (hfg ▸ hW)).mem_variables

theorem sym_mem_resolved {f : GridField} {n : Nat} {p i : Expr} {r : Exprs} :
    .sym y ∈ variablesOf (.node (.resolved f n) (p :: i :: r)) ↔
      .sym y ∈ variablesOf p ∨ .sym y ∈ variablesOf i := by
  simp [variablesOf, variablesEach_eq_map, sym_mem_joinNew]

theorem sym_mem_sym {x : Symbol} : .sym y ∈ variablesOf
    (.sym x) ↔ y = x := by simp [variablesOf, isVariable]

/-! ### Renaming -/

section Renaming

variable {t : Table Expr Expr}
variable {e e' : Expr} {x x' : Expr}

theorem symbols_of_renames (ht : Renames t) {p : Expr × Expr} (hp : p ∈ t) :
    IsSymbol p.1 ∧ IsSymbol p.2 := by
  obtain ⟨x, y, rfl, -⟩ := ht p hp
  exact ⟨⟨x, rfl⟩, ⟨y, rfl⟩⟩

theorem get?_sym_cases (ht : Renames t) (s : Symbol) :
    (∃ y, (.sym s, .sym y) ∈ t ∧ (Table.get? t (.sym s)).getD (.sym s) = .sym y) ∨
      (∀ p ∈ t, p.1 ≠ .sym s) ∧ (Table.get? t (.sym s)).getD (.sym s) = .sym s := by
  unfold Table.get?
  cases hf : t.find? (·.1 == .sym s) with
  | none =>
    refine .inr ⟨fun p hp h => ?_, rfl⟩
    simpa [h] using find?_eq_none.1 hf p hp
  | some p =>
    have hp := mem_of_find?_eq_some hf
    have hs : p.1 = .sym s := by simpa using find?_some hf
    obtain ⟨x, y, rfl, -⟩ := ht p hp
    exact .inl ⟨y, hs ▸ hp, rfl⟩

variable (hH : Operations H) (hS : A.Sound M H) (hC : A.Closed H) (ht : Renames t)

include hH ht

theorem table_rebuilt_source (he : Over H (Source H M W c) e)
    (hr : table A t e = .ok e') : Rebuilt A H
    (fun x y => Source H M W c x ∧ Replaced A t x y) e e' := by
  refine table_rebuilt hH (fun p hp => (symbols_of_renames ht hp).1) (fun f n as h => ?_) he hr
  cases h
  exact ⟨_, _, _, rfl⟩

include hS hC

section Keeps

variable {w w' : View V} (hother : ∀ s, (∀ p ∈ t, p.1 ≠ .sym s) →
      Refines (w.symbol s) (w'.symbol s))
  (hnew : ∀ x y, (.sym x, .sym y) ∈ t → Refines (w.symbol x) (w'.symbol y))
  (hload : ∀ f k, Refines (w.load f k) (w'.load f k)) (hshift : w.shift = w'.shift)

include hother hnew hload hshift

theorem keeps_of_replaced (hx : Source H M W c x) (hr : Replaced A t x x') : M.Keeps w w' x x' := by
  cases hr with
  | sym s =>
    refine .of_value (fun _ => nofun) ?_
    rcases get?_sym_cases ht s with ⟨y, hy, heq⟩ | ⟨hs, heq⟩ <;> rw [heq]
    · exact hnew s y hy
    · exact hother s hs
  | access => cases hx
  | resolved f n r hp hi =>
    cases hx with
    | element _ _ _ hp' hi' _ =>
      have hkp := algebraicTable_keeps hH hS hC ht hother hnew hp' hp
      have hki := algebraicTable_keeps hH hS hC ht hother hnew hi' hi
      refine .of_value (fun _ => nofun) ?_
      rw [Model.eval_resolved, hshift]
      exact .bind (Model.element_refines _ _ hkp.value hki.value) (hload f.name)

theorem table_keeps (he : Over H (Source H M W c) e) (hr : table A t e = .ok e') :
    M.Keeps w w' e e' :=
  (table_rebuilt_source hH ht he hr).keeps hH hS fun _ _ _ hxy =>
    keeps_of_replaced hH hS hC ht hother hnew hload hshift hxy.1 hxy.2

end Keeps

variable (hc : ∀ p ∈ t, p.1 ≠ .sym c ∧ p.2 ≠ .sym c)

include hc

theorem source_of_replaced (hx : Source H M W c x) (hr : Replaced A t x x') :
    Source H M W c x' := by
  cases hr with
  | sym s => rcases get?_sym_cases ht s with ⟨y, -, heq⟩ | ⟨-, heq⟩ <;> rw [heq] <;> exact .sym _
  | access => cases hx
  | resolved f n r hp hi =>
    cases hx with
    | element _ _ _ hp' hi' hW =>
      have hover : ∀ {e e'}, Over H IsSymbol e → algebraicTable A t e = .ok e' →
        Over H IsSymbol e' :=
        algebraicTable_over hH hC (fun _ h => h) fun p hp => symbols_of_renames ht hp
      refine .element f n r (hover hp' hp) (hover hi' hi) fun hf => ?_
      have hk : ∀ n, M.Keeps (probe M c n) (probe M c n) _ _ := fun n => by
        refine algebraicTable_keeps hH hS hC ht (fun _ _ => .refl _) (fun x y hxy => ?_) hi' hi
        obtain ⟨hxc, hyc⟩ := hc _ hxy
        have hxc : x ≠ c := fun h => hxc (by rw [h])
        have hyc : y ≠ c := fun h => hyc (by rw [h])
        simp [probe, hxc, hyc]
      obtain ⟨a, b, ha, hb, hne⟩ := hW hf
      exact ⟨a, b, (hk 0).value a ha, (hk 1).value b hb, hne⟩

omit hS hc in
/-- Renaming brings in nothing but the new names. -/
theorem avoids_of_replaced (hy : ∀ p ∈ t, p.2 ≠ .sym y) (hx : Source H M W c x)
    (hxy : .sym y ∉ variablesOf x)
    (hr : Replaced A t x x') : .sym y ∉ variablesOf x' := by
  cases hr with
  | sym s =>
    rcases get?_sym_cases ht s with ⟨z, hz, heq⟩ | ⟨-, heq⟩ <;> rw [heq]
    · rw [sym_mem_sym]
      exact fun h => hy _ hz (by rw [h])
    · exact hxy
  | access => cases hx
  | resolved f n r hp hi =>
    cases hx with
    | element _ _ _ hp' hi' hW =>
      have havoid : ∀ {e e'}, Over H IsSymbol e → .sym y ∉ variablesOf e →
        algebraicTable A t e = .ok e' →
          .sym y ∉ variablesOf e' := by
        intro e e' he hye hr
        have := algebraicTable_over hH hC (P := fun x => IsSymbol x ∧ .sym y ∉ variablesOf x)
          (fun _ h => h.1)
          (fun p hp => ?_) (he.avoid hH hye) hr
        · exact this.notMem_variables hH fun x _ hx => hx.2
        · obtain ⟨hs, z, hz⟩ := symbols_of_renames ht hp
          refine ⟨hs, ⟨z, hz⟩, ?_⟩
          rw [hz, sym_mem_sym]
          exact fun h => hy p hp (by rw [hz, h])
      rw [sym_mem_resolved] at hxy ⊢
      rintro (h | h)
      · exact havoid hp' (fun h => hxy (.inl h)) hp h
      · exact havoid hi' (fun h => hxy (.inr h)) hi h

theorem table_source (he : Over H (Source H M W c) e) (hr : table A t e = .ok e') :
    Over H (Source H M W c) e' := by
  refine (table_rebuilt_source hH ht he hr).isOver hH hC (fun _ _ h => h)
    (fun x y _ hx hxy => ?_) he
  have hy := source_of_replaced hH hS hC ht hc hx hxy.2
  exact .leaf hy.isPlace hy

theorem table_avoids (hy : ∀ p ∈ t, p.2 ≠ .sym y) (he : Over H (Source H M W c) e)
    (hye : .sym y ∉ variablesOf e) (hr : table A t e = .ok e') :
    .sym y ∉ variablesOf e' := by
  have hover := (table_rebuilt_source hH ht he hr).isOver hH hC
    (fun _ _ h => h) (fun x z _ hx hxz => ?_) (he.avoid hH hye)
  · exact hover.notMem_variables hH fun x _ hx => hx.2
  · have hz := source_of_replaced hH hS hC ht hc hx.1 hxz.2
    exact .leaf hz.isPlace ⟨hz, avoids_of_replaced hH hC ht hy hx.1 hx.2 hxz.2⟩

/-! ### Statements -/

omit hS hC hc

def needed : Statement → Exprs
  | .assign (.sym _) rhs _ => variablesOf rhs
  | .assign lhs rhs _ => variablesOf lhs ++ variablesOf rhs
  | _ => []

omit hH ht in
theorem needed_subset_undefined {s : Statement} (h : .sym y ∈ needed s) : .sym y ∈ s.undefined := by
  unfold needed at h
  split at h
  · exact variables_subset_undefined (.inr h)
  · exact variables_subset_undefined (mem_append.1 h)
  · cases h

omit ht in
theorem variables_source (hx : Source H M W c x) : ∀ v ∈ variablesOf x, IsSymbol v := by
  have hsym : ∀ {e}, Over H IsSymbol e → ∀ v ∈ variablesOf e, IsSymbol v := fun he =>
    he.variables_of_leaves hH fun x _ hx v hv => by
      obtain ⟨s, rfl⟩ := hx
      obtain rfl : v = .sym s := by simpa [variablesOf, isVariable] using hv
      exact ⟨s, rfl⟩
  intro v hv
  cases hx with
  | sym s => exact hsym (.sym ⟨s, rfl⟩) v hv
  | @element f n p i r hp hi hW =>
    simp only [variablesOf, variablesEach_eq_map] at hv
    obtain ⟨xs, hxs, hv⟩ := mem_of_mem_joinNew hv
    have hxs : xs = variablesOf p ∨ xs = variablesOf i := by simpa using hxs
    rcases hxs with rfl | rfl
    · exact hsym hp v hv
    · exact hsym hi v hv

omit ht in
theorem mem_undefined_iff {lhs rhs : Expr} {k : Bool} (hr : Over H (Source H M W c) rhs) :
    .sym y ∈ (assign lhs rhs k).undefined ↔ .sym y ∈ variablesOf lhs ∨
      .sym y ∈ variablesOf rhs := by
  have hnone : countersOf (variablesOf rhs) = [] := by
    have hsym := hr.variables_of_leaves hH (Q := IsSymbol) fun x _ hx => variables_source hH hx
    have : (variablesOf rhs).filter (·.isAccess) = [] := by
      refine filter_eq_nil_iff.2 fun v hv => ?_
      obtain ⟨s, rfl⟩ := hsym v hv
      simp [isAccess]
    simp [countersOf, this]
  simp [undefined, sym_mem_unionNew, hnone, or_comm]

theorem replaced_of_table (hx : Source H M W c x) (hr : table A t x = .ok x') : Replaced A t x x' :=
  ((table_rebuilt_source hH ht (.leaf hx.isPlace hx) hr).of_place hH hx.isPlace).2

theorem replace_define {x : Symbol} {k : Bool} {s' : Statement}
    (hkeys : ∀ p ∈ t, p.1 ∉ (assign (.sym x) e k).defined)
    (hr : (assign (.sym x) e k).replace A t = .ok s') :
    ∃ e', table A t e = .ok e' ∧ s' = assign (.sym x) e' k := by
  simp only [Statement.replace, Outcome.bind_eq_ok, Outcome.pure_eq_ok] at hr
  obtain ⟨l, hl, e', he', rfl⟩ := hr
  have hsym : Over H IsSymbol (.sym x) := .sym ⟨x, rfl⟩
  have hrep := (table_rebuilt hH (fun p hp => (symbols_of_renames ht hp).1)
    (fun _ _ _ h => by rcases h with ⟨_, ⟨⟩⟩) hsym hl).of_place hH rfl
  cases hrep.2 with
  | sym s =>
    rcases get?_sym_cases ht x with ⟨y, hy, -⟩ | ⟨-, heq⟩
    · exact absurd (mem_singleton_self _) (hkeys _ hy)
    · exact ⟨e', he', by rw [heq]⟩

include hS hC hc

theorem replace_plain {s s' : Statement} (hs : Plain H M W c s)
    (hkeys : ∀ p ∈ t, p.1 ∉ s.defined) (hr : s.replace A t = .ok s') :
    Plain H M W c s' ∧ s'.defined = s.defined ∧
      ∀ y, (∀ p ∈ t, p.2 ≠ .sym y) → .sym y ∉ s.undefined → .sym y ∉ s'.undefined := by
  cases hs with
  | @define x e k he =>
    obtain ⟨e', he', rfl⟩ := replace_define hH ht hkeys hr
    have hsource := table_source hH hS hC ht hc he he'
    refine ⟨.define x k hsource, rfl, fun y hy hs => ?_⟩
    rw [mem_undefined_iff hH he] at hs
    rw [mem_undefined_iff hH hsource]
    rintro (h | h)
    · exact hs (.inl h)
    · exact table_avoids hH hS hC ht hc hy he (fun h => hs (.inr h)) he' h
  | @store f n p i r e k hW hl he =>
    simp only [Statement.replace, Outcome.bind_eq_ok, Outcome.pure_eq_ok] at hr
    obtain ⟨l, hl', e', he', rfl⟩ := hr
    have hsource := table_source hH hS hC ht hc he he'
    have hrep := replaced_of_table hH ht hl hl'
    have hlsource := source_of_replaced hH hS hC ht hc hl hrep
    have havoid : ∀ y, (∀ p ∈ t, p.2 ≠ .sym y) →
      .sym y ∉ variablesOf (.node (.resolved f n) (p :: i :: r)) →
        .sym y ∉ variablesOf l := fun y hy h => avoids_of_replaced hH hC ht hy hl h hrep
    cases hrep with
    | resolved _ _ _ hp hi =>
      refine ⟨.store k hW hlsource hsource, rfl, fun y hy hs => ?_⟩
      rw [mem_undefined_iff hH he] at hs
      rw [mem_undefined_iff hH hsource]
      rintro (h | h)
      · exact havoid y hy (fun h => hs (.inl h)) h
      · exact table_avoids hH hS hC ht hc hy he (fun h => hs (.inr h)) he' h

end Renaming

end Motion

end StencilForge
