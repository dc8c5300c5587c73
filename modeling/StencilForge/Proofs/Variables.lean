import StencilForge.Proofs.Meaning

/-!
# Proofs — what the value of an expression depends on

Where all accesses are resolved, the value of an expression depends on its variables and on the
arrays it loads from (`Model.eval_congr`), and expressions that count as the same have the same
value (`Model.keeps_of_same`).
-/

open List

namespace StencilForge

open Expr

variable {as bs xs ys : Exprs} {a b e x : Expr} {h k : Head} {f : String} {s : Symbol}

/-! ### Lists without repetition -/

section Lists

variable {α : Type} [BEq α] {xs ys : List α} {x y : α}

theorem mem_of_mem_insertNew (h : y ∈ insertNew xs x) : y ∈ xs ∨ y = x := by
  unfold insertNew at h
  split at h
  · exact .inl h
  · simpa using h

theorem mem_insertNew_left (h : y ∈ xs) : y ∈ insertNew xs x := by
  unfold insertNew
  split
  · exact h
  · exact mem_append_left _ h

theorem mem_of_mem_unionNew (h : x ∈ unionNew xs ys) : x ∈ xs ∨ x ∈ ys := by
  revert h
  refine foldlRecOn (motive := fun zs => x ∈ zs → x ∈ xs ∨ x ∈ ys) ys insertNew .inl
    fun zs ih y hy h => ?_
  rcases mem_of_mem_insertNew h with h | rfl
  · exact ih h
  · exact .inr hy

theorem forall_mem_unionNew {P : α → Prop} (hxs : ∀ x ∈ xs, P x) (hys : ∀ y ∈ ys, P y) :
    ∀ x ∈ unionNew xs ys, P x :=
  fun x h => (mem_of_mem_unionNew h).elim (hxs x) (hys x)

theorem mem_unionNew_left (h : x ∈ xs) : x ∈ unionNew xs ys :=
  foldlRecOn ys insertNew h fun _ h _ _ => mem_insertNew_left h

end Lists

namespace Table

variable {α β : Type} [BEq α] {t : Table α β} {a : α} {b : β}

theorem insert_of_get?_eq_none (h : t.get? a = none) : t.insert a b = t ++ [(a, b)] := by
  have hk : ∀ p ∈ t, ¬(p.1 == a) = true := by simpa [get?] using h
  unfold insert
  clear h
  induction t with
  | nil => rfl
  | cons p t ih =>
    have hp : ¬(p.1 == a) = true := hk p mem_cons_self
    rw [alter, if_neg hp, ih (forall_mem_cons.1 hk).2, cons_append]

theorem get?_append (t u : Table α β) (a : α) : get? (t ++ u) a = (get? t a).or (get? u a) := by
  unfold get?
  rw [find?_append]
  cases find? (fun x => x.1 == a) t <;> rfl

end Table

theorem forall₂_imp_of_mem {α β : Type} {R S : α → β → Prop} {as : List α} {bs : List β}
    (h : Forall₂ R as bs) (hs : ∀ {a b}, a ∈ as → R a b → S a b) : Forall₂ S as bs := by
  induction h with
  | nil => exact .nil
  | cons hr _ ih => exact .cons (hs mem_cons_self hr) (ih fun ha => hs (mem_cons_of_mem _ ha))

theorem exists_of_forall₂ {α β : Type} {R : α → β → Prop} {as : List α} {bs : List β}
    (h : Forall₂ R as bs) {b : β}
    (hb : b ∈ bs) : ∃ a ∈ as, R a b := by
  obtain ⟨hlen, hget⟩ := forall₂_iff_get.1 h
  obtain ⟨i, hi, rfl⟩ := getElem_of_mem hb
  exact ⟨as[i], getElem_mem _, hget i (hlen ▸ hi) hi⟩

namespace Expr

/-! ### Expressions that count as the same -/

theorem eq_sym_of_same (h : same e (.sym s) = true) : e = .sym s := by
  cases e with
  | atom a => cases a <;> simp_all [same]
  | node h as => simp [same] at h

theorem same_atom_node (a : Atom) (h : Head) (as : Exprs) :
    same (.atom a) (.node h as) = false := by
  cases a <;> rfl

theorem same_node_atom (a : Atom) (h : Head) (as : Exprs) :
    same (.node h as) (.atom a) = false := by
  cases a <;> rfl

theorem same_node_iff : same (.node h as)
    (.node k bs) = true ↔ sameHead h k = true ∧ sameList as bs = true := by
  rw [same, Bool.and_eq_true]

theorem sameList_iff_forall₂ : sameList as bs = true ↔ Forall₂
    (fun a b => same a b = true) as bs := by
  induction as generalizing bs with
  | nil => cases bs <;> simp [sameList]
  | cons a as ih => cases bs <;> simp [sameList, ih]

/-- A head without the mark of an absolute access. -/
def canonicalHead : Head → Head
  | .access f n _ => .access f n false
  | h => h

mutual

/-- An expression with plain positions as numbers and accesses without mark. -/
def canonical : Expr → Expr
  | .atom a => match a with
    | .lit n => int n
    | a => .atom a
  | .node h as => .node (canonicalHead h) (canonicalList as)

def canonicalList : Exprs → Exprs
  | [] => []
  | a :: as => canonical a :: canonicalList as

end

theorem canonicalList_eq_map (as : Exprs) : canonicalList as = as.map canonical := by
  induction as with
  | nil => rfl
  | cons a as ih => simp only [canonicalList, map_cons, ih]

theorem sameHead_iff : sameHead h k = true ↔ canonicalHead h = canonicalHead k := by
  cases h <;> cases k <;> simp [sameHead, canonicalHead]
  constructor
  · rintro ⟨⟨rfl, -⟩, rfl⟩
    exact ⟨rfl, rfl⟩
  · rintro ⟨rfl, rfl⟩
    exact ⟨⟨rfl, rfl⟩, rfl⟩

theorem same_iff : same a b = true ↔ canonical a = canonical b := by
  induction a using sizeInduction generalizing b with
  | step a ih =>
    cases a with
    | atom x =>
      cases b with
      | node k bs => cases x <;> simp [same, canonical, int]
      | atom y =>
        cases x <;> cases y <;> simp [same, canonical, int]
        exact eq_comm
    | node h as =>
      cases b with
      | atom y => cases y <;> simp [same, canonical, int]
      | node k bs =>
        have hargs : sameList as bs = true ↔ as.map canonical = bs.map canonical := by
          rw [sameList_iff_forall₂]
          rw [← forall₂_eq_eq_eq, forall₂_map_left_iff, forall₂_map_right_iff]
          exact ⟨fun h => forall₂_imp_of_mem h fun ha => (ih _ (size_lt_of_mem ha)).1,
            fun h => forall₂_imp_of_mem h fun ha => (ih _ (size_lt_of_mem ha)).2⟩
        simp [same_node_iff, sameHead_iff, canonical, canonicalList_eq_map, hargs]

theorem same_refl (e : Expr) : same e e = true := same_iff.2 rfl

theorem same_symm (h : same a b = true) : same b a = true := same_iff.2 (same_iff.1 h).symm

theorem beq_list_iff : (as == bs) = true ↔ as.map canonical = bs.map canonical := by
  induction as generalizing bs with
  | nil => cases bs <;> simp
  | cons a as ih =>
    cases bs with
    | nil => simp
    | cons b bs =>
      rw [cons_beq_cons, Bool.and_eq_true, ih, map_cons, map_cons, cons.injEq]
      exact and_congr_left fun _ => same_iff

theorem int?_canonical (e : Expr) : e.canonical.int? = e.int? := by
  cases e with
  | atom a => cases a <;> simp [canonical, int?, int, Number.int?]
  | node h as => rfl

@[simp] theorem beq_sym_iff : (e == .sym s) = true ↔ e = .sym s :=
    ⟨eq_sym_of_same, fun h => h ▸ same_refl _⟩

@[simp] theorem sym_beq_iff : (sym s == e) = true ↔ e = .sym s :=
  ⟨fun h => eq_sym_of_same (same_symm h), fun h => h ▸ same_refl _⟩

theorem contains_sym_iff : xs.contains (.sym s) = true ↔ .sym s ∈ xs :=
    by simp [contains_iff_exists_mem_beq]

theorem sym_mem_insertNew : .sym s ∈ insertNew xs x ↔ .sym s ∈ xs ∨ x = .sym s := by
  constructor
  · intro h
    exact (mem_of_mem_insertNew h).imp_right symm
  · rintro (h | rfl)
    · exact mem_insertNew_left h
    · unfold insertNew
      split
      · next h => exact contains_sym_iff.1 h
      · simp

theorem sym_mem_unionNew : .sym s ∈ unionNew xs ys ↔ .sym s ∈ xs ∨ .sym s ∈ ys := by
  induction ys generalizing xs with
  | nil => simp [unionNew]
  | cons y ys ih =>
    rw [mem_cons, eq_comm, ← or_assoc, ← sym_mem_insertNew]
    exact ih

end Expr

namespace Statement

open Expr
variable {xss : List Exprs}

/-! ### Variables -/

theorem variablesEach_eq_map (as : Exprs) : variablesEach as = as.map variablesOf := by
  induction as with
  | nil => rfl
  | cons a as ih => simp only [variablesEach, map_cons, ih]

theorem mem_of_mem_joinNew (h : x ∈ joinNew xss) : ∃ xs ∈ xss, x ∈ xs := by
  revert h
  refine foldlRecOn (motive := fun ys => x ∈ ys → ∃ xs ∈ xss, x ∈ xs) xss unionNew
    (absurd · not_mem_nil) fun ys ih xs hxs h => ?_
  exact (mem_of_mem_unionNew h).elim ih fun h => ⟨xs, hxs, h⟩

theorem sym_mem_joinNew : .sym s ∈ joinNew xss ↔ ∃ xs ∈ xss, .sym s ∈ xs := by
  have aux : ∀ acc, .sym s ∈ xss.foldl unionNew acc ↔ .sym s ∈ acc ∨ ∃ xs ∈ xss, .sym s ∈ xs := by
    induction xss with
    | nil => simp
    | cons xs xss ih => simp [ih, sym_mem_unionNew, or_assoc]
  rw [joinNew, aux, or_iff_right not_mem_nil]

theorem sym_mem_variablesOf (ha : a ∈ Model.operands h as)
    (hs : .sym s ∈ variablesOf a) : .sym s ∈ variablesOf (.node h as) := by
  cases h <;> simp only [Model.operands, not_mem_nil] at ha <;>
    simp only [variablesOf, variablesEach_eq_map, sym_mem_joinNew, ← map_take, ← map_dropLast] <;>
    exact ⟨_, mem_map_of_mem ha, hs⟩

end Statement

/-! ### Arrays that are loaded from -/

namespace Expr

mutual

/-- The names of the arrays that an expression loads from. -/
def loads : Expr → Strings
  | .atom _ => []
  | .node h as => match h, as with
    | .access .., _ => []
    | .resolved f _, p :: i :: _ => f.name :: (loads p ++ loads i)
    | .resolved f _, as => f.name :: loadsList as
    | _, as => loadsList as

def loadsList : Exprs → Strings
  | [] => []
  | a :: as => loads a ++ loadsList as

end

theorem mem_loadsList : f ∈ loadsList as ↔ ∃ a ∈ as, f ∈ loads a := by
  induction as with
  | nil => simp [loadsList]
  | cons a as ih => simp [loadsList, ih]

theorem mem_loads_resolved {f : GridField} {n : Nat} (as : Exprs) :
    f.name ∈ loads (.node (.resolved f n) as) := by
  unfold loads
  split <;> simp_all

theorem mem_loads_of_mem (ha : a ∈ Model.operands h as)
    (hf : f ∈ loads a) : f ∈ loads (.node h as) := by
  have hl : f ∈ loadsList as := mem_loadsList.2 ⟨a, Model.mem_of_mem_operands ha, hf⟩
  cases h with
  | access g n b => cases ha
  | resolved g n =>
    rcases as with _ | ⟨p, _ | ⟨i, r⟩⟩
    · cases ha
    · exact mem_cons_of_mem _ hl
    · have ha : a = p ∨ a = i := by simpa [Model.operands] using ha
      rcases ha with rfl | rfl <;> simp [loads, hf]
  | _ => exact hl

end Expr

/-! ### Values -/

/-- A view in which accesses have no value: all of them have been resolved. -/
def View.Resolved {V : Type} (w : View V) : Prop := ∀ f os vs, w.access f os vs = none

namespace Model

open Statement

variable {V : Type} {M : Model V} {w w' : View V}

theorem keeps_of_access {h : Head} {as : Exprs} (hw : w.Resolved)
    (hh : ¬ ∀ f n b, h ≠ .access f n b) : M.Keeps w w' (.node h as) e := by
  push Not at hh
  obtain ⟨f, n, b, rfl⟩ := hh
  refine .of_value (by simp) ?_
  simp only [eval, hw _ _ _]
  split <;> simp

theorem keeps_of_agree (hw : w.Resolved)
    (hsym : ∀ s, .sym s ∈ variablesOf e → Refines (w.symbol s) (w'.symbol s))
    (hload : ∀ f ∈ e.loads, ∀ k, Refines (w.load f k) (w'.load f k))
    (hlane : w.lane = w'.lane) (hshift : w.shift = w'.shift) : M.Keeps w w' e e := by
  induction e using sizeInduction generalizing w w' with
  | step e ih =>
    cases e with
    | atom a =>
      refine .of_value (by simp) ?_
      cases a with
      | sym s => exact hsym s (by simp [variablesOf, isVariable])
      | _ => exact .refl _
    | node h as =>
      by_cases hh : ∀ f n b, h ≠ .access f n b
      · have each : ∀ {u u' : View V}, u.Resolved → u.symbol = w.symbol → u'.symbol = w'.symbol →
            u.load = w.load → u'.load = w'.load → u.lane = u'.lane → u.shift = u'.shift →
            Forall₂ (M.Keeps u u') (operands h as) (operands h as) := by
          intro u u' hu hs hs' hl hl' hlane hshift
          refine forall₂_same.2 fun a ha => ih a
            (size_lt_of_mem (mem_of_mem_operands ha)) hu ?_ ?_ hlane hshift
          · intro s hmem
            rw [hs, hs']
            exact hsym s (sym_mem_variablesOf ha hmem)
          · intro f hf
            rw [hl, hl']
            exact hload f (mem_loads_of_mem ha hf)
        have hhead : ∀ f n, h = .resolved f n → ∀ k,
          Refines (w.load f.name k) (w'.load f.name k) := by
          rintro f n rfl
          exact hload f.name (mem_loads_resolved as)
        exact .node hh hhead hshift (each hw rfl rfl rfl rfl hlane hshift)
          (each hw rfl rfl rfl rfl hlane hlane)
      · exact keeps_of_access hw hh

/-- The value of an expression depends on its variables and on the arrays that it loads from. -/
theorem eval_congr (hw : w.Resolved) (hw' : w'.Resolved)
    (hsym : ∀ s, .sym s ∈ variablesOf e → w.symbol s = w'.symbol s)
    (hload : ∀ f ∈ e.loads, ∀ k, w.load f k = w'.load f k)
    (hlane : w.lane = w'.lane) (hshift : w.shift = w'.shift) : M.eval w e = M.eval w' e := by
  refine Refines.antisymm (keeps_of_agree hw ?_ ?_ hlane hshift).value
    (keeps_of_agree hw' ?_ ?_ hlane.symm hshift.symm).value
  · exact fun s hs => .of_eq (hsym s hs)
  · exact fun f hf k => .of_eq (hload f hf k)
  · exact fun s hs => .of_eq (hsym s hs).symm
  · exact fun f hf k => .of_eq (hload f hf k).symm

theorem keeps_of_same (hw : w.Resolved) (hs : same a b = true) : M.Keeps w w a b := by
  induction a using sizeInduction generalizing b w with
  | step a ih =>
    cases a with
    | atom x =>
      refine .of_value (by simp) (.of_eq ?_)
      cases b with
      | node k bs => simp [same_atom_node] at hs
      | atom y => cases x <;> cases y <;> simp_all [same, eval, M.atom_lit, M.atom_int]
    | node h as =>
      cases b with
      | atom y => simp [same_node_atom] at hs
      | node k bs =>
        obtain ⟨hhead, hargs⟩ := same_node_iff.1 hs
        by_cases hh : ∀ f n b, h ≠ .access f n b
        · have hk : h = k := by
            cases h with
            | access f n b => exact absurd rfl (hh f n b)
            | _ => simpa [sameHead] using hhead
          subst hk
          have each : ∀ {u : View V}, u.Resolved → Forall₂ (M.Keeps u u) as bs := by
            intro u hu
            exact forall₂_imp_of_mem (sameList_iff_forall₂.1 hargs) fun ha h => ih _
              (size_lt_of_mem ha) hu h
          exact .node hh (fun _ _ _ _ => .refl _) rfl (forall₂_operands h (each hw))
            (forall₂_operands h (each hw))
        · exact keeps_of_access hw hh

end Model

end StencilForge
