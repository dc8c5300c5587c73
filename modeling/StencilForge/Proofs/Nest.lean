import StencilForge.Proofs.Machine

/-!
# Proofs — nested loops

Loops with definitions in front of them (`nest`).  The definitions hold wherever the innermost body
runs (`Machine.Solved`), because nothing later declares what they use (`Statement.Apart`).
-/

open List

namespace StencilForge

variable {y : Symbol} {P : String → Prop}

namespace Statement

/-- What `b` declares is neither declared nor used by `a`. -/
def Apart (a b : Statement) : Prop := ∀ y, .sym y ∈ b.defined → .sym y ∉ a.defined ∧
    .sym y ∉ a.undefined

theorem variables_subset_undefined {lhs rhs : Expr} {k : Bool}
    (h : .sym y ∈ variablesOf lhs ∨ .sym y ∈ variablesOf rhs) :
    .sym y ∈ (assign lhs rhs k).undefined := by
  simp only [undefined, Expr.sym_mem_unionNew]
  rcases h with h | h
  · exact .inr h
  · exact .inl (.inl h)

@[simp] theorem defined_assign_sym (x : Symbol) (e : Expr) (k : Bool) :
    (assign (.sym x) e k).defined = [.sym x] := rfl

/-- The outermost first. -/
def nest : List (Loop × Body) → Body → Body
  | [], body => body
  | (l, defs) :: ls, body => defs ++ [.loop l (nest ls body)]

/-- In the order in which they are reached. -/
def events : List (Loop × Body) → Body
  | [] => []
  | (l, defs) :: ls => defs ++ .loop l [] :: events ls

/-- The definition of a symbol by others and by arrays with a property. -/
def IsDefinition (P : String → Prop) (s : Statement) : Prop :=
  ∃ x e k, s = .assign (.sym x) e k ∧ .sym x ∉ variablesOf e ∧ ∀ f ∈ e.loads, P f

theorem IsDefinition.isAssign {P : String → Prop} {s : Statement} (h : IsDefinition P s) :
    ∃ l e k, s = .assign l e k := by
  obtain ⟨x, e, k, rfl, -⟩ := h
  exact ⟨_, e, k, rfl⟩

end Statement

namespace Machine

open Statement

variable {V : Type} {M : Model V}
variable {s : State V} {es : Body}

/-- The definitions among some statements hold. -/
def Solved (M : Model V) (es : Body) (s : State V) : Prop :=
  ∀ x e k, .assign (.sym x) e k ∈ es → s.env x = M.eval s.view e

theorem Solved.mono {es' : Body} (h : Solved M es s) (hsub : ∀ st ∈ es', st ∈ es) :
    Solved M es' s := fun x e k hm => h x e k (hsub _ hm)

theorem Solved.congr {s' : State V} (h : Solved M es s)
    (henv : ∀ x e k, .assign (.sym x) e k ∈ es → ∀ y, y = x ∨ .sym y ∈ variablesOf e →
      s'.env y = s.env y)
    (hmem : ∀ x e k, .assign (.sym x) e k ∈ es → ∀ f ∈ e.loads, ∀ i, s'.mem (f, i) = s.mem (f, i)) :
    Solved M es s' := by
  intro x e k hm
  rw [henv x e k hm x (.inl rfl), h x e k hm]
  exact Model.eval_congr (view_resolved _) (view_resolved _)
    (fun y hy => (henv x e k hm y (.inr hy)).symm)
    (fun f hf i => (hmem x e k hm f hf i).symm) rfl rfl

theorem Solved.set (h : Solved M es s) (v : Option V)
    (hy : ∀ st ∈ es, .sym y ∉ st.undefined) : Solved M es (s.set y v) := by
  refine h.congr (fun x e k hm z hz => ?_) fun _ _ _ _ _ _ _ => rfl
  refine s.set_env_of_ne v fun hzy => hy _ hm (variables_subset_undefined ?_)
  subst hzy
  rcases hz with rfl | hz
  · exact .inl (by simp [variablesOf, isVariable])
  · exact .inr hz

/-- Definitions give values to their symbols only, and hold afterwards. -/
theorem execList_definitions {defs : Body}
    (hdefs : ∀ st ∈ defs, IsDefinition P st) (hpair : (es ++ defs).Pairwise Apart)
    (h : Solved M es s) :
    Solved M (es ++ defs) (execList M defs s) ∧ (execList M defs s).mem = s.mem ∧
      ∀ x, (∀ st ∈ defs, .sym x ∉ st.defined) → (execList M defs s).env x = s.env x := by
  induction defs generalizing es s with
  | nil => exact ⟨by simpa using h, rfl, fun _ _ => rfl⟩
  | cons st defs ih =>
    obtain ⟨x, e, k, rfl, hx, -⟩ := hdefs _ mem_cons_self
    have hold : ∀ st ∈ es, .sym x ∉ st.undefined := fun st hst =>
      ((pairwise_append.1 hpair).2.2 st hst _ mem_cons_self x (mem_singleton_self _)).2
    have hnew : Solved M (es ++ [.assign (.sym x) e k]) (s.set x (M.eval s.view e)) := by
      intro y d j hm
      rcases mem_append.1 hm with hm | hm
      · exact h.set _ hold y d j hm
      · obtain ⟨hyx, rfl, -⟩ := assign.inj (mem_singleton.1 hm)
        obtain rfl : y = x := by simpa using hyx
        rw [State.set_env_self]
        refine Model.eval_congr (view_resolved _) (view_resolved _) (fun z hz => ?_)
          (fun _ _ _ => rfl) rfl rfl
        refine (s.set_env_of_ne _ fun hzy => hx ?_).symm
        exact hzy ▸ hz
    have hsplit : es ++ .assign (.sym x) e k :: defs = (es ++ [.assign (.sym x) e k]) ++ defs :=
      by simp
    obtain ⟨hs, hm, henv⟩ := ih (forall_mem_cons.1 hdefs).2 (hsplit ▸ hpair) hnew
    refine ⟨hsplit ▸ hs, hm, fun y hy => ?_⟩
    rw [execList_cons, exec_assign, store_sym, henv y (forall_mem_cons.1 hy).2]
    refine s.set_env_of_ne _ fun hyx => hy _ mem_cons_self ?_
    simp [hyx]

/-- The definitions in front of a loop hold in its rounds too. -/
theorem Solved.round {defs : Body} {l : Loop}
    (hes : ∀ x e k, .assign (.sym x) e k ∈ es → ∀ f ∈ e.loads, P f)
    (hdefs : ∀ st ∈ defs, IsDefinition P st) (hpair : Pairwise Apart (es ++ defs ++ [.loop l []]))
    (h : Solved M es s) :
    (∀ x e k, .assign (.sym x) e k ∈ es ++ defs ++ [.loop l []] → ∀ f ∈ e.loads, P f) ∧
      ∀ m i, (∀ p, P p.1 → m p = (execList M defs s).mem p) →
        Solved M (es ++ defs ++ [.loop l []])
          ({ execList M defs s with mem := m }.set l.symbol (some (M.int i))) := by
  have hsolved := (execList_definitions (M := M) hdefs
    (hpair.sublist (sublist_append_left _ _)) h).1
  have hassign : ∀ x e k, .assign (.sym x) e k ∈ es ++ defs ++ [.loop l []] →
    .assign (.sym x) e k ∈ es ++ defs := by
    intro x e k hmem
    simpa using hmem
  have hloads : ∀ x e k, .assign (.sym x) e k ∈ es ++ defs → ∀ f ∈ e.loads, P f := by
    intro x e k hmem
    rcases mem_append.1 hmem with hmem | hmem
    · exact hes x e k hmem
    · obtain ⟨x', e', k', heq, -, hP⟩ := hdefs _ hmem
      obtain ⟨-, rfl, -⟩ := Statement.assign.inj heq
      exact hP
  have hloop : ∀ st ∈ es ++ defs, .sym l.symbol ∉ st.undefined := fun st hst =>
    ((pairwise_append.1 hpair).2.2 st hst _ (mem_singleton_self _) _ (mem_singleton_self _)).2
  refine ⟨fun x e k hmem => hloads x e k (hassign x e k hmem), fun m i hm x e k hmem => ?_⟩
  have hsolved : Solved M (es ++ defs) { execList M defs s with mem := m } :=
    hsolved.congr (fun _ _ _ _ _ _ => rfl) fun x e k hmem f hf _ => hm _ (hloads x e k hmem f hf)
  exact hsolved.set _ hloop x e k (hassign x e k hmem)

end Machine

end StencilForge
