import StencilForge.Proofs.Cutting
import StencilForge.Proofs.Footprint

/-!
# Proofs — the symbols that a kernel mentions

What statements do depends on the symbols that they mention (`Machine.Alike.runsList`).  A nest of
loops from which constants were moved out needs the symbols that it mentions and does not define
(`Motion.free_moveConstants`).
-/

open List

namespace StencilForge

open Model Expr

variable {V : Type} {M : Model V} {H : Head → Prop} {ls : List (Loop × Body)} {inner : Body}
    {e : Expr}

namespace Statement

mutual

/-- A symbol is used, assigned or counted with. -/
def Mentions (y : Symbol) : Statement → Prop
  | .assign lhs rhs _ => .sym y ∈ variablesOf lhs ∨ .sym y ∈ variablesOf rhs
  | .block _ body => MentionsList y body
  | .loop l body => y = l.symbol ∨ (∃ e ∈ l.bounds, .sym y ∈ variablesOf e) ∨ MentionsList y body
  | .branch cond yes _ no => .sym y ∈ variablesOf cond ∨ MentionsList y yes ∨ MentionsList y no
  | _ => False

def MentionsList (y : Symbol) : Body → Prop
  | [] => False
  | s :: r => Mentions y s ∨ MentionsList y r

end

variable {body : Body} {y : Symbol}

theorem mentionsList_iff : MentionsList y body ↔ ∃ s ∈ body, Mentions y s := by
  induction body with
  | nil => simp [MentionsList]
  | cons s body ih => simp [MentionsList, ih]

theorem formedList_iff : FormedList H body ↔ ∀ s ∈ body, Formed H s := by
  induction body with
  | nil => simp [FormedList]
  | cons s body ih => simp [FormedList, ih]

theorem sym_mem_undefinedList : .sym y ∈ undefinedList body ↔ ∃ s ∈ body, .sym y ∈ s.undefined := by
  induction body with
  | nil => simp [undefinedList]
  | cons s body ih => simp [undefinedList, sym_mem_unionNew, ih]

theorem sym_mem_free : .sym y ∈ free body ↔ .sym y ∈ undefinedList body ∧
    .sym y ∉ definedList body := by
  rw [free, without, mem_filter, Bool.not_eq_true', ← Bool.not_eq_true, contains_sym_iff]

theorem free_nest
    (hdefs : ∀ p ∈ ls, ∀ d ∈ p.2, ∃ l e k, d = .assign l e k)
    (hinner : ∀ b ∈ inner, ∃ l e k, b = .assign l e k)
    (hdefined : ∀ d ∈ events ls ++ inner, .sym y ∉ d.defined)
    (hy : MentionsList y (nest ls inner)) :
    .sym y ∈ free (nest ls inner) := by
  have assigned : ∀ {body : Body}, (∀ b ∈ body, ∃ l e k, b = .assign l e k) → MentionsList y body →
      .sym y ∈ undefinedList body := by
    intro body hbody hy
    obtain ⟨b, hb, hy⟩ := mentionsList_iff.1 hy
    obtain ⟨l, e, k, rfl⟩ := hbody b hb
    exact sym_mem_undefinedList.2 ⟨_, hb, variables_subset_undefined hy⟩
  induction ls with
  | nil =>
    refine sym_mem_free.2 ⟨assigned hinner hy, fun h => ?_⟩
    obtain ⟨b, hb, hyb⟩ := Motion.sym_mem_definedList.1 h
    exact hdefined b hb hyb
  | cons p ls ih =>
    obtain ⟨l, defs⟩ := p
    have hhead : .sym y ∉ (loop l []).defined := hdefined _ (by simp [events])
    have hne : y ≠ l.symbol := fun h => hhead (by simp [defined, Loop.counter_eq, h])
    refine sym_mem_free.2 ⟨?_, fun h => ?_⟩
    · obtain ⟨b, hb, hyb⟩ := mentionsList_iff.1 hy
      rcases mem_append.1 hb with hb | hb
      · obtain ⟨b', hb', h⟩ := sym_mem_undefinedList.1
          (assigned (hdefs _ mem_cons_self) (mentionsList_iff.2 ⟨b, hb, hyb⟩))
        exact sym_mem_undefinedList.2 ⟨b', mem_append_left _ hb', h⟩
      · obtain rfl := mem_singleton.1 hb
        refine sym_mem_undefinedList.2 ⟨_, mem_append_right _ hb, ?_⟩
        have hin : .sym y ∈ without (undefinedList (nest ls inner)) (definedList (nest ls inner)) ∨
            .sym y ∈ joinNew (l.bounds.map variablesOf) := by
          rcases hyb.resolve_left hne with ⟨e, he, hye⟩ | hyb
          · exact .inr (sym_mem_joinNew.2 ⟨_, mem_map_of_mem he, hye⟩)
          · exact .inl (ih (forall_mem_cons.1 hdefs).2
              (fun d hd => hdefined d (by simpa [events] using .inr (.inr (mem_append.1 hd)))) hyb)
        have hout : (!([l.counter].contains (sym y))) = true := by
          rw [Bool.not_eq_true', ← Bool.not_eq_true]
          simpa [Loop.counter_eq] using hne
        exact mem_filter.2 ⟨sym_mem_unionNew.2 hin, hout⟩
    · obtain ⟨b, hb, hyb⟩ := Motion.sym_mem_definedList.1 h
      rcases mem_append.1 hb with hb | hb
      · exact hdefined b (by simp [events, hb]) hyb
      · obtain rfl := mem_singleton.1 hb
        exact hhead hyb

end Statement

namespace Machine

open Statement Substitute

variable {D : Symbol → Prop} {s s' : State V}

/-- Two states that differ in symbols from `D` only. -/
structure Alike (D : Symbol → Prop) (s s' : State V) : Prop where
  env : ∀ y, ¬ D y → s.env y = s'.env y
  mem : s.mem = s'.mem

theorem Alike.set (h : Alike D s s') (x : Symbol) (v : Option V) :
    Alike D (s.set x v) (s'.set x v) := by
  refine ⟨fun y hy => ?_, h.mem⟩
  by_cases hyx : y = x
  · rw [hyx, State.set_env_self, State.set_env_self]
  · rw [s.set_env_of_ne v hyx, s'.set_env_of_ne v hyx, h.env y hy]

theorem Alike.withMem (h : Alike D s s') {m m' : Memory V} (hm : m = m') :
    Alike D { s with mem := m } { s' with mem := m' } := ⟨h.env, hm⟩

theorem Alike.eval (h : Alike D s s') (he : ∀ y, D y → .sym y ∉ variablesOf e) :
    M.eval s.view e = M.eval s'.view e :=
  eval_congr (view_resolved s) (view_resolved s') (fun y hy => h.env y fun hD => he y hD hy)
    (fun f _ k => congrFun h.mem (f, k)) rfl rfl

theorem Alike.store (h : Alike D s s') {lhs : Expr} (hD : ∀ y, D y → .sym y ∉ variablesOf lhs)
    (v : Option V) :
    Alike D (s.store M lhs v) (s'.store M lhs v) := by
  unfold State.store
  split
  · exact h.set _ v
  · next f n as =>
    refine h.withMem ?_
    rcases as with _ | ⟨p, _ | ⟨i, r⟩⟩
    · simp only [map_nil, h.mem]
    · simp only [map_cons, map_nil, element, h.mem]
    · have hvp := h.eval (M := M) fun y hy hm => hD y hy (Motion.sym_mem_resolved.2 (.inl hm))
      have hvi := h.eval (M := M) fun y hy hm => hD y hy (Motion.sym_mem_resolved.2 (.inr hm))
      simp only [map_cons, element, hvp, hvi, h.mem]
  · exact h

theorem Alike.rounds (h : Alike D s s') {l : Loop}
    (hD : ∀ y, D y → ∀ e ∈ l.bounds, .sym y ∉ variablesOf e) :
    rounds M s l = rounds M s' l :=
  rounds_eq fun e he => h.eval fun y hy => hD y hy e he

theorem Alike.touches (hH : Operations H) (h : Alike D s s') (hform : Over H (Place H) e)
    (he : ∀ y, D y → .sym y ∉ variablesOf e) : M.touches s.view e = M.touches s'.view e := by
  induction hform with
  | leaf _ hplace =>
    cases hplace with
    | sym x => rfl
    | element f n r hp hi =>
      have hvp := h.eval (M := M) fun y hD hy => he y hD (Motion.sym_mem_resolved.2 (.inl hy))
      have hvi := h.eval (M := M) fun y hD hy => he y hD (Motion.sym_mem_resolved.2 (.inr hy))
      simp only [touches_resolved, touches_of_symbols hH hp, touches_of_symbols hH hi, map_cons,
        hvp, hvi]
      rfl
  | atom => rfl
  | @node k as hk _ ih =>
    rw [touches_node hH hk, touches_node hH hk]
    refine congrArg flatten (map_congr_left fun a ha => ih a ha fun y hD hy => ?_)
    exact he y hD ((Over.sym_mem_variables_iff hH hk).2 ⟨a, ha, hy⟩)

mutual

theorem Alike.runs : ∀ {st : Statement} {s s' : State V},
    (∀ y, D y → ¬ Mentions y st) → Alike D s s' →
    Alike D (exec M st s) (exec M st s') ∧
      (∀ {H}, Operations H → Formed H st → touched M st s = touched M st s')
  | .assign lhs rhs k, s, s', hD, h => by
    have hl : ∀ y, D y → .sym y ∉ variablesOf lhs := fun y hy hm => hD y hy (.inl hm)
    have hr : ∀ y, D y → .sym y ∉ variablesOf rhs := fun y hy hm => hD y hy (.inr hm)
    rw [exec_assign, exec_assign, h.eval hr]
    refine ⟨h.store hl _, fun hH hform => ?_⟩
    have hplace : lhs.isPlace = true := by cases hform.1 <;> rfl
    rw [touched_assign, touched_assign, Alike.touches hH h hform.2 hr,
      Alike.touches hH h (.leaf hplace hform.1) hl]
  | .block p body, s, s', hD, h => by
    obtain ⟨hexec, htouched⟩ := Alike.runsList hD h
    exact ⟨h.withMem hexec.mem, htouched⟩
  | .loop l body, s, s', hD, h => by
    have hround : ∀ m i, _ := fun m i => Alike.runsList (fun y hy hm => hD y hy (.inr (.inr hm)))
      ((h.withMem (rfl : m = m)).set l.symbol (some (M.int i)))
    have hrounds := h.rounds (M := M) fun y hy e he hm => hD y hy (.inr (.inl ⟨e, he, hm⟩))
    refine ⟨?_, fun hH hform => ?_⟩
    · rw [exec, exec, hrounds]
      cases Machine.rounds M s' l with
      | none => exact h.withMem rfl
      | some is => exact h.withMem (by simp only [h.mem, fun m i => (hround m i).1.mem])
    · have hbounds : ∀ t : State V, l.bounds.flatMap (M.touches t.view) = [] := fun t =>
        flatMap_eq_nil_iff.2 fun e he => touches_of_symbols hH (hform.1 e he)
      rw [touched, touched, hbounds, hbounds, hrounds]
      cases Machine.rounds M s' l with
      | none => rfl
      | some is => simp only [h.mem, fun m i => (hround m i).1.mem,
        fun m i => (hround m i).2 hH hform.2]
  | .branch cond yes e no, s, s', hD, h => by
    obtain ⟨hyes, htyes⟩ := Alike.runsList (fun y hy hm => hD y hy (.inr (.inl hm))) h
    obtain ⟨hno, htno⟩ := Alike.runsList (fun y hy hm => hD y hy (.inr (.inr hm))) h
    have hcond : M.eval s.view cond = M.eval s'.view cond := h.eval fun y hy hm => hD y hy (.inl hm)
    refine ⟨?_, fun hH hform => ?_⟩
    · rw [exec, exec, hcond]
      rcases (M.eval s'.view cond).bind M.toBool? with _ | _ | _
      · exact h.withMem rfl
      · exact h.withMem hno.mem
      · exact h.withMem hyes.mem
    · rw [touched, touched, touches_of_symbols hH hform.1, touches_of_symbols hH hform.1, hcond,
        htyes hH hform.2.1,
        htno hH hform.2.2]
  | .skip, _, _, _, h | .snippet _, _, _, _, h | .random _, _, _, _, h | .allocate _, _, _, _,
    h | .release _, _, _, _, h =>
    ⟨h, fun _ _ => rfl⟩

theorem Alike.runsList : ∀ {body : Body} {s s' : State V},
    (∀ y, D y → ¬ MentionsList y body) → Alike D s s' →
    Alike D (execList M body s) (execList M body s') ∧
      (∀ {H}, Operations H → FormedList H body → touchedList M body s = touchedList M body s')
  | [], _, _, _, h => ⟨h, fun _ _ => rfl⟩
  | st :: r, s, s', hD, h => by
    obtain ⟨hst, htst⟩ := Alike.runs (fun y hy hm => hD y hy (.inl hm)) h
    obtain ⟨hr, htr⟩ := Alike.runsList (fun y hy hm => hD y hy (.inr hm)) hst
    refine ⟨hr, fun hH hform => ?_⟩
    rw [touchedList, touchedList, htst hH hform.1, htr hH hform.2]

end

end Machine

namespace Motion

open Statement Machine Substitute

variable {A : Algebra} {W : String → Prop} {c : Symbol}

theorem Source.place {x : Expr} (h : Source H M W c x) : Place H x := by
  cases h with
  | sym s => exact .sym s
  | element f n r hp hi hW => exact .element f n r hp hi

theorem Plain.formed {st : Statement} (h : Plain H M W c st) : Formed H st := by
  cases h with
  | define x k he => exact ⟨.sym x, he.imp fun _ _ h => h.place⟩
  | store k hW hl he => exact ⟨hl.place, he.imp fun _ _ h => h.place⟩

theorem formed_nest (hbounds : ∀ p ∈ ls, ∀ e ∈ p.1.bounds, Over H IsSymbol e)
    (hdefs : ∀ p ∈ ls, ∀ d ∈ p.2, Formed H d) (hinner : ∀ b ∈ inner, Formed H b) :
    FormedList H (nest ls inner) := by
  induction ls with
  | nil => exact formedList_iff.2 hinner
  | cons p ls ih =>
    refine formedList_append (formedList_iff.2 (hdefs p mem_cons_self))
      ⟨⟨hbounds p mem_cons_self, ?_⟩, trivial⟩
    exact ih (forall_mem_cons.1 hbounds).2 (forall_mem_cons.1 hdefs).2

theorem free_moveConstants (hH : Operations H) (hS : A.Sound M H) (hC : A.Closed H) {ls : List Loop}
    {moved : Body} {n n' : Nat} (h : Ready H M W c ls inner)
    (hbounds : ∀ l ∈ ls, ∀ e ∈ l.bounds, Over H IsSymbol e)
    (hr : moveConstants A n (nest (ls.map (·, [])) inner) = .ok (moved, n')) :
    FormedList H moved ∧ ∀ y, (∀ b ∈ inner, .sym y ∉ b.defined) → (∀ l ∈ ls, y ≠ l.symbol) →
      MentionsList y moved →
      .sym y ∈ free moved := by
  obtain ⟨st, rfl, hloops, hinv, hcov⟩ := moveConstants_covered hH hS hC h hr
  refine ⟨formed_nest (fun p hp => hbounds p.1 (hloops ▸ mem_map_of_mem hp))
    (fun p hp d hd => ?_) fun b hb => (hinv.stayed b hb).formed,
    fun y hy hl hm => free_nest (fun p hp d hd => ?_) (fun b hb => ?_) (fun d hd hyd => ?_) hm⟩
  · obtain ⟨x, e, k, rfl, he, -⟩ := hinv.exists_definition hcov hp hd
    exact ⟨.sym x, he.imp fun _ _ h => h.place⟩
  · obtain ⟨x, e, k, rfl, -⟩ := hinv.exists_definition hcov hp hd
    exact ⟨_, e, k, rfl⟩
  · cases hinv.stayed b hb <;> exact ⟨_, _, _, rfl⟩
  · rcases mem_append.1 hd with hd | hd
    · exact hinv.notMem_events hloops hy hl hd hyd
    · obtain ⟨b, hb, hyb⟩ := hcov.made d hd y hyd
      exact hy b hb hyb

end Motion

end StencilForge
