import StencilForge.Kernel.Staggered
import StencilForge.Proofs.Blocks

/-!
# Proofs — cutting loops

A part of a loop with one cell is the body at that cell, an empty one is left out
(`Loop.IsPart`).  Replacing the counter by a bound runs the body where the counter has its value
(`Machine.replace_spec`).
-/

open StencilForge.Outcome
open List hiding range mem_range replace

namespace StencilForge

open Expr Loop

variable {V : Type} {A : Algebra} {H : Head → Prop} {M : Model V}
variable {a b part : Body} {e e' start stop : Expr} {y : Symbol}

namespace Statement

open Substitute

/-- A symbol, or an element at a place that is computed from symbols. -/
inductive Place (H : Head → Prop) : Expr → Prop where
  | sym (s : Symbol) : Place H (.sym s)
  | element (f : GridField) (n : Nat) {p i : Expr} (r : Exprs) (hp : Over H IsSymbol p)
    (hi : Over H IsSymbol i) :
      Place H (.node (.resolved f n) (p :: i :: r))

mutual

/-- A statement whose expressions are built by operations from symbols and elements. -/
def Formed (H : Head → Prop) : Statement → Prop
  | .assign lhs rhs _ => Place H lhs ∧ Over H (Place H) rhs
  | .block _ body => FormedList H body
  | .loop l body => (∀ e ∈ l.bounds, Over H IsSymbol e) ∧ FormedList H body
  | .branch cond yes _ no => Over H IsSymbol cond ∧ FormedList H yes ∧ FormedList H no
  | _ => True

def FormedList (H : Head → Prop) : Body → Prop
  | [] => True
  | s :: r => Formed H s ∧ FormedList H r

end

mutual

/-- A symbol is neither declared nor counted with. -/
def Leaves (x : Symbol) : Statement → Prop
  | .assign lhs _ _ => lhs ≠ .sym x
  | .block _ body => LeavesList x body
  | .loop l body => l.symbol ≠ x ∧ LeavesList x body
  | .branch _ yes _ no => LeavesList x yes ∧ LeavesList x no
  | _ => True

def LeavesList (x : Symbol) : Body → Prop
  | [] => True
  | s :: r => Leaves x s ∧ LeavesList x r

end

theorem formedList_append (ha : FormedList H a) (hb : FormedList H b) : FormedList H (a ++ b) := by
  induction a with
  | nil => exact hb
  | cons s a ih => exact ⟨ha.1, ih ha.2⟩

end Statement

namespace Substitute

variable {c : Symbol} {v : Expr}

theorem algebraicTable_single (o n e : Expr) : algebraicTable A [(o, n)] e = algebraic A o n e := by
  unfold algebraicTable arrange algebraicSeq
  by_cases h : (o == n) = true
  · simp [h, algebraic]
  · simp [h]

theorem get?_single (s : Symbol) : Table.get? [(sym c, v)]
    (.sym s) = if s = c then some v else none := by
  by_cases h : s = c
  · simp [Table.get?, h]
  · have hne : (sym c == sym s) = false := by
      refine Bool.eq_false_iff.2 fun hb => h ?_
      simpa using (beq_sym_iff.1 hb).symm
    simp [Table.get?, h, hne]

end Substitute

namespace Machine

open Statement Substitute

variable {c : Symbol} {v : Expr} {s s' : State V} {m m' : Memory V}

abbrev Known (m m' : Memory V) : Prop := ∀ p, Refines (m p) (m' p)

/-- A state in which a symbol has a value, and one that knows an expression with that value in its
place. -/
structure Follows (M : Model V) (c : Symbol) (v : Expr) (s s' : State V) : Prop where
  env : ∀ y, y ≠ c → Refines (s.env y) (s'.env y)
  value : Refines (s.env c) (M.eval s'.view v)
  mem : ∀ p, Refines (s.mem p) (s'.mem p)

namespace Follows

/-- With memory that is known better. -/
theorem set (h : Follows M c v s s') (hH : Operations H) (hv : Over H IsSymbol v) (hyc : y ≠ c)
    (hyv : .sym y ∉ variablesOf v) {a a' : Option V} (ha : Refines a a')
    (hm : Known m m') : Follows M c v (State.set { s with mem := m } y a)
    (State.set { s' with mem := m' } y a') where
  env := fun z hz => by
    by_cases hzy : z = y
    · simpa [hzy] using ha
    · rw [State.set_env_of_ne _ _ hzy, State.set_env_of_ne _ _ hzy]
      exact h.env z hz
  value := by
    rw [State.set_env_of_ne _ _ hyc.symm]
    refine h.value.trans (.of_eq (Motion.eval_of_symbols hH hv fun z hz => ?_))
    exact (State.set_env_of_ne _ _ fun (hzy : z = y) => hyv (hzy ▸ hz)).symm
  mem := hm

theorem withMem (h : Follows M c v s s') (hH : Operations H) (hv : Over H IsSymbol v)
    (hm : Known m m') : Follows M c v { s with mem := m } { s' with mem := m' } where
  env := h.env
  value := h.value.trans (.of_eq (Motion.eval_of_symbols hH hv fun _ _ => rfl))
  mem := hm

/-- Where nothing is known about the memory. -/
theorem lost (h : Follows M c v s s') (hH : Operations H) (hv : Over H IsSymbol v) {t : State V}
    (ht : t.env = s'.env) :
    Follows M c v s.lost t := by
  have hmem : Follows M c v s.lost { s' with mem := t.mem } := h.withMem hH hv fun _ => .none _
  rwa [← ht] at hmem

end Follows

theorem range_one_eq_append {a b c : Int} (hab : a ≤ b) (hbc : b ≤ c) :
    range a c 1 = range a b 1 ++ range b c 1 := by
  have hrange : ∀ x y : Int, range x y 1 = (List.range (y - x).toNat).map fun (i : Nat) => x + i :=
    by simp [range]
  rw [hrange, hrange, hrange, show (c - a).toNat =
    (b - a).toNat + (c - b).toNat by omega, range_add, map_append,
    map_map]
  congr 1
  refine map_congr_left fun i _ => ?_
  simp only [Function.comp_apply]
  omega

section Replace

variable (hH : Operations H) (hS : A.Sound M H) (hC : A.Closed H) (hv : Over H IsSymbol v)

include hH hS hC hv

/-- Replacing a symbol keeps the value where the symbol has the value of what replaces it. -/
theorem algebraicTable_spec (he : Over H IsSymbol e)
    (hr : algebraicTable A [(.sym c, v)] e = .ok e') :
    Over H IsSymbol e' ∧ ∀ {s s'}, Follows M c v s s' → M.Keeps s.view s'.view e e' := by
  rw [algebraicTable_single] at hr
  have hb := algebraic_rebuilt hH he hr
  refine ⟨hb.isOver hH hC (fun _ _ h => h) (fun x y _ _ hxy => ?_) he,
    fun h => hb.keeps hH hS fun x y _ hxy => ?_⟩
  · obtain ⟨s, rfl, rfl⟩ := hxy
    split
    · exact hv
    · exact .sym ⟨s, rfl⟩
  · obtain ⟨s, rfl, rfl⟩ := hxy
    refine .of_value (fun _ => nofun) ?_
    split
    · next hs => exact hs ▸ h.value
    · next hs => exact h.env s hs

theorem replaceBound_spec (he : Over H IsSymbol e) (hr : replaceBound A [(.sym c, v)] e = .ok e') :
    Over H IsSymbol e' ∧ ∀ {s s'}, Follows M c v s s' → Refines (int? M s e) (int? M s' e') := by
  unfold replaceBound at hr
  split at hr
  · obtain rfl := Except.ok.inj hr
    exact ⟨he, fun _ => .refl _⟩
  · obtain ⟨hover, hkeeps⟩ := algebraicTable_spec hH hS hC hv he hr
    exact ⟨hover, fun h => .bind (hkeeps h).value fun _ => .refl _⟩

omit hS hC hv in
theorem table_rebuilt_place (he : Over H (Place H) e)
    (hr : table A [(.sym c, v)] e = .ok e') :
    Rebuilt A H (fun x y => Place H x ∧ Replaced A [(.sym c, v)] x y) e e' := by
  refine table_rebuilt hH (fun p hp => ⟨c, by rw [mem_singleton.1 hp]⟩) (fun f n as h => ?_) he hr
  cases h
  exact ⟨_, _, _, rfl⟩

theorem replaced_spec {x y : Expr} (hx : Place H x) (hr : Replaced A [(.sym c, v)] x y) :
    Over H (Place H) y ∧ ∀ {s s'}, Follows M c v s s' → M.Keeps s.view s'.view x y := by
  cases hx with
  | sym z =>
    cases hr
    rw [get?_single]
    refine ⟨?_, fun h => .of_value (fun _ => nofun) ?_⟩ <;> split
    · exact hv.imp fun _ _ ⟨s, hs⟩ => hs ▸ .sym s
    · exact .sym (.sym z)
    · next hz => exact hz ▸ h.value
    · next hz => exact h.env z hz
  | element f n r hp hi =>
    cases hr with
    | resolved _ _ _ hp' hi' =>
      obtain ⟨hpo, hpk⟩ := algebraicTable_spec hH hS hC hv hp hp'
      obtain ⟨hio, hik⟩ := algebraicTable_spec hH hS hC hv hi hi'
      refine ⟨.leaf rfl (.element f n r hpo hio), fun h => .of_value (fun _ => nofun) ?_⟩
      exact .bind (Model.element_refines _ _ (hpk h).value (hik h).value) fun k => h.mem _

mutual

/-- A statement in which a symbol is replaced has its form, and runs as before where the symbol has
the value of what replaces it. -/
theorem replace_spec : ∀ {st st'}, st.replace A
    [(.sym c, v)] = .ok st' → Formed H st → Leaves c st →
    Formed H st' ∧ (∀ y, Leaves y st → Leaves y st') ∧
      ((∀ y, .sym y ∈ variablesOf v → Leaves y st) → ∀ {s s'},
      Follows M c v s s' → Follows M c v (exec M st s) (exec M st' s'))
  | .assign lhs rhs k, st', hr, hform, hc => by
    simp only [replace, bind_eq_ok, pure_eq_ok] at hr
    obtain ⟨lhs', hl, rhs', hr, rfl⟩ := hr
    have hb := table_rebuilt_place hH hform.2 hr
    have hrhs := hb.isOver hH hC (fun _ _ h => h)
      (fun _ _ _ hx hxy => (replaced_spec hH hS hC hv hx hxy.2).1) hform.2
    have hkeeps : ∀ {s s'}, Follows M c v s s' → M.Keeps s.view s'.view rhs rhs' := fun h =>
      hb.keeps hH hS fun _ _ _ hxy => (replaced_spec hH hS hC hv hxy.1 hxy.2).2 h
    have hplace : lhs.isPlace = true := by cases hform.1 <;> rfl
    have hlhs := Rebuilt.of_place hH hplace (table_rebuilt_place hH (.leaf hplace hform.1) hl)
    cases hform.1 with
    | sym x =>
      have hxc : x ≠ c := fun hx => hc (by rw [hx])
      cases hlhs.2
      rw [get?_single, if_neg hxc]
      exact ⟨⟨.sym x, hrhs⟩, fun y hy => hy, fun hy _ _ h => h.set hH hv hxc (fun hx => hy x hx rfl)
        (hkeeps h).value h.mem⟩
    | element f n r hp hi =>
      cases hlhs.2 with
      | resolved _ _ _ hp' hi' =>
        obtain ⟨hpo, hpk⟩ := algebraicTable_spec hH hS hC hv hp hp'
        obtain ⟨hio, hik⟩ := algebraicTable_spec hH hS hC hv hi hi'
        exact ⟨⟨.element f n r hpo hio, hrhs⟩, fun y _ => nofun, fun _ _ _ h => h.withMem hH hv
          (write_refines (Model.element_refines _ _ (hpk h).value (hik h).value)
            (hkeeps h).value h.mem)⟩
  | .block p body, st', hr, hform, hc => by
    simp only [replace, bind_eq_ok, pure_eq_ok] at hr
    obtain ⟨body', hr, rfl⟩ := hr
    obtain ⟨hf, hl, hexec⟩ := replaceList_spec hr hform hc
    exact ⟨hf, hl, fun hy _ _ h => h.withMem hH hv (hexec hy h).mem⟩
  | .loop l body, st', hr, hform, hc => by
    simp only [replace, bind_eq_ok, pure_eq_ok] at hr
    obtain ⟨body', hbody, start, hstart, stop, hstop, step, hstep, rfl⟩ := hr
    obtain ⟨hf, hl, hexec⟩ := replaceList_spec hbody hform.2 hc.2
    have hb := forall_bounds.1 hform.1
    obtain ⟨hostart, hstart⟩ := replaceBound_spec hH hS hC hv hb.1 hstart
    obtain ⟨hostop, hstop⟩ := replaceBound_spec hH hS hC hv hb.2.1 hstop
    obtain ⟨hostep, hstep⟩ := replaceBound_spec hH hS hC hv hb.2.2 hstep
    refine ⟨⟨forall_bounds.2 ⟨hostart, hostop, hostep⟩, hf⟩, fun y hy => ⟨hy.1, hl y hy.2⟩,
      fun hy s s' h => ?_⟩
    have hrounds : Refines (rounds M s l) (rounds M s' { l with start, stop, step }) :=
      .bind (hstart h) fun _ => .bind (hstop h) fun _ => .bind (hstep h) fun _ => .refl _
    rw [exec, exec]
    cases his : rounds M s l with
    | none => exact h.lost hH hv (by split <;> rfl)
    | some is =>
      rw [hrounds is his]
      refine h.withMem hH hv (foldl_rel (r := Known) h.mem fun i _ m m' hm => ?_)
      exact (hexec (fun y hyv => (hy y hyv).2)
        (h.set hH hv hc.1 (fun hlv => (hy _ hlv).1 rfl) (.refl _) hm)).mem
  | .branch cond yes e no, st', hr, hform, hc => by
    simp only [replace, bind_eq_ok, pure_eq_ok] at hr
    obtain ⟨yes', hyes, no', hno, cond', hcond, rfl⟩ := hr
    obtain ⟨hfyes, hlyes, hyes⟩ := replaceList_spec hyes hform.2.1 hc.1
    obtain ⟨hfno, hlno, hno⟩ := replaceList_spec hno hform.2.2 hc.2
    obtain ⟨hocond, hcond⟩ := algebraicTable_spec hH hS hC hv hform.1 hcond
    refine ⟨⟨hocond, hfyes, hfno⟩, fun y hy => ⟨hlyes y hy.1, hlno y hy.2⟩, fun hy s s' h => ?_⟩
    have htruth : Refines ((M.eval s.view cond).bind M.toBool?)
      ((M.eval s'.view cond').bind M.toBool?) :=
      .bind (hcond h).value fun _ => .refl _
    rw [exec, exec]
    cases hb : (M.eval s.view cond).bind M.toBool? with
    | none => exact h.lost hH hv (by split <;> rfl)
    | some b =>
      rw [htruth b hb]
      cases b with
      | true => exact h.withMem hH hv (hyes (fun y hyv => (hy y hyv).1) h).mem
      | false => exact h.withMem hH hv (hno (fun y hyv => (hy y hyv).2) h).mem
  | .skip, _, hr, hform, _ | .snippet _, _, hr, hform, _ | .random _, _, hr, hform, _ | .allocate _,
    _, hr, hform, _
  | .release _, _, hr, hform, _ => by
    obtain rfl := Except.ok.inj hr
    exact ⟨hform, fun _ h => h, fun _ _ _ h => h⟩

theorem replaceList_spec : ∀ {body body'}, replaceList A
    [(.sym c, v)] body = .ok body' → FormedList H body →
    LeavesList c body → FormedList H body' ∧ (∀ y, LeavesList y body → LeavesList y body') ∧
      ((∀ y, .sym y ∈ variablesOf v → LeavesList y body) → ∀ {s s'},
        Follows M c v s s' → Follows M c v (execList M body s) (execList M body' s'))
  | [], _, hr, hform, _ => by
    obtain rfl := Except.ok.inj hr
    exact ⟨hform, fun _ h => h, fun _ _ _ h => h⟩
  | st :: r, _, hr, hform, hc => by
    simp only [replaceList, bind_eq_ok, pure_eq_ok] at hr
    obtain ⟨st', hst, r', hr, rfl⟩ := hr
    obtain ⟨hfst, hlst, hst⟩ := replace_spec hst hform.1 hc.1
    obtain ⟨hfr, hlr, hr⟩ := replaceList_spec hr hform.2 hc.2
    refine ⟨⟨hfst, hfr⟩, fun y hy => ⟨hlst y hy.1, hlr y hy.2⟩, fun hy s s' h => ?_⟩
    rw [execList_cons, execList_cons]
    exact hr (fun y hyv => (hy y hyv).2) (hst (fun y hyv => (hy y hyv).1) h)

end

end Replace

end Machine

/-! ### Parts of loops -/

namespace Loop

open Statement Machine Substitute

variable {l : Loop} {body : Body}

/-- Nothing, one cell, or a loop. -/
inductive IsPart (A : Algebra) (l : Loop) (body : Body) (start stop : Expr) : Body → Prop where
  | empty (h : (difference A stop start).int? = some 0) : IsPart A l body start stop []
  | one {one : Body} (h : (difference A stop start).int? = some 1)
      (hone : replaceList A [(l.counter, start.ofPosition)] body = .ok one) :
        IsPart A l body start stop [.block none one]
  | many (hempty : (difference A stop start).int? ≠ some 0)
    (hone : (difference A stop start).int? ≠ some 1) :
      IsPart A l body start stop [.loop { coord := l.coord, start, stop } body]

theorem part_eq_ok {p : Body} (h : l.part A body start stop = .ok p) :
    IsPart A l body start stop p := by
  unfold part at h
  split at h
  · next hnone =>
    obtain rfl := pure_eq_ok.1 h
    exact .empty hnone
  · next hone =>
    simp only [bind_eq_ok, pure_eq_ok] at h
    obtain ⟨one, hr, rfl⟩ := h
    exact .one hone hr
  · next hempty hone =>
    obtain rfl := pure_eq_ok.1 h
    exact .many hempty hone

theorem parts_of_cut {places : Exprs} (h : l.cut A body places = .ok part) :
    l.step.int? = some 1 ∧ l.parts A body l.start (places ++ [l.stop]) = .ok part := by
  unfold cut at h
  split at h
  · simp at h
  · next hstep => exact ⟨by simpa using hstep, h⟩

theorem parts_cons {places : Exprs} (h : l.parts A body start (stop :: places) = .ok part) :
    ∃ p q, IsPart A l body start stop p ∧ l.parts A body stop places = .ok q ∧ part = p ++ q := by
  simp only [parts, bind_eq_ok, pure_eq_ok] at h
  obtain ⟨p, hp, q, hq, rfl⟩ := h
  exact ⟨p, q, part_eq_ok hp, hq, rfl⟩

theorem cut_eq_ok {place : Expr} {parts : Body} (h : l.cut A body [place] = .ok parts) :
    ∃ p q, IsPart A l body l.start place p ∧ IsPart A l body place l.stop q ∧ parts = p ++ q := by
  obtain ⟨p, _, hp, hrest, rfl⟩ := parts_cons (parts_of_cut h).2
  obtain ⟨q, _, hq, hnil, rfl⟩ := parts_cons hrest
  obtain rfl := pure_eq_ok.1 hnil
  exact ⟨p, q, hp, hq, by simp⟩

theorem over_difference (hH : Operations H) (hC : A.Closed H) {P : Expr → Prop} {a b : Expr}
    (ha : Over H P a)
    (hb : Over H P b) : Over H P (difference A a b) := by
  unfold difference
  split
  · exact .lit _
  · have hneg : Over H P (A.neg b.ofPosition) :=
      hC.mul hH (by simpa using ⟨.int (-1), hb.ofPosition⟩)
    exact hC.add hH (by simpa using ⟨ha.ofPosition, hneg⟩)

end Loop

end StencilForge
