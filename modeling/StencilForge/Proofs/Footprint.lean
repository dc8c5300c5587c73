import StencilForge.Proofs.Hoisting
import StencilForge.Proofs.Whole

/-!
# Proofs — the elements that a kernel touches

`Machine.touched` lists the elements that a statement reads or writes; where it is not known which
ones, the list says so.  A nest of loops touches what its innermost list touches, with the
definitions in front of the loops in force (`Machine.touched_nest`).  Moving constants out makes it
touch nothing else (`Motion.touched_moveConstants`), as long as every position depends on the
innermost counter: then only definitions without elements leave the loops.
-/

open List

namespace StencilForge

/-! ### Bounds of loops -/

section Bounds

variable {l : Loop} {ls : List Loop}

namespace Machine

open Statement

variable {V : Type} {M : Model V}

theorem rounds_congr {H : Head → Prop} (hH : Operations H)
    (hl : ∀ e ∈ l.bounds, Expr.Over H Substitute.IsSymbol e)
    {s s' : State V} (henv : ∀ e ∈ l.bounds, ∀ x, .sym x ∈ variablesOf e → s.env x = s'.env x) :
    rounds M s l = rounds M s' l :=
  rounds_eq fun e he => Motion.eval_of_symbols hH (hl e he) (henv e he)

end Machine

namespace Motion

open Expr Statement Substitute Machine

variable {V : Type} {A : Algebra} {H : Head → Prop} {M : Model V} {W : String → Prop} {c : Symbol}

theorem sym_mem_head {e : Expr} {x : Symbol} (he : e ∈ l.bounds) (hx : .sym x ∈ variablesOf e)
    (hne : x ≠ l.symbol) :
    .sym x ∈ (loop l []).undefined := by
  have hjoin : .sym x ∈ joinNew (l.bounds.map variablesOf) :=
    sym_mem_joinNew.2 ⟨_, mem_map_of_mem he, hx⟩
  have hcounter : [l.counter].contains (.sym x) = false := by
    refine Bool.eq_false_iff.2 fun h => hne ?_
    rw [Loop.counter_eq] at h
    simpa using h
  simp only [undefined, without, mem_filter, hcounter, Bool.not_false, and_true, sym_mem_unionNew]
  exact .inr hjoin

theorem Ready.bounds_notMem {inner : Body} {b : Statement} {e : Expr} {x : Symbol}
    (h : Ready H M W c ls inner)
    (hl : l ∈ ls) (he : e ∈ l.bounds) (hx : .sym x ∈ variablesOf e) (hne : x ≠ l.symbol)
    (hb : b ∈ inner) :
    .sym x ∉ b.defined := fun hdef =>
  ((pairwise_append.1 h.apart).2.2 _ (mem_events_heads.2 ⟨l, hl, rfl⟩) b hb x hdef).2
    (sym_mem_head he hx hne)

end Motion

end Bounds

open Model Expr

variable {V : Type} {H : Head → Prop} {M : Model V} {e : Expr} {inner moved : Body} {n n' : Nat}

/-- By the name of the array and the distance from its first element; `none` is an element that is
not known. -/
abbrev Touch := Option (String × Int)

/-! ### Expressions -/

namespace Model

mutual

/-- The elements that the value of an expression is read from. -/
def touches (M : Model V) (w : View V) : Expr → List Touch
  | .atom _ => []
  | .node h as => match h, as with
    | .access .., _ => [none]
    | .resolved f _, p :: i :: r =>
      (M.element f.name w.shift (M.evalList w (p :: i :: r))).map (f.name, ·) ::
        (touches M w p ++ touches M w i)
    | .resolved .., _ => [none]
    | .cast .vectorAccess, as => touchesList M w.atLane as
    | _, as => touchesList M w as

def touchesList (M : Model V) (w : View V) : Exprs → List Touch
  | [] => []
  | a :: as => touches M w a ++ touchesList M w as

end

variable {w : View V} {P : Expr → Prop}

theorem touches_node (hH : Operations H) {h : Head} (hh : H h) (as : Exprs) :
    M.touches w (.node h as) = as.flatMap (M.touches w) := by
  have hlist : M.touchesList w as = as.flatMap (M.touches w) := by
    induction as with
    | nil => rfl
    | cons a as ih => rw [touchesList, ih, flatMap_cons]
  have hop := hH.operation hh
  unfold touches
  split
  · cases hop
  · cases hop
  · cases hop
  · cases hop
  · exact hlist

theorem touches_resolved (f : GridField) (n : Nat) (p i : Expr) (r : Exprs) :
    M.touches w (.node (.resolved f n) (p :: i :: r)) =
      (M.element f.name w.shift ((p :: i :: r).map (M.eval w))).map (f.name, ·) ::
        (M.touches w p ++ M.touches w i) := by
  simp only [touches, evalList_eq_map]

theorem exists_leaf_of_touches (hH : Operations H) (he : Over H P e) {t : Touch}
    (ht : t ∈ M.touches w e) :
    ∃ x, x.isPlace = true ∧ P x ∧ t ∈ M.touches w x := by
  induction he with
  | leaf hplace hp => exact ⟨_, hplace, hp, ht⟩
  | atom ha => cases ht
  | node hh _ ih =>
    rw [touches_node hH hh, mem_flatMap] at ht
    obtain ⟨a, ha, ht⟩ := ht
    exact ih a ha ht

theorem touches_of_symbols (hH : Operations H) (he : Over H Substitute.IsSymbol e) :
    M.touches w e = [] := by
  refine eq_nil_iff_forall_not_mem.2 fun t ht => ?_
  obtain ⟨_, -, ⟨s, rfl⟩, ht⟩ := exists_leaf_of_touches hH he ht
  cases ht

open Statement in
theorem over_parts (hH : Operations H) (he : Over H P e) :
    Over H (fun x => P x ∧ (∀ w, ∀ t ∈ M.touches w x, t ∈ M.touches w e) ∧
      ∀ y, .sym y ∈ variablesOf x → .sym y ∈ variablesOf e) e := by
  induction he with
  | leaf hplace hp => exact .leaf hplace ⟨hp, fun _ _ h => h, fun _ h => h⟩
  | atom ha => exact .atom ha
  | @node h as hh _ ih =>
    refine .node hh fun a ha => (ih a ha).imp fun x _ hx => ⟨hx.1, fun w t ht => ?_, fun y hy => ?_⟩
    · rw [touches_node hH hh, mem_flatMap]
      exact ⟨a, ha, hx.2.1 w t ht⟩
    · exact (Over.sym_mem_variables_iff hH hh).2 ⟨a, ha, hx.2.2 y hy⟩

end Model

/-! ### Statements -/

namespace Machine

open Statement

mutual

/-- Where it is not known what runs, they are not known either. -/
def touched (M : Model V) : Statement → State V → List Touch
  | .assign lhs rhs _, s => M.touches s.view lhs ++ M.touches s.view rhs
  | .block _ body, s => touchedList M body s
  | .loop l body, s => l.bounds.flatMap (M.touches s.view) ++ match rounds M s l with
    | some is => (is.foldl (fun (acc : Memory V × List Touch) i =>
      let t := { s with mem := acc.1 }.set l.symbol (some (M.int i))
      ((execList M body t).mem, acc.2 ++ touchedList M body t)) (s.mem, [])).2
    | none => [none]
  | .branch cond yes _ no, s => M.touches s.view cond ++ match (M.eval s.view cond).bind M.toBool?
    with
    | some true => touchedList M yes s
    | some false => touchedList M no s
    | none => [none]
  | _, _ => []

def touchedList (M : Model V) : Body → State V → List Touch
  | [], _ => []
  | st :: r, s => touched M st s ++ touchedList M r (exec M st s)

end

theorem touchedList_append (a b : Body) (s : State V) :
    touchedList M (a ++ b) s = touchedList M a s ++ touchedList M b (execList M a s) := by
  induction a generalizing s with
  | nil => rfl
  | cons st a ih => simp [touchedList, ih]

theorem touchedList_single (st : Statement) (s : State V) :
    touchedList M [st] s = touched M st s := by
  simp [touchedList]

theorem touched_assign (lhs rhs : Expr) (k : Bool) (s : State V) :
    touched M (.assign lhs rhs k) s = M.touches s.view lhs ++ M.touches s.view rhs := rfl

theorem exists_round_of_touched {l : Loop} {body : Body} {s : State V} {is : Ints}
    (hbounds : ∀ e ∈ l.bounds, M.touches s.view e = []) (hr : rounds M s l = some is) {t : Touch}
    (ht : t ∈ touched M (.loop l body) s) :
    ∃ i ∈ is, ∃ m, t ∈ touchedList M body ({ s with mem := m }.set l.symbol (some (M.int i))) := by
  have hb : l.bounds.flatMap (M.touches s.view) = [] := flatMap_eq_nil_iff.2 hbounds
  rw [touched, hb, hr] at ht
  revert ht
  refine foldlRecOn (motive := fun acc : Memory V × List Touch => t ∈ acc.2 → _) is _
    (absurd · not_mem_nil)
    fun acc ih i hi h => ?_
  exact (mem_append.1 h).elim ih fun h => ⟨i, hi, _, h⟩

/-! ### Nests -/

theorem touchedList_definitions (hH : Operations H) {defs : Body}
    (hdefs : ∀ st ∈ defs, ∃ x e k, st = .assign (.sym x) e k ∧ Over H Substitute.IsSymbol e)
    (s : State V) :
    touchedList M defs s = [] := by
  induction defs generalizing s with
  | nil => rfl
  | cons st defs ih =>
    obtain ⟨x, e, k, rfl, he⟩ := hdefs st mem_cons_self
    rw [touchedList, ih (forall_mem_cons.1 hdefs).2, touched_assign, touches_of_symbols hH he]
    rfl

/-- The definitions hold there, the counters are at one of their rounds, and all other symbols have
their values. -/
theorem touched_nest (hH : Operations H) (values : Loop → Ints)
    {ls : List (Loop × Body)} {es : Body}
    (hes : ∀ x e k, .assign (.sym x) e k ∈ es → ∀ f ∈ e.loads, False)
    (hls : ∀ p ∈ ls, (∀ e ∈ p.1.bounds, Over H Substitute.IsSymbol e) ∧ ∀ st ∈ p.2,
      IsDefinition (fun _ => False) st ∧ ∃ x e k, st = .assign (.sym x) e k ∧
        Over H Substitute.IsSymbol e)
    (hpair : (es ++ events ls).Pairwise Apart) {s : State V} (hs : Solved M es s)
    (hrounds : ∀ p ∈ ls, ∀ s' : State V, (∀ x, (∀ st ∈ events ls, .sym x ∉ st.defined) →
      s'.env x = s.env x) →
      rounds M s' p.1 = some (values p.1)) {t : Touch} (ht : t ∈ touchedList M (nest ls inner) s) :
    ∃ s' : State V, (∀ x, (∀ st ∈ events ls, .sym x ∉ st.defined) → s'.env x = s.env x) ∧
      Solved M (es ++ events ls) s' ∧
      (∀ p ∈ ls, ∃ i ∈ values p.1, s'.env p.1.symbol = some (M.int i)) ∧
        t ∈ touchedList M inner s' := by
  induction ls generalizing es s with
  | nil => exact ⟨s, fun _ _ => rfl, by simpa [events] using hs, nofun, ht⟩
  | cons p ls ih =>
    obtain ⟨l, defs⟩ := p
    obtain ⟨hbounds, hdefs⟩ := hls _ mem_cons_self
    have happ : es ++ events ((l, defs) :: ls) = es ++ defs ++ [.loop l []] ++ events ls :=
      by simp [events]
    rw [happ] at hpair ⊢
    -- the definitions in front of the loop
    have hpair' := hpair.sublist (sublist_append_left _ _)
    obtain ⟨-, -, hother⟩ := execList_definitions (fun st hst => (hdefs st hst).1)
      (hpair'.sublist (sublist_append_left _ _)) hs
    obtain ⟨hloads, hround⟩ := hs.round hes (fun st hst => (hdefs st hst).1) hpair'
    rw [nest, touchedList_append, touchedList_definitions hH fun st hst => (hdefs st hst).2,
      touchedList_single] at ht
    have hframe : ∀ x, (∀ st ∈ events ((l, defs) :: ls), .sym x ∉ st.defined) →
      (execList M defs s).env x = s.env x :=
      fun x hx => hother x fun st hst => hx st (by simp [events, hst])
    -- one round
    obtain ⟨i, hi, m, ht⟩ := exists_round_of_touched
      (fun e he => touches_of_symbols hH (hbounds e he))
      (hrounds _ mem_cons_self _ hframe) ht
    set t₁ : State V := { execList M defs s with mem := m }.set l.symbol (some (M.int i)) with ht₁
    have hframe₁ : ∀ x, (∀ st ∈ events ((l, defs) :: ls), .sym x ∉ st.defined) →
      t₁.env x = s.env x := by
      intro x hx
      have hxl : x ≠ l.symbol := fun h => hx (.loop l []) (by simp [events])
        (by simp [defined, Loop.counter_eq, h])
      rw [State.set_env_of_ne _ _ hxl]
      exact hframe x hx
    obtain ⟨s', henv, hs', hcount, ht⟩ :=
      ih hloads (forall_mem_cons.1 hls).2 hpair (hround m i fun _ h => h.elim)
      (fun p hp s' hs' => hrounds p (mem_cons_of_mem _ hp) s' fun x hx =>
        (hs' x fun st hst => hx st (by simp [events, hst])).trans (hframe₁ x hx)) ht
    refine ⟨s', fun x hx => ?_, hs', forall_mem_cons.2 ⟨⟨i, hi, ?_⟩, hcount⟩, ht⟩
    · exact (henv x fun st hst => hx st (by simp [events, hst])).trans (hframe₁ x hx)
    · refine (henv l.symbol fun st hst hdef => ?_).trans (State.set_env_self ..)
      have hhead := (pairwise_append.1 hpair).2.2 (.loop l []) (by simp) st hst l.symbol hdef
      exact hhead.1 (by simp [defined, Loop.counter_eq])

end Machine

/-! ### Moving constants -/

namespace Motion

open Expr Statement Substitute Machine

variable {A : Algebra} {W : String → Prop} {c : Symbol} {ls : List Loop}

theorem symbols_of_loads (hH : Operations H) (he : Over H (Source H M W c) e) (hl : e.loads = []) :
    Over H IsSymbol e := by
  induction he with
  | leaf hplace hp =>
    cases hp with
    | sym s => exact .sym ⟨s, rfl⟩
    | element f n r _ _ _ => exact absurd (mem_loads_resolved _) (hl ▸ not_mem_nil)
  | atom ha => exact .atom ha
  | @node h as hh _ ih =>
    refine .node hh fun a ha => ih a ha (eq_nil_iff_forall_not_mem.2 fun f hf => ?_)
    have := mem_loads_of_mem (by rwa [hH.visible hh]) hf
    rw [hl] at this
    cases this

section Touches

variable {rest : Body} {st : State} {start t t' : Machine.State V} (hH : Operations H)
    (hS : A.Sound M H)
  (hC : A.Closed H) (ht : Renames st.renamed) (hc : ∀ p ∈ st.renamed, p.1 ≠ .sym c ∧ p.2 ≠ .sym c)
  (htr : Tracks W rest st start t t')

include hH hS hC ht hc htr

/-- A renamed expression touches what the expression touched, where that is known. -/
theorem Tracks.touches {e' : Expr} (he : Over H (Source H M W c) e)
    (hfree : ∀ b ∈ rest, ∀ y, .sym y ∈ b.defined → .sym y ∉ variablesOf e)
    (hr : table A st.renamed e = .ok e')
    (hknown : none ∉ M.touches t.view e) : ∀ a ∈ M.touches t'.view e', a ∈ M.touches t.view e := by
  have hover : Over H (fun y => ∀ a ∈ M.touches t'.view y, a ∈ M.touches t.view e) e' := by
    refine table_over hH (fun p hp => (symbols_of_renames ht hp).1) (fun f n as h => ?_) hC
      (fun x y hx hp hrep => ?_)
      (over_parts (M := M) hH he) hr
    · cases h.1
      exact ⟨_, _, _, rfl⟩
    · obtain ⟨hsource, htouch, hvars⟩ := hp
      cases hrep with
      | sym s =>
        rcases get?_sym_cases ht s with ⟨z, -, heq⟩ | ⟨-, heq⟩ <;> rw
          [heq] <;> exact .sym fun a ha => nomatch ha
      | access => cases hsource
      | @resolved f n p i p' i' r hp hi =>
        have hrep : Replaced A st.renamed (.node (.resolved f n) (p :: i :: r))
          (.node (.resolved f n) (p' :: i' :: r)) :=
          .resolved f n r hp hi
        refine .leaf rfl fun a ha => ?_
        have ha : a = (M.element f.name 0 ((p' :: i' :: r).map (M.eval t'.view))).map
          (f.name, ·) := by
          cases source_of_replaced hH hS hC ht hc hsource hrep with
          | element _ _ _ hp' hi' _ =>
            rw [touches_resolved, touches_of_symbols hH hp', touches_of_symbols hH hi'] at ha
            exact mem_singleton.1 ha
        obtain ⟨as, has, hrefines⟩ := htr.element hH hS hC ht hsource
          (fun b hb y hy h => hfree b hb y hy (hvars y h)) hrep
        obtain ⟨-, rfl⟩ := node.inj has
        have hmem : (M.element f.name 0 ((p :: i :: r).map (M.eval t.view))).map
          (f.name, ·) ∈ M.touches t.view e :=
          htouch t.view _ mem_cons_self
        cases hel : M.element f.name 0 ((p :: i :: r).map (M.eval t.view)) with
        | none =>
          rw [hel] at hmem
          exact absurd hmem hknown
        | some k =>
          rw [ha, hrefines k hel, ← hel]
          exact hmem
  intro a ha
  obtain ⟨x, -, hx, ha⟩ := exists_leaf_of_touches hH hover ha
  exact hx a ha

end Touches

variable (H M W c) in
/-- What is in front of the loops reads symbols and elements, and what stayed touches what all
statements touch. -/
structure Covered (past : Body) (st : State) : Prop where
  source : ∀ x e k, .assign (.sym x) e k ∈ events (levels st.frames) → Over H (Source H M W c) e
  made : ∀ d ∈ st.done, ∀ y, .sym y ∈ d.defined → ∃ b ∈ past, .sym y ∈ b.defined
  touches : ∀ s : Machine.State V, Solved M (events (levels st.frames)) s →
    none ∉ touchedList M past s →
    ∀ a ∈ touchedList M st.done s, a ∈ touchedList M past s

section Covered

variable {past rest : Body} {s : Statement} {st st' : State} (hH : Operations H) (hS : A.Sound M H)
  (hC : A.Closed H)

include hH hS hC

theorem Inv.touched_stay (hinv : Inv H M W c ls past (s :: rest) st) {s' : Statement}
    (hr : s.replace A st.renamed = .ok s')
    {t : Machine.State V} (hsolved : Solved M (events (levels st.frames)) t)
    (hknown : none ∉ touched M s (execList M past t)) :
    ∀ a ∈ touched M s' (execList M st.done t), a ∈ touched M s (execList M past t) := by
  have htr := hinv.tracks t t (fun _ _ => .refl _) (fun _ => .refl _) hsolved
  have both : ∀ {e e'}, Over H (Source H M W c) e →
    (∀ y, .sym y ∈ variablesOf e → .sym y ∈ needed s) →
      table A st.renamed e = .ok e' → none ∉ M.touches (execList M past t).view e →
      ∀ a ∈ M.touches (execList M st.done t).view e', a ∈ M.touches (execList M past t).view e :=
        fun he hneed hr hknown =>
    htr.touches hH hS hC hinv.renames hinv.spared he
      (fun b hb y hy h => hinv.free hb hy (hneed y h)) hr hknown
  cases hinv.coming s mem_cons_self with
  | @define x e k he =>
    obtain ⟨e', he', rfl⟩ := replace_define hH hinv.renames (fun _ => hinv.keys_notMem) hr
    exact both he (fun y hy => hy) he' hknown
  | @store f n p i r e k hW hl he =>
    simp only [Statement.replace, Outcome.bind_eq_ok, Outcome.pure_eq_ok] at hr
    obtain ⟨l, hl', e', he', rfl⟩ := hr
    rw [touched_assign, mem_append, not_or] at hknown
    intro a ha
    rw [touched_assign, mem_append] at ha ⊢
    refine ha.imp (both (.leaf rfl hl) (fun y hy => ?_) hl' hknown.1 a)
      (both he (fun y hy => ?_) he' hknown.2 a)
    · exact mem_append_left _ hy
    · exact mem_append_right _ hy

theorem Covered.step (hcov : Covered H M W c past st) (hinv : Inv H M W c ls past (s :: rest) st)
    (hr : step A st s = .ok st') : Covered H M W c (past ++ [s]) st' := by
  have before : ∀ {t : Machine.State V}, none ∉ touchedList M (past ++ [s]) t →
    Solved M (events (levels st.frames)) t →
      ∀ a ∈ touchedList M st.done t, a ∈ touchedList M (past ++ [s]) t := by
    intro t hknown hsolved a ha
    rw [touchedList_append] at hknown ⊢
    exact mem_append_left _ (hcov.touches t hsolved (fun h => hknown (mem_append_left _ h)) a ha)
  have hmade : ∀ d ∈ st.done, ∀ y, .sym y ∈ d.defined → ∃ b ∈ past ++ [s], .sym y ∈ b.defined :=
    fun d hd y hy => by
    obtain ⟨b, hb, hyb⟩ := hcov.made d hd y hy
    exact ⟨b, mem_append_left _ hb, hyb⟩
  obtain ⟨s', hs', rfl | ⟨k, hk, rfl⟩ | ⟨k, x, z, e', r, j, j', rfl, hk, hz, hsame, rfl⟩⟩ :=
    hinv.step_cases hH hS hC hr
  · have hlast : ∀ y, .sym y ∈ s'.defined → ∃ b ∈ past ++ [s], .sym y ∈ b.defined := fun y hy =>
      ⟨s, by simp, (hinv.replaced hH hS hC hs').2.1 ▸ hy⟩
    refine ⟨hcov.source, forall_mem_append.2 ⟨hmade, forall_mem_singleton.2 hlast⟩,
      fun t hsolved hknown a ha => ?_⟩
    rw [touchedList_append, touchedList_single] at ha
    rcases mem_append.1 ha with ha | ha
    · exact before hknown hsolved a ha
    · rw [touchedList_append, touchedList_single] at hknown ⊢
      exact mem_append_right _ (hinv.touched_stay hH hS hC hs' hsolved
        (fun h => hknown (mem_append_right _ h)) a ha)
  · obtain ⟨-, -, es₁, es₂, -, hes, hins, -⟩ := climb_split hinv.isLevel hk
    have hmem : ∀ d, d ∈ events (levels (insertAt st.frames (k + 1) s')) ↔
      d = s' ∨ d ∈ events (levels st.frames) := by
      rw [hins, hes]
      simp [or_left_comm]
    refine ⟨fun x e j hd => ?_, hmade, fun t hsolved hknown => ?_⟩
    · rcases (hmem _).1 hd with rfl | hd
      · cases (hinv.replaced hH hS hC hs').1 with
        | define _ _ he => exact he
      · exact hcov.source x e j hd
    · exact before hknown (hsolved.mono fun d hd => (hmem d).2 (.inr hd))
  · exact ⟨hcov.source, hmade, fun t hsolved hknown => before hknown hsolved⟩

theorem Covered.run (hcov : Covered H M W c past st) (hinv : Inv H M W c ls past rest st)
    (hr : rest.foldlM (Motion.step A) st = .ok st') : Covered H M W c (past ++ rest) st' := by
  induction rest generalizing past st with
  | nil =>
    obtain rfl := Outcome.pure_eq_ok.1 hr
    simpa using hcov
  | cons s rest ih =>
    obtain ⟨st₁, h₁, hr⟩ := Outcome.bind_eq_ok.1 hr
    simpa using ih (hcov.step hH hS hC hinv h₁) (hinv.step hH hS hC h₁) hr

end Covered

/-- In front of the innermost list there are definitions and heads of loops. -/
theorem mem_events_cases {fs : List Frame} (hfs : ∀ f ∈ fs, f.IsLevel W) {d : Statement}
    (hd : d ∈ events (levels fs)) :
    (∃ x e k, d = .assign (.sym x) e k) ∨ ∃ p ∈ levels fs, d = .loop p.1 [] := by
  induction fs with
  | nil => cases hd
  | cons f fs ih =>
    have hlevels : levels (f :: fs) = levels fs ++ [f.level] := by simp [levels]
    rw [events_levels_cons, mem_append, mem_append] at hd
    rw [hlevels]
    rcases hd with hd | hd | hd
    · refine (ih (forall_mem_cons.1 hfs).2 hd).imp_right fun h => ?_
      obtain ⟨p, hp, h⟩ := h
      exact ⟨p, by simp [hp], h⟩
    · obtain ⟨l, defs, rfl, hdefs⟩ := hfs f mem_cons_self
      obtain ⟨x, e, k, rfl, -⟩ := hdefs d hd
      exact .inl ⟨x, e, k, rfl⟩
    · exact .inr ⟨f.level, by simp, mem_singleton.1 hd⟩

theorem moveConstants_covered (hH : Operations H) (hS : A.Sound M H) (hC : A.Closed H)
    (h : Ready H M W c ls inner) (hr : moveConstants A n (nest (ls.map (·, [])) inner) = .ok (moved,
      n')) :
    ∃ st : State, moved = nest (levels st.frames) st.done ∧ (levels st.frames).map (·.1) = ls ∧
      Inv H M W c ls.reverse inner [] st ∧ Covered H M W c inner st := by
  obtain ⟨st, hst, hmoved, hloops, hinv⟩ := moveConstants_inv hH hS hC h hr
  have hcov : Covered H M W c [] { frames := enter ls [], fresh := n } := by
    refine ⟨fun x e k hd => ?_, fun d hd => absurd hd not_mem_nil, fun s _ _ a ha => ha⟩
    rw [levels_enter] at hd
    obtain ⟨l, -, heq⟩ := mem_events_heads.1 hd
    cases heq
  exact ⟨st, hmoved, hloops, hinv, hcov.run hH hS hC (Inv.init h) hst⟩

/-- What is defined in front of the innermost list comes from it, or is a counter. -/
theorem Inv.notMem_events {ls' : List Loop} {st : State} {x : Symbol}
    (hinv : Inv H M W c ls' inner [] st)
    (hloops : (levels st.frames).map (·.1) = ls) (hx : ∀ b ∈ inner, .sym x ∉ b.defined)
    (hxl : ∀ l ∈ ls, x ≠ l.symbol)
    {d : Statement} (hd : d ∈ events (levels st.frames)) : .sym x ∉ d.defined := by
  intro hdef
  rcases mem_events_cases hinv.isLevel hd with ⟨y, e, k, rfl⟩ | ⟨p, hp, rfl⟩
  · obtain rfl : x = y := by simpa using hdef
    obtain ⟨b, hb, hxb⟩ := hinv.origin x e k hd
    exact hx b (by simpa using hb) hxb
  · exact hxl _ (hloops ▸ mem_map_of_mem hp) (by simpa [defined, Loop.counter_eq] using hdef)

theorem Inv.exists_definition {st : State} {p : Loop × Body} {d : Statement}
    (hinv : Inv H M W c ls inner [] st) (hcov : Covered H M W c inner st)
    (hp : p ∈ levels st.frames) (hd : d ∈ p.2) :
    ∃ x e k, d = .assign (.sym x) e k ∧ Over H (Source H M W c) e ∧ .sym x ∉ variablesOf e ∧
      ∀ f ∈ e.loads, ¬ W f := by
  obtain ⟨f, hf, rfl⟩ : ∃ f ∈ st.frames, f.level = p := by simpa [levels] using hp
  obtain ⟨l, defs, rfl, hdefs⟩ := hinv.isLevel f hf
  obtain ⟨x, e, k, rfl, hdef⟩ := hdefs d hd
  exact ⟨x, e, k, rfl, hcov.source x e k (mem_events hf hd), hdef⟩

/-- What is touched is touched by the innermost list, with the counters at some of their rounds. -/
theorem touched_moveConstants (hH : Operations H) (hS : A.Sound M H) (hC : A.Closed H)
    (h : Ready H M (fun _ => True) c ls inner)
    (hbounds : ∀ l ∈ ls, ∀ e ∈ l.bounds, Over H IsSymbol e ∧ ∀ k ∈ ls,
      .sym k.symbol ∉ variablesOf e)
    (hr : moveConstants A n (nest (ls.map (·, [])) inner) = .ok (moved, n')) {s : Machine.State V}
    (hrounds : ∀ l ∈ ls, (rounds M s l).isSome) {Q : Touch → Prop} (hQ : ∀ s' : Machine.State V,
      (∀ x, (∀ b ∈ inner, .sym x ∉ b.defined) → (∀ l ∈ ls, x ≠ l.symbol) → s'.env x = s.env x) →
      (∀ l ∈ ls, ∃ i ∈ (rounds M s l).getD [], s'.env l.symbol = some (M.int i)) →
      ∀ a ∈ touchedList M inner s', a ≠ none ∧ Q a) : ∀ a ∈ touchedList M moved s, Q a := by
  intro a ha
  obtain ⟨st, rfl, hloops, hinv, hcov⟩ := moveConstants_covered hH hS hC h hr
  have hmem : ∀ p ∈ levels st.frames, p.1 ∈ ls := fun p hp => hloops ▸ mem_map_of_mem hp
  have hneed : ∀ l ∈ ls, ∀ e ∈ l.bounds, ∀ x, .sym x ∈ variablesOf e →
    ∀ d ∈ events (levels st.frames), .sym x ∉ d.defined := by
    intro l hl e he x hx d hd
    have hcounter : ∀ k ∈ ls, x ≠ k.symbol := fun k hk h => (hbounds l hl e he).2 k hk (h ▸ hx)
    exact hinv.notMem_events hloops (fun b hb => h.bounds_notMem hl he hx
      (hcounter l hl) hb) hcounter hd
  have hlevels : ∀ p ∈ levels st.frames, (∀ e ∈ p.1.bounds, Over H IsSymbol e) ∧ ∀ d ∈ p.2,
      IsDefinition (fun _ => False) d ∧ ∃ x e k, d = .assign (.sym x) e k ∧ Over H IsSymbol e := by
    intro p hp
    refine ⟨fun e he => (hbounds p.1 (hmem p hp) e he).1, fun d hd => ?_⟩
    obtain ⟨x, e, k, rfl, he, hx, hload⟩ := hinv.exists_definition hcov hp hd
    have hnone : e.loads = [] := eq_nil_iff_forall_not_mem.2 fun f hf => hload f hf trivial
    exact ⟨⟨x, e, k, rfl, hx, by simp [hnone]⟩, x, e, k, rfl, symbols_of_loads hH he hnone⟩
  have hvalues : ∀ p ∈ levels st.frames, ∀ s' : Machine.State V,
      (∀ x, (∀ d ∈ events (levels st.frames), .sym x ∉ d.defined) → s'.env x = s.env x) →
      rounds M s' p.1 = some ((rounds M s p.1).getD []) := by
    intro p hp s' hs'
    have hl := hmem p hp
    rw [rounds_congr hH (fun e he => (hbounds p.1 hl e he).1) fun e he x hx => hs' x
      (hneed p.1 hl e he x hx)]
    obtain ⟨is, his⟩ := Option.isSome_iff_exists.1 (hrounds p.1 hl)
    rw [his, Option.getD_some]
  have hstart : Solved M [] s := by simp [Solved]
  obtain ⟨s', henv, hsolved, hcount, ha⟩ := touched_nest hH (fun l => (rounds M s l).getD [])
    (fun _ _ _ h => absurd h not_mem_nil) hlevels
    (by simpa using (pairwise_append.1 hinv.apart).1) hstart hvalues ha
  have hstate := hQ s' (fun x hx hxl => henv x fun _ => hinv.notMem_events hloops hx hxl)
    fun l hl => by
    obtain ⟨p, hp, rfl⟩ : ∃ p ∈ levels st.frames, p.1 = l := by simpa [← hloops] using hl
    exact hcount p hp
  exact (hstate a (hcov.touches s' (by simpa using hsolved)
    (fun h => (hstate none h).1 rfl) a ha)).2

end Motion

end StencilForge
