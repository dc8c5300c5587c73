import StencilForge.Proofs.Renaming

/-!
# Proofs — moving constants out of nested loops

The innermost list declares every symbol once and before it is used.  Constants leave it for the
lists around; one whose right side is already there is dropped, and its symbol is
replaced.  `Motion.Inv` says that, where the definitions that left hold, the statements that stayed
do what all of them did; `Motion.Inv.step` shows that each statement keeps it so.  What is stored,
and what is loaded from arrays that are stored to, does not leave the innermost loop, because its
position depends on the counter.
-/

open List StencilForge.Outcome

namespace StencilForge

open Function Statement Motion

variable {f : Frame} {fuel n n' : Nat} {body body' : Body} {y z : Symbol} {inner needs : Exprs}
  {st' : State}

namespace Motion

open Expr Statement Substitute

variable {V : Type} {A : Algebra} {H : Head → Prop} {M : Model V} {W : String → Prop} {c : Symbol}
variable {fs : List Frame} {rest : Body} {st : State} {start t t' : Machine.State V} {e e' : Expr}
    {x : Symbol}

/-! ### The lists around -/

def Frame.level : Frame → Loop × Body
  | .loop l before _ => (l, before)
  | f => (default, f.before)

/-- A loop with definitions in front and nothing behind. -/
def Frame.IsLevel (W : String → Prop) (f : Frame) : Prop :=
  ∃ l defs, f = .loop l defs [] ∧ ∀ s ∈ defs, IsDefinition (¬ W ·) s

/-- The outermost first. -/
def levels (fs : List Frame) : List (Loop × Body) := (fs.map Frame.level).reverse

theorem events_append (a b : List (Loop × Body)) : events (a ++ b) = events a ++ events b := by
  induction a with
  | nil => rfl
  | cons p a ih => simp [events, ih]

theorem events_levels_cons (f : Frame) (fs : List Frame) :
    events (levels (f :: fs)) = events (levels fs) ++ (f.level.2 ++ [.loop f.level.1 []]) := by
  simp [levels, events_append, events]

theorem mem_events {s : Statement} (hf : f ∈ fs) (hs : s ∈ f.level.2) : s ∈ events (levels fs) := by
  induction fs with
  | nil => cases hf
  | cons g fs ih =>
    rw [events_levels_cons]
    rcases mem_cons.1 hf with rfl | hf
    · exact mem_append_right _ (mem_append_left _ hs)
    · exact mem_append_left _ (ih hf)

theorem insertAtEnd_assigns {defs : Body} (hdefs : ∀ s ∈ defs, ∃ l e k, s = .assign l e k)
    (s : Statement) :
    Address.insertAtEnd defs s = defs ++ [s] := by
  have htail : (defs.reverse.takeWhile fun t => t.isLoop || t.isBranch) = [] := by
    rcases defs.eq_nil_or_concat with rfl | ⟨ds, d, rfl⟩
    · rfl
    · obtain ⟨l, e, k, rfl⟩ := hdefs d (by simp)
      simp [isLoop, isBranch]
  simp [Address.insertAtEnd, htail]

theorem isLevel_insertAt {k : Nat} {s : Statement} (hfs : ∀ f ∈ fs, f.IsLevel W)
    (hs : IsDefinition (¬ W ·) s) : ∀ f ∈ insertAt fs k s, f.IsLevel W := by
  intro f hf
  obtain ⟨i, hi⟩ := mem_iff_getElem?.1 hf
  rw [insertAt, getElem?_modify] at hi
  obtain ⟨g, hg, rfl⟩ := Option.map_eq_some_iff.1 hi
  obtain ⟨l, defs, rfl, hdefs⟩ := hfs g (mem_of_getElem? hg)
  split
  · refine ⟨l, defs ++ [s], ?_, forall_mem_append.2 ⟨hdefs, forall_mem_singleton.2 hs⟩⟩
    simp [Frame.withBefore, Frame.before, insertAtEnd_assigns fun d hd => (hdefs d hd).isAssign]
  · exact ⟨l, defs, rfl, hdefs⟩

theorem loops_insertAt (fs : List Frame) (k : Nat) (s : Statement) :
    (insertAt fs k s).map (·.level.1) = fs.map (·.level.1) := by
  have hlevel : ∀ f : Frame, ∀ b, (f.withBefore b).level.1 = f.level.1 :=
    fun f b => by cases f <;> rfl
  unfold insertAt
  generalize k - 1 = n
  induction fs generalizing n with
  | nil => simp
  | cons f fs ih =>
    cases n with
    | zero => simp [hlevel]
    | succ n => simpa using ih n

theorem sym_mem_definedList : .sym y ∈ definedList body ↔ ∃ s ∈ body, .sym y ∈ s.defined := by
  induction body with
  | nil => simp [definedList]
  | cons s body ih => simp [definedList, sym_mem_unionNew, ih]

theorem any_contains_of_mem (hn : .sym y ∈ needs) (hi : .sym y ∈ inner) :
    needs.any inner.contains = true :=
  any_eq_true.2 ⟨_, hn, contains_sym_iff.2 hi⟩

/-- It goes behind what it needs, and in front of the loops and the definitions that it does not
need. -/
theorem climb_split {k : Nat} (hfs : ∀ f ∈ fs, f.IsLevel W)
    (hk : climb needs inner fs = k + 1) :
    (∀ y, .sym y ∈ inner → .sym y ∉ needs) ∧ ∃ f es₁ es₂, fs[k]? = some f ∧ events
    (levels fs) = es₁ ++ es₂ ∧
      (∀ s, events (levels (insertAt fs (k + 1) s)) = es₁ ++ s :: es₂) ∧
      (∀ st ∈ es₂, ∀ y, .sym y ∈ st.defined → .sym y ∉ needs) ∧
      ∀ g gs, fs = g :: gs → .sym g.level.1.symbol ∉ needs := by
  induction fs generalizing inner k with
  | nil =>
    unfold climb at hk
    split at hk <;> simp at hk
  | cons f fs ih =>
    obtain ⟨l, defs, rfl, hdefs⟩ := hfs f mem_cons_self
    unfold climb at hk
    split at hk
    · cases hk
    next hinner =>
    replace hk : (if needs.any [l.counter].contains = true then 0
        else 1 + climb needs (unionNew (unionNew (definedList defs) [l.counter])
          (definedList [])) fs) = k + 1 := hk
    split at hk
    · cases hk
    next hown =>
    have hinner : ∀ y, .sym y ∈ inner → .sym y ∉ needs :=
      fun y hy hn => hinner (any_contains_of_mem hn hy)
    have hloop : .sym l.symbol ∉ needs :=
      fun hn => hown (any_contains_of_mem hn (mem_singleton.2 l.counter_eq.symm))
    have hhead : ∀ y, .sym y ∈ (loop l []).defined → .sym y ∉ needs := by
      intro y hy
      obtain rfl : y = l.symbol := by simpa [defined, Loop.counter_eq] using hy
      exact hloop
    refine ⟨hinner, ?_⟩
    cases hrest : climb needs (unionNew (unionNew (definedList defs) [l.counter])
      (definedList [])) fs with
    | zero =>
      obtain rfl : k = 0 := by omega
      refine ⟨_, events (levels fs) ++ defs, [.loop l []], rfl, ?_, fun s => ?_, ?_, ?_⟩
      · simp [events_levels_cons, Frame.level]
      · simp [insertAt, events_levels_cons, Frame.level, Frame.withBefore, Frame.before,
          insertAtEnd_assigns fun d hd => (hdefs d hd).isAssign]
      · intro st hst
        obtain rfl := mem_singleton.1 hst
        exact hhead
      · rintro g gs hg
        obtain ⟨rfl, rfl⟩ := cons.inj hg
        exact hloop
    | succ k' =>
      obtain rfl : k = k' + 1 := by omega
      obtain ⟨houter, f, es₁, es₂, hf, hes, hins, hes₂, -⟩ := ih (forall_mem_cons.1 hfs).2 hrest
      refine ⟨f, es₁, es₂ ++ (defs ++ [.loop l []]), hf, ?_, fun s => ?_, ?_, ?_⟩
      · simp [events_levels_cons, Frame.level, hes]
      · have : insertAt (.loop l defs [] :: fs) (k' + 1 + 1) s = .loop l defs [] :: insertAt fs
          (k' + 1) s := rfl
        simp [this, events_levels_cons, Frame.level, hins]
      · intro st hst y hy
        rcases mem_append.1 hst with hst | hst
        · exact hes₂ st hst y hy
        · rcases mem_append.1 hst with hst | hst
          · refine houter y ?_
            simp only [sym_mem_unionNew, sym_mem_definedList]
            exact .inl (.inl ⟨st, hst, hy⟩)
          · obtain rfl := mem_singleton.1 hst
            exact hhead y hy
      · rintro g gs hg
        obtain ⟨rfl, rfl⟩ := cons.inj hg
        exact hloop

/-! ### Runs of what stayed -/

open Machine (exec execList exec_assign store_sym view_resolved Solved)

/-- All statements so far lead to `t`, and those that stayed lead from `start` to `t'`, where
symbols have the values that they have in `t`, except for those still to be declared. -/
structure Tracks (W : String → Prop) (rest : Body) (st : State) (start t t' : Machine.State V) :
    Prop where
  other : ∀ x, (∀ b ∈ rest, .sym x ∉ b.defined) → (∀ p ∈ st.renamed, p.1 ≠ .sym x) →
    Refines (t.env x) (t'.env x)
  new : ∀ x y, (.sym x, .sym y) ∈ st.renamed → Refines (t.env x) (t'.env y)
  mem : ∀ p, Refines (t.mem p) (t'.mem p)
  frame : ∀ p, ¬ W p.1 → t'.mem p = start.mem p
  env : ∀ x, (∀ b ∈ st.done, .sym x ∉ b.defined) → t'.env x = start.env x

/-- Symbols that are still to be declared have no value. -/
def hidden (rest : Body) (t : Machine.State V) : View V :=
  { t.view with symbol := fun x => if (definedList rest).contains (.sym x) then none else t.env x }

theorem hidden_refines {v : Option V}
    (h : (∀ b ∈ rest, .sym x ∉ b.defined) → Refines (t.env x) v) :
    Refines ((hidden rest t).symbol x) v := by
  by_cases hx : (definedList rest).contains (.sym x) = true
  · rw [show (hidden rest t).symbol x = none from if_pos hx]
    exact .none _
  · rw [show (hidden rest t).symbol x = t.env x from if_neg hx]
    exact h fun b hb hxb => hx (contains_sym_iff.2 (sym_mem_definedList.2 ⟨b, hb, hxb⟩))

theorem hidden_keeps
    (he : ∀ b ∈ rest, ∀ y, .sym y ∈ b.defined → .sym y ∉ variablesOf e) :
    M.Keeps t.view (hidden rest t) e e := by
  refine Model.keeps_of_agree (view_resolved t) (fun y hy => .of_eq ?_)
    (fun _ _ _ => .refl _) rfl rfl
  refine (if_neg fun h => ?_).symm
  obtain ⟨b, hb, hyb⟩ := sym_mem_definedList.1 (contains_sym_iff.1 h)
  exact he b hb y hyb hy

section Runs

variable (hH : Operations H) (hS : A.Sound M H) (hC : A.Closed H) (ht : Renames st.renamed)
    (htr : Tracks W rest st start t t')

include hH hS hC ht htr

/-- The value of a right side is that of the renamed one. -/
theorem Tracks.eval (he : Over H (Source H M W c) e)
    (hfree : ∀ b ∈ rest, ∀ y, .sym y ∈ b.defined → .sym y ∉ variablesOf e)
    (hr : table A st.renamed e = .ok e') :
    Refines (M.eval t.view e) (M.eval t'.view e') := by
  have hk : M.Keeps (hidden rest t) t'.view e e' := by
    refine table_keeps hH hS hC ht (fun x hx => ?_) (fun x y hxy => ?_) (fun f k => ?_) ?_ he hr
    · exact hidden_refines fun h => htr.other x h hx
    · exact hidden_refines fun _ => htr.new x y hxy
    · exact htr.mem (f, k)
    · rfl
  exact ((hidden_keeps hfree).trans hk).value

/-- The element that is stored to is that of the renamed left side. -/
theorem Tracks.element {f : GridField} {p i : Expr} {r : Exprs} {l : Expr}
    (hl : Source H M W c (.node (.resolved f n) (p :: i :: r)))
    (hfree : ∀ b ∈ rest, ∀ y, .sym y ∈ b.defined →
      .sym y ∉ variablesOf (.node (.resolved f n) (p :: i :: r)))
    (hr : Replaced A st.renamed (.node (.resolved f n) (p :: i :: r)) l) :
    ∃ as, l = .node (.resolved f n) as ∧ Refines
      (M.element f.name 0 ((p :: i :: r).map (M.eval t.view)))
      (M.element f.name 0 (as.map (M.eval t'.view))) := by
  cases hr with
  | @resolved _ _ _ _ p' i' _ hp hi =>
    cases hl with
    | element _ _ _ hp' hi' _ =>
      have keep : ∀ {e e'}, Over H IsSymbol e → algebraicTable A st.renamed e = .ok e' →
          (∀ b ∈ rest, ∀ y, .sym y ∈ b.defined → .sym y ∉ variablesOf e) →
          Refines (M.eval t.view e) (M.eval t'.view e') := by
        intro e e' he hr hfree
        have hk : M.Keeps (hidden rest t) t'.view e e' := by
          refine algebraicTable_keeps hH hS hC ht (fun x hx => ?_) (fun x y hxy => ?_) he hr
          · exact hidden_refines fun h => htr.other x h hx
          · exact hidden_refines fun _ => htr.new x y hxy
        exact ((hidden_keeps hfree).trans hk).value
      refine ⟨p' :: i' :: r, rfl, Model.element_refines _ _ ?_ ?_⟩
      · exact keep hp' hp fun b hb y hy h => hfree b hb y hy (sym_mem_resolved.2 (.inl h))
      · exact keep hi' hi fun b hb y hy h => hfree b hb y hy (sym_mem_resolved.2 (.inr h))

end Runs

section Steps

variable {s s' : Statement} (hH : Operations H)
  (hS : A.Sound M H) (hC : A.Closed H) (ht : Renames st.renamed)
    (htr : Tracks W (s :: rest) st start t t')

include htr

theorem Tracks.others {k : Bool} {v : Option V} (hs : s = .assign (.sym x) e k)
    (hkeys : ∀ p ∈ st.renamed, p.1 ∉ s.defined) :
    (∀ y, y ≠ x → (∀ b ∈ rest, .sym y ∉ b.defined) → (∀ p ∈ st.renamed, p.1 ≠ .sym y) →
      Refines ((t.set x v).env y) (t'.env y)) ∧
      ∀ y z, (.sym y, .sym z) ∈ st.renamed → Refines ((t.set x v).env y) (t'.env z) := by
  subst hs
  refine ⟨fun y hyx hy hkey => ?_, fun y z hyz => ?_⟩
  · rw [Machine.State.set_env_of_ne _ _ hyx]
    exact htr.other y (forall_mem_cons.2 ⟨by simpa using hyx, hy⟩) hkey
  · have hyx : y ≠ x := fun h => hkeys _ hyz (mem_singleton.2 (by rw [h]))
    rw [Machine.State.set_env_of_ne _ _ hyx]
    exact htr.new y z hyz

include hH hS hC ht

theorem Tracks.stay (hs : Plain H M W c s)
    (hfree : ∀ b ∈ s :: rest, ∀ y, .sym y ∈ b.defined → .sym y ∉ needed s)
    (hkeys : ∀ p ∈ st.renamed, p.1 ∉ s.defined) (hvalues : ∀ p ∈ st.renamed, p.2 ∉ s.defined)
    (hr : s.replace A st.renamed = .ok s') :
    Tracks W rest { st with done := st.done ++ [s'] } start (exec M s t) (exec M s' t') := by
  cases hs with
  | @define x e k he =>
    obtain ⟨e', he', rfl⟩ := replace_define hH ht hkeys hr
    have hv := htr.eval hH hS hC ht he hfree he'
    obtain ⟨hother, hnew⟩ := htr.others rfl hkeys
    rw [exec_assign, exec_assign, store_sym, store_sym]
    refine ⟨fun y hy hkey => ?_, fun y z hyz => ?_, htr.mem, htr.frame, fun y hy => ?_⟩
    · by_cases hyx : y = x
      · subst hyx
        rw [Machine.State.set_env_self, Machine.State.set_env_self]
        exact hv
      · rw [Machine.State.set_env_of_ne t' _ hyx]
        exact hother y hyx hy hkey
    · have hzx : z ≠ x := fun h => hvalues _ hyz (mem_singleton.2 (by rw [h]))
      rw [Machine.State.set_env_of_ne t' _ hzx]
      exact hnew y z hyz
    · have hyx : y ≠ x := fun h => hy _ (mem_append_right _ (mem_singleton_self _))
        (mem_singleton.2 (by rw [h]))
      rw [Machine.State.set_env_of_ne _ _ hyx]
      exact htr.env y fun b hb => hy b (mem_append_left _ hb)
  | @store f n p i r e k hW hl he =>
    simp only [Statement.replace, bind_eq_ok, pure_eq_ok] at hr
    obtain ⟨l, hl', e', he', rfl⟩ := hr
    have hv := htr.eval hH hS hC ht he (fun b hb y hy h => hfree b hb y hy
      (mem_append_right _ h)) he'
    obtain ⟨as, rfl, hel⟩ := htr.element hH hS hC ht hl
      (fun b hb y hy h => hfree b hb y hy (mem_append_left _ h)) (replaced_of_table hH ht hl hl')
    refine ⟨fun y hy hkey => ?_, htr.new, Machine.write_refines hel hv htr.mem, fun q hq => ?_,
      fun y hy => ?_⟩
    · exact htr.other y (forall_mem_cons.2 ⟨not_mem_nil, hy⟩) hkey
    · rw [← htr.frame q hq]
      exact Machine.write_of_ne fun h => hq (h ▸ hW)
    · exact htr.env y fun b hb => hy b (mem_append_left _ hb)

/-- The value of a definition that leaves the list is that in front of the list. -/
theorem Tracks.leave (he : Over H (Source H M W c) e)
    (hfree : ∀ b ∈ s :: rest, ∀ y, .sym y ∈ b.defined → .sym y ∉ variablesOf e)
    (hr : table A st.renamed e = .ok e')
    (hdone : ∀ b ∈ st.done, ∀ y, .sym y ∈ b.defined → .sym y ∉ variablesOf e')
    (hload : ∀ f ∈ e'.loads, ¬ W f) :
    Refines (M.eval t.view e) (M.eval start.view e') := by
  refine (htr.eval hH hS hC ht he hfree hr).trans (.of_eq ?_)
  refine Model.eval_congr (view_resolved _) (view_resolved _) (fun y hy => ?_)
    (fun f hf k => ?_) rfl rfl
  · exact htr.env y fun b hb hyb => hdone b hb y hyb hy
  · exact htr.frame (f, k) (hload f hf)

omit hH hS hC ht

variable {x : Symbol} {e : Expr} {k : Bool} {v : Option V} (hs : s = .assign (.sym x) e k)

include hs

theorem Tracks.moved (fs : List Frame) (hkeys : ∀ p ∈ st.renamed, p.1 ∉ s.defined)
    (hdone : ∀ b ∈ st.done, .sym x ∉ b.defined) (hv : Refines v (start.env x)) :
    Tracks W rest { st with frames := fs } start (t.set x v) t' := by
  obtain ⟨hother, hnew⟩ := htr.others hs hkeys
  refine ⟨fun y hy hkey => ?_, hnew, htr.mem, htr.frame, htr.env⟩
  by_cases hyx : y = x
  · subst hyx
    rw [Machine.State.set_env_self, htr.env y hdone]
    exact hv
  · exact hother y hyx hy hkey

/-- A definition that is dropped, because another symbol has its value. -/
theorem Tracks.merged (hkeys : ∀ p ∈ st.renamed, p.1 ∉ s.defined)
    (hdone : ∀ b ∈ st.done, .sym z ∉ b.defined) (hv : Refines v (start.env z)) :
    Tracks W rest { st with renamed := st.renamed ++ [(.sym x, .sym z)] } start (t.set x v) t' := by
  obtain ⟨hother, hnew⟩ := htr.others hs hkeys
  refine ⟨fun y hy hkey => ?_, fun y y' hyy' => ?_, htr.mem, htr.frame, htr.env⟩
  · have hyx : y ≠ x := fun h => hkey _ (mem_append_right _ (mem_singleton_self _)) (by rw [h])
    exact hother y hyx hy fun p hp => hkey p (mem_append_left _ hp)
  · rcases mem_append.1 hyy' with h | h
    · exact hnew y y' h
    · obtain ⟨rfl, rfl⟩ : y = x ∧ y' = z := by simpa using h
      rw [Machine.State.set_env_self, htr.env y' hdone]
      exact hv

end Steps

/-! ### Steps -/

variable (H M W c) in
/-- Inside the loops `ls`, the innermost first, `past` is done and `rest` is still to be done. -/
structure Inv (ls : List Loop) (past rest : Body) (st : State) : Prop where
  isLevel : ∀ f ∈ st.frames, f.IsLevel W
  loops : st.frames.map (·.level.1) = ls
  counter : ∀ l r, ls = l :: r → l.symbol = c
  origin : ∀ x e k, .assign (.sym x) e k ∈ events (levels st.frames) → ∃ b ∈ past ++ rest,
    .sym x ∈ b.defined
  stayed : ∀ s ∈ st.done, Plain H M W c s
  coming : ∀ s ∈ rest, Plain H M W c s
  apart : (events (levels st.frames) ++ (st.done ++ rest)).Pairwise Apart
  self : ∀ s ∈ rest, ∀ y, .sym y ∈ s.defined → .sym y ∉ needed s
  renames : Renames st.renamed
  spared : ∀ p ∈ st.renamed, p.1 ≠ .sym c ∧ p.2 ≠ .sym c
  values : ∀ p ∈ st.renamed, ∃ d ∈ events (levels st.frames), p.2 ∈ d.defined
  keys : ∀ p ∈ st.renamed, ∀ d ∈ events (levels st.frames) ++ (st.done ++ rest), p.1 ∉ d.defined
  tracks : ∀ s s' : Machine.State V, (∀ x, (∀ b ∈ past ++ rest, .sym x ∉ b.defined) →
    Refines (s.env x) (s'.env x)) →
    (∀ p, Refines (s.mem p) (s'.mem p)) → Solved M (events (levels st.frames)) s' →
    Tracks W rest st s' (execList M past s) (execList M st.done s')

theorem pairwise_insert {as bs : Body} {s : Statement} (h : (as ++ bs).Pairwise Apart)
    (has : ∀ a ∈ as, Apart a s) (hbs : ∀ b ∈ bs, Apart s b) : (as ++ s :: bs).Pairwise Apart := by
  simp only [pairwise_append, pairwise_cons, mem_cons, forall_eq_or_imp] at h ⊢
  exact ⟨h.1, ⟨hbs, h.2.1⟩, fun a ha => ⟨has a ha, h.2.2 a ha⟩⟩

section Step

variable {ls : List Loop} {past : Body} {s s' : Statement} (hH : Operations H) (hS : A.Sound M H)
  (hC : A.Closed H) (hinv : Inv H M W c ls past (s :: rest) st)
variable {p : Expr × Expr} {b : Statement} {k : Nat}

include hinv

theorem Inv.apart_before {d : Statement} (hd : d ∈ events (levels st.frames) ++ st.done) :
    Apart d s := by
  have h := hinv.apart
  rw [← append_assoc] at h
  exact (pairwise_append.1 h).2.2 d hd s mem_cons_self

theorem Inv.apart_behind (hb : b ∈ rest) : Apart s b := by
  have h := hinv.apart
  rw [← append_assoc] at h
  exact (pairwise_cons.1 (pairwise_append.1 h).2.1).1 b hb

theorem Inv.keys_notMem (hp : p ∈ st.renamed) : p.1 ∉ s.defined := hinv.keys p hp s (by simp)

theorem Inv.values_notMem (hp : p ∈ st.renamed) (hb : b ∈ s :: rest) : p.2 ∉ b.defined := by
  obtain ⟨x, y, rfl, -⟩ := hinv.renames p hp
  obtain ⟨d, hd, hy⟩ := hinv.values _ hp
  exact fun h => (((pairwise_append.1 hinv.apart).2.2 d hd b (mem_append_right _ hb)) y h).1 hy

theorem Inv.free (hb : b ∈ s :: rest) (hy : .sym y ∈ b.defined) : .sym y ∉ needed s := by
  rcases mem_cons.1 hb with rfl | hb
  · exact hinv.self b mem_cons_self y hy
  · exact fun h => (hinv.apart_behind hb y hy).2 (needed_subset_undefined h)

include hH hS hC

theorem Inv.replaced (hr : s.replace A st.renamed = .ok s') :
    Plain H M W c s' ∧ s'.defined = s.defined ∧
      (∀ d ∈ events (levels st.frames) ++ st.done, Apart d s') ∧
      ∀ b ∈ rest, Apart s' b := by
  obtain ⟨hs', hdef, havoid⟩ := replace_plain hH hS hC hinv.renames hinv.spared
    (hinv.coming s mem_cons_self)
    (fun p hp => hinv.keys_notMem hp) hr
  refine ⟨hs', hdef, fun d hd y hy => ?_, fun b hb y hy => ?_⟩
  · exact hinv.apart_before hd y (hdef ▸ hy)
  · obtain ⟨hd, hu⟩ := hinv.apart_behind hb y hy
    refine ⟨hdef ▸ hd, havoid y (fun p hp h => ?_) hu⟩
    exact hinv.values_notMem hp (mem_cons_of_mem _ hb) (h ▸ hy)

theorem Inv.stay (hr : s.replace A st.renamed = .ok s') :
    Inv H M W c ls (past ++ [s]) rest { st with done := st.done ++ [s'] } := by
  obtain ⟨hs', hdef, hbefore, hbehind⟩ := hinv.replaced hH hS hC hr
  have happ : ∀ xs : Body, st.done ++ [s'] ++ xs = st.done ++ s' :: xs := by simp
  refine { hinv with
    origin := by simpa using hinv.origin
    stayed := forall_mem_append.2 ⟨hinv.stayed, forall_mem_singleton.2 hs'⟩
    coming := (forall_mem_cons.1 hinv.coming).2
    self := (forall_mem_cons.1 hinv.self).2
    apart := ?_, keys := ?_, tracks := ?_ }
  · have h := hinv.apart
    rw [happ, ← append_assoc]
    exact pairwise_insert (h.sublist (by simp)) hbefore hbehind
  · intro p hp d hd
    simp only [mem_append, mem_singleton] at hd
    rcases hd with hd | (hd | rfl) | hd
    case inr.inl.inr => exact hdef ▸ hinv.keys_notMem hp
    all_goals exact hinv.keys p hp d (by simp [hd])
  · intro a a' henv hmem hsolved
    rw [Machine.execList_append, Machine.execList_append]
    refine Tracks.stay hH hS hC hinv.renames (hinv.tracks a a' (fun x hx => henv x ?_) hmem hsolved)
      (hinv.coming s mem_cons_self) (fun b hb y hy => hinv.free hb hy) (fun p hp => hinv.keys_notMem hp)
      (fun p hp => hinv.values_notMem hp mem_cons_self) hr
    simpa using hx

theorem Inv.leaves (hr : s.replace A st.renamed = .ok s')
    (hk : climb s'.undefined (definedList st.done) st.frames = k + 1) :
    ∃ x e e' j, s = .assign (.sym x) e j ∧ s' = .assign (.sym x) e' j ∧ Over H (Source H M W c) e ∧
      table A st.renamed e = .ok e' ∧ .sym x ∉ variablesOf e' ∧ ∀ f ∈ e'.loads, ¬ W f := by
  obtain ⟨hs', hdef, -, -⟩ := hinv.replaced hH hS hC hr
  -- the counter of the innermost loop is not needed
  have hcounter : .sym c ∉ s'.undefined := by
    obtain ⟨-, f, es₁, es₂, hf, -, -, -, hhead⟩ := climb_split hinv.isLevel hk
    cases hfs : st.frames with
    | nil => simp [hfs] at hf
    | cons g gs => exact hinv.counter _ _ (by rw [← hinv.loops, hfs]; rfl) ▸ hhead g gs hfs
  cases hinv.coming s mem_cons_self with
  | @define x e j he =>
    obtain ⟨e', he', rfl⟩ := replace_define hH hinv.renames (fun _ => hinv.keys_notMem) hr
    refine ⟨x, e, e', j, rfl, rfl, he, he', ?_, fun f hf hW => hcounter ?_⟩
    · exact table_avoids hH hS hC hinv.renames hinv.spared
        (fun p hp h => hinv.values_notMem hp mem_cons_self (mem_singleton.2 h)) he
        (hinv.free mem_cons_self (mem_singleton_self _)) he'
    · cases hs' with
      | define _ _ he'' => exact variables_subset_undefined (.inr (counter_mem_of_loads hH he'' hW hf))
  | @store f n p i r e j hW hl he =>
    simp only [Statement.replace, bind_eq_ok, pure_eq_ok] at hr
    obtain ⟨l, hl', e', he', rfl⟩ := hr
    have hrep := replaced_of_table hH hinv.renames hl hl'
    refine absurd (variables_subset_undefined (.inl ?_)) hcounter
    have hsource := source_of_replaced hH hS hC hinv.renames hinv.spared hl hrep
    cases hrep with
    | resolved _ _ _ hp hi =>
      cases hsource with
      | element _ _ _ _ _ hmoves => exact sym_mem_resolved.2 (.inr (hmoves hW).mem_variables)

/-- A definition that goes to a list around. -/
theorem Inv.moved (hr : s.replace A st.renamed = .ok s')
    (hk : climb s'.undefined (definedList st.done) st.frames = k + 1) :
    Inv H M W c ls (past ++ [s]) rest { st with frames := insertAt st.frames (k + 1) s' } := by
  obtain ⟨hs', hdef, hbefore, hbehind⟩ := hinv.replaced hH hS hC hr
  obtain ⟨hinner, -, es₁, es₂, -, hes, hins, hes₂, -⟩ := climb_split hinv.isLevel hk
  obtain ⟨x, e, e', j, rfl, rfl, he, he', hself, hload⟩ := hinv.leaves hH hS hC hr hk
  have hsub : ∀ d, d ∈ events (levels (insertAt st.frames (k + 1) (.assign (.sym x) e' j))) ↔
      d = .assign (.sym x) e' j ∨ d ∈ events (levels st.frames) := by
    rw [hins, hes]
    simp [or_left_comm]
  have hdone : ∀ b ∈ st.done, ∀ y, .sym y ∈ b.defined → .sym y ∉ (assign (.sym x) e' j).undefined :=
    fun b hb y hy =>
    hinner y (sym_mem_definedList.2 ⟨b, hb, hy⟩)
  refine { hinv with
    isLevel := isLevel_insertAt hinv.isLevel ⟨x, e', j, rfl, hself, hload⟩
    loops := (loops_insertAt ..).trans hinv.loops
    coming := (forall_mem_cons.1 hinv.coming).2
    self := (forall_mem_cons.1 hinv.self).2
    origin := ?_, apart := ?_, values := ?_, keys := ?_, tracks := ?_ }
  · intro y d i hd
    rw [append_assoc]
    rcases (hsub _).1 hd with heq | hd
    · obtain ⟨hy, -, -⟩ := assign.inj heq
      exact ⟨_, mem_append_right _ mem_cons_self, mem_singleton.2 hy⟩
    · exact hinv.origin y d i hd
  · have h := hinv.apart
    rw [hes] at h
    rw [hins]
    have hxs : ∀ b ∈ es₂ ++ st.done, Apart (.assign (.sym x) e' j) b := by
      intro b hb y hy
      refine ⟨fun hyx => (hbefore b (by simpa [hes] using .inr (mem_append.1 hb)) y hyx).1 hy, ?_⟩
      exact forall_mem_append.2 ⟨hes₂, hdone⟩ b hb y hy
    have hold : (es₁ ++ (es₂ ++ st.done ++ rest)).Pairwise Apart := h.sublist (by simp)
    have hnew := pairwise_insert hold (fun a ha => hbefore a
      (mem_append_left _ (hes ▸ mem_append_left _ ha)))
      fun b hb => (mem_append.1 hb).elim (hxs b) (hbehind b)
    simpa using hnew
  · intro p hp
    obtain ⟨d, hd, hpd⟩ := hinv.values p hp
    exact ⟨d, (hsub d).2 (.inr hd), hpd⟩
  · intro p hp d hd
    rw [mem_append, hsub, mem_append] at hd
    rcases hd with (rfl | hd) | hd | hd
    case inl.inl => exact hdef ▸ hinv.keys_notMem hp
    all_goals exact hinv.keys p hp d (by simp [hd])
  · intro a a' henv hmem hsolved
    have htr := hinv.tracks a a' (fun x hx => henv x (by simpa using hx)) hmem
      (hsolved.mono fun d hd => (hsub d).2 (.inr hd))
    have hv := htr.leave hH hS hC hinv.renames he (fun b hb y hy => hinv.free hb hy) he'
      (fun b hb y hy h => hdone b hb y hy (variables_subset_undefined (.inr h)))
      hload
    rw [Machine.execList_append]
    refine htr.moved rfl _ (fun p hp => hinv.keys_notMem hp) (fun b hb h => ?_) ?_
    · exact (hinv.apart_before (mem_append_right _ hb) x (mem_singleton_self _)).1 h
    · rw [hsolved x e' j ((hsub _).2 (.inl rfl))]
      exact hv

omit hH hS hC in
theorem Inv.counter_notMem (hfs : st.frames = f :: fs) {j : Bool}
    (hd : .assign (.sym x) e j ∈ events (levels st.frames) ++ (st.done ++ s :: rest)) : x ≠ c := by
  rintro rfl
  have hcounter : f.level.1.symbol = x := hinv.counter _ _ (by rw [← hinv.loops, hfs]; rfl)
  have h := hinv.apart
  have hsplit : events (levels st.frames) ++ (st.done ++ s :: rest) =
      events (levels fs) ++ f.level.2 ++ .loop f.level.1 [] :: (st.done ++ s :: rest) := by
    simp [hfs, events_levels_cons]
  rw [hsplit] at h hd
  obtain ⟨-, hafter, hbefore⟩ := pairwise_append.1 h
  have hsym : .sym x ∈ (loop f.level.1 []).defined := by simp [defined, Loop.counter_eq, hcounter]
  rcases mem_append.1 hd with hd | hd
  · exact (hbefore _ hd _ mem_cons_self x hsym).1 (mem_singleton_self _)
  · rcases mem_cons.1 hd with hd | hd
    · cases hd
    · exact ((pairwise_cons.1 hafter).1 _ hd x (mem_singleton_self _)).1 hsym

/-- A definition that is dropped, because another one has the same right side. -/
theorem Inv.merged {r : Expr} {j j' : Bool}
    (hr : s.replace A st.renamed = .ok (.assign (.sym x) e' j))
    (hk : climb (assign (.sym x) e' j).undefined (definedList st.done) st.frames = k + 1)
    (hz : .assign (.sym z) r j' ∈ events (levels st.frames)) (hsame : same r e' = true) :
    Inv H M W c ls (past ++ [s]) rest { st with renamed := st.renamed ++ [(.sym x, .sym z)] } := by
  obtain ⟨hinner, f, -, -, hf, -⟩ := climb_split hinv.isLevel hk
  obtain ⟨g, gs, hfs⟩ : ∃ g gs, st.frames = g :: gs := by
    cases hfs : st.frames with
    | nil => simp [hfs] at hf
    | cons g gs => exact ⟨g, gs, rfl⟩
  obtain ⟨x', e, e'', j'', rfl, heq, he, he', -, hload⟩ := hinv.leaves hH hS hC hr hk
  obtain ⟨hx', rfl, rfl⟩ := assign.inj heq
  obtain rfl : x = x' := by simpa using hx'
  have hzdone : ∀ b ∈ st.done ++ .assign (.sym x) e j :: rest, .sym z ∉ b.defined := fun b hb h =>
    ((pairwise_append.1 hinv.apart).2.2 _ hz b hb z h).1 (mem_singleton_self _)
  have hxz : x ≠ z := fun h => hzdone _ (mem_append_right _ mem_cons_self)
    (mem_singleton.2 (by rw [h]))
  have hless : (events (levels st.frames) ++ (st.done ++ rest)).Sublist
      (events (levels st.frames) ++ (st.done ++ .assign (.sym x) e j :: rest)) := by simp
  refine { hinv with
    origin := by simpa using hinv.origin
    coming := (forall_mem_cons.1 hinv.coming).2
    self := (forall_mem_cons.1 hinv.self).2
    apart := hinv.apart.sublist hless
    values := forall_mem_append.2 ⟨hinv.values,
      forall_mem_singleton.2 ⟨_, hz, mem_singleton_self _⟩⟩
    renames := ?_, spared := ?_, keys := ?_, tracks := ?_ }
  · refine forall_mem_append.2 ⟨fun p hp => ?_, forall_mem_singleton.2 ⟨x, z, rfl, ?_⟩⟩
    · obtain ⟨a, b, rfl, hb⟩ := hinv.renames p hp
      refine ⟨a, b, rfl, forall_mem_append.2 ⟨hb, forall_mem_singleton.2 fun h => ?_⟩⟩
      exact hinv.values_notMem hp mem_cons_self (mem_singleton.2 h.symm)
    · refine forall_mem_append.2 ⟨fun q hq h => ?_, forall_mem_singleton.2 (by simpa using hxz)⟩
      exact hinv.keys q hq _ (mem_append_left _ hz) (mem_singleton.2 h)
  · have hxc := hinv.counter_notMem hfs (mem_append_right _ (mem_append_right _ mem_cons_self))
    have hzc := hinv.counter_notMem hfs (mem_append_left _ hz)
    exact forall_mem_append.2 ⟨hinv.spared,
      forall_mem_singleton.2 ⟨by simpa using hxc, by simpa using hzc⟩⟩
  · refine forall_mem_append.2 ⟨fun p hp d hd => hinv.keys p hp d (hless.subset hd),
      forall_mem_singleton.2 ?_⟩
    rw [← append_assoc]
    refine forall_mem_append.2 ⟨fun d hd => ?_, fun d hd h => ?_⟩
    · exact (hinv.apart_before hd x (mem_singleton_self _)).1
    · exact (hinv.apart_behind hd x h).1 (mem_singleton_self _)
  · intro a a' henv hmem hsolved
    have htr := hinv.tracks a a' (fun x hx => henv x (by simpa using hx)) hmem hsolved
    have hv := htr.leave hH hS hC hinv.renames he (fun b hb y hy => hinv.free hb hy) he'
      (fun b hb y hy h => hinner y (sym_mem_definedList.2 ⟨b, hb, hy⟩)
        (variables_subset_undefined (.inr h))) hload
    have hvz : Refines (M.eval a'.view e') (a'.env z) := by
      rw [hsolved z r j' hz]
      exact (Model.keeps_of_same (view_resolved _) (same_symm hsame)).value
    rw [Machine.execList_append]
    exact htr.merged rfl (fun p hp => hinv.keys_notMem hp)
      (fun b hb => hzdone b (mem_append_left _ hb)) (hv.trans hvz)

omit hH hS hC in
theorem Inv.outer (hf : f ∈ st.frames)
    (hp : p ∈ topAssignments f.before ++ topAssignments f.after) :
    ∃ z j, p.1 = .sym z ∧ .assign (.sym z) p.2 j ∈ events (levels st.frames) := by
  obtain ⟨l, defs, rfl, hdefs⟩ := hinv.isLevel f hf
  have hp : p ∈ topAssignments defs := by simpa [Frame.before, Frame.after, topAssignments] using hp
  obtain ⟨d, hd, hpd⟩ := mem_filterMap.1 hp
  obtain ⟨z, e, j, rfl, -⟩ := hdefs d hd
  obtain rfl : (.sym z, e) = p := by simpa using hpd
  exact ⟨z, j, rfl, mem_events hf hd⟩

/-- It stays, it goes to a list around, or it is dropped because another definition has its right
side. -/
theorem Inv.step_cases (hr : step A st s = .ok st') : ∃ s', s.replace A st.renamed = .ok s' ∧
    (st' = { st with done := st.done ++ [s'] } ∨
      (∃ k, climb s'.undefined (definedList st.done) st.frames = k + 1 ∧
        st' = { st with frames := insertAt st.frames (k + 1) s' }) ∨
      ∃ k x z e' r j j', s' = .assign (.sym x) e' j ∧
        climb s'.undefined (definedList st.done) st.frames = k + 1 ∧
        .assign (.sym z) r j' ∈ events (levels st.frames) ∧ same r e' = true ∧
        st' = { st with renamed := st.renamed ++ [(.sym x, .sym z)] }) := by
  obtain ⟨s', hs', hmove⟩ := bind_eq_ok.1 hr
  refine ⟨s', hs', ?_⟩
  obtain ⟨lhs, rhs, j, rfl⟩ : ∃ lhs rhs j, s' = .assign lhs rhs j := by
    cases (hinv.replaced hH hS hC hs').1 <;> exact ⟨_, _, _, rfl⟩
  simp only at hmove
  cases hk : climb (assign lhs rhs j).undefined (definedList st.done) st.frames with
  | zero =>
    rw [if_pos hk] at hmove
    exact .inl (pure_eq_ok.1 hmove).symm
  | succ k =>
    rw [hk] at hmove
    obtain ⟨-, f, -, -, hf, -⟩ := climb_split hinv.isLevel hk
    obtain ⟨x, e, e', j', rfl, heq, -⟩ := hinv.leaves hH hS hC hs' hk
    obtain ⟨rfl, rfl, rfl⟩ := assign.inj heq
    have hmem : f ∈ st.frames := mem_of_getElem? hf
    have hnone : (topAssignments f.before ++ topAssignments f.after).find?
      (·.1 == .sym x) = none := by
      refine find?_eq_none.2 fun p hp h => ?_
      obtain ⟨z, i, hz, hdef⟩ := hinv.outer hmem hp
      obtain rfl : z = x := by simpa [hz] using h
      exact (hinv.apart_before (mem_append_left _ hdef) z (mem_singleton_self _)).1
        (mem_singleton_self _)
    simp only [move, Nat.add_sub_cancel, hf, hnone] at hmove
    cases hfind : (topAssignments f.before ++ topAssignments f.after).find? (·.2 == rhs) with
    | none =>
      rw [hfind] at hmove
      exact .inr (.inl ⟨k, rfl, (pure_eq_ok.1 hmove).symm⟩)
    | some p =>
      rw [hfind] at hmove
      obtain ⟨z, i, hz, hdef⟩ := hinv.outer hmem (mem_of_find?_eq_some hfind)
      have hget : st.renamed.get? (.sym x) = none := by
        refine Option.map_eq_none_iff.2 (find?_eq_none.2 fun q hq h => ?_)
        exact hinv.keys_notMem hq (mem_singleton.2 (beq_sym_iff.1 h))
      have hmove := (pure_eq_ok.1 hmove).symm
      rw [Table.insert_of_get?_eq_none hget, hz] at hmove
      have hsame : (p.2 == rhs) = true := by simpa using find?_some hfind
      exact .inr (.inr ⟨k, x, z, rhs, p.2, j, i, rfl, rfl, hdef, hsame, hmove⟩)

theorem Inv.step (hr : step A st s = .ok st') : Inv H M W c ls (past ++ [s]) rest st' := by
  obtain ⟨s', hs', rfl | ⟨k, hk, rfl⟩ | ⟨k, x, z, e', r, j, j', rfl, hk, hz, hsame, rfl⟩⟩ :=
    hinv.step_cases hH hS hC hr
  · exact hinv.stay hH hS hC hs'
  · exact hinv.moved hH hS hC hs' hk
  · exact hinv.merged hH hS hC hs' hk hz hsame

end Step

theorem Inv.run (hH : Operations H) (hS : A.Sound M H) (hC : A.Closed H) {ls : List Loop}
    {past : Body}
    (hinv : Inv H M W c ls past rest st) (hr : rest.foldlM (Motion.step A) st = .ok st') :
    Inv H M W c ls (past ++ rest) [] st' := by
  induction rest generalizing past st with
  | nil =>
    obtain rfl := pure_eq_ok.1 hr
    simpa using hinv
  | cons s rest ih =>
    obtain ⟨st₁, h₁, hr⟩ := bind_eq_ok.1 hr
    simpa using ih (hinv.step hH hS hC h₁) hr

/-! ### Nests -/

theorem nest_append (a b : List (Loop × Body)) (body : Body) :
    nest (a ++ b) body = nest a (nest b body) := by
  induction a with
  | nil => rfl
  | cons p a ih => simp [nest, ih]

theorem replaceBound_nil (e : Expr) : replaceBound A [] e = .ok e := by
  unfold replaceBound
  split
  · rfl
  · exact algebraicTable_nil e

mutual

theorem replace_nil : ∀ s : Statement, s.replace A [] = .ok s
  | .assign lhs rhs k => rfl
  | .block p body => by rw [Statement.replace, replaceList_nil body]; rfl
  | .loop l body => by
    rw [Statement.replace, replaceList_nil body, replaceBound_nil, replaceBound_nil,
      replaceBound_nil]
    rfl
  | .branch cond yes e no => by
    rw [Statement.replace, replaceList_nil yes, replaceList_nil no, algebraicTable_nil]
    rfl
  | .skip | .snippet _ | .random _ | .allocate _ | .release _ => by rw [Statement.replace] <;> nofun

theorem replaceList_nil : ∀ body : Body, replaceList A [] body = .ok body
  | [] => rfl
  | s :: body => by rw [replaceList, replace_nil s, replaceList_nil body]; rfl

end

variable {ls : List Loop}

theorem inside_assignments {before after : Body}
    (h : ∀ s ∈ after, ∃ l r k, s = .assign l r k) :
    inside A fuel fs n before after = .ok (before ++ after, fs, n) := by
  induction after generalizing fuel before with
  | nil => cases fuel <;> simp [inside]
  | cons s after ih =>
    obtain ⟨l, r, k, rfl⟩ := h s mem_cons_self
    cases fuel with
    | zero => rfl
    | succ fuel =>
      rw [inside, ih (forall_mem_cons.1 h).2, append_assoc]
      all_goals simp

/-- The innermost first, before anything is moved. -/
def enter (ls : List Loop) (fs : List Frame) :
    List Frame := (ls.map fun l => Frame.loop l [] []).reverse ++ fs

/-- Moving constants out of a nest works on its innermost list. -/
theorem list_nest {fs' : List Frame}
    (hfuel : 3 * ls.length < fuel)
    (hfold : ∀ st, body.foldlM (step A) { frames := enter ls fs, fresh := n } = .ok st →
      (∀ s ∈ st.done, ∃ l r k, s = .assign l r k) ∧ (∀ f ∈ st.frames, f.IsLevel W) ∧
        st.frames.map (·.level.1) = (enter ls fs).map (·.level.1))
    (hr : list A fuel fs n (nest (ls.map (·, [])) body) = .ok (body', fs', n')) :
    ∃ st, body.foldlM (step A) { frames := enter ls fs, fresh := n } = .ok st ∧
      (∃ pre, st.frames = pre ++ fs' ∧ pre.length = ls.length) ∧
      nest (levels fs') body' = nest (levels st.frames) st.done := by
  induction ls generalizing fuel n' fs fs' body' with
  | nil =>
    obtain _ | fuel := fuel
    · cases hfuel
    obtain ⟨st, hst, hr⟩ := bind_eq_ok.1 hr
    rw [inside_assignments (hfold st hst).1] at hr
    obtain ⟨rfl, rfl, rfl⟩ : st.done = body' ∧ st.frames = fs' ∧ st.fresh = n' := by simpa using hr
    exact ⟨st, hst, ⟨[], rfl, rfl⟩, rfl⟩
  | cons l ls ih =>
    have henter : enter (l :: ls) fs = enter ls (.loop l [] [] :: fs) := by simp [enter]
    obtain ⟨fuel, rfl⟩ : ∃ k, fuel = k + 3 := ⟨fuel - 3, by simp only [length_cons] at hfuel; omega⟩
    simp only [length_cons] at hfuel
    -- the list holds the loop only, which stays
    have hstep : step A { frames := fs, fresh := n } (.loop l (nest (ls.map (·, [])) body)) =
        .ok { frames := fs, done := [.loop l (nest (ls.map (·, [])) body)], fresh := n } := by
      rw [step, replace_nil]
      rfl
    rw [map_cons, nest, nil_append, list, foldlM_cons, hstep] at hr
    replace hr : inside A (fuel + 2) fs n [] [.loop l (nest (ls.map (·, [])) body)] =
      .ok (body', fs', n') := hr
    obtain ⟨⟨inner, g, gs, m⟩, hopened, hr⟩ := bind_eq_ok.1 hr
    obtain ⟨⟨inner', hs, m'⟩, hlist, hopened⟩ := bind_eq_ok.1 hopened
    rw [henter] at hfold ⊢
    obtain ⟨st, hst, ⟨pre, hpre, hlen⟩, hnest⟩ := ih (by omega) hfold hlist
    obtain ⟨-, hlevel, hloops⟩ := hfold st hst
    refine ⟨st, hst, ?_⟩
    -- the frame of the loop, with what was moved in front of it
    obtain ⟨g', gs', rfl, hg⟩ : ∃ g' gs', hs = g' :: gs' ∧ g'.level.1 = l := by
      have hsplit : pre.map (·.level.1) ++ hs.map (·.level.1) = ls.reverse ++ l :: fs.map
        (·.level.1) := by
        rw [← map_append, ← hpre, hloops]
        simp [enter, Frame.level, comp_def]
      obtain ⟨-, hhs⟩ := append_inj hsplit (by simp [hlen])
      obtain ⟨g', gs', rfl, hg, -⟩ := map_eq_cons_iff.1 hhs
      exact ⟨g', gs', rfl, hg⟩
    obtain ⟨rfl, rfl, rfl, rfl⟩ : inner' = inner ∧ g' = g ∧ gs' = gs ∧ m' = m :=
      by simpa using hopened
    replace hr : inside A (fuel + 1) gs' m' (g'.before ++ [.loop l inner']) [] =
      .ok (body', fs', n') := hr
    rw [inside_assignments (by simp), append_nil] at hr
    obtain ⟨rfl, rfl, -⟩ : g'.before ++ [.loop l inner'] = body' ∧ gs' = fs' ∧ m' = n' :=
      by simpa using hr
    obtain ⟨l', defs, rfl, -⟩ := hlevel g' (by simp [hpre])
    obtain rfl : l' = l := hg
    refine ⟨⟨pre ++ [.loop l' defs []], by simp [hpre], by simp [hlen]⟩, ?_⟩
    rw [← hnest]
    simp [levels, nest_append, nest, Frame.level, Frame.before]

theorem moveConstants_nest
    (hfold : ∀ st, body.foldlM (step A) { frames := enter ls [], fresh := n } = .ok st →
      (∀ s ∈ st.done, ∃ l r k, s = .assign l r k) ∧ (∀ f ∈ st.frames, f.IsLevel W) ∧
        st.frames.map (·.level.1) = (enter ls []).map (·.level.1))
    (hr : moveConstants A n (nest (ls.map (·, [])) body) = .ok (body', n')) :
    ∃ st, body.foldlM (step A) { frames := enter ls [], fresh := n } = .ok st ∧
      body' = nest (levels st.frames) st.done := by
  have hsize : ∀ ls : List Loop, ls.length ≤ sizeList (nest (ls.map (·, [])) body) := by
    intro ls
    induction ls with
    | nil => simp
    | cons l ls ih => simpa [nest, Statement.sizeList, Statement.size] using ih
  obtain ⟨⟨b, fs', m⟩, hlist, hr⟩ := bind_eq_ok.1 hr
  obtain ⟨rfl, rfl⟩ : b = body' ∧ m = n' := by simpa using hr
  have hfuel := hsize ls
  obtain ⟨st, hst, ⟨pre, hpre, hlen⟩, hnest⟩ := list_nest (by omega) hfold hlist
  obtain rfl : fs' = [] := by
    have hcount := congrArg length (hfold st hst).2.2
    simp only [hpre, length_map, length_append, enter, length_reverse, length_nil] at hcount
    exact length_eq_zero_iff.1 (by omega)
  exact ⟨st, hst, hnest⟩

theorem mem_events_heads {s : Statement} :
    s ∈ events (ls.map (·, [])) ↔ ∃ l ∈ ls, s = .loop l [] := by
  induction ls with
  | nil => simp [events]
  | cons l ls ih => simp [events, ih]

theorem levels_enter : levels (enter ls []) = ls.map (·, []) := by simp [levels, enter, Frame.level]

variable (H M W c) in
/-- The list `inner` of a nest that constants are moved out of. -/
structure Ready (ls : List Loop) (inner : Body) : Prop where
  plain : ∀ s ∈ inner, Plain H M W c s
  counter : ∀ l r, ls.reverse = l :: r → l.symbol = c
  apart : (events (ls.map (·, [])) ++ inner).Pairwise Apart
  self : ∀ s ∈ inner, ∀ y, .sym y ∈ s.defined → .sym y ∉ needed s

theorem Inv.init (h : Ready H M W c ls body) :
    Inv H M W c ls.reverse [] body { frames := enter ls [], fresh := n } := by
  refine { isLevel := ?_, loops := ?_, counter := h.counter, origin := ?_, stayed := by simp, coming := h.plain, apart := ?_,
           self := h.self, renames := by simp [Renames], spared := by simp, values := by simp, keys := by simp, tracks := ?_ }
  · intro f hf
    obtain ⟨l, -, rfl⟩ : ∃ l ∈ ls, Frame.loop l [] [] = f := by simpa [enter] using hf
    exact ⟨l, [], rfl, by simp⟩
  · simp [enter, Frame.level, comp_def]
  · intro x e k hd
    rw [levels_enter] at hd
    obtain ⟨l, -, heq⟩ := mem_events_heads.1 hd
    cases heq
  · simpa [levels_enter] using h.apart
  · intro s s' henv hmem hsolved
    exact ⟨fun x hx _ => henv x hx, by simp, hmem, fun _ _ => rfl, fun _ _ => rfl⟩

theorem moveConstants_inv (hH : Operations H) (hS : A.Sound M H) (hC : A.Closed H)
    (h : Ready H M W c ls body)
    (hr : moveConstants A n (nest (ls.map (·, [])) body) = .ok (body', n')) :
    ∃ st, body.foldlM (step A) { frames := enter ls [], fresh := n } = .ok st ∧
      body' = nest (levels st.frames) st.done ∧ (levels st.frames).map (·.1) = ls ∧
        Inv H M W c ls.reverse body [] st := by
  have hinv : ∀ st, body.foldlM (step A) { frames := enter ls [], fresh := n } = .ok st →
      Inv H M W c ls.reverse body [] st := fun st hst => (Inv.init h).run hH hS hC hst
  obtain ⟨st, hst, rfl⟩ := moveConstants_nest (fun st hst => by
    have hinv := hinv st hst
    refine ⟨fun s hs => ?_, hinv.isLevel, hinv.loops.trans (by simp [enter, Frame.level, comp_def])⟩
    cases hinv.stayed s hs <;> exact ⟨_, _, _, rfl⟩) hr
  refine ⟨st, hst, rfl, ?_, hinv st hst⟩
  have hloops := congrArg reverse (hinv st hst).loops
  simpa [levels, comp_def] using hloops

end Motion

end StencilForge
