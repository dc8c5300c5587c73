import StencilForge.Kernel.Constraint
import StencilForge.Proofs.Outcome
import StencilForge.Proofs.Variables

/-!
# Proofs — what the check of a list of assignments sees

`Constraint.seen` lists what the check looks at; exponents and positions of accesses are not among
it.  A check that succeeds has noted each of them (`Constraint.expression_run`);
`Constraint.Visited` says case by case what an expression becomes.
-/

open List StencilForge.Outcome

namespace StencilForge

open Table Expr

variable {f : GridField} {n : Nat} {k : Bool} {as bs : Exprs} {u : Unit} {x : Symbol}
    {a e e' : Expr}
  {st : Statement}

namespace Constraint

variable {A : Algebra} {numbers : Bool}

/-! ### Uses of variables -/

def noted (s : State) : Expr → State
  | .node (.access f n k) as =>
    { s with read := unionNew s.read (f :: Access.indirectFields (.node (.access f n k) as)) }
  | e => { s with scopes := s.scopes.access e }

def slot? : Expr → Option Slot
  | .node (.access f n _) as => some ⟨f, as.drop n⟩
  | _ => none

/-- A slot that is known to be written is written at the offsets of an access of it. -/
def Agrees (s : State) (e : Expr) : Prop := ∀ a ∈ slot? e, ∀ o ∈ s.writes.get? a,
    (o == e.offsets) = true

theorem noted_keeps (s : State) (e : Expr) :
    (noted s e).types = s.types ∧ (noted s e).strict = s.strict ∧
    (noted s e).writes = s.writes := by
  unfold noted; split <;> exact ⟨rfl, rfl, rfl⟩

theorem Agrees.sym (s : State) (x : Symbol) : Agrees s (.sym x) := nofun

theorem use_access_run {s s' : State}
    (h : (use A (.node (.access f n k) as)).run s = .ok (u, s')) :
    s' = noted s (.node (.access f n k) as) ∧
      (s.strict = true → Agrees s (.node (.access f n k) as)) := by
  simp only [use, field?, noteRead, run_bind_eq_ok] at h
  obtain ⟨_, _, ⟨rfl, rfl⟩, h⟩ := h
  split at h
  · split at h
    · next w hw =>
      split at h
      · simp at h
      · next hne =>
        refine ⟨symm (by simpa [noted] using h), ?_⟩
        rintro - _ ⟨⟩ o ho
        obtain rfl : w = o := Option.mem_unique hw ho
        simpa [bne] using hne
    · next hw =>
      refine ⟨symm (by simpa [noted] using h), ?_⟩
      rintro - _ ⟨⟩ o ho
      cases hw.symm.trans ho
  · next hstrict => exact ⟨symm (by simpa [noted] using h), fun hs => absurd hs hstrict⟩

/-! ### Visited expressions -/

mutual

def seen : Expr → Exprs
  | .atom a => match a with
    | .sym x => [.sym x]
    | _ => []
  | .node h as => match h, as with
    | .access f n k, as => [.node (.access f n k) as]
    | .element, _ | .resolved .., _ => []
    | .cast _, e :: _ :: _ => seen e
    | .pow, [b, _] => seen b
    | _, as => seenList as

def seenList : Exprs → Exprs
  | [] => []
  | a :: as => seen a ++ seenList as

end

variable {s s' : State}

variable (A numbers) in
inductive Visited : Expr → State → Expr → State → Prop where
  | typed {s : State} {x : Symbol} (hx : x.isTyped = true) : Visited (.sym x) s (.sym x)
    (noted s (.sym x))
  | untyped {s : State} {x : Symbol} {text : String} {t : DataType} (hx : x.isTyped = false)
      (htext : s.types.get x.name = .ok text) (ht : DataType.ofText text = .ok t) :
      Visited (.sym x) s (.typedSymbol x.name t) (noted s (.sym x))
  | number {s : State} {n : Number} {t : DataType} :
    Visited (.num n) s (Build.cast .plain (.num n) [.type t]) s
  | atom {s : State} {a : Atom} (ha : ∀ x, a ≠ .sym x) : Visited (.atom a) s (.atom a) s
  | access {s : State} {f : GridField} {n : Nat} {k : Bool} {as : Exprs}
      (h : s.strict = true → Agrees s (.node (.access f n k) as)) :
      Visited (.node (.access f n k) as) s (.node (.access f n k) as)
        (noted s (.node (.access f n k) as))
  | element {s : State} {as : Exprs} : Visited (.node .element as) s (.node .element as) s
  | resolved {s : State} {f : GridField} {n : Nat} {as : Exprs} :
      Visited (.node (.resolved f n) as) s (.node (.resolved f n) as) s
  | product {s s' : State} {as bs : Exprs} {e : Expr}
    (hf : (factors A numbers as).run s = .ok (bs, s'))
      (hb : Build.node A .mul bs = .ok e) : Visited (.mul as) s e s'
  | cast {s s' : State} {k : CastKind} {a b t : Expr} {rest : Exprs}
      (ha : (expression A false a).run s = .ok (b, s')) :
      Visited (.node (.cast k) (a :: t :: rest)) s (Build.cast .plain b [t]) s'
  | power {s s' : State} {a b x e : Expr} (ha : (expression A numbers a).run s = .ok (b, s'))
      (hb : Build.node A .pow [b, x] = .ok e) : Visited (.pow a x) s e s'
  | node {s s' : State} {h : Head} {as bs : Exprs} {e : Expr} (hh : ∀ f n k, h ≠ .access f n k)
      (hseen : seen (.node h as) = seenList as) (has : (expressions A numbers as).run s = .ok (bs,
        s'))
      (hb : if bs.isEmpty then e = .node h as else Build.node A h
        (Visit.withHidden h as bs) = .ok e) :
      Visited (.node h as) s e s'

theorem typed_run {name : String} (h : (typed name).run s = .ok (e, s')) :
    s' = s ∧ ∃ text t, s.types.get name = .ok text ∧ DataType.ofText text = .ok t ∧
      e = .typedSymbol name t := by
  simp only [typed, run_bind_eq_ok, run_lift_eq_ok] at h
  obtain ⟨_, _, ⟨rfl, rfl⟩, text, _, ⟨htext, rfl⟩, t, _, ⟨ht, rfl⟩, rfl, rfl⟩ := h
  exact ⟨rfl, text, t, htext, ht, rfl⟩

theorem expression_visited (h : (expression A numbers e).run s = .ok (e', s')) :
    Visited A numbers e s e' s' := by
  cases e with
  | atom a =>
    cases a with
    | sym x =>
      simp only [expression, run_bind_eq_ok] at h
      obtain ⟨_, t, hu, h⟩ := h
      obtain rfl : noted s (.sym x) = t := by simpa [use, noted] using hu
      split at h
      · next hx =>
        obtain ⟨rfl, rfl⟩ := run_pure_eq_ok.1 h
        exact .typed hx
      · next hx =>
        obtain ⟨rfl, text, t, htext, ht, rfl⟩ := typed_run h
        exact .untyped (by simpa using hx) (by rwa [(noted_keeps ..).1] at htext) ht
    | num n =>
      simp only [expression] at h
      split at h
      · simp only [constant, run_bind_eq_ok, run_lift_eq_ok] at h
        obtain ⟨_, _, ⟨rfl, rfl⟩, _, _, ⟨-, rfl⟩, t, _, ⟨-, rfl⟩, rfl, rfl⟩ := h
        exact .number
      · obtain ⟨rfl, rfl⟩ := run_pure_eq_ok.1 h
        exact .atom (by simp)
    | _ =>
      obtain ⟨rfl, rfl⟩ := run_pure_eq_ok.1 h
      exact .atom (by simp)
  | node hd as =>
    unfold expression at h
    split at h
    · simp only [run_bind_eq_ok] at h
      obtain ⟨_, _, hu, rfl, rfl⟩ := h
      obtain ⟨rfl, hag⟩ := use_access_run hu
      exact .access hag
    · obtain ⟨rfl, rfl⟩ := run_pure_eq_ok.1 h
      exact .element
    · obtain ⟨rfl, rfl⟩ := run_pure_eq_ok.1 h
      exact .resolved
    · simp only [run_bind_eq_ok, run_lift_eq_ok] at h
      obtain ⟨bs, _, hf, hb, rfl⟩ := h
      exact .product hf hb
    · simp only [run_bind_eq_ok] at h
      obtain ⟨b, _, ha, rfl, rfl⟩ := h
      exact .cast ha
    · simp only [run_bind_eq_ok, run_lift_eq_ok] at h
      obtain ⟨b, _, ha, hb, rfl⟩ := h
      exact .power ha hb
    · next hacc helem hres hmul hcast hpow =>
      simp only [run_bind_eq_ok] at h
      obtain ⟨bs, t, has, h⟩ := h
      have hseen : seen (.node hd as) = seenList as := by
        unfold seen
        split
        · exact absurd rfl (hacc _ _ _)
        · exact absurd rfl helem
        · exact absurd rfl (hres _ _)
        · exact (hcast _ _ _ _ rfl rfl).elim
        · exact (hpow _ _ rfl rfl).elim
        · rfl
      split at h
      · next hnil =>
        obtain ⟨rfl, rfl⟩ := run_pure_eq_ok.1 h
        exact .node hacc hseen has (by rw [if_pos hnil])
      · next hcons =>
        obtain ⟨hb, rfl⟩ := run_lift_eq_ok.1 h
        exact .node hacc hseen has (by rwa [if_neg hcons])

variable (A numbers) in
/-- Arguments one after the other; some units stay as they are. -/
inductive VisitedList : Exprs → State → Exprs → State → Prop where
  | nil {s : State} : VisitedList [] s [] s
  | unit {s s' : State} {a : Expr} {as bs : Exprs} (ha : isUnit a = true)
    (has : VisitedList as s bs s') :
      VisitedList (a :: as) s (a :: bs) s'
  | cons {s t s' : State} {a b : Expr} {as bs : Exprs}
    (ha : (expression A numbers a).run s = .ok (b, t))
      (has : VisitedList as t bs s') : VisitedList (a :: as) s (b :: bs) s'

theorem expressions_visited (h : (expressions A numbers as).run s = .ok (bs, s')) :
    VisitedList A numbers as s bs s' := by
  induction as generalizing s bs with
  | nil =>
    obtain ⟨rfl, rfl⟩ := run_pure_eq_ok.1 h
    exact .nil
  | cons a as ih =>
    simp only [expressions, run_bind_eq_ok] at h
    obtain ⟨b, t, hb, cs, _, hcs, rfl, rfl⟩ := h
    exact .cons hb (ih hcs)

theorem factors_visited (h : (factors A numbers as).run s = .ok (bs, s')) :
    VisitedList A numbers as s bs s' := by
  induction as generalizing s bs with
  | nil =>
    obtain ⟨rfl, rfl⟩ := run_pure_eq_ok.1 h
    exact .nil
  | cons a as ih =>
    rw [factors] at h
    split at h
    · next hu =>
      simp only [run_bind_eq_ok] at h
      obtain ⟨_, _, ⟨rfl, rfl⟩, cs, _, hcs, rfl, rfl⟩ := h
      exact .unit hu (ih hcs)
    · simp only [run_bind_eq_ok] at h
      obtain ⟨b, t, hb, cs, _, hcs, rfl, rfl⟩ := h
      exact .cons hb (ih hcs)

/-! ### What has been noted -/

/-- The variables were noted one after the other, and all reads agree with earlier writes. -/
structure Noted (s : State) (xs : Exprs) (s' : State) : Prop where
  state : s' = xs.foldl noted s
  agrees : s.strict = true → ∀ a ∈ xs, Agrees s a

namespace Noted

variable {s t s' : State} {xs ys : Exprs}

theorem nil (s : State) : Noted s [] s := ⟨rfl, fun _ => nofun⟩

theorem single (h : s.strict = true → Agrees s a) : Noted s [a] (noted s a) :=
  ⟨rfl, fun hs _ hb => mem_singleton.1 hb ▸ h hs⟩

theorem keeps (h : Noted s xs s') : s'.strict = s.strict ∧ s'.writes = s.writes := by
  rw [h.state]
  refine foldlRecOn (motive := fun t : State => t.strict = s.strict ∧ t.writes = s.writes) xs _
    ⟨rfl, rfl⟩ fun t ht x _ => ?_
  rwa [(noted_keeps t x).2.1, (noted_keeps t x).2.2]

theorem append (h : Noted s xs t) (h' : Noted t ys s') : Noted s (xs ++ ys) s' := by
  refine ⟨by rw [foldl_append, ← h.state, ← h'.state], fun hs a ha => ?_⟩
  rcases mem_append.1 ha with ha | ha
  · exact h.agrees hs a ha
  · have := h'.agrees (h.keeps.1.trans hs) a ha
    rwa [Agrees, h.keeps.2] at this

end Noted

theorem seen_of_isUnit (h : isUnit a = true) : seen a = [] := by
  unfold isUnit at h
  split at h
  · rfl
  · cases h

/-- An expression that passes the check has been looked at as a whole. -/
theorem expression_run (h : (expression A numbers e).run s = .ok (e', s')) :
    Noted s (seen e) s' := by
  induction e using sizeInduction generalizing numbers s e' s' with
  | step e ih =>
    have all : ∀ {as bs s s'}, (∀ a ∈ as, a.size < e.size) → VisitedList A numbers as s bs s' → Noted s (seenList as) s' := by
      intro as bs s s' hsize hvisited
      induction hvisited with
      | nil => exact .nil _
      | unit hu _ ihas =>
        rw [seenList, seen_of_isUnit hu]
        exact ihas (forall_mem_cons.1 hsize).2
      | cons ha _ ihas => exact (ih _ (hsize _ mem_cons_self) ha).append (ihas (forall_mem_cons.1 hsize).2)
    cases expression_visited h with
    | typed _ | untyped _ _ _ => exact .single fun _ => .sym s _
    | number => exact .nil s
    | atom ha =>
      rename_i a
      have : seen (.atom a) = [] := by
        cases a with
        | sym x => exact absurd rfl (ha x)
        | _ => rfl
      exact this ▸ .nil s
    | access hag => exact .single hag
    | element | resolved => exact .nil s
    | product hf hb => exact all (fun a ha => size_lt_of_mem ha) (factors_visited hf)
    | cast ha => exact ih _ (size_lt_of_mem mem_cons_self) ha
    | power ha hb => exact ih _ (size_lt_of_mem mem_cons_self) ha
    | node hh hseen has hb => exact hseen ▸ all (fun a ha => size_lt_of_mem ha) (expressions_visited has)

/-! ### Writes -/

namespace Slot

def canonical (a : Slot) : GridField × Exprs := (a.field, a.index.map Expr.canonical)

theorem beq_iff {a b : Slot} : (a == b) = true ↔ a.canonical = b.canonical := by
  change (a.field == b.field && a.index == b.index) = true ↔ _
  rw [Bool.and_eq_true, beq_iff_eq, beq_list_iff, canonical, canonical, Prod.mk.injEq]

theorem get?_congr {t : Table Slot Exprs} {a b : Slot} (h : a.canonical = b.canonical) :
    t.get? a = t.get? b := by
  have : (fun p : Slot × Exprs => p.1 == a) = fun p => p.1 == b := by
    funext p
    rw [Bool.eq_iff_iff, beq_iff, beq_iff, h]
  rw [get?, get?, this]

end Slot

variable {s s' : State}

/-- The slot of an access is known to be written at the offsets of the access. -/
def Recorded (s : State) (w : Expr) : Prop := ∃ a ∈ slot? w, ∃ o ∈ s.writes.get? a,
    (o == w.offsets) = true

/-- It was neither assigned in the innermost scope nor used as a parameter. -/
theorem target_sym_run (h : (target (.sym x)).run s = .ok (e, s')) :
    ∃ c r, s.scopes.stack = c :: r ∧ .sym x ∉ c ∧ .sym x ∉ s.scopes.free ∧
      s' = { s with scopes := { s.scopes with stack := (c ++ [.sym x]) :: r } } ∧
      if x.isTyped then e = .sym x else ∃ text t, s.types.get x.name = .ok text ∧
        DataType.ofText text = .ok t ∧
        e = .typedSymbol x.name t := by
  simp only [target, run_bind_eq_ok, run_lift_eq_ok] at h
  obtain ⟨_, _, ⟨rfl, rfl⟩, local?, _, ⟨hlocal, rfl⟩, h⟩ := h
  unfold Scopes.isDefinedLocally at hlocal
  split at hlocal
  · cases hlocal
  · next c r hstack =>
    obtain rfl := Except.ok.inj hlocal
    refine ⟨c, r, hstack, ?_⟩
    split at h
    · simp at h
    · next hc =>
      split at h
      · simp at h
      · next hfree =>
        simp only [Scopes.define, hstack, if_neg hc, run_bind_eq_ok, run_set_eq_ok] at h
        obtain ⟨_, _, ⟨⟨⟩, rfl⟩, _, _, rfl, h⟩ := h
        rw [contains_sym_iff] at hc hfree
        refine ⟨hc, hfree, ?_⟩
        split at h
        · next hx =>
          obtain ⟨rfl, rfl⟩ := run_pure_eq_ok.1 h
          exact ⟨rfl, by rw [if_pos hx]⟩
        · next hx =>
          obtain ⟨rfl, text, t, htext, ht, rfl⟩ := typed_run h
          exact ⟨rfl, by rw [if_neg hx]; exact ⟨text, t, htext, ht, rfl⟩⟩

/-- The slot is written at its offsets, and nothing else changes. -/
theorem target_access_run
    (h : (target (.node (.access f n k) as)).run s = .ok (e, s')) :
    e = .node (.access f n k) as ∧ Recorded s' e ∧ (∃ writes, s' = { s with writes }) ∧
      (∀ a, ∀ o ∈ s.writes.get? a, o ∈ s'.writes.get? a) ∧ Agrees s e := by
  simp only [target, run_bind_eq_ok] at h
  obtain ⟨_, _, ⟨rfl, rfl⟩, h⟩ := h
  split at h
  · next w hw =>
    split at h
    · simp at h
    · next hne =>
      obtain ⟨rfl, rfl⟩ := run_pure_eq_ok.1 (by simpa using h)
      have hoff : (w == (node (.access f n k) as).offsets) = true := by simpa [bne] using hne
      refine ⟨rfl, ⟨_, rfl, w, hw, hoff⟩, ⟨s.writes, rfl⟩, fun _ _ ho => ho, ?_⟩
      rintro _ ⟨⟩ o ho
      obtain rfl : w = o := Option.mem_unique hw ho
      exact hoff
  · next hw =>
    obtain ⟨_, _, rfl, rfl, rfl⟩ := h
    refine ⟨rfl, ⟨_, rfl, (node (.access f n k) as).offsets, ?_, beq_list_iff.2 rfl⟩, ⟨_, rfl⟩, ?_,
      ?_⟩
    · rw [insert_of_get?_eq_none hw, get?_append]
      change s.writes.get? ⟨f, as.drop n⟩ = none at hw
      rw [hw]
      simp [get?, Slot.beq_iff, index]
    · intro a o ho
      rw [Option.mem_def]
      rw [insert_of_get?_eq_none hw, get?_append, ho, Option.some_or]
    · rintro _ ⟨⟩ o ho
      cases hw.symm.trans ho

/-! ### Lists of assignments -/

def Assignments (body : Body) : Prop := ∀ s ∈ body, ∃ lhs rhs k, s = .assign lhs rhs k

theorem statement_assign_run {lhs rhs : Expr}
    (h : (statement A (.assign lhs rhs k)).run s = .ok (st, s')) : ∃ rhs' t lhs',
      (expression A true rhs).run s = .ok (rhs', t) ∧ (target lhs).run t = .ok (lhs', s') ∧
        st = .set lhs' rhs' := by
  simp only [statement, run_bind_eq_ok] at h
  obtain ⟨rhs', t, hr, lhs', _, hl, rfl, rfl⟩ := h
  exact ⟨rhs', t, lhs', hr, hl, rfl⟩

theorem statements_cons_run {body out : Body}
    (h : (statements A (st :: body)).run s = .ok (out, s')) : ∃ st' t rest,
      (statement A st).run s = .ok (st', t) ∧ (statements A body).run t = .ok (rest, s') ∧
        out = st' :: rest := by
  simp only [statements, run_bind_eq_ok] at h
  obtain ⟨st', t, hs, rest, _, hr, rfl, rfl⟩ := h
  exact ⟨st', t, rest, hs, hr, rfl⟩

theorem statements_append_run {pre post out : Body}
    (h : (statements A (pre ++ post)).run s = .ok (out, s')) : ∃ a t b,
      (statements A pre).run s = .ok (a, t) ∧ (statements A post).run t = .ok (b, s') ∧
        out = a ++ b := by
  induction pre generalizing s out with
  | nil => exact ⟨[], s, out, rfl, h, rfl⟩
  | cons st pre ih =>
    obtain ⟨st', t, rest, hs, hr, rfl⟩ := statements_cons_run h
    obtain ⟨a, u, b, ha, hb, rfl⟩ := ih hr
    refine ⟨st' :: a, u, b, ?_, hb, rfl⟩
    simp only [statements, run_bind_eq_ok, run_pure_eq_ok]
    exact ⟨st', t, hs, a, u, ha, rfl, rfl⟩

end Constraint

end StencilForge
