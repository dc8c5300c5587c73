import StencilForge.Proofs.Addresses
import StencilForge.Proofs.Checking
import StencilForge.Proofs.Rebuilding

/-!
# Proofs — the statements of one cell

Every symbol is assigned once and not used before, and fields are accessed at integers
(`Statement.Straight`).  Names of pointers, extents and counters are reserved
(`Name.Reserved`).  Giving types to symbols keeps this (`Constraint.run_straight`).
-/

open List StencilForge.Outcome

namespace StencilForge

open Expr Counter Access

variable {H : Head → Prop} {x : Extent} {P Q : GridField → Ints → Ints → Prop} {a e e' : Expr}
    {as xs : Exprs} {k : Bool}
  {body : Body} {later : Strings}

/-! ### Names -/

namespace Name

def IsPointer (n : String) : Prop := "_data_".toList <+: n.toList

def Reserved (n : String) : Prop :=
  IsPointer n ∨ "_size_".toList <+: n.toList ∨ "_stride_".toList <+: n.toList ∨
    "ctr_".toList <+: n.toList

instance : DecidablePred IsPointer := fun _ => inferInstanceAs (Decidable (_ <+: _))

instance : DecidablePred Reserved := fun n =>
  inferInstanceAs (Decidable (IsPointer n ∨ "_size_".toList <+: n.toList ∨
    "_stride_".toList <+: n.toList ∨ "ctr_".toList <+: n.toList))

end Name

theorem Counter.name_reserved (k : Int) : Name.Reserved (symbol k).name :=
  .inr (.inr (.inr ⟨(toString k).toList, by simp [symbol, name, Symbol.typed]⟩))

theorem Counter.not_pointer (k : Int) : ¬ Name.IsPointer (symbol k).name := by
  rintro ⟨r, hr⟩
  simp [symbol, name, Symbol.typed] at hr

theorem Counter.symbol_ne_extent {y : Symbol} (h : Symbol.ofExtent x = some y) (k : Int) :
    y ≠ symbol k := by
  rintro rfl
  cases x <;> simp [Symbol.ofExtent, symbol, Symbol.typed] at h

theorem Symbol.extent_reserved {s : Symbol} (h : ofExtent x = some s) :
    Name.Reserved s.name ∧ ¬ Name.IsPointer s.name := by
  cases x with
  | known n => cases h
  | shape fs k =>
    obtain rfl := Option.some.inj h
    refine ⟨.inr (.inl ⟨_, by simp [Extent.symbolName]; rfl⟩), ?_⟩
    rintro ⟨r, hr⟩
    simp [Extent.symbolName] at hr
  | stride f k =>
    obtain rfl := Option.some.inj h
    refine ⟨.inr (.inr (.inl ⟨_, by simp [Extent.symbolName]; rfl⟩)), ?_⟩
    rintro ⟨r, hr⟩
    simp [Extent.symbolName] at hr

/-! ### Statements of one cell -/

def Access.literal (f : GridField) (os is : Ints) :
    Expr := .node (.access f os.length false) ((os ++ is).map .lit)

namespace Statement

/-- A symbol whose name is not among the later ones, or an access with a property. -/
inductive Operand (P : GridField → Ints → Ints → Prop) (later : Strings) : Expr → Prop where
  | sym {s : Symbol} (hs : s.name ∉ later) (hp : ¬ Name.IsPointer s.name) : Operand P later (.sym s)
  | access {f : GridField} {os is : Ints} (h : P f os is) : Operand P later (literal f os is)

def assigned : Body → Strings
  | [] => []
  | .assign (.sym x) _ _ :: r => x.name :: assigned r
  | _ :: r => assigned r

/-- Assignments to new symbols and to elements; what they use is not assigned later. -/
inductive Straight (H : Head → Prop) (P : GridField → Ints → Ints → Prop) : Body → Prop where
  | nil : Straight H P []
  | define {x : Symbol} {e : Expr} {k : Bool} {r : Body} (hx : ¬ Name.Reserved x.name)
    (hnew : x.name ∉ assigned r)
      (he : Over H (Operand P (x.name :: assigned r)) e) (hr : Straight H P r) :
        Straight H P (.assign (.sym x) e k :: r)
  | store {f : GridField} {os is : Ints} {e : Expr} {k : Bool} {r : Body} (h : P f os is)
      (he : Over H (Operand P (assigned r)) e) (hr : Straight H P r) :
        Straight H P (.assign (literal f os is) e k :: r)

theorem Operand.imp {later' : Strings}
    (h : Operand P later e) (hPQ : ∀ f os is, P f os is → Q f os is)
    (hsub : ∀ n ∈ later', n ∈ later) : Operand Q later' e := by
  cases h with
  | sym hs hp => exact .sym (fun h => hs (hsub _ h)) hp
  | access h => exact .access (hPQ _ _ _ h)

namespace Straight

theorem not_reserved (h : Straight H P body) : ∀ n ∈ assigned body, ¬ Name.Reserved n := by
  induction h with
  | nil => nofun
  | define hx _ _ _ ih => exact forall_mem_cons.2 ⟨hx, ih⟩
  | store _ _ _ ih => exact ih

theorem defined_assigned (h : Straight H P body) :
    ∀ s ∈ body, ∀ y, .sym y ∈ s.defined → y.name ∈ assigned body := by
  induction h with
  | nil => nofun
  | @define x e k r _ _ _ _ ih =>
    refine forall_mem_cons.2 ⟨fun y hy => ?_, fun s hs y hy => mem_cons_of_mem _ (ih s hs y hy)⟩
    obtain rfl : y = x := by simpa [defined, declares] using hy
    exact mem_cons_self
  | store _ _ _ ih => exact forall_mem_cons.2 ⟨fun y hy => by simp [literal, defined] at hy, ih⟩

end Straight

end Statement

/-! ### Accesses at integers -/

namespace Access

variable {f : GridField} {os is : Ints}

theorem offsets_literal : (literal f os is).offsets = os.map .lit := by simp [literal, offsets]

theorem index_literal : (literal f os is).index = is.map .lit := by simp [literal, index]

theorem isElement_literal (hos : os.length = f.spatialDimensions)
    (his : is.length = f.indexDimensions) :
    Address.IsElement f os is (literal f os is) := by
  have hpos : ∀ ns : Ints, Model.positions? (ns.map .lit) = some ns :=
    fun _ => mapM_map_eq_some fun _ => by rfl
  exact ⟨rfl, offsets_literal ▸ hpos os, index_literal ▸ hpos is, hos, his⟩

theorem isLiteral_literal : Address.IsLiteral (literal f os is) := by
  intro e he
  rw [offsets_literal, index_literal, ← map_append] at he
  obtain ⟨n, -, rfl⟩ := mem_map.1 he
  exact ⟨n, rfl⟩

theorem indirectFields_eq_nil (h : ∀ e ∈ a.offsets ++ a.index, all e = []) :
    indirectFields a = [] := by
  have hall : ∀ es : Exprs, (∀ e ∈ es, all e = []) → allList es = [] := fun es hes => by
    induction es with
    | nil => rfl
    | cons e es ih =>
      obtain ⟨he, hes⟩ := forall_mem_cons.1 hes
      rw [allList, he, ih hes]
      rfl
  rw [indirectFields, hall _ h]
  rfl

theorem indirectFields_literal : indirectFields (literal f os is) = [] := by
  refine indirectFields_eq_nil fun e he => ?_
  obtain ⟨n, rfl⟩ := isLiteral_literal e he
  rfl

end Access

/-! ### The accesses of statements -/

theorem exists_beq_of_mem_unionNew {α : Type} [BEq α] (xs : List α) {ys : List α} {x : α}
    (hx : x ∈ ys) :
    x ∈ unionNew xs ys ∨ ∃ y ∈ unionNew xs ys, (x == y) = true := by
  induction ys generalizing xs with
  | nil => cases hx
  | cons z ys ih =>
    have hstep : unionNew xs (z :: ys) = unionNew (insertNew xs z) ys := rfl
    rw [hstep]
    rcases mem_cons.1 hx with rfl | hx
    · by_cases hc : xs.contains x = true
      · obtain ⟨y, hy, hxy⟩ := contains_iff_exists_mem_beq.1 hc
        exact .inr ⟨y, mem_unionNew_left (mem_insertNew_left hy), hxy⟩
      · refine .inl (mem_unionNew_left ?_)
        simp [insertNew, hc]
    · exact ih _ hx

namespace Access

variable {f g : GridField} {os is ps js : Ints}

theorem literal_eq_of_beq (h : (literal f os is == literal g ps js) = true) :
    literal f os is = literal g ps js := by
  have h : same (literal f os is) (literal g ps js) = true := h
  rw [literal, literal, same_node_iff] at h
  obtain ⟨hhead, hargs⟩ := h
  have hlits : ∀ {ms ns : Ints}, sameList (ms.map .lit) (ns.map .lit) = true → ms = ns := by
    intro ms
    induction ms with
    | nil =>
      intro ns h
      cases ns with
      | nil => rfl
      | cons n ns => cases h
    | cons m ms ih =>
      intro ns h
      cases ns with
      | nil => cases h
      | cons n ns =>
        obtain ⟨hmn, h⟩ : m = n ∧ sameList (ms.map .lit) (ns.map .lit) = true :=
          by simpa [sameList, same] using h
        rw [hmn, ih h]
  have hhead : os.length = ps.length ∧ f = g := by
    simp [sameHead] at hhead
    exact ⟨hhead.1.1, hhead.2⟩
  rw [literal, literal, hlits hargs, hhead.1, hhead.2]

def Known (P : GridField → Ints → Ints → Prop) (a : Expr) :
    Prop := ∃ f os is, P f os is ∧ a = literal f os is

theorem mem_unionNew_iff {ys : Exprs} (hxs : ∀ a ∈ xs, Known P a) (hys : ∀ a ∈ ys, Known P a) :
    a ∈ unionNew xs ys ↔ a ∈ xs ∨ a ∈ ys := by
  refine ⟨mem_of_mem_unionNew, ?_⟩
  rintro (ha | ha)
  · exact mem_unionNew_left ha
  · rcases exists_beq_of_mem_unionNew xs ha with h | ⟨b, hb, hab⟩
    · exact h
    · obtain ⟨f, os, is, -, rfl⟩ := hys a ha
      obtain ⟨g, ps, js, -, rfl⟩ : Known P b := (mem_of_mem_unionNew hb).elim (hxs b) (hys b)
      exact literal_eq_of_beq hab ▸ hb

theorem mem_allList (h : ∀ x ∈ as, ∀ a ∈ all x, Known P a) :
    a ∈ allList as ↔ ∃ x ∈ as, a ∈ all x := by
  induction as generalizing a with
  | nil => simp [allList]
  | cons x as ih =>
    have ih : ∀ {a}, a ∈ allList as ↔ ∃ x ∈ as, a ∈ all x := ih (forall_mem_cons.1 h).2
    rw [allList, mem_unionNew_iff (h x mem_cons_self) fun b hb => ?_, ih]
    · simp
    · obtain ⟨y, hy, hb⟩ := ih.1 hb
      exact h y (mem_cons_of_mem _ hy) b hb

end Access

namespace Statement

theorem Operand.all_known {x : Expr} (h : Operand P later x) : ∀ a ∈ all x, Known P a := by
  intro a ha
  cases h with
  | sym => cases ha
  | access h => exact ⟨_, _, _, h, mem_singleton.1 ha⟩

theorem all_node (hH : Operations H) {h : Head} (hh : H h) (as : Exprs) :
    all (.node h as) = allList as := by
  have hop := hH.operation hh
  unfold Access.all
  split
  · cases hop
  · rfl

theorem all_known (hH : Operations H) (he : Over H (Operand P later) e) :
    ∀ a ∈ all e, Known P a := by
  induction he with
  | leaf _ hp => exact hp.all_known
  | atom => nofun
  | node hh _ ih =>
    intro a ha
    rw [all_node hH hh, mem_allList ih] at ha
    obtain ⟨x, hx, ha⟩ := ha
    exact ih x hx a ha

theorem over_all (hH : Operations H) (he : Over H (Operand P later) e) :
    Over H (Operand (fun f os is => P f os is ∧ literal f os is ∈ all e) later) e := by
  induction he with
  | leaf hplace hp =>
    cases hp with
    | sym hs hp => exact .sym (.sym hs hp)
    | access h => exact .leaf rfl (.access ⟨h, mem_singleton_self _⟩)
  | atom ha => exact .atom ha
  | @node h as hh has ih =>
    refine .node hh fun x hx => (ih x hx).imp fun y _ hy => hy.imp (fun f os is h => ⟨h.1, ?_⟩)
      fun _ h => h
    rw [all_node hH hh, mem_allList fun x hx => all_known hH (has x hx)]
    exact ⟨x, hx, h.2⟩

theorem mem_accesses_cons {lhs rhs : Expr} {r : Body} (hl : ∀ a ∈ all lhs, Known P a)
    (hr : ∀ a ∈ all rhs, Known P a) (hrest : ∀ a ∈ accesses r, Known P a) :
    a ∈ accesses (.assign lhs rhs k :: r) ↔ (a ∈ all lhs ∨ a ∈ all rhs) ∨ a ∈ accesses r := by
  have hnil : ∀ a ∈ [], Known P a := nofun
  have hleft : ∀ {a}, a ∈ unionNew [] (all lhs) ↔ a ∈ all lhs := by simp [mem_unionNew_iff hnil hl]
  have hboth : ∀ {a}, a ∈ unionNew (unionNew [] (all lhs)) (all rhs) ↔
    a ∈ all lhs ∨ a ∈ all rhs := by
    intro a
    rw [mem_unionNew_iff (fun a ha => hl a (hleft.1 ha)) hr, hleft]
  exact (mem_unionNew_iff (fun a ha => (hboth.1 ha).elim (hl a) (hr a)) hrest).trans
    (or_congr_left hboth)

theorem Straight.accesses_known (hH : Operations H) (h : Straight H P body) :
    ∀ a ∈ accesses body, Known P a := by
  induction h with
  | nil => nofun
  | @define x e k r _ _ he _ ih =>
    intro a ha
    have hl : ∀ a ∈ all (.sym x), Known P a := nofun
    rcases (mem_accesses_cons hl (all_known hH he) ih).1 ha with (ha | ha) | ha
    · cases ha
    · exact all_known hH he a ha
    · exact ih a ha
  | @store f os is e k r h he _ ih =>
    intro a ha
    have hl : ∀ a ∈ all (literal f os is), Known P a :=
      (Operand.access h : Operand P [] _).all_known
    rcases (mem_accesses_cons hl (all_known hH he) ih).1 ha with (ha | ha) | ha
    · exact hl a ha
    · exact all_known hH he a ha
    · exact ih a ha

theorem Straight.imp (h : Straight H P body)
    (hPQ : ∀ f os is, P f os is → Q f os is) : Straight H Q body := by
  induction h with
  | nil => exact .nil
  | define hx hnew he _ ih => exact .define hx hnew (he.imp fun _ _ h => h.imp hPQ fun _ h => h) ih
  | store h he _ ih => exact .store (hPQ _ _ _ h) (he.imp fun _ _ h => h.imp hPQ fun _ h => h) ih

theorem Straight.accessed (hH : Operations H) (h : Straight H P body) :
    Straight H (fun f os is => P f os is ∧ literal f os is ∈ accesses body) body := by
  induction h with
  | nil => exact .nil
  | @define x e k r hx hnew he hr ih =>
    have hl : ∀ a ∈ all (.sym x), Known P a := nofun
    have hmem : ∀ {a}, _ := fun {a} => mem_accesses_cons (a := a) (k := k) hl (all_known hH he)
      (hr.accesses_known hH)
    refine .define hx hnew ((over_all hH he).imp fun y _ hy => hy.imp (fun f os is h => ⟨h.1, ?_⟩)
      fun _ h => h)
      (ih.imp fun f os is h => ⟨h.1, hmem.2 (.inr h.2)⟩)
    exact hmem.2 (.inl (.inr h.2))
  | @store f os is e k r h he hr ih =>
    have hl : ∀ a ∈ all (literal f os is), Known P a :=
      (Operand.access h : Operand P [] _).all_known
    have hmem : ∀ {a}, _ := fun {a} => mem_accesses_cons (a := a) (k := k) hl (all_known hH he)
      (hr.accesses_known hH)
    refine .store ⟨h, hmem.2 (.inl (.inl (mem_singleton_self _)))⟩
      ((over_all hH he).imp fun y _ hy =>
      hy.imp (fun f os is h => ⟨h.1, ?_⟩) fun _ h => h)
        (ih.imp fun f os is h => ⟨h.1, hmem.2 (.inr h.2)⟩)
    exact hmem.2 (.inl (.inr h.2))

end Statement

open Statement

/-! ### Types -/

namespace Constraint

variable {A : Algebra} {numbers : Bool} (hH : Operations H) {s s' : State}

include hH

theorem cast_over {Q : Expr → Prop} {rest : Exprs} (he : Over H Q e)
    (hrest : ∀ a ∈ rest, Over H Q a) :
    Over H Q (Build.cast .plain e rest) :=
      .node ((hH.cast _).2 (by split <;> simp)) (forall_mem_cons.2 ⟨he, hrest⟩)

/-- Giving types keeps the names of symbols and the accesses. -/
theorem expression_operand (hC : A.Closed H) (he : Over H (Operand P later) e)
    (hr : (expression A numbers e).run s = .ok (e', s')) : Over H (Operand P later) e' := by
  induction he generalizing numbers s s' e' with
  | @leaf x hplace hp =>
    cases hp with
    | sym hs hp =>
      cases expression_visited hr with
      | typed | untyped => exact .sym (.sym hs hp)
      | atom ha => exact absurd rfl (ha _)
    | access h =>
      cases expression_visited hr with
      | access => exact .leaf rfl (.access h)
      | node hh => exact absurd rfl (hh _ _ _)
  | @atom a ha =>
    cases expression_visited hr with
    | typed | untyped => exact absurd rfl (ha _)
    | number => exact cast_over hH (.atom ha) fun t ht => mem_singleton.1 ht ▸ .atom nofun
    | atom => exact .atom ha
  | @node h as hh has ih =>
    have list : ∀ {xs bs s s'}, (∀ x ∈ xs, x ∈ as) → VisitedList A numbers xs s bs s' → ∀ b ∈ bs,
      Over H (Operand P later) b := by
      intro xs bs s s' hsub hvisited
      induction hvisited with
      | nil => exact forall_mem_nil _
      | unit _ _ ihxs => exact forall_mem_cons.2 ⟨has _ (hsub _ mem_cons_self),
        ihxs (forall_mem_cons.1 hsub).2⟩
      | cons ha _ ihxs => exact forall_mem_cons.2 ⟨ih _ (hsub _ mem_cons_self) ha,
        ihxs (forall_mem_cons.1 hsub).2⟩
    cases expression_visited hr with
    | access => exact nomatch hH.operation hh
    | element => exact absurd hh hH.element
    | resolved => exact nomatch hH.operation hh
    | product hf hb => exact hC hh (list (fun _ h => h) (factors_visited hf)) hb
    | cast ha =>
      refine cast_over hH (ih _ mem_cons_self ha) fun t ht => ?_
      exact mem_singleton.1 ht ▸ has _ (by simp)
    | power ha hb =>
      exact hC hh (forall_mem_cons.2 ⟨ih _ mem_cons_self ha,
        forall_mem_singleton.2 (has _ (by simp))⟩) hb
    | node _ _ hrun hb =>
      split at hb
      · exact hb ▸ .node hh has
      · rw [Visit.withHidden_of_operation hH hh] at hb
        exact hC hh (list (fun _ h => h) (expressions_visited hrun)) hb

theorem seen_operand (he : Over H (Operand P later) e) : ∀ x ∈ seen e, Operand P later x := by
  induction he with
  | leaf hplace hp =>
    intro x hx
    cases hp with
    | sym hs hp => exact mem_singleton.1 hx ▸ .sym hs hp
    | access h => exact mem_singleton.1 hx ▸ .access h
  | @atom a ha =>
    cases a with
    | sym s => exact absurd rfl (ha s)
    | _ => nofun
  | @node h as hh _ ih =>
    have list : ∀ xs : Exprs, (∀ a ∈ xs, a ∈ as) → ∀ x ∈ seenList xs, Operand P later x := by
      intro xs hsub
      induction xs with
      | nil => exact forall_mem_nil _
      | cons a xs ihxs => exact forall_mem_append.2 ⟨ih a (hsub a mem_cons_self),
        ihxs (forall_mem_cons.1 hsub).2⟩
    unfold seen
    split
    · exact nomatch hH.operation hh
    · nofun
    · nofun
    · exact ih _ mem_cons_self
    · exact ih _ mem_cons_self
    · exact list as fun _ h => h

omit hH

structure Knows (P : GridField → Ints → Ints → Prop) (s : State) : Prop where
  read : ∀ f ∈ s.read, ∃ os is, P f os is
  writes : ∀ p ∈ s.writes, ∃ os is, P p.1.field os is

theorem Knows.fields (h : Knows P s) {f : GridField}
    (hf : f ∈ unionNew s.read (unionNew [] (s.writes.map (·.1.field)))) :
    ∃ os is, P f os is := by
  rcases mem_of_mem_unionNew hf with hf | hf
  · exact h.read f hf
  · rcases mem_of_mem_unionNew hf with hf | hf
    · cases hf
    · obtain ⟨p, hp, rfl⟩ := mem_map.1 hf
      exact h.writes p hp

theorem Knows.scopes (h : Knows P s) (scopes : Scopes Expr) :
    Knows P { s with scopes } := ⟨h.read, h.writes⟩

theorem Knows.noted (h : Knows P s) {x : Expr} (hx : Operand P later x) : Knows P (noted s x) := by
  cases hx with
  | sym => exact h.scopes _
  | @access f os is hp =>
    refine ⟨fun g hg => ?_, h.writes⟩
    have hg : g ∈ unionNew s.read (f :: indirectFields (literal f os is)) := hg
    rw [indirectFields_literal] at hg
    rcases mem_of_mem_unionNew hg with hg | hg
    · exact h.read g hg
    · exact mem_singleton.1 hg ▸ ⟨os, is, hp⟩

theorem Knows.expression (h : Knows P s) (hH : Operations H) (he : Over H (Operand P later) e)
    (hr : (expression A numbers e).run s = .ok (e', s')) : Knows P s' := by
  rw [(expression_run hr).state]
  exact foldlRecOn _ _ h fun _ h x hx => h.noted (seen_operand hH he x hx)

theorem Knows.target (h : Knows P s) {f : GridField} (hp : ∃ os is, P f os is) {n : Nat}
    (hr : (target (.node (.access f n k) as)).run s = .ok (e, s')) : Knows P s' := by
  simp only [Constraint.target, run_bind_eq_ok] at hr
  obtain ⟨_, _, ⟨rfl, rfl⟩, hr⟩ := hr
  split at hr
  · split at hr
    · simp at hr
    · obtain ⟨-, rfl⟩ := run_pure_eq_ok.1 (by simpa using hr)
      exact h
  · next hw =>
    obtain ⟨_, _, rfl, rfl, rfl⟩ := hr
    refine ⟨h.read, fun p hp' => ?_⟩
    rw [Table.insert_of_get?_eq_none hw] at hp'
    rcases mem_append.1 hp' with hp' | hp'
    · exact h.writes p hp'
    · exact mem_singleton.1 hp' ▸ hp

theorem statements_straight (hH : Operations H) (hC : A.Closed H) {out : Body}
    (hbody : Straight H P body)
    (hs : Knows P s) (hr : (statements A body).run s = .ok (out, s')) :
    Straight H P out ∧ assigned out = assigned body ∧ Knows P s' := by
  induction hbody generalizing s out with
  | nil =>
    obtain ⟨rfl, rfl⟩ := run_pure_eq_ok.1 hr
    exact ⟨.nil, rfl, hs⟩
  | @define x e k r hx hnew he _ ih =>
    obtain ⟨st, t, rest, hst, hrest, rfl⟩ := statements_cons_run hr
    obtain ⟨e', u, l, he', hl, rfl⟩ := statement_assign_run hst
    obtain ⟨c, q, -, -, -, rfl, hsym⟩ := target_sym_run hl
    obtain ⟨y, hname, rfl⟩ : ∃ y : Symbol, y.name = x.name ∧ l = .sym y := by
      split at hsym
      · exact ⟨x, rfl, hsym⟩
      · obtain ⟨_, t, -, -, rfl⟩ := hsym
        exact ⟨.typed x.name t, rfl, rfl⟩
    have hu := hs.expression hH he he'
    obtain ⟨hrest, hsame, hs'⟩ := ih (hu.scopes _) hrest
    have he' := expression_operand hH hC he he'
    refine ⟨.define (hname ▸ hx) (by rwa [hname, hsame]) (by rwa [hname, hsame]) hrest, ?_, hs'⟩
    simp [assigned, Statement.set, hname, hsame]
  | @store f os is e k r h he _ ih =>
    obtain ⟨st, t, rest, hst, hrest, rfl⟩ := statements_cons_run hr
    obtain ⟨e', u, l, he', hl, rfl⟩ := statement_assign_run hst
    have ht := (hs.expression hH he he').target ⟨os, is, h⟩ hl
    obtain ⟨rfl, -⟩ := target_access_run hl
    obtain ⟨hrest, hsame, hs'⟩ := ih ht hrest
    have he' := expression_operand hH hC he he'
    exact ⟨.store h (by rwa [hsame]) hrest, hsame, hs'⟩

theorem run_straight (hH : Operations H) (hC : A.Closed H) {types : SymbolTypes} {strict : Bool}
    {t : Typed}
    (hbody : Straight H P body) (hr : run A types strict body = .ok t) :
    Straight H P t.body ∧ ∀ f ∈ t.fields, ∃ os is, P f os is := by
  obtain ⟨⟨out, s⟩, hrun, ht⟩ := bind_eq_ok.1 hr
  obtain rfl := pure_eq_ok.1 ht
  obtain ⟨hout, -, hs⟩ := statements_straight hH hC hbody ⟨fun _ h => absurd h not_mem_nil,
    fun _ h => absurd h not_mem_nil⟩ hrun
  exact ⟨hout, fun f hf => hs.fields hf⟩

end Constraint

end StencilForge
