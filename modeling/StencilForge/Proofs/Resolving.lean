import StencilForge.Proofs.Pointers

/-!
# Proofs — resolving the statements of a cell

The definitions of pointers that a statement needs are put in front of it unless they are
there.  What holds of the statements that are done (`Address.Done`) holds after one more: nothing is
used before it is defined, pointers stand where their names say, and the touched elements are the
accessed ones (`Address.resolve_nest`).
-/

open List StencilForge.Outcome StencilForge.Machine

namespace StencilForge.Address

open Statement Motion Counter Machine

variable {V : Type} {A : Algebra} {M : Model V} {H : Head → Prop} {plan : Plan} {f : GridField}
    {os is : Ints}
  {fields : Fields} {P : GridField → Ints → Ints → Prop} {k : Int}
variable {gs : List Ints} {q y : Symbol} {ν : Extent → Int} {cell : Ints} {s : State V}
    {done : Body}
  {ds : Definitions} {has : Symbol → Prop} {e : Expr} {j : Bool}

/-! ### Statements that are done -/

/-- Strides, counters and first pointers have their values. -/
structure Standing (M : Model V) (plan : Plan) (P : GridField → Ints → Ints → Prop)
    (ν : Extent → Int) (cell : Ints)
    (s : State V) : Prop where
  stands : ∀ f os is, P f os is → s.view.Stands M ν f cell
  length : ∀ f os is, P f os is → cell.length = f.spatialDimensions
  first : ∀ f os is, P f os is → s.env (fieldPointer plan.readOnly f) = some (M.address f.name 0)

def IsDefined (done : Body) (y : Symbol) : Prop := ∃ b ∈ done, .sym y ∈ b.defined

theorem isDefined_append {rest : Body} : IsDefined
    (done ++ rest) y ↔ IsDefined done y ∨ IsDefined rest y := by
  simp only [IsDefined, mem_append, or_and_right, exists_or]

theorem isDefined_singleton {b : Statement} : IsDefined [b] y ↔ .sym y ∈ b.defined := by
  simp only [IsDefined, mem_singleton, exists_eq_left]

/-- A pointer that was moved, or a symbol whose name is not kept for kernels and not among the later
ones. -/
def IsMade (plan : Plan) (P : GridField → Ints → Ints → Prop) (later : Strings) (y : Symbol) :
    Prop :=
  (∃ f os is gs, gs ≠ [] ∧ Points plan P f os is gs y) ∨ ¬ Name.Reserved y.name ∧ y.name ∉ later

variable (M H plan P k) in
/-- They define pointers and symbols that are not used before, the pointers stand where they should,
and they touch the accessed elements. -/
structure Done (later : Strings) (done : Body) : Prop where
  plain : ∀ b ∈ done, Plain H M (fun _ => True) (symbol k) b
  apart : done.Pairwise Apart
  self : ∀ b ∈ done, ∀ y, .sym y ∈ b.defined → .sym y ∉ needed b
  made : ∀ b ∈ done, ∀ y, .sym y ∈ b.defined → IsMade plan P later y
  uses : ∀ b ∈ done, ∀ y, .sym y ∈ b.undefined → y.name ∉ later ∧
    (Name.IsPointer y.name → (∃ f, y = fieldPointer plan.readOnly f) ∨ IsDefined done y)
  value : ∀ {ν cell s}, Standing M plan P ν cell s → ∀ {f os is gs q}, Points plan P f os is gs q →
    (gs ≠ [] → IsDefined done q) →
    (execList M done s).env q = some (M.address f.name
      (f.partialDistance ν (coordinatesOf cell os is) gs.flatten))
  touches : ∀ {ν cell s}, Standing M plan P ν cell s → ∀ a ∈ touchedList M done s,
    ∃ f os is, P f os is ∧ a = some (f.name, f.distance ν (coordinatesOf cell os is))

theorem Points.isPointer (h : Points plan P f os is gs q) : Name.IsPointer q.name := by
  rw [Name.IsPointer, h.2.2.1, String.toList_append]
  exact prefix_append _ _

theorem isPointer_fieldPointer (readOnly : Strings) (f : GridField) :
    Name.IsPointer (fieldPointer readOnly f).name := by
  rw [Name.IsPointer, fieldPointer, String.toList_append]
  exact prefix_append _ _

theorem IsMeasure.reserved {x : Expr} (hx : IsMeasure x) (hy : .sym y ∈ variablesOf x) :
    Name.Reserved y.name ∧ ¬ Name.IsPointer y.name := by
  obtain ⟨s, rfl, hs⟩ := hx
  obtain rfl : y = s := sym_mem_sym.1 hy
  rcases hs with ⟨x, hx⟩ | ⟨j, rfl⟩
  · exact Symbol.extent_reserved hx
  · exact ⟨name_reserved j, not_pointer j⟩

theorem Points.ne_fieldPointer (hf : Suits plan k f) (h : Points plan P f os is gs q)
    (hgs : gs ≠ []) (readOnly : Strings) (g : GridField) : q ≠ fieldPointer readOnly g := by
  rintro rfl
  have hne : gs.flatten ≠ [] := by
    obtain ⟨g, gs, rfl⟩ := exists_cons_of_ne_nil hgs
    have hg := (hf.mem_moves (h.2.1.subset mem_cons_self)).1
    simp [hg]
  have hkind := h.2.2.2
  rw [if_neg hne] at hkind
  cases hkind

theorem execList_env_of_not_defined (h : ¬ IsDefined done y) (s : State V)
    (hplain : ∀ b ∈ done, Plain H M (fun _ => True) (symbol k) b) :
    (execList M done s).env y = s.env y := by
  induction done generalizing s with
  | nil => rfl
  | cons b done ih =>
    have hb : .sym y ∉ b.defined := fun hy => h ⟨b, mem_cons_self, hy⟩
    rw [execList_cons, ih (fun ⟨c, hc, hy⟩ => h ⟨c, mem_cons_of_mem _ hc, hy⟩) _ fun c hc =>
      hplain c (mem_cons_of_mem _ hc)]
    cases hplain b mem_cons_self with
    | define x k he => exact State.set_env_of_ne _ _ fun hyx => hb (by simp [hyx])
    | store k hW hl he => rfl

theorem Done.nil (later : Strings) : Done M H plan P k later [] where
  plain := nofun
  apart := .nil
  self := nofun
  made := nofun
  uses := nofun
  value {ν cell s} hs f os is gs q hq hdef := by
    have hgs : gs = [] := by
      by_contra hgs
      obtain ⟨_, h, -⟩ := hdef hgs
      cases h
    subst hgs
    obtain rfl := hq.2.2.unique (points_first hq.1).2.2
    exact hs.first f os is hq.1
  touches := fun _ _ ha => nomatch ha

theorem Done.snoc {later later' : Strings} (hd : Done M H plan P k later done)
    (hsub : ∀ n ∈ later', n ∈ later) {st : Statement}
    (hplain : Plain H M (fun _ => True) (symbol k) st)
    (hself : ∀ y, .sym y ∈ st.defined → .sym y ∉ needed st)
    (hnew : ∀ y, .sym y ∈ st.defined → IsMade plan P later' y ∧ ¬ IsDefined done y ∧ ∀ b ∈ done,
      .sym y ∉ b.undefined)
    (huses : ∀ y, .sym y ∈ st.undefined → y.name ∉ later' ∧
      (Name.IsPointer y.name → (∃ f, y = fieldPointer plan.readOnly f) ∨
        IsDefined (done ++ [st]) y))
    (hvalue : ∀ {ν cell s}, Standing M plan P ν cell s → ∀ {f os is gs q},
      Points plan P f os is gs q → .sym q ∈ st.defined →
      (exec M st (execList M done s)).env q =
        some (M.address f.name (f.partialDistance ν (coordinatesOf cell os is) gs.flatten)))
    (htouches : ∀ {ν cell s}, Standing M plan P ν cell s → ∀ a ∈ touched M st (execList M done s),
      ∃ f os is, P f os is ∧ a = some (f.name, f.distance ν (coordinatesOf cell os is))) :
    Done M H plan P k later' (done ++ [st]) where
  plain := forall_mem_append.2 ⟨hd.plain, forall_mem_singleton.2 hplain⟩
  apart := by
    refine pairwise_append.2 ⟨hd.apart, pairwise_singleton _ _, fun b hb c hc y hy => ?_⟩
    obtain ⟨-, hno, hun⟩ := hnew y (mem_singleton.1 hc ▸ hy)
    exact ⟨fun h => hno ⟨b, hb, h⟩, hun b hb⟩
  self := forall_mem_append.2 ⟨hd.self, forall_mem_singleton.2 hself⟩
  made := by
    refine forall_mem_append.2 ⟨fun b hb y hy => ?_,
      forall_mem_singleton.2 fun y hy => (hnew y hy).1⟩
    exact (hd.made b hb y hy).imp_right fun h => ⟨h.1, fun hn => h.2 (hsub _ hn)⟩
  uses := by
    refine forall_mem_append.2 ⟨fun b hb y hy => ?_, forall_mem_singleton.2 huses⟩
    obtain ⟨hn, hp⟩ := hd.uses b hb y hy
    exact ⟨fun h => hn (hsub _ h), fun h => (hp h).imp_right fun h => isDefined_append.2 (.inl h)⟩
  value {ν cell s} hs f os is gs q hq hdef := by
    rw [execList_append]
    by_cases hst : .sym q ∈ st.defined
    · exact hvalue hs hq hst
    · have hlast : ¬ IsDefined [st] q := fun h => hst (isDefined_singleton.1 h)
      rw [execList_env_of_not_defined hlast _ (forall_mem_singleton.2 hplain)]
      exact hd.value hs hq fun hgs => (isDefined_append.1 (hdef hgs)).resolve_right hlast
  touches {ν cell s} hs a ha := by
    rw [touchedList_append, touchedList_single] at ha
    exact (mem_append.1 ha).elim (hd.touches hs a) (htouches hs a)

section Done

variable (hP : ∀ f os is, P f os is → Fits plan k fields f os is)
  {later : Strings} {done : Body}

include hP

/-- What is given is not made: counters, extents and the first pointers. -/
theorem IsMade.ne_given (h : IsMade plan P later y) :
    (∀ j, y ≠ symbol j) ∧ (∀ x, Symbol.ofExtent x ≠ some y) ∧ ∀ readOnly f,
    y ≠ fieldPointer readOnly f := by
  rcases h with ⟨f, os, is, gs, hgs, hq⟩ | ⟨hres, -⟩
  · refine ⟨?_, fun x hx => (Symbol.extent_reserved hx).2 hq.isPointer,
      hq.ne_fieldPointer (hP f os is hq.1).suits hgs⟩
    rintro j rfl
    exact not_pointer j hq.isPointer
  · refine ⟨?_, fun x hx => hres (Symbol.extent_reserved hx).1, ?_⟩
    · rintro j rfl
      exact hres (name_reserved j)
    · rintro readOnly f rfl
      exact hres (.inl (isPointer_fieldPointer ..))

theorem Standing.execList (hs : Standing M plan P ν cell s)
    (hd : Done M H plan P k later done) : Standing M plan P ν cell (execList M done s) := by
  have hkeep : ∀ {y}, ((∃ j, y = symbol j) ∨ (∃ x, Symbol.ofExtent x = some y) ∨ ∃ f,
    y = fieldPointer plan.readOnly f) →
      (Machine.execList M done s).env y = s.env y := fun hy => by
    refine execList_env_of_not_defined ?_ s hd.plain
    rintro ⟨b, hb, hyb⟩
    obtain ⟨hcount, hext, hfirst⟩ := (hd.made b hb _ hyb).ne_given hP
    rcases hy with ⟨j, hj⟩ | ⟨x, hx⟩ | ⟨f, hf⟩
    · exact hcount j hj
    · exact hext x hx
    · exact hfirst _ f hf
  refine ⟨fun f os is h => ⟨fun x hx y hy => ?_, fun j i hj => ?_⟩, hs.length, fun f os is h => ?_⟩
  · exact (hkeep (.inr (.inl ⟨x, hy⟩))).trans ((hs.stands f os is h).stride x hx y hy)
  · exact (hkeep (.inl ⟨j, rfl⟩)).trans ((hs.stands f os is h).counter j i hj)
  · exact (hkeep (.inr (.inr ⟨f, rfl⟩))).trans (hs.first f os is h)

section Statements

variable (hdistinct : GridField.Distinct fields) (hS : A.Sound M H) (hC : A.Closed H)
    (hH : Operations H)
  (hlater : ∀ n ∈ later, ¬ Name.Reserved n)

include hdistinct hS hC hH hlater

theorem Done.pointer (hd : Done M H plan P k later done) {q v : Expr}
    (hlink : Link A M H plan P (IsDefined done) (q, v))
    (hnew : ∀ y, q = .sym y → ¬ IsDefined done y) :
    Done M H plan P k later (done ++ [.assign q v false]) := by
  obtain @⟨f, os, is, gs, g, p, q, d, hq, hp, hhas, hdist⟩ := hlink
  obtain ⟨-, hf, -, -⟩ := hP f os is hq.1
  have hnew := hnew q rfl
  have hg : g ≠ [] := (hf.mem_moves (hq.2.1.subset (by simp))).1
  have hne := hq.ne_fieldPointer hf (by simp) plan.readOnly
  have hpq : p ≠ q := by
    rintro rfl
    have := (hq.value_eq hdistinct hP hp).2.1
    simp [hg] at this
  -- the symbols of the right side: the pointer before, extents and counters
  have hleaf : Expr.Over H (fun x => x = .sym p ∨ IsMeasure x) (A.add2 (.sym p) d) :=
    hC.add hH (by simpa using ⟨.sym (.inl rfl), hdist.measures.imp fun _ _ => .inr⟩)
  have hsource : Expr.Over H (Source H M (fun _ => True) (symbol k)) (A.add2 (.sym p) d) :=
    hleaf.imp fun x _ hx => by
    obtain rfl | ⟨s, rfl, -⟩ := hx <;> exact .sym _
  have hvars : ∀ y, .sym y ∈ variablesOf (A.add2 (.sym p) d) → y = p ∨ Name.Reserved y.name ∧
    ¬ Name.IsPointer y.name := by
    intro y hy
    obtain ⟨x, rfl | hx, hyx⟩ := hleaf.exists_leaf_of_variables hH hy
    · exact .inl (sym_mem_sym.1 hyx)
    · exact .inr (hx.reserved hyx)
  have hnotlater : ∀ y : Symbol, Name.Reserved y.name → y.name ∉ later :=
    fun y hy hn => hlater _ hn hy
  refine hd.snoc (fun _ h => h) (.define q false hsource) (fun y hy hneed => ?_) (fun y hy => ?_)
    (fun y hy => ?_) ?_ ?_
  · obtain rfl : y = q := by simpa using hy
    rcases hvars y hneed with rfl | ⟨-, h⟩
    · exact hpq rfl
    · exact h hq.isPointer
  · obtain rfl : y = q := by simpa using hy
    refine ⟨.inl ⟨f, os, is, gs ++ [g], by simp, hq⟩, hnew, fun b hb hun => ?_⟩
    rcases (hd.uses b hb y hun).2 hq.isPointer with ⟨g, hg⟩ | h
    · exact hne g hg
    · exact hnew h
  · rw [mem_undefined_iff hH hsource] at hy
    rcases hy with hy | hy
    · obtain rfl : y = q := sym_mem_sym.1 hy
      exact ⟨hnotlater y (.inl hq.isPointer),
        fun _ => .inr (isDefined_append.2 (.inr (isDefined_singleton.2 (by simp))))⟩
    · rcases hvars y hy with rfl | ⟨hres, hno⟩
      · refine ⟨hnotlater y (.inl hp.isPointer), fun _ => ?_⟩
        by_cases hgs : gs = []
        · subst hgs
          exact .inl ⟨f, hp.2.2.unique (points_first hp.1).2.2⟩
        · exact .inr (isDefined_append.2 (.inl (hhas hgs)))
      · exact ⟨hnotlater y hres, fun h => absurd h hno⟩
  · intro ν cell s hs f' os' is' gs' q' hq' hdef
    obtain rfl : q' = q := by simpa using hdef
    have hcell := hs.length f os is hq.1
    obtain ⟨rfl, -, hvalue⟩ := hq.value_eq hdistinct hP hq'
    have hbefore : M.eval (execList M done s).view (.sym p) = _ := hd.value hs hp hhas
    have hstep := hdist.value ((hs.execList hP hd).stands f os is hq.1) hcell
    rw [exec_assign, store_sym, State.set_env_self, hS.add_address hH hbefore hstep,
      ← hvalue ν cell hcell,
      flatten_append, flatten_singleton, GridField.partialDistance_append]
  · intro ν cell s _ a ha
    have hsym : Expr.Over H Substitute.IsSymbol (A.add2 (.sym p) d) := hleaf.imp fun x _ hx => by
      obtain rfl | ⟨s, rfl, -⟩ := hx <;> exact ⟨_, rfl⟩
    rw [touched_assign, Model.touches_of_symbols hH hsym] at ha
    cases ha

theorem Done.insert (hd : Done M H plan P k later done) (hlinked : Linked A M H plan P ds)
    {after : Body} (hafter : ∀ y, IsDefined after y → ¬ Name.IsPointer y.name) :
    Done M H plan P k later (insertDefinitions done after ds) ∧ ∀ p, Defines ds p →
      IsDefined (insertDefinitions done after ds) p := by
  induction hlinked with
  | nil => exact ⟨hd, fun p ⟨v, hv⟩ => nomatch hv⟩
  | @snoc ds d _ hlink ih =>
    obtain ⟨hd, hdefines⟩ := ih
    obtain ⟨e, v⟩ := d
    obtain ⟨q, rfl, hq⟩ : ∃ q, e = .sym q ∧ Name.IsPointer q.name := by
      cases hlink with
      | intro hq => exact ⟨_, rfl, hq.isPointer⟩
    have hmem : ∀ {p}, Defines (ds ++ [(.sym q, v)]) p → Defines ds p ∨ p = q := by
      rintro p ⟨v, hv⟩
      rcases mem_append.1 hv with hv | hv
      · exact .inl ⟨v, hv⟩
      · have := congrArg Prod.fst (mem_singleton.1 hv)
        exact .inr (by simpa using this)
    rw [insertDefinitions, foldl_concat]
    dsimp only
    split
    · next hthere =>
      rw [Bool.or_eq_true, Expr.contains_sym_iff, Expr.contains_sym_iff, sym_mem_definedList,
        sym_mem_definedList] at hthere
      refine ⟨hd, fun p hp => ?_⟩
      rcases hmem hp with hp | rfl
      · exact hdefines p hp
      · exact hthere.resolve_right fun h => hafter p h hq
    · next hthere =>
      rw [Bool.or_eq_true, Expr.contains_sym_iff, Expr.contains_sym_iff, sym_mem_definedList,
        not_or] at hthere
      rw [insertAtEnd_assigns fun b hb => by cases hd.plain b hb <;> exact ⟨_, _, _, rfl⟩]
      refine ⟨hd.pointer hP hdistinct hS hC hH hlater (hlink.imp hdefines) fun y hy => ?_,
        fun p hp => ?_⟩
      · obtain rfl : q = y := by simpa using hy
        exact hthere.1
      · refine isDefined_append.2 ((hmem hp).imp (hdefines p) ?_)
        rintro rfl
        exact isDefined_singleton.2 (mem_singleton_self _)

omit hdistinct hS hC hH hlater in
theorem Resolved.source (h : Resolved M H plan P has later e) :
    Source H M (fun _ => True) (symbol k) e := by
  cases h with
  | sym hs hp => exact .sym _
  | @element f os is last position n r hlast hhas hdist =>
    obtain ⟨-, hf, hos, -⟩ := hP f os is hlast.1
    exact .element f n r (.sym ⟨_, rfl⟩) (hdist.measures.imp fun _ _ ⟨s, hs, _⟩ => ⟨s, hs⟩) fun _ =>
      hf.moves_position hos hdist

omit hP hdistinct hS hC in
theorem Resolved.variables (h : Resolved M H plan P has later e)
    (hy : .sym y ∈ variablesOf e) :
    y.name ∉ later ∧ (Name.IsPointer y.name → (∃ f, y = fieldPointer plan.readOnly f) ∨ has y) := by
  cases h with
  | sym hs hp =>
    obtain rfl := sym_mem_sym.1 hy
    exact ⟨hs, fun h => absurd h hp⟩
  | @element f os is last position n r hlast hhas hdist =>
    rcases sym_mem_resolved.1 hy with hy | hy
    · obtain rfl := sym_mem_sym.1 hy
      refine ⟨fun hn => hlater _ hn (.inl hlast.isPointer), fun _ => ?_⟩
      by_cases hmoves : moves plan f = []
      · have hfirst := hlast.2.2
        rw [hmoves] at hfirst
        exact .inl ⟨f, hfirst.unique (points_first hlast.1).2.2⟩
      · exact .inr (hhas hmoves)
    · obtain ⟨x, hx, hyx⟩ := hdist.measures.exists_leaf_of_variables hH hy
      obtain ⟨hres, hno⟩ := hx.reserved hyx
      exact ⟨fun hn => hlater _ hn hres, fun h => absurd h hno⟩

omit hP hdistinct hS hC in
theorem Resolved.over_variables (he : Expr.Over H (Resolved M H plan P has later) e)
    (hy : .sym y ∈ variablesOf e) :
    y.name ∉ later ∧ (Name.IsPointer y.name → (∃ f, y = fieldPointer plan.readOnly f) ∨ has y) := by
  obtain ⟨z, hz, hyz⟩ := he.exists_leaf_of_variables hH hy
  exact hz.variables hH hlater hyz

omit hdistinct hS hC hlater in
theorem Resolved.touches (hd : Done M H plan P k later done)
    (hs : Standing M plan P ν cell s) {later' : Strings}
    (h : Resolved M H plan P (IsDefined done) later' e) :
    ∀ a ∈ M.touches (execList M done s).view e,
      ∃ f os is, P f os is ∧ a = some (f.name, f.distance ν (coordinatesOf cell os is)) := by
  intro a ha
  cases h with
  | sym hs hp => cases ha
  | @element f os is last position n r hlast hhas hdist =>
    obtain ⟨-, hf, hos, his⟩ := hP f os is hlast.1
    have hcell := hs.length f os is hlast.1
    have hsym : Expr.Over H Substitute.IsSymbol position :=
      hdist.measures.imp fun _ _ ⟨s, hs, _⟩ => ⟨s, hs⟩
    have hpointer : M.eval (execList M done s).view (.sym last) = _ := hd.value hs hlast hhas
    have hposition := hdist.value ((hs.execList hP hd).stands f os is hlast.1) hcell
    rw [Model.touches_resolved, Model.touches_of_symbols hH hsym, map_cons, map_cons, hpointer,
      hposition] at ha
    have ha := mem_singleton.1 ha
    simp only [Model.element, M.add_address, M.toAddress?_address, Option.bind_some, if_true] at ha
    subst ha
    refine ⟨f, os, is, hlast.1, ?_⟩
    rw [← GridField.partialDistance_append, hf.partialDistance_moves hos his hcell]
    exact congrArg (fun d => some (f.name, d)) (Int.add_zero _)

variable {later' : Strings} (hsub : ∀ n ∈ later, n ∈ later')

include hsub

omit hdistinct hS hC in
theorem Done.define (hd : Done M H plan P k later' done) {x : Symbol} (hx : ¬ Name.Reserved x.name)
    (hmem : x.name ∈ later') (hnew : x.name ∉ later)
    (he : Expr.Over H (Resolved M H plan P (IsDefined done) (x.name :: later)) e) :
    Done M H plan P k later (done ++ [.assign (.sym x) e j]) := by
  have hsource := he.imp fun _ _ h => Resolved.source hP h
  have hnames : ∀ n ∈ x.name :: later, ¬ Name.Reserved n := forall_mem_cons.2 ⟨hx, hlater⟩
  have hvars : ∀ y, .sym y ∈ variablesOf e → _ := fun y => Resolved.over_variables hH hnames he
  have hpointer : ¬ Name.IsPointer x.name := fun h => hx (.inl h)
  refine hd.snoc hsub (.define x j hsource) (fun y hy hneed => ?_) (fun y hy => ?_)
    (fun y hy => ?_) ?_ ?_
  · obtain rfl : y = x := by simpa using hy
    exact (hvars y hneed).1 mem_cons_self
  · obtain rfl : y = x := by simpa using hy
    refine ⟨.inr ⟨hx, hnew⟩, ?_, fun b hb hun => (hd.uses b hb y hun).1 hmem⟩
    rintro ⟨b, hb, hyb⟩
    rcases hd.made b hb y hyb with ⟨f, os, is, gs, -, hq⟩ | ⟨-, h⟩
    · exact hpointer hq.isPointer
    · exact h hmem
  · rw [mem_undefined_iff hH hsource] at hy
    rcases hy with hy | hy
    · obtain rfl := sym_mem_sym.1 hy
      exact ⟨hnew, fun h => absurd h hpointer⟩
    · obtain ⟨hn, hp⟩ := hvars y hy
      exact ⟨fun h => hn (mem_cons_of_mem _ h),
        fun h => (hp h).imp_right fun h => isDefined_append.2 (.inl h)⟩
  · intro ν cell s _ f os is gs q hq hdef
    obtain rfl : q = x := by simpa using hdef
    exact absurd hq.isPointer hpointer
  · intro ν cell s hs a ha
    rcases mem_append.1 ha with ha | ha
    · cases ha
    · obtain ⟨z, -, hz, ha⟩ := Model.exists_leaf_of_touches hH he ha
      exact Resolved.touches hP hH hd hs hz a ha

omit hdistinct hS hC in
theorem Done.store (hd : Done M H plan P k later' done) {l : Expr} (hsym : ∀ s, l ≠ .sym s)
    (hl : Resolved M H plan P (IsDefined done) later l)
    (he : Expr.Over H (Resolved M H plan P (IsDefined done) later) e) :
    Done M H plan P k later (done ++ [.assign l e j]) := by
  have hsource := he.imp fun _ _ h => Resolved.source hP h
  have hdefined : (Statement.assign l e j).defined = [] := by
    cases hl with
    | sym hs hp => exact absurd rfl (hsym _)
    | element => rfl
  have hnone : ∀ {y}, .sym y ∉ (Statement.assign l e j).defined := by simp [hdefined]
  have hplain : Plain H M (fun _ => True) (symbol k) (.assign l e j) := by
    have hlsource := Resolved.source hP hl
    cases hl with
    | sym hs hp => exact absurd rfl (hsym _)
    | element => exact .store j trivial hlsource hsource
  refine hd.snoc hsub hplain (fun y hy => absurd hy hnone) (fun y hy => absurd hy hnone)
    (fun y hy => ?_) ?_ ?_
  · rw [mem_undefined_iff hH hsource] at hy
    obtain ⟨hn, hp⟩ := hy.elim (hl.variables hH hlater) (Resolved.over_variables hH hlater he)
    exact ⟨hn, fun h => (hp h).imp_right fun h => isDefined_append.2 (.inl h)⟩
  · exact fun _ _ _ _ _ _ _ hdef => absurd hdef hnone
  · intro ν cell s hs a ha
    rcases mem_append.1 ha with ha | ha
    · exact Resolved.touches hP hH hd hs hl a ha
    · obtain ⟨z, -, hz, ha⟩ := Model.exists_leaf_of_touches hH he ha
      exact Resolved.touches hP hH hd hs hz a ha

end Statements

end Done

/-! ### The statements of a cell -/

theorem statement_assign_eq_ok {lhs rhs : Expr} {t : Statement}
    (h : statement A (at? A plan) true (.assign lhs rhs j) = .ok (t, ds)) :
    ∃ l r ds₁, (expression A (at? A plan) (4 * lhs.size + 8) lhs).run [] = .ok (l, ds₁) ∧
      (expression A (at? A plan) (4 * rhs.size + 8) rhs).run ds₁ = .ok (r, ds) ∧
        t = .assign l r j := by
  rw [statement, bind_eq_ok] at h
  obtain ⟨_, -, h⟩ := h
  obtain ⟨⟨⟨l, r⟩, ds'⟩, hrun, h⟩ := bind_eq_ok.1 h
  obtain ⟨rfl, rfl⟩ := Prod.mk.inj (pure_eq_ok.1 h)
  obtain ⟨l', ds₁, hl, hrun⟩ := run_bind_eq_ok.1 hrun
  obtain ⟨r', ds₂, hr, hrun⟩ := run_bind_eq_ok.1 hrun
  obtain ⟨heq, rfl⟩ := run_pure_eq_ok.1 hrun
  obtain ⟨rfl, rfl⟩ := Prod.mk.inj heq
  exact ⟨l', r', ds₁, hl, hr, rfl⟩

section Block

variable (hP : ∀ f os is, P f os is → Fits plan k fields f os is)
    (hdistinct : GridField.Distinct fields) (hfixed : plan.fixed = [])
  (hS : A.Sound M H) (hC : A.Closed H) (hH : Operations H)

include hP hdistinct hfixed hS hC hH

theorem block_done {body inner : Body} (hbody : Straight H P body)
    (hd : Done M H plan P k (assigned body) done)
    (hr : block A (at? A plan) true done body = .ok inner) :
    Done M H plan P k [] inner := by
  induction hbody generalizing done with
  | nil => exact Except.ok.inj hr ▸ hd
  | @define x e j r hx hnew he hrest ih =>
    obtain ⟨⟨t, ds⟩, ht, hr⟩ := bind_eq_ok.1 hr
    obtain ⟨l, e', ds₁, hl, he', rfl⟩ := statement_assign_eq_ok ht
    obtain ⟨rfl, rfl⟩ := run_pure_eq_ok.1 hl
    obtain ⟨new, rfl, hlinked, hover⟩ := expression_resolved hfixed hS hC hH hP he (by omega) he'
    have hlater : ∀ n ∈ x.name :: assigned r, ¬ Name.Reserved n :=
      (Straight.define hx hnew he hrest (k := j)).not_reserved
    have hafter : ∀ y, IsDefined (.assign (.sym x) e' j :: r) y → ¬ Name.IsPointer y.name := by
      rintro y ⟨b, hb, hyb⟩ hp
      rcases mem_cons.1 hb with rfl | hb
      · obtain rfl : y = x := by simpa using hyb
        exact hx (.inl hp)
      · exact hrest.not_reserved _ (hrest.defined_assigned b hb y hyb) (.inl hp)
    obtain ⟨hd, hdefines⟩ := hd.insert hP hdistinct hS hC hH hlater hlinked hafter
    exact ih (hd.define hP hH hrest.not_reserved (fun n hn => mem_cons_of_mem _ hn) hx
      mem_cons_self hnew (hover.imp fun _ _ h => h.imp hdefines)) hr
  | @store f os is e j r h he hrest ih =>
    obtain ⟨⟨t, ds⟩, ht, hr⟩ := bind_eq_ok.1 hr
    obtain ⟨l, e', ds₁, hl, he', rfl⟩ := statement_assign_eq_ok ht
    obtain ⟨_, hacc, rfl⟩ := expression_literal hl
    obtain ⟨hlinked₁, hres⟩ := access_resolved hfixed hS hC hH hP h (assigned r) hacc
    obtain ⟨new₂, rfl, hlinked₂, hover⟩ := expression_resolved hfixed hS hC hH hP he (by omega) he'
    have hsym : ∀ s, l ≠ .sym s := by
      rintro s rfl
      obtain ⟨-, hf, hos, his⟩ := hP f os is h
      obtain ⟨_, _, hl, -, -⟩ := access_reached hfixed hf.basic
        (Access.isElement_literal hos his) hS hC hH hf.nonneg hacc
      cases hl
    have hafter : ∀ y, IsDefined (.assign l e' j :: r) y → ¬ Name.IsPointer y.name := by
      rintro y ⟨b, hb, hyb⟩ hp
      rcases mem_cons.1 hb with rfl | hb
      · cases hres with
        | sym => exact hsym _ rfl
        | element => cases hyb
      · exact hrest.not_reserved _ (hrest.defined_assigned b hb y hyb) (.inl hp)
    obtain ⟨hd, hdefines⟩ := hd.insert hP hdistinct hS hC hH hrest.not_reserved
      (hlinked₁.append hlinked₂) hafter
    have hleft : ∀ p, Defines ds₁ p → _ := fun p ⟨v, hv⟩ => hdefines p ⟨v, mem_append_left _ hv⟩
    have hright : ∀ p, Defines new₂ p → _ := fun p ⟨v, hv⟩ => hdefines p ⟨v, mem_append_right _ hv⟩
    exact ih (hd.store hP hH hrest.not_reserved (fun n hn => hn) hsym (hres.imp hleft)
      (hover.imp fun _ _ h => h.imp hright)) hr

theorem resolve_nest {ls : List Loop} {body resolved : Body} (hbody : Straight H P body)
    (hr : resolve A plan (nest (ls.map (·, [])) body) = .ok resolved) :
    ∃ inner, resolved = nest (ls.map (·, [])) inner ∧ Done M H plan P k [] inner := by
  induction ls generalizing resolved with
  | nil => exact ⟨resolved, rfl, block_done hP hdistinct hfixed hS hC hH hbody (Done.nil _) hr⟩
  | cons l ls ih =>
    have hr : block A (at? A plan) true [] [.loop l (nest (ls.map (·, [])) body)] = .ok resolved :=
      hr
    rw [block, bind_eq_ok] at hr
    obtain ⟨⟨t, ds⟩, ht, hr⟩ := hr
    rw [statement, bind_eq_ok] at ht
    obtain ⟨inner, hinner, ht⟩ := ht
    obtain ⟨rfl, rfl⟩ := Prod.mk.inj (pure_eq_ok.1 ht)
    obtain ⟨inner, rfl, hd⟩ := ih hinner
    exact ⟨inner, (Except.ok.inj hr).symm, hd⟩

end Block

end StencilForge.Address
