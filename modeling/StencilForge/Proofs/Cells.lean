import StencilForge.Proofs.Domains
import StencilForge.Proofs.Mentions
import StencilForge.Proofs.Resolving

/-!
# Proofs — the elements that a kernel touches

A kernel whose ghost layers are as wide as its accesses reach touches the accessed elements only,
each seen from a cell of the domain (`Kernel.touched_create`), and stays inside the common shape
(`Kernel.forall₂_shifted`).
-/

open List StencilForge.Outcome

namespace StencilForge

open Statement Domain Motion Address Counter GridField Symbol Machine Layout
variable {ν : Extent → Int} {y : Symbol}

/-- Pointers are told apart by name, there is one order of coordinates, and along the innermost one
elements are apart. -/
structure GridField.Grid (fields : Fields) : Prop where
  distinct : Distinct fields
  formed : ∀ f ∈ fields, f.WellFormed
  plain : ∀ f ∈ fields, f.dtype.isBasic = true ∧ Buffer.isBuffer f = false
  layout : ∀ f ∈ fields, ∀ g ∈ fields, f.layout = g.layout
  extents : ∀ f ∈ fields, f.hasFixedShape = true ∨ ∀ x ∈ f.spatialShape, (ofExtent x).isSome
  stride : ∀ f ∈ fields, ∀ k, f.layout.getLast? = some k → f.strideAt k ≠ .known 0

namespace Kernel

variable {V : Type} {A : Algebra} {M : Model V} {H : Head → Prop}
    {P : GridField → Ints → Ints → Prop}
  {fields : Fields} {s : State V} {order : Ints} {k : Int}

theorem suits_pointerGroups (hgrid : Grid fields) {known : Fields}
    (hknown : ∀ f ∈ known, f ∈ fields)
    (hk : order.getLast? = some k) {groups : Table String (List Ints)}
    (hr : pointerGroups order known = .ok groups)
    {f : GridField} (hf : f ∈ fields) (horder : order = f.layout) (readOnly : Strings) :
    Suits { readOnly, groups } k f := by
  have hformed := hgrid.formed f hf
  have hmem : ∀ j ∈ order, 0 ≤ j ∧ j < f.spatialDimensions := by
    intro j hj
    obtain ⟨n, hn, rfl⟩ := mem_map.1 (hformed.layout.mem_iff.1 (horder ▸ hj))
    exact ⟨Int.natCast_nonneg n, Int.ofNat_lt.2 (mem_range.1 hn)⟩
  have hk' : k ∈ order := mem_of_getLast? hk
  have hdim : f.spatialDimensions + f.indexDimensions = f.dimensions := by
    have := hformed.spatial
    simp only [spatialDimensions, indexDimensions, dimensions] at *
    omega
  -- the groups of the table, or one group with all coordinates
  obtain ⟨g, rest, hgroups, hkg, hperm, hne⟩ : ∃ g rest,
    groupsOf { readOnly, groups } f = g :: rest ∧ k ∈ g ∧
      (g :: rest).flatten.Perm (ascending f.dimensions) ∧ ∀ g' ∈ g :: rest, g' ≠ [] := by
    unfold groupsOf
    cases hget : Table.get? groups f.name with
    | none =>
      have hall : k ∈ ascending f.dimensions := by
        have := hmem k hk'
        exact mem_ascending.2 (by omega)
      refine ⟨ascending f.dimensions, [], rfl, hall, by simp, fun g hg => ?_⟩
      exact mem_singleton.1 hg ▸ ne_nil_of_mem hall
    | some gs =>
      obtain ⟨p, hfind, rfl⟩ := Option.map_eq_some_iff.1 hget
      have hname : p.1 = f.name := by simpa using find?_some hfind
      obtain ⟨f', hf', hp⟩ := exists_of_forall₂ (mapM_eq_ok.1 hr) (mem_of_find?_eq_some hfind)
      have hplain := (hgrid.plain f' (hknown f' hf')).2
      rw [if_neg (by simp [hplain])] at hp
      obtain ⟨gs, hgs, hp⟩ := bind_eq_ok.1 hp
      obtain rfl := pure_eq_ok.1 hp
      obtain rfl : f' = f := (hgrid.distinct f' (hknown f' hf') f hf).1 hname
      obtain ⟨j, rest, hj, rfl, hperm, hne⟩ :=
        BasePointer.groups_inner (fun j hj => (hmem j hj).1) hgs
      obtain rfl : k = j := Option.mem_unique hk hj
      exact ⟨[k], rest, rfl, mem_singleton_self k, hdim ▸ hperm, hne⟩
  refine ⟨hformed, (hgrid.plain f hf).1, hgroups ▸ hperm, hgroups ▸ hne, ?_, (hmem k hk').2,
    hgrid.stride f hf k (horder ▸ hk)⟩
  rw [positioned, hgroups]
  exact hkg

/-- An extent, a stride or the first pointer of one of some fields. -/
inductive IsGiven (fields : Fields) : Symbol → Prop where
  | extent {f : GridField} {x : Extent} {y : Symbol} (hf : f ∈ fields)
    (hx : x ∈ f.spatialShape ++ f.strides)
      (hy : ofExtent x = some y) : IsGiven fields y
  | pointer {f : GridField} (hf : f ∈ fields) (readOnly : Strings) :
    IsGiven fields (fieldPointer readOnly f)

def givenValue (M : Model V) (ν : Extent → Int) (y : Symbol) : Option V :=
  match y.kind with
  | .shape fs i => some (M.int (ν (.shape fs i)))
  | .stride f i => some (M.int (ν (.stride f i)))
  | .pointer f _ => some (M.address f 0)
  | _ => none

theorem givenValue_extent {x : Extent} (h : ofExtent x = some y) :
    givenValue M ν y = some (M.int (ν x)) := by
  cases x with
  | known n => cases h
  | shape fs i | stride f i =>
    obtain rfl := Option.some.inj h
    rfl

def Given (M : Model V) (fields : Fields) (ν : Extent → Int) (needs : Exprs) (s : State V) : Prop :=
  ∀ y, IsGiven fields y → .sym y ∈ needs → s.env y = givenValue M ν y

theorem Given.complete {needs : Exprs} (h : Given M fields ν needs s) :
    ∃ s', (∀ y, IsGiven fields y → s'.env y = givenValue M ν y) ∧
      Alike (fun y => IsGiven fields y ∧ .sym y ∉ needs) s s' := by
  classical
  refine ⟨⟨fun y => if IsGiven fields y then givenValue M ν y else s.env y, s.mem⟩,
    fun y hy => if_pos hy, fun y hy => ?_, rfl⟩
  by_cases hgiven : IsGiven fields y
  · have hneed : .sym y ∈ needs := by
      by_contra hno
      exact hy ⟨hgiven, hno⟩
    exact (h y hgiven hneed).trans (if_pos hgiven).symm
  · exact (if_neg hgiven).symm

section Nest

variable (hH : Operations H) (hC : A.Closed H) {common : List Extent} {g : Int}

include hH hC

theorem cellLoop_over (k : Int) : ∀ e ∈ (cellLoop A common g k).bounds, Expr.Over H IsExtent e := by
  have hstop : Expr.Over H IsExtent (cellLoop A common g k).stop := by
    cases hx : common[k.toNat]? with
    | none =>
      have : (cellLoop A common g k).stop = .lit (0 + -g) :=
        by simp [cellLoop, hx, boundPlus, Slice.fromEnd]
      exact this ▸ .lit _
    | some x =>
      have : (cellLoop A common g k).stop = boundPlus A (bound x) (-g) := by simp [cellLoop, hx]
      exact this ▸ boundPlus_over hH hC x (-g)
  exact Loop.forall_bounds.2 ⟨.lit g, hstop, .lit 1⟩

theorem isExtent_of_mem_bounds {e : Expr} (he : e ∈ (cellLoop A common g k).bounds)
    (hy : .sym y ∈ variablesOf e) : ∃ x, ofExtent x = some y := by
  obtain ⟨_, ⟨x, s, hs, rfl⟩, hy⟩ := (cellLoop_over hH hC k e he).exists_leaf_of_variables hH hy
  exact ⟨x, sym_mem_sym.1 hy ▸ hs⟩

theorem apart_cellLoops (horder : order.Nodup) {inner : Body}
    (hapart : inner.Pairwise Apart) (hmade : ∀ b ∈ inner, ∀ y, .sym y ∈ b.defined →
      (∀ j, y ≠ symbol j) ∧ ∀ x, ofExtent x ≠ some y) :
    (events ((order.map (cellLoop A common g)).map (·, [])) ++ inner).Pairwise Apart := by
  have hevents : ∀ ls : List Loop, events (ls.map (·, [])) = ls.map (.loop · []) := fun ls => by
    induction ls with
    | nil => rfl
    | cons l ls ih => simp [events, ih]
  have hhead : ∀ k y, (∀ x, ofExtent x ≠ some y) →
    .sym y ∉ (loop (cellLoop A common g k) []).undefined := by
    intro k y hy h
    simp only [undefined, without, mem_filter, Expr.sym_mem_unionNew] at h
    obtain ⟨xs, hxs, h⟩ := sym_mem_joinNew.1 (h.1.resolve_left (by simp [undefinedList]))
    obtain ⟨e, he, rfl⟩ := mem_map.1 hxs
    obtain ⟨x, hx⟩ := isExtent_of_mem_bounds hH hC he h
    exact hy x hx
  have hdefined : ∀ k y, .sym y ∈ (loop (cellLoop A common g k) []).defined → y = symbol k := by
    simp [defined, Loop.counter, cellLoop]
  rw [hevents, map_map]
  refine pairwise_append.2 ⟨?_, hapart, ?_⟩
  · refine pairwise_map.2 (horder.imp fun {j k} hjk y hy => ?_)
    obtain rfl := hdefined k y hy
    exact ⟨fun h => hjk (symbol_injective (hdefined j _ h)).symm,
      hhead j _ fun x hx => symbol_ne_extent hx k rfl⟩
  · intro _ ha b hb y hy
    obtain ⟨k, -, rfl⟩ := mem_map.1 ha
    obtain ⟨hcount, hext⟩ := hmade b hb y hy
    exact ⟨fun h => hcount k (hdefined k y h), hhead k y hext⟩

end Nest

theorem exists_cell (dim : Nat) {R : Nat → Int → Prop}
    (h : ∀ k < dim, ∃ i, R k i ∧ s.env (symbol k) = some (M.int i)) :
    ∃ cell : Ints, cell.length = dim ∧ ∀ k i, cell[k]? = some i → R k i ∧
      s.env (symbol k) = some (M.int i) := by
  choose! i hi using h
  refine ⟨(List.range dim).map i, by simp, fun k j hj => ?_⟩
  obtain ⟨hk, rfl⟩ := List.getElem?_eq_some_iff.1 hj
  rw [getElem_map, getElem_range]
  exact hi k (by simpa using hk)

section Loops

variable (hH : Operations H) (hS : A.Sound M H) (hC : A.Closed H) {plan : Plan} {k : Int}
  (hfixed : plan.fixed = []) (hdistinct : Distinct fields) (hP : ∀ f os is, P f os is →
    Fits plan k fields f os is)
  {body : Body} (hbody : Straight H P body) {order : Ints} (hk : order.getLast? = some k)
    {common : List Extent}
  (horder : order.Perm (ascending common.length)) {g : Int} {resolved : Body}

include hH hS hC hfixed hdistinct hP hbody hk horder

/-- Constants can be moved out of these, and what is given is not defined. -/
theorem resolved_cellLoops
    (hresolved : resolve A plan (nest ((order.map (cellLoop A common g)).map (·, [])) body) =
      .ok resolved) :
    ∃ inner, resolved = nest ((order.map (cellLoop A common g)).map (·, [])) inner ∧
      Done M H plan P k [] inner ∧
      (events ((order.map (cellLoop A common g)).map (·, [])) ++ inner).Pairwise Apart ∧
      (∀ l r, (order.map (cellLoop A common g)).reverse = l :: r → l.symbol = symbol k) ∧
      ∀ b ∈ inner, ∀ y, .sym y ∈ b.defined → (∀ j, y ≠ symbol j) ∧ (∀ x, ofExtent x ≠ some y) ∧
        ∀ readOnly f, y ≠ fieldPointer readOnly f := by
  obtain ⟨inner, rfl, hd⟩ := resolve_nest hP hdistinct hfixed hS hC hH hbody hresolved
  have hmade := fun b hb y hy => (hd.made b hb y hy).ne_given hP
  have hnodup : order.Nodup := horder.nodup_iff.2 (ascending_nodup _)
  refine ⟨inner, rfl, hd, apart_cellLoops hH hC hnodup hd.apart fun b hb y hy =>
    ⟨(hmade b hb y hy).1, (hmade b hb y hy).2.1⟩,
    fun l r hl => ?_, hmade⟩
  rw [← map_reverse] at hl
  obtain ⟨j, r', hrev, rfl, -⟩ := map_eq_cons_iff.1 hl
  have hj : order.getLast? = some j := by rw [← head?_reverse, hrev]; rfl
  rw [Option.mem_unique hk hj]
  rfl

variable (hresolved : resolve A plan (nest ((order.map (cellLoop A common g)).map (·, [])) body) =
      .ok resolved)
  {n n' : Nat} {moved : Body} (hmoved : moveConstants A n resolved = .ok (moved, n'))

include hresolved hmoved

theorem free_cellLoops : FormedList H moved ∧ ∀ y, IsGiven fields y → MentionsList y moved →
    .sym y ∈ free moved := by
  obtain ⟨inner, rfl, hd, hapart, hc, hmade⟩ :=
    resolved_cellLoops hH hS hC hfixed hdistinct hP hbody hk horder hresolved
  obtain ⟨hform, hfree⟩ := free_moveConstants hH hS hC ⟨hd.plain, hc, hapart, hd.self⟩
    (fun l hl e he => by
    obtain ⟨j, -, rfl⟩ := mem_map.1 hl
    exact (cellLoop_over hH hC j e he).imp fun _ _ h => h.isSymbol) hmoved
  refine ⟨hform, fun y hy => hfree y (fun b hb hyb => ?_) fun l hl => ?_⟩
  · obtain ⟨-, hext, hfirst⟩ := hmade b hb y hyb
    cases hy with
    | extent hf hx hy => exact hext _ hy
    | pointer hf readOnly => exact hfirst readOnly _ rfl
  · obtain ⟨j, -, rfl⟩ := mem_map.1 hl
    cases hy with
    | extent hf hx hy => exact symbol_ne_extent hy j
    | pointer hf readOnly => exact fun h => not_pointer j ((show _ = symbol j from h) ▸ isPointer_fieldPointer readOnly _)

/-- Loops over the cells of a domain touch the accessed elements, seen from one of the cells. -/
theorem touched_cellLoops (hdim : ∀ f os is, P f os is → f.spatialDimensions = common.length)

    (hextent : ∀ f os is, P f os is → ∀ x ∈ f.strides, ∀ y, ofExtent x = some y →
      s.env y = some (M.int (ν x)))
    (hcommon : ∀ x ∈ common, ∀ y, ofExtent x = some y → s.env y = some (M.int (ν x)))
    (hpointer : ∀ f os is, P f os is → s.env (fieldPointer plan.readOnly f) =
      some (M.address f.name 0)) :
    ∀ t ∈ touchedList M moved s, ∃ f os is cell, P f os is ∧
      Forall₂ (fun i (x : Extent) => g ≤ i ∧ i < x.value ν - g) cell common ∧
      t = some (f.name, f.distance ν (coordinatesOf cell os is)) := by
  obtain ⟨inner, rfl, hd, hapart, hc, hmade⟩ :=
    resolved_cellLoops hH hS hC hfixed hdistinct hP hbody hk horder hresolved
  have hcoord : ∀ j ∈ order, ∃ m : Nat, ∃ x, j = m ∧ common[m]? = some x := by
    intro j hj
    obtain ⟨m, hm, rfl⟩ := mem_map.1 (horder.mem_iff.1 hj)
    have hm := mem_range.1 hm
    exact ⟨m, common[m], rfl, getElem?_eq_getElem hm⟩
  have hrounds : ∀ (m : Nat) x, common[m]? = some x →
      rounds M s (cellLoop A common g m) = some (range g (x.value ν - g) 1) := fun m x hx =>
    rounds_cellLoop hH hS hx (hcommon x (mem_of_getElem? hx)) g
  refine touched_moveConstants hH hS hC ⟨hd.plain, hc, hapart, hd.self⟩ ?_ hmoved ?_ ?_
  · intro l hl e he
    obtain ⟨j, -, rfl⟩ := mem_map.1 hl
    refine ⟨(cellLoop_over hH hC j e he).imp fun _ _ h => h.isSymbol, fun l' hl' hy => ?_⟩
    obtain ⟨i, -, rfl⟩ := mem_map.1 hl'
    obtain ⟨x, hx⟩ := isExtent_of_mem_bounds hH hC he hy
    exact symbol_ne_extent hx i rfl
  · intro l hl
    obtain ⟨j, hj, rfl⟩ := mem_map.1 hl
    obtain ⟨m, x, rfl, hx⟩ := hcoord j hj
    rw [hrounds m x hx]
    rfl
  · intro s' henv hcount t ht
    -- the counters are at a cell of the domain
    obtain ⟨cell, hlen, hcell⟩ := exists_cell common.length
      (R := fun m i => ∀ x, common[m]? = some x → g ≤ i ∧ i < x.value ν - g) fun m hm => by
        have hmem : (m : Int) ∈ order := horder.mem_iff.2 (mem_map.2 ⟨m, mem_range.2 hm, rfl⟩)
        obtain ⟨i, hi, hs'⟩ := hcount _ (mem_map_of_mem hmem)
        refine ⟨i, fun x hx => ?_, hs'⟩
        rw [hrounds m x hx] at hi
        exact mem_range_one.1 hi
    have hkeep : ∀ y, (∀ j, y ≠ symbol j) → (∀ b ∈ inner, .sym y ∉ b.defined) →
      s'.env y = s.env y := fun y hy hb =>
      henv y hb fun l hl => by
        obtain ⟨j, -, rfl⟩ := mem_map.1 hl
        exact hy j
    have hext : ∀ x y, ofExtent x = some y → s'.env y = s.env y := fun x y hy => by
      refine hkeep y (fun j hj => ?_) fun b hb hyb => (hmade b hb y hyb).2.1 x hy
      exact symbol_ne_extent hy j hj
    have hstanding : Standing M plan P ν cell s' := by
      refine ⟨fun f os is h => ⟨fun x hx y hy => ?_, fun j i hj => (hcell j i hj).2⟩,
        fun f os is h => hlen.trans (hdim f os is h).symm,
        fun f os is h => ?_⟩
      · exact (hext x y hy).trans (hextent f os is h x hx y hy)
      · refine (hkeep _ (fun j hj => ?_) fun b hb hyb => (hmade b hb _ hyb).2.2 _ f rfl).trans
          (hpointer f os is h)
        exact not_pointer j (hj ▸ isPointer_fieldPointer plan.readOnly f)
    obtain ⟨f, os, is, h, rfl⟩ := hd.touches hstanding t ht
    refine ⟨Option.some_ne_none _, f, os, is, cell, h, forall₂_iff_get.2 ⟨hlen, fun j h₁ h₂ => ?_⟩,
      rfl⟩
    exact (hcell j _ (getElem?_eq_getElem h₁)).1 _ (getElem?_eq_getElem h₂)

end Loops

/-- What is no further away than the ghost layers are wide is inside. -/
theorem forall₂_shifted {g : Int} {cell os : Ints} {common : List Extent}
    (hcell : Forall₂ (fun i (x : Extent) => g ≤ i ∧ i < x.value ν - g) cell common)
    (hos : ∀ o ∈ os, |o| ≤ g)
    (hlen : os.length = common.length) :
    Forall₂ (fun i (x : Extent) => 0 ≤ i ∧ i < x.value ν) (zipWith (· + ·) cell os) common := by
  induction hcell generalizing os with
  | nil => simp
  | cons hi _ ih =>
    cases os with
    | nil => cases hlen
    | cons o os =>
      refine .cons ?_ (ih (forall_mem_cons.1 hos).2 (by simpa using hlen))
      have := abs_le.1 (hos o mem_cons_self)
      dsimp only
      omega

/-- The domain is as large as one of the fields; all fields that are touched have the shape of this
field, or no fixed shape as it has none. -/
theorem touched_create (hH : Operations H) (hS : A.Sound M H) (hC : A.Closed H)
    (hgrid : Grid fields)
    (hP : ∀ f os is, P f os is → f ∈ fields ∧ os.length = f.spatialDimensions ∧
      is.length = f.indexDimensions)
    {body : Body} (hbody : Straight H P body) {fresh : Nat} {o : Options} (hslice : o.slice = none)
    (hghost : o.ghost = .automatic) {kernel : Kernel} (hr : create A fresh body o = .ok kernel) :
    ∃ f₀ ∈ fields, ∀ {ν : Extent → Int} {s : State V}, Given M fields ν (free kernel.body) s →
      ∀ t ∈ touchedList M kernel.body s, ∃ f os is xs, P f os is ∧
        (f.hasFixedShape = true ∧ f.spatialShape = f₀.spatialShape ∨ f.hasFixedShape = false ∧
          f₀.hasFixedShape = false) ∧
        Forall₂ (fun x (n : Extent) => 0 ≤ x ∧ x < n.value ν) xs f₀.spatialShape ∧
        t = some (f.name, f.distance ν (xs ++ is)) := by
  obtain ⟨typed, htyped, hr⟩ := bind_eq_ok.1 hr
  obtain ⟨order, horder, hr⟩ := bind_eq_ok.1 hr
  obtain ⟨⟨looped, ghost⟩, hloops, hr⟩ := bind_eq_ok.1 hr
  obtain ⟨_, hsame, hr⟩ := bind_eq_ok.1 hr
  obtain rfl := Except.ok.inj hsame
  obtain ⟨groups, hgroups, hr⟩ := bind_eq_ok.1 hr
  rw [hslice, hghost] at hloops
  -- the statements with types
  obtain ⟨htbody, hknown⟩ := Constraint.run_straight hH hC hbody htyped
  have hfields : ∀ f ∈ typed.fields, f ∈ fields := fun f hf => by
    obtain ⟨os, is, h⟩ := hknown f hf
    exact (hP f os is h).1
  have hbuffer : typed.fields.any Buffer.isBuffer = false :=
    by simpa using fun f hf => (hgrid.plain f (hfields f hf)).2
  rw [hbuffer] at hr
  obtain ⟨_, hsame, hr⟩ := bind_eq_ok.1 hr
  obtain rfl := pure_eq_ok.1 hsame
  obtain ⟨resolved, hresolved, hr⟩ := bind_eq_ok.1 hr
  obtain ⟨⟨moved, n⟩, hmoved, hr⟩ := bind_eq_ok.1 hr
  obtain rfl := pure_eq_ok.1 hr
  -- the loops around them
  obtain ⟨fs, common, t, body', g, hfs, hcommon, hnames, hreplace, hreach, rfl⟩ :=
    loops_eq_ok hloops
  obtain ⟨⟨f₀, hf₀, rfl⟩, hne, hshapes⟩ := commonShape_eq_ok hcommon
  have hsub : ∀ f ∈ fs, f ∈ fields := fun f hf => by
    obtain ⟨-, a, ha, -, hfield⟩ := (hfs f).1 hf
    obtain ⟨f', os, is, h, rfl⟩ := htbody.accesses_known hH a ha
    obtain rfl : f' = f := Option.some.inj hfield
    exact (hP f' os is h).1
  have hacc : ∀ f os is, P f os is ∧ Access.literal f os is ∈ accesses typed.body → f ∈ fs :=
    fun f os is h => by
    have hplain := (hgrid.plain f (hP f os is h.1).1).2
    refine (hfs f).2 ⟨by simpa [Buffer.isBuffer] using hplain, _, h.2, rfl, rfl⟩
  have htable := extentNames_eq_ok hnames fun f hf => by
    rcases hshapes with hall | hnone
    · exact .inl (hall f hf).1
    · refine .inr fun x hx => ?_
      have hopen : ∀ f ∈ fs, ∀ x ∈ f.spatialShape, (ofExtent x).isSome := fun f hf =>
        (hgrid.extents f (hsub f hf)).resolve_left (by simp [hnone f hf])
      exact (mem_append.1 hx).elim (hopen f hf x) (hopen f₀ hf₀ x)
  obtain ⟨hstraight, -⟩ := (htbody.accessed hH).replaceList hH hC htable hreplace
  -- the order of the loops
  obtain ⟨f₁, hf₁, rfl⟩ := loopOrder_eq_ok horder
  have hf₁ := hfields f₁ (mem_of_mem_filter hf₁)
  have hlayout : ∀ f ∈ fields, f₁.layout = f.layout := hgrid.layout f₁ hf₁
  have hspatial : ∀ f ∈ fields, f.spatialShape.length = f.spatialDimensions := fun f hf => by
    have := (hgrid.formed f hf).spatial
    simpa [spatialShape, dimensions] using this
  have hdim : ∀ f ∈ fields, f.spatialDimensions = f₀.spatialShape.length := fun f hf => by
    rw [hspatial f₀ (hsub f₀ hf₀), spatialDimensions, spatialDimensions, ← hlayout f hf,
      ← hlayout f₀ (hsub f₀ hf₀)]
  obtain ⟨k, hk⟩ : ∃ k, f₁.layout.getLast? = some k := by
    refine Option.isSome_iff_exists.1 (getLast?_isSome.2 fun hnil => hne (length_eq_zero_iff.1 ?_))
    rw [← hdim f₁ hf₁, spatialDimensions, hnil]
    rfl
  have hperm : f₁.layout.Perm (ascending f₀.spatialShape.length) :=
    hdim f₁ hf₁ ▸ (hgrid.formed f₁ hf₁).layout
  have hfits : ∀ f os is, P f os is ∧ Access.literal f os is ∈ accesses typed.body →
      Fits { readOnly := typed.readOnly, groups } k fields f os is := fun f os is h => by
    obtain ⟨hf, hos, his⟩ := hP f os is h.1
    exact ⟨hf, suits_pointerGroups hgrid hfields hk hgroups hf (hlayout f hf) _, hos, his⟩
  obtain ⟨hform, hfree⟩ := free_cellLoops hH hS hC rfl hgrid.distinct hfits hstraight hk hperm
    hresolved hmoved
  refine ⟨f₀, hsub f₀ hf₀, fun {ν s} hs t ht => ?_⟩
  -- what is not needed does not matter
  obtain ⟨s', hs', halike⟩ := hs.complete
  rw [(Alike.runsList (fun y hy hm => hy.2 (hfree y hy.1 hm)) halike).2 hH hform] at ht
  have hextent : ∀ f ∈ fields, ∀ x ∈ f.spatialShape ++ f.strides, ∀ y, ofExtent x = some y →
      s'.env y = some (M.int (ν x)) := fun f hf x hx y hy => (hs' y (.extent hf hx hy)).trans
        (givenValue_extent hy)
  obtain ⟨f, os, is, cell, h, hcell, rfl⟩ :=
    touched_cellLoops hH hS hC rfl hgrid.distinct hfits hstraight hk hperm hresolved hmoved
    (fun f os is h => hdim f (hP f os is h.1).1)
    (fun f os is h x hx => hextent f (hP f os is h.1).1 x (mem_append_right _ hx))
    (fun x hx => hextent f₀ (hsub f₀ hf₀) x (mem_append_left _ hx))
    (fun f os is h => hs' _ (.pointer (hP f os is h.1).1 _)) t ht
  refine ⟨f, os, is, zipWith (· + ·) cell os, h.1, ?_, ?_, rfl⟩
  · rcases hshapes with hall | hnone
    · exact .inl (hall f (hacc f os is h))
    · exact .inr ⟨by simpa using hnone f (hacc f os is h), by simpa using hnone f₀ hf₀⟩
  · obtain ⟨r, hr, hrg⟩ := hreach _ h.2 rfl
    have hos : ∀ o ∈ os, |o| ≤ g := fun o ho => (reach_literal hr o ho).trans hrg
    have hlen : os.length = f₀.spatialShape.length :=
      (hP f os is h.1).2.1.trans (hdim f (hP f os is h.1).1)
    exact forall₂_shifted hcell hos hlen

end Kernel

end StencilForge
