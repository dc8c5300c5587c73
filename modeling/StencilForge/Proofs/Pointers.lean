import StencilForge.Proofs.Footprint
import StencilForge.Proofs.Straight

/-!
# Proofs — pointers on the way to elements

For every access a pointer is moved along groups of coordinates, and the rest of the distance is
left for the position (`Address.Suits`).  A pointer is known by its name (`Address.Points`):
accesses that agree along these coordinates share it, and it stands at the same element for all of
them (`Address.Points.value_eq`).  Resolving gives definitions of pointers, each by earlier ones
(`Address.Linked`), and elements behind the last of them (`Address.Resolved`).
-/

open List StencilForge.Outcome

namespace StencilForge

open Access GridField Counter

variable {e : Expr} {has has' : Symbol → Prop} {ds ds' : Address.Definitions} {later : Strings}
    {fuel : Nat}

theorem Counter.symbol_injective {k j : Int} (h : symbol k = symbol j) : k = j := by
  have hname : "ctr_" ++ toString k = "ctr_" ++ toString j := congrArg Symbol.name h
  exact Int.repr_injective ((String.append_right_inj _).1 hname)

namespace GridField

variable {ν : Extent → Int} {f : GridField} {xs ys g : Ints} {k : Int}

theorem partialDistance_congr (h : ∀ j ∈ g, xs.getD j.toNat 0 = ys.getD j.toNat 0) :
    f.partialDistance ν xs g = f.partialDistance ν ys g :=
      congrArg sum (map_congr_left fun j hj => by rw [h j hj])

theorem partialDistance_of_ne (hg : g.Nodup) (hk : k ∈ g)
    (h : ∀ j ∈ g, j ≠ k → xs.getD j.toNat 0 = ys.getD j.toNat 0) :
    f.partialDistance ν xs g =
      f.partialDistance ν ys g + (f.strideAt k).value ν *
        (xs.getD k.toNat 0 - ys.getD k.toNat 0) := by
  induction g with
  | nil => cases hk
  | cons j g ih =>
    obtain ⟨hj, hg⟩ := nodup_cons.1 hg
    have hcons : ∀ zs, f.partialDistance ν zs (j :: g) =
        (f.strideAt j).value ν * zs.getD j.toNat 0 + f.partialDistance ν zs g :=
          fun zs => by simp [partialDistance]
    rw [hcons, hcons]
    rcases mem_cons.1 hk with rfl | hk
    · rw [partialDistance_congr fun i hi => h i (mem_cons_of_mem _ hi) fun hik => hj (hik ▸ hi)]
      ring
    · have hjk : j ≠ k := fun hjk => hj (hjk ▸ hk)
      rw [ih hg hk (forall_mem_cons.1 h).2, h j mem_cons_self hjk]
      ring

end GridField

theorem Expr.Over.exists_leaf_of_variables {H : Head → Prop} {P : Expr → Prop} (hH : Operations H)
    (he : Over H P e)
    {y : Symbol} (hy : .sym y ∈ Statement.variablesOf e) :
    ∃ x, P x ∧ .sym y ∈ Statement.variablesOf x := by
  by_contra hno
  exact he.notMem_variables hH (fun x _ hx hyx => hno ⟨x, hx, hyx⟩) hy

namespace Address

open Statement Motion

variable {V : Type} {A : Algebra} {M : Model V} {H : Head → Prop} {plan : Plan} {f : GridField}
    {os is : Ints}

/-- The groups of coordinates that the pointer into a field is moved along, in order. -/
def moves (plan : Plan) (f : GridField) : List Ints := ((groupsOf plan f).drop 1).reverse

def positioned (plan : Plan) (f : GridField) : Ints := (groupsOf plan f).headD []

/-- Every coordinate is taken once, and one along which elements are apart is left for the position.
-/
structure Suits (plan : Plan) (k : Int) (f : GridField) : Prop extends f.WellFormed where
  basic : f.dtype.isBasic = true
  groups : (groupsOf plan f).flatten.Perm (Layout.ascending f.dimensions)
  nonempty : ∀ g ∈ groupsOf plan f, g ≠ []
  inner : k ∈ positioned plan f
  cells : k < f.spatialDimensions
  stride : f.strideAt k ≠ .known 0

namespace Suits

variable {k : Int} (hf : Suits plan k f)

include hf

theorem nonneg : ∀ g ∈ groupsOf plan f, ∀ j ∈ g, 0 ≤ j := by
  intro g hg j hj
  have hmem := hf.groups.mem_iff.1 (mem_flatten_of_mem hg hj)
  obtain ⟨n, -, rfl⟩ := mem_map.1 hmem
  exact Int.natCast_nonneg n

theorem positioned_mem : positioned plan f ∈ groupsOf plan f := by
  have hk := hf.inner
  unfold positioned at hk ⊢
  cases hgs : groupsOf plan f with
  | nil => simp [hgs] at hk
  | cons g gs => exact mem_cons_self

theorem nodup : (positioned plan f).Nodup :=
  (nodup_flatten.1 (hf.groups.nodup_iff.2 (Layout.ascending_nodup _))).1 _ hf.positioned_mem

theorem mem_moves {g : Ints} (hg : g ∈ moves plan f) : g ≠ [] ∧ ∀ j ∈ g, 0 ≤ j := by
  have hmem := mem_of_mem_drop (mem_reverse.1 hg)
  exact ⟨hf.nonempty g hmem, hf.nonneg g hmem⟩

theorem perm_moves : ((moves plan f).flatten ++ positioned plan f).Perm
    (Layout.ascending f.dimensions) := by
  refine .trans ?_ hf.groups
  have hrev : (moves plan f).flatten.Perm ((groupsOf plan f).drop 1).flatten :=
    (reverse_perm _).flatten
  refine (hrev.append_right _).trans (perm_append_comm.trans (.of_eq ?_))
  unfold positioned
  cases groupsOf plan f <;> simp

theorem partialDistance_moves (hos : os.length = f.spatialDimensions)
    (his : is.length = f.indexDimensions) {ν : Extent → Int}
    {c : Ints} (hc : c.length = f.spatialDimensions) :
    f.partialDistance ν (coordinatesOf c os is) ((moves plan f).flatten ++ positioned plan f) =
      f.distance ν (coordinatesOf c os is) := by
  refine partialDistance_of_perm ?_ (hf.strides ▸ hf.perm_moves)
  have := hf.spatial
  have := hf.strides
  simp only [dimensions, spatialDimensions, indexDimensions] at *
  simp only [coordinatesOf, length_append, length_zipWith]
  omega

/-- The position of an element depends on the counter of the coordinate that was left for it. -/
theorem moves_position (hos : os.length = f.spatialDimensions) {d : Expr}
    (hd : IsDistance M H f os is (positioned plan f) d) : Moves M (symbol k) d := by
  have hk : 0 ≤ k := hf.nonneg _ hf.positioned_mem k hf.inner
  obtain ⟨k, rfl⟩ := Int.eq_ofNat_of_zero_le hk
  have hlt : k < f.spatialDimensions := by simpa using hf.cells
  let cell : Int → Ints := (replicate f.spatialDimensions 1).set k
  have hcell : ∀ n, (cell n).length = f.spatialDimensions := fun n => by simp [cell]
  have hstands : ∀ n, View.Stands M (fun _ => 1) f (cell n) (probe M (symbol k) n) := by
    refine fun n => ⟨fun x _ s hs => ?_, fun j i hj => ?_⟩
    · have hne : s ≠ symbol k := by
        rintro rfl
        cases x <;> simp [Symbol.ofExtent, symbol, Symbol.typed] at hs
      simp [probe, hne]
    · by_cases hjk : j = k
      · subst hjk
        obtain rfl : n = i := by simpa [cell, hlt] using hj
        simp [probe]
      · have hne : symbol j ≠ symbol k := fun h => hjk (Int.ofNat.inj (symbol_injective h))
        obtain ⟨-, rfl⟩ : j < f.spatialDimensions ∧ 1 = i := by
          simpa [cell, getElem?_set_ne (symm hjk), getElem?_replicate] using hj
        simp [probe, hne]
  -- the positions differ by one stride
  have hget : ∀ n (j : Nat), j ≠ k → (coordinatesOf (cell n) os is).getD j 0 =
    (coordinatesOf (cell 0) os is).getD j 0 := by
    intro n j hj
    have hlen : ∀ n, (zipWith (· + ·) (cell n) os).length = f.spatialDimensions :=
      fun n => by simp [hcell, hos]
    simp only [coordinatesOf, getD_eq_getElem?_getD]
    by_cases hjd : j < f.spatialDimensions
    · rw [getElem?_append_left (by rwa [hlen]), getElem?_append_left (by rwa [hlen])]
      simp [getElem?_zipWith, cell, getElem?_set_ne (symm hj)]
    · rw [getElem?_append_right (by rw [hlen]; omega), getElem?_append_right (by rw [hlen]; omega),
        hlen, hlen]
  have hstep : ∀ n, (coordinatesOf (cell n) os is).getD k 0 = n + os.getD k 0 := by
    simp [coordinatesOf, getElem?_append_left, cell, hlt, hos]
  have hdiff : f.partialDistance (fun _ => 1) (coordinatesOf (cell 1) os is) (positioned plan f) =
      f.partialDistance (fun _ => 1) (coordinatesOf (cell 0) os is) (positioned plan f) + _ :=
    partialDistance_of_ne hf.nodup hf.inner fun j hj hjk => by
      have := hf.nonneg _ hf.positioned_mem j hj
      exact hget 1 j.toNat (by omega)
  have hstride : (f.strideAt k).value (fun _ => 1) ≠ 0 := by
    have hne := hf.stride
    cases hx : f.strideAt k with
    | known m => exact fun h => hne (by rw [hx]; exact congrArg _ h)
    | shape fs j | stride g j => simp [Extent.value]
  refine ⟨_, _, hd.value (hstands 0) (hcell 0), hd.value (hstands 1) (hcell 1), fun h => hstride ?_⟩
  have h := Option.some.inj ((M.toInt?_int _).symm.trans
    ((congrArg M.toInt? h).trans (M.toInt?_int _)))
  rw [hdiff, Int.toNat_natCast, hstep, hstep] at h
  linarith

end Suits

/-! ### Pointers on the way -/

variable {fields : Fields} {P : GridField → Ints → Ints → Prop} {k : Int}

/-- An access to one of some fields, with an offset along each coordinate. -/
structure Fits (plan : Plan) (k : Int) (fields : Fields) (f : GridField) (os is : Ints) : Prop where
  mem : f ∈ fields
  suits : Suits plan k f
  spatial : os.length = f.spatialDimensions
  indexed : is.length = f.indexDimensions

def Points (plan : Plan) (P : GridField → Ints → Ints → Prop) (f : GridField) (os is : Ints)
    (gs : List Ints)
    (q : Symbol) : Prop :=
  P f os is ∧ gs <+: moves plan f ∧ IsPointer plan.readOnly f (os ++ is) gs.flatten q

variable (A M H plan P) in
/-- The other one is the first of its field or has a property. -/
inductive Link (has : Symbol → Prop) : Expr × Expr → Prop where
  | intro {f : GridField} {os is : Ints} {gs : List Ints} {g : Ints} {p q : Symbol} {d : Expr}
      (hq : Points plan P f os is (gs ++ [g]) q) (hp : Points plan P f os is gs p) (hhas : gs ≠ [] →
        has p)
      (hd : IsDistance M H f os is g d) : Link has (.sym q, A.add2 (.sym p) d)

variable (A M H plan P) in
inductive Linked : Definitions → Prop where
  | nil : Linked []
  | snoc {ds : Definitions} {d : Expr × Expr} (h : Linked ds)
    (hd : Link A M H plan P (fun p => ∃ v, (.sym p, v) ∈ ds) d) :
      Linked (ds ++ [d])

theorem Link.imp {d : Expr × Expr} (h : Link A M H plan P has d) (himp : ∀ p, has p → has' p) :
    Link A M H plan P has' d := by
  cases h with
  | intro hq hp hhas hd => exact .intro hq hp (fun h => himp _ (hhas h)) hd

theorem Linked.append (h : Linked A M H plan P ds) (h' : Linked A M H plan P ds') :
    Linked A M H plan P (ds ++ ds') := by
  induction h' with
  | nil => simpa using h
  | snoc _ hd ih =>
    rw [← append_assoc]
    exact .snoc ih (hd.imp fun p ⟨v, hv⟩ => ⟨v, mem_append_right _ hv⟩)

theorem points_first (h : P f os is) : Points plan P f os is [] (fieldPointer plan.readOnly f) :=
  ⟨h, nil_prefix, by simp [IsPointer, fieldPointer, suffix]⟩

theorem linked_of_reached (hf : Suits plan k f) (h : P f os is) {a : Expr} (hlit : IsLiteral a)
    {gs : List Ints} {p : Symbol}
    (hgs : gs <+: moves plan f)
    (hr : Reached A (IsStep M H f a os is) (fieldPointer plan.readOnly f) gs p ds) :
    Linked A M H plan P ds ∧ Points plan P f os is gs p ∧ (gs ≠ [] → ∃ v, (.sym p, v) ∈ ds) := by
  induction hr with
  | start => exact ⟨.nil, points_first h, absurd rfl⟩
  | @step gs g p ds s d hp hd ih =>
    obtain ⟨hlinked, hpoints, hhas⟩ := ih ((prefix_append gs [g]).trans hgs)
    have hg : g ≠ [] := (hf.mem_moves (hgs.subset (by simp))).1
    have hne : (gs ++ [g]).flatten ≠ [] := by simp [hg]
    have hkind : (p.dtype?.getD .double) = (fieldPointer plan.readOnly f).dtype?.getD .double := by
      obtain ⟨n, kind⟩ := p
      have hkind := hpoints.2.2.2
      split at hkind <;> subst hkind <;> rfl
    have hq : Points plan P f os is (gs ++ [g]) (.typed (p.name ++ s) (p.dtype?.getD .double)) := by
      refine ⟨h, hgs, ?_, ?_⟩
      · simp only [Symbol.typed, String.toList_append, hpoints.2.2.1, hd.name hlit, flatten_append,
          flatten_singleton,
          suffix, flatMap_append, append_assoc]
      · rw [if_neg hne, ← hkind]
        rfl
    refine ⟨.snoc hlinked (.intro hq hpoints hhas hd.toIsDistance), hq,
      fun _ => ⟨A.add2 (.sym p) d, by simp⟩⟩

theorem Points.value_eq (hdistinct : Distinct fields)
    (hP : ∀ f os is, P f os is → Fits plan k fields f os is) {g : GridField} {os' is' : Ints}
    {gs hs : List Ints} {q : Symbol}
    (h : Points plan P f os is gs q) (h' : Points plan P g os' is' hs q) :
    f = g ∧ gs.flatten = hs.flatten ∧ ∀ ν c, c.length = f.spatialDimensions →
      f.partialDistance ν (coordinatesOf c os is) gs.flatten =
        f.partialDistance ν (coordinatesOf c os' is') hs.flatten := by
  obtain ⟨hfield, hf, hos, -⟩ := hP f os is h.1
  obtain ⟨hfield', -, hos', -⟩ := hP g os' is' h'.1
  obtain ⟨rfl, hsuffix⟩ := h.2.2.eq_field hdistinct hfield hfield' h'.2.2
  obtain ⟨hflat, hsame⟩ := suffix_injective h.2.1.flatten h'.2.1.flatten hsuffix
  refine ⟨rfl, hflat, fun ν c hc => ?_⟩
  rw [← hflat]
  refine partialDistance_congr fun j hj => ?_
  have hxs := hsame j hj
  have hlen : ∀ xs : Ints, xs.length = f.spatialDimensions →
    (zipWith (· + ·) c xs).length = f.spatialDimensions :=
    fun xs hxs => by simp [hc, hxs]
  simp only [getD_eq_getElem?_getD, coordinatesOf] at hxs ⊢
  by_cases hlt : j.toNat < f.spatialDimensions
  · rw [getElem?_append_left (by omega), getElem?_append_left (by omega)] at hxs
    rw [getElem?_append_left (by rw [hlen os hos]; exact hlt),
      getElem?_append_left (by rw [hlen os' hos']; exact hlt)]
    have hx := getElem?_eq_getElem (l := os) (i := j.toNat) (by omega)
    have hy := getElem?_eq_getElem (l := os') (i := j.toNat) (by omega)
    have hz := getElem?_eq_getElem (l := c) (i := j.toNat) (by omega)
    rw [hx, hy] at hxs
    simp only [getElem?_zipWith, hx, hy, hz]
    simpa using hxs
  · rw [getElem?_append_right (by omega), getElem?_append_right (by omega)] at hxs
    rw [getElem?_append_right (by rw [hlen os hos]; omega),
      getElem?_append_right (by rw [hlen os' hos']; omega), hlen os hos,
      hlen os' hos', ← hos, hxs, hos, hos']

/-! ### Expressions -/

variable (M H plan P) in
/-- A symbol that is not assigned later, or an element behind a pointer that is the first one or has
a property. -/
inductive Resolved (has : Symbol → Prop) (later : Strings) : Expr → Prop where
  | sym {s : Symbol} (hs : s.name ∉ later) (hp : ¬ Name.IsPointer s.name) :
    Resolved has later (.sym s)
  | element {f : GridField} {os is : Ints} {last : Symbol} {position : Expr} {n : Nat} {r : Exprs}
      (hlast : Points plan P f os is (moves plan f) last) (hhas : moves plan f ≠ [] → has last)
      (hd : IsDistance M H f os is (positioned plan f) position) :
      Resolved has later (.node (.resolved f n) (.sym last :: position :: r))

theorem Resolved.imp (h : Resolved M H plan P has later e)
    (himp : ∀ p, has p → has' p) : Resolved M H plan P has' later e := by
  cases h with
  | sym hs hp => exact .sym hs hp
  | element hlast hhas hd => exact .element hlast (fun h => himp _ (hhas h)) hd

theorem Resolved.isPlace (h : Resolved M H plan P has later e) :
    e.isPlace = true := by cases h <;> rfl

def Defines (ds : Definitions) (p : Symbol) : Prop := ∃ v, (.sym p, v) ∈ ds

/-- Resolving an access gives its element and the pointers on the way. -/
theorem expression_literal
    (hr : (expression A (at? A plan) (fuel + 1) (literal f os is)).run ds = .ok (e, ds')) :
    ∃ new, access A plan f (literal f os is) = .ok (e, new) ∧ ds' = ds ++ new := by
  have hat : at? A plan (literal f os is) = some (do
      let p ← access A plan f (literal f os is)
      modify (· ++ p.2)
      return p.1) := rfl
  have hparts : (literal f os is).offsets ++ (literal f os is).index = (os ++ is).map .lit := by
    rw [offsets_literal, index_literal, map_append]
  have hindirect : (indirectFields (literal f os is)).isEmpty = true := by
    rw [indirectFields_literal]
    rfl
  rw [literal] at hr hparts hindirect
  simp only [expression, hindirect, if_true, pure_bind, hparts] at hr
  rw [← literal, hat] at hr
  simp only [run_bind_eq_ok, run_lift_eq_ok, run_modify_eq_ok] at hr
  obtain ⟨⟨r, new⟩, _, ⟨hacc, rfl⟩, _, _, rfl, rfl, rfl⟩ := hr
  exact ⟨new, hacc, rfl⟩

section Expressions

variable (hfixed : plan.fixed = []) (hS : A.Sound M H) (hC : A.Closed H) (hH : Operations H)
  (hP : ∀ f os is, P f os is → Fits plan k fields f os is)

include hfixed hS hC hH hP

theorem access_resolved (h : P f os is) (later : Strings)
    (hr : access A plan f (literal f os is) = .ok (e, ds)) :
    Linked A M H plan P ds ∧ Resolved M H plan P (Defines ds) later e := by
  obtain ⟨-, hf, hos, his⟩ := hP f os is h
  obtain ⟨last, position, rfl, hreached, hd⟩ :=
    access_reached hfixed hf.basic (isElement_literal hos his) hS hC hH
    hf.nonneg hr
  obtain ⟨hlinked, hlast, hhas⟩ := linked_of_reached hf h isLiteral_literal prefix_rfl hreached
  exact ⟨hlinked, .element hlast hhas hd⟩

theorem expression_resolved {e' : Expr} (he : Expr.Over H (Operand P later) e)
    (hfuel : 2 * e.size ≤ fuel) (hr : (expression A (at? A plan) fuel e).run ds = .ok (e', ds')) :
    ∃ new, ds' = ds ++ new ∧ Linked A M H plan P new ∧
      Expr.Over H (Resolved M H plan P (Defines new) later) e' := by
  induction he generalizing fuel ds ds' e' with
  | @leaf x hplace hp =>
    have hpos : 0 < x.size := by cases x <;> simp [Expr.size]
    obtain _ | fuel := fuel
    · omega
    cases hp with
    | sym hs hp =>
      obtain ⟨rfl, rfl⟩ := run_pure_eq_ok.1 hr
      exact ⟨[], by simp, .nil, .sym (.sym hs hp)⟩
    | access h =>
      obtain ⟨new, hacc, rfl⟩ := expression_literal hr
      obtain ⟨hlinked, hres⟩ := access_resolved hfixed hS hC hH hP h later hacc
      exact ⟨new, rfl, hlinked, .leaf hres.isPlace hres⟩
  | @atom a ha =>
    obtain _ | fuel := fuel
    · simp [Expr.size] at hfuel
    obtain ⟨rfl, rfl⟩ := run_pure_eq_ok.1 hr
    exact ⟨[], by simp, .nil, .atom ha⟩
  | @node h as hh _ ih =>
    obtain _ | fuel := fuel
    · simp [Expr.size] at hfuel
    have list : ∀ (xs : Exprs) (fuel : Nat) (ds ds' : Definitions) (bs : Exprs),
      (∀ a ∈ xs, a ∈ as) →
        2 * Expr.sizeList xs + 1 ≤ fuel → (expressions A (at? A plan) fuel xs).run ds = .ok (bs,
          ds') →
        ∃ new, ds' = ds ++ new ∧ Linked A M H plan P new ∧
          ∀ b ∈ bs, Expr.Over H (Resolved M H plan P (Defines new) later) b := by
      intro xs
      induction xs with
      | nil =>
        intro fuel ds ds' bs _ hfuel hr
        obtain _ | fuel := fuel
        · omega
        obtain ⟨rfl, rfl⟩ := run_pure_eq_ok.1 hr
        exact ⟨[], by simp, .nil, fun b hb => absurd hb not_mem_nil⟩
      | cons x xs ihxs =>
        intro fuel ds ds' bs hsub hfuel hr
        obtain _ | fuel := fuel
        · omega
        have hpos : 0 < x.size := by cases x <;> simp [Expr.size]
        simp only [Expr.sizeList] at hfuel
        simp only [expressions, run_bind_eq_ok] at hr
        obtain ⟨b, ds₁, hb, cs, _, hcs, rfl, rfl⟩ := hr
        obtain ⟨new₁, rfl, hl₁, ho₁⟩ := ih x (hsub x mem_cons_self) (by omega) hb
        obtain ⟨new₂, rfl, hl₂, ho₂⟩ := ihxs fuel _ _ cs (forall_mem_cons.1 hsub).2 (by omega) hcs
        refine ⟨new₁ ++ new₂, by simp, hl₁.append hl₂, forall_mem_cons.2 ⟨?_, fun y hy => ?_⟩⟩
        · exact ho₁.imp fun _ _ h => h.imp fun p hp => hp.imp fun v => mem_append_left _
        · exact (ho₂ y hy).imp fun _ _ h => h.imp fun p hp => hp.imp fun v => mem_append_right _
    have hop := hH.operation hh
    have hrun : (do
        let bs ← expressions A (at? A plan) fuel as
        if as.isEmpty then return Expr.node h as else rebuild A h (Visit.withHidden h as bs) :
          Resolve Expr).run ds =
          .ok (e', ds') := by
      unfold expression at hr
      split at hr
      · next heq => cases heq
      · next heq =>
        obtain ⟨rfl, rfl⟩ := Expr.node.inj heq
        split at hr
        · cases hop
        · cases hop
        · exact hr
    rw [run_bind_eq_ok] at hrun
    obtain ⟨bs, ds₁, hbs, hrun⟩ := hrun
    obtain ⟨new, rfl, hlinked, hover⟩ := list as fuel ds ds₁ bs (fun _ h => h)
      (by simp [Expr.size] at hfuel; omega) hbs
    split at hrun
    · next hempty =>
      obtain ⟨rfl, rfl⟩ := run_pure_eq_ok.1 hrun
      refine ⟨new, rfl, hlinked, .node hh fun a ha => ?_⟩
      rw [isEmpty_iff.1 hempty] at ha
      cases ha
    · obtain ⟨hbuild, rfl⟩ := run_lift_eq_ok.1 hrun
      rw [Visit.withHidden_of_operation hH hh] at hbuild
      refine ⟨new, rfl, hlinked, ?_⟩
      unfold rebuild at hbuild
      split at hbuild
      · exact Except.ok.inj hbuild ▸ .node hh hover
      · exact Except.ok.inj hbuild ▸ .node hh hover
      · exact Except.ok.inj hbuild ▸ .node hh hover
      · exact hC hh hover hbuild

end Expressions

end Address

end StencilForge
