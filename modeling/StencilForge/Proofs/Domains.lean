import StencilForge.Proofs.Nest
import StencilForge.Proofs.Straight

/-!
# Proofs — loops over the cells of a domain

Loops go over all cells that are not ghost layers (`Domain.loops_eq_ok`).  The extents are those of
one of the fields (`Domain.commonShape_eq_ok`), the ghost layers are as many as the accesses reach
(`Domain.resolve_automatic`), and the counters take the values in between
(`Domain.rounds_cellLoop`).
-/

open List StencilForge.Outcome

namespace StencilForge

open Substitute Machine Symbol

variable {α : Type} {dim : Nat} {order : Ints} {e : Expr} {x : Extent} {t : Table Expr Expr}
  {ghost : List (Int × Int)} {body looped : Body} {ν : Extent → Int}

theorem mem_unionNew_iff [BEq α] [LawfulBEq α] {xs ys : List α} {x : α} :
    x ∈ unionNew xs ys ↔ x ∈ xs ∨ x ∈ ys := by
  refine ⟨mem_of_mem_unionNew, ?_⟩
  rintro (hx | hx)
  · exact mem_unionNew_left hx
  · rcases exists_beq_of_mem_unionNew xs hx with h | ⟨y, hy, hxy⟩
    · exact h
    · exact eq_of_beq hxy ▸ hy

theorem Table.forall_insert {β : Type} [BEq α] {P : α → Prop} {Q : β → Prop} {t : Table α β} {a : α}
    {b : β}
    (ht : ∀ p ∈ t, P p.1 ∧ Q p.2) (ha : P a) (hb : Q b) : ∀ p ∈ t.insert a b, P p.1 ∧ Q p.2 := by
  induction t with
  | nil => exact fun p hp => mem_singleton.1 hp ▸ ⟨ha, hb⟩
  | cons q t ih =>
    obtain ⟨hq, ht⟩ := forall_mem_cons.1 ht
    simp only [insert, alter]
    split
    · exact forall_mem_cons.2 ⟨⟨hq.1, hb⟩, ht⟩
    · exact forall_mem_cons.2 ⟨hq, ih ht⟩

namespace Domain

variable {A : Algebra} {fs : Fields} {common : List Extent}

theorem loopOrder_eq_ok (h : loopOrder fs = .ok order) : ∃ f ∈ fs, order = f.layout := by
  unfold loopOrder at h
  split at h
  · next f r =>
    refine ⟨f, mem_cons_self, ?_⟩
    dsimp only at h
    split at h
    · simp at h
    · split at h
      · simp at h
      · exact (pure_eq_ok.1 h).symm
  · simp at h

/-- It is that of all fields if they are fixed.  Either all are or none is. -/
theorem commonShape_eq_ok (h : commonShape fs = .ok common) :
    (∃ f ∈ fs, f.spatialShape = common) ∧ common ≠ [] ∧
      ((∀ f ∈ fs, f.hasFixedShape = true ∧ f.spatialShape = common) ∨ ∀ f ∈ fs,
        f.hasFixedShape = false) := by
  unfold commonShape at h
  dsimp only at h
  generalize hshapes : unionNew [] (fs.map (·.spatialShape)) = shapes at h
  have hmem : ∀ {s}, s ∈ shapes ↔ ∃ f ∈ fs, f.spatialShape = s := by simp [← hshapes, mem_unionNew_iff]
  split at h
  · simp at h
  · next hmixed =>
    split at h
    · simp at h
    · next hone =>
      split at h
      · simp at h
      · next hempty =>
        have h := pure_eq_ok.1 h
        have hne : shapes ≠ [] := by
          rintro rfl
          have hnil : fs = [] := eq_nil_iff_forall_not_mem.2 fun f hf =>
            by simpa using hmem.2 ⟨f, hf, rfl⟩
          simp [hnil] at hone
        have hcommon : common ∈ shapes := by
          cases hsort : shapes.mergeSort fun a b => decide
              ((Option.map Extent.symbolName a.head?).getD "" ≤ (Option.map Extent.symbolName b.head?).getD "") with
          | nil => exact absurd (perm_nil.1 ((mergeSort_perm shapes _).symm.trans (.of_eq hsort))) hne
          | cons c cs =>
            rw [hsort] at h
            obtain rfl : c = common := h
            exact (mergeSort_perm shapes _).mem_iff.1 (hsort ▸ mem_cons_self)
        refine ⟨hmem.1 hcommon, ?_, ?_⟩
        · rintro rfl
          exact hempty (any_eq_true.2 ⟨[], hcommon, rfl⟩)
        · by_cases hnone : fs.filter (·.hasFixedShape) = []
          · exact .inr (by simpa using filter_eq_nil_iff.1 hnone)
          · have hall : (fs.filter (·.hasFixedShape)).length = fs.length :=
              by simpa [hnone] using hmixed
            have hlen : shapes.length = 1 := by simpa [hall] using hone
            obtain ⟨c, rfl⟩ := length_eq_one_iff.1 hlen
            refine .inl fun f hf => ⟨length_filter_eq_length_iff.1 hall f hf, ?_⟩
            rw [mem_singleton.1 (hmem.2 ⟨f, hf, rfl⟩), mem_singleton.1 hcommon]

def IsExtent (e : Expr) : Prop := ∃ x s, ofExtent x = some s ∧ e = .sym s

theorem IsExtent.isSymbol (h : IsExtent e) : IsSymbol e := by
  obtain ⟨x, s, -, hs⟩ := h
  exact ⟨s, hs⟩

theorem isExtent_ofExtent (hx : (ofExtent x).isSome) : IsExtent (.ofExtent x) := by
  cases x with
  | known n => cases hx
  | shape ns k => exact ⟨.shape ns k, _, rfl, rfl⟩
  | stride n k => exact ⟨.stride n k, _, rfl, rfl⟩

theorem extentNames_eq_ok (h : extentNames common fs = .ok t)
    (hsome : ∀ f ∈ fs, f.hasFixedShape = true ∨ ∀ x ∈ f.spatialShape ++ common, (ofExtent x).isSome)
    :
    ∀ p ∈ t, IsExtent p.1 ∧ IsExtent p.2 := by
  refine foldlM_induction (P := fun _ t => ∀ p ∈ t, IsExtent p.1 ∧ IsExtent p.2) h nofun ?_
  intro _ f t t' ht hstep hf
  obtain ⟨_, -, hrest⟩ := bind_eq_ok.1 hstep
  clear hstep
  split at hrest
  · exact pure_eq_ok.1 hrest ▸ ht
  · next hopen =>
    obtain ⟨hown, hcommon⟩ := forall_mem_append.1 ((hsome f hf).resolve_left hopen)
    obtain rfl := pure_eq_ok.1 hrest
    have hzip : ∀ p ∈ f.spatialShape.zip common, (ofExtent p.1).isSome ∧ (ofExtent p.2).isSome :=
      fun p hp =>
      ⟨hown _ (of_mem_zip hp).1, hcommon _ (of_mem_zip hp).2⟩
    generalize f.spatialShape.zip common = ps at hzip
    clear hrest
    induction ps generalizing t with
    | nil => exact ht
    | cons p ps ih =>
      refine ih _ ?_ (forall_mem_cons.1 hzip).2
      dsimp only
      split
      · exact ht
      · obtain ⟨hown, hc⟩ := hzip p mem_cons_self
        exact Table.forall_insert ht (isExtent_ofExtent hown) (isExtent_ofExtent hc)

/-! ### Ghost layers -/

theorem isGreatest_foldl_max (m : Int) (ds : Ints) :
    IsGreatest {d | d = m ∨ d ∈ ds} (ds.foldl max m) := by
  induction ds using reverseRecOn with
  | nil => simp
  | append_singleton ds d ih =>
    have hset : {e | e = m ∨ e ∈ ds ++ [d]} = insert d {e | e = m ∨ e ∈ ds} := by
      ext e
      simp [or_comm, or_left_comm]
    rw [foldl_append, foldl_cons, max_comm, hset]
    exact ih.insert d

theorem reach_literal {f : GridField} {os is : Ints} {r : Int}
    (h : reach (Access.literal f os is) = .ok r) :
    ∀ o ∈ os, |o| ≤ r := by
  rw [reach, Access.offsets_literal] at h
  suffices ∀ o, .lit o ∈ os.map Expr.lit → |o| ≤ r from fun o ho => this o (mem_map_of_mem ho)
  refine foldlM_induction (P := fun done r => ∀ o, .lit o ∈ done → |o| ≤ r) h nofun ?_
  intro done e m m' hm hstep he o ho
  obtain ⟨n, -, rfl⟩ := mem_map.1 he
  obtain rfl : max m n.natAbs = m' := Except.ok.inj hstep
  rcases mem_append.1 ho with ho | ho
  · exact (hm o ho).trans (le_max_left _ _)
  · obtain rfl : o = n := by simpa using ho
    rw [Int.abs_eq_natAbs]
    exact le_max_right _ _

/-- As many layers are left out as the accesses reach. -/
theorem resolve_automatic {accesses : Exprs}
    (h : GhostLayers.automatic.resolve accesses dim = .ok ghost) :
    ∃ g, ghost = replicate dim (g, g) ∧ ∀ a ∈ accesses, ∃ r, reach a = .ok r ∧ r ≤ g := by
  obtain ⟨rs, hrs, h⟩ := bind_eq_ok.1 h
  cases rs with
  | nil => simp at h
  | cons r rs =>
    refine ⟨rs.foldl max r, (pure_eq_ok.1 h).symm, fun a ha => ?_⟩
    obtain ⟨x, hx, hreach⟩ := exists_of_forall₂ (mapM_eq_ok.1 hrs).flip ha
    refine ⟨x, hreach, ?_⟩
    rcases mem_cons.1 hx with rfl | hx
    · exact (isGreatest_foldl_max x rs).2 (.inl rfl)
    · exact (isGreatest_foldl_max r rs).2 (.inr hx)

theorem layersAlong_replicate {g k : Int} {p : Int × Int}
    (h : layersAlong (replicate dim (g, g)) k = .ok p) :
    p = (g, g) := by
  obtain ⟨n, hn, h⟩ := bind_eq_ok.1 h
  have hlt : n < dim := by simpa using Layout.place_lt hn
  rw [← pure_eq_ok.1 h]
  simp [hlt]

/-! ### Loops -/

def cellLoop (A : Algebra) (common : List Extent) (g k : Int) : Loop where
  coord := k
  start := .lit g
  stop := boundPlus A ((common.map bound).getD k.toNat (.lit 0)) (-g)

open Statement in
theorem addLoops_eq_ok {g : Int}
    (h : order.reverse.foldlM (addLoop A (common.map bound) (replicate dim (g, g)) none) body =
      .ok looped) :
    looped = nest ((order.map (cellLoop A common g)).map (·, [])) body := by
  induction order generalizing looped with
  | nil => exact (pure_eq_ok.1 h).symm
  | cons k order ih =>
    rw [reverse_cons, foldlM_append] at h
    obtain ⟨inner, hinner, h⟩ := bind_eq_ok.1 h
    obtain rfl := ih hinner
    obtain ⟨_, hstep, h⟩ := bind_eq_ok.1 h
    obtain rfl := pure_eq_ok.1 h
    obtain ⟨⟨low, high⟩, hlayers, hloop⟩ := bind_eq_ok.1 hstep
    obtain ⟨rfl, rfl⟩ := Prod.mk.inj (layersAlong_replicate hlayers)
    exact (pure_eq_ok.1 hloop).symm

open Statement in
theorem loops_eq_ok
    (h : loops A body order none .automatic = .ok (looped, ghost)) :
    ∃ fs common t body' g, (∀ f, f ∈ fs ↔ f.kind ≠ .buffer ∧ ∃ a ∈ accesses body,
      a.isAbsolute = false ∧ a.field? = some f) ∧
      commonShape fs = .ok common ∧ extentNames common fs = .ok t ∧
        replaceList A t body = .ok body' ∧
      (∀ a ∈ accesses body, a.isAbsolute = false → ∃ r, reach a = .ok r ∧ r ≤ g) ∧
      looped = nest ((order.map (cellLoop A common g)).map (·, [])) body' := by
  obtain ⟨common, hcommon, h⟩ := bind_eq_ok.1 h
  obtain ⟨t, ht, h⟩ := bind_eq_ok.1 h
  obtain ⟨body', hbody, h⟩ := bind_eq_ok.1 h
  obtain ⟨slices, hslices, h⟩ := bind_eq_ok.1 h
  obtain ⟨gh, hgh, h⟩ := bind_eq_ok.1 h
  obtain ⟨ls, hls, h⟩ := bind_eq_ok.1 h
  obtain ⟨rfl, rfl⟩ := Prod.mk.inj (pure_eq_ok.1 h)
  obtain ⟨g, rfl, hreach⟩ := resolve_automatic hgh
  obtain rfl : none = slices := pure_eq_ok.1 hslices
  refine ⟨_, common, t, body', g, fun f => ?_, hcommon, ht, hbody, fun a ha habs => ?_,
    addLoops_eq_ok hls⟩
  · simp [mem_unionNew_iff, and_assoc, and_comm]
  · exact hreach a (mem_filter.2 ⟨ha, by simp [habs]⟩)

end Domain

open Statement Domain

variable {V : Type} {A : Algebra} {M : Model V} {H : Head → Prop}
    {P : GridField → Ints → Ints → Prop}

/-! ### Names of extents -/

theorem Domain.IsExtent.of_get? (ht : ∀ p ∈ t, IsExtent p.1 ∧ IsExtent p.2) {s : Symbol}
    (h : Table.get? t (.sym s) = some e) : IsExtent (.sym s) ∧ IsExtent e := by
  obtain ⟨p, hfind, rfl⟩ := Option.map_eq_some_iff.1 h
  have hkey : p.1 = .sym s := by simpa using find?_some hfind
  have := ht p (mem_of_find?_eq_some hfind)
  exact ⟨hkey ▸ this.1, this.2⟩

theorem Statement.Straight.replaceList (hH : Operations H) (hC : A.Closed H)
    (ht : ∀ p ∈ t, IsExtent p.1 ∧ IsExtent p.2) {out : Body} (hbody : Straight H P body)
    (hr : replaceList A t body = .ok out) : Straight H P out ∧ assigned out = assigned body := by
  have hkeys : ∀ p ∈ t, ∃ x, p.1 = .sym x := fun p hp => by
    obtain ⟨x, s, -, hs⟩ := (ht p hp).1
    exact ⟨s, hs⟩
  have hform : ∀ {later : Strings}, ∀ f n as, Operand P later (.node (.resolved f n) as) → ∃ p i r,
    as = p :: i :: r :=
    fun f n as h => by cases h
  -- what is not assigned later is not assigned later under another name
  have hover : ∀ {later e e'}, (∀ n ∈ later, ¬ Name.Reserved n) → Expr.Over H (Operand P later) e →
      table A t e = .ok e' → Expr.Over H (Operand P later) e' := by
    intro later e e' hlater he hr
    refine table_over hH hkeys hform hC (fun x y hx hp hrep => ?_) he hr
    cases hp with
    | @sym s hs hp =>
      cases hrep with
      | sym =>
        cases hget : Table.get? t (.sym s) with
        | none => exact .sym (.sym hs hp)
        | some v =>
          obtain ⟨-, x, s', hx, rfl⟩ := IsExtent.of_get? ht hget
          obtain ⟨hres, hno⟩ := extent_reserved hx
          exact .sym (.sym (fun h => hlater _ h hres) hno)
    | access h =>
      cases hrep with
      | access => exact .leaf rfl (.access h)
  have hleft : ∀ {l l' : Expr}, Expr.Over H (fun x => x = l) l → l.isPlace = true →
    (∀ f n as, l ≠ .node (.resolved f n) as) →
      table A t l = .ok l' → Replaced A t l l' := fun hl hplace hno hr =>
    ((table_rebuilt hH hkeys (fun f n as h => absurd h.symm (hno f n as)) hl hr).of_place hH
      hplace).2
  induction hbody generalizing out with
  | nil =>
    obtain rfl := Except.ok.inj hr
    exact ⟨.nil, rfl⟩
  | @define x e k r hx hnew he hrest ih =>
    simp only [Statement.replaceList, replace, bind_eq_ok, pure_eq_ok] at hr
    obtain ⟨_, ⟨l, hl, e', he', rfl⟩, rest, hr, rfl⟩ := hr
    obtain ⟨hrest', hsame⟩ := ih hr
    have hl : l = .sym x := by
      cases hleft (.sym rfl) rfl (by simp) hl with
      | sym =>
        cases hget : Table.get? t (.sym x) with
        | none => rfl
        | some v =>
          obtain ⟨⟨y, s, hy, hs⟩, -⟩ := IsExtent.of_get? ht hget
          obtain rfl : x = s := by simpa using hs
          exact absurd (extent_reserved hy).1 hx
    subst hl
    have hnot := (define hx hnew he hrest (k := k)).not_reserved
    exact ⟨.define hx (by rwa [hsame]) (by rw [hsame]; exact hover hnot he he') hrest',
      by simp [assigned, hsame]⟩
  | @store f os is e k r h he hrest ih =>
    simp only [Statement.replaceList, replace, bind_eq_ok, pure_eq_ok] at hr
    obtain ⟨_, ⟨l, hl, e', he', rfl⟩, rest, hr, rfl⟩ := hr
    obtain ⟨hrest', hsame⟩ := ih hr
    cases hleft (.leaf rfl rfl) rfl (by simp [Access.literal]) hl with
    | access => exact ⟨.store h (by rw [hsame]; exact hover hrest.not_reserved he he') hrest',
      hsame⟩

/-! ### Bounds -/

namespace Domain

theorem boundPlus_over (hH : Operations H) (hC : A.Closed H) (x : Extent) (n : Int) :
    Expr.Over H IsExtent (boundPlus A (bound x) n) := by
  have hadd : ∀ {e}, IsExtent e → Expr.Over H IsExtent (A.add [e, .int n]) := by
    rintro e ⟨x, s, hs, rfl⟩
    exact hC.add hH (by simpa using ⟨.sym ⟨x, s, hs, rfl⟩, .int n⟩)
  cases x with
  | known m => exact .lit _
  | shape ns k => exact hadd ⟨.shape ns k, _, rfl, rfl⟩
  | stride f k => exact hadd ⟨.stride f k, _, rfl, rfl⟩

theorem eval_boundPlus (hH : Operations H) (hS : A.Sound M H) {w : View V}
    (h : ∀ s, ofExtent x = some s → w.symbol s = some (M.int (ν x))) (n : Int) :
    M.eval w (boundPlus A (bound x) n) = some (M.int (x.value ν + n)) := by
  have hadd : M.eval w (A.add [.ofExtent x, .int n]) = some (M.int (x.value ν + n)) :=
    hS.add_ints hH (Model.eval_extent h) (M.eval_int w n)
  cases x with
  | known m => exact M.eval_of_int? w rfl
  | shape ns k => exact hadd
  | stride f k => exact hadd

/-- The cells along a coordinate that are not ghost layers. -/
theorem rounds_cellLoop (hH : Operations H) (hS : A.Sound M H) {s : State V} {common : List Extent}
    {k : Nat} (hx : common[k]? = some x)
    (h : ∀ y, ofExtent x = some y → s.env y = some (M.int (ν x))) (g : Int) :
    rounds M s (cellLoop A common g k) = some (range g (x.value ν - g) 1) := by
  have hstop : (cellLoop A common g k).stop = boundPlus A (bound x) (-g) := by simp [cellLoop, hx]
  have hstart : int? M s (cellLoop A common g k).start = some g := int?_lit s g
  have hstep : int? M s (cellLoop A common g k).step = some 1 := int?_lit s 1
  rw [rounds, hstop, hstart, int?_of_eval (eval_boundPlus hH hS h (-g)), hstep]
  rfl

end Domain

end StencilForge
