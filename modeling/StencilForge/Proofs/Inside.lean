import StencilForge.Proofs.Cells

/-!
# Proofs — kernels over fields of known size

Making an access refuses an index behind the end (`Access.Accepts.spec`), and ghost layers keep the
offsets inside. So every element that a kernel touches is one of the array
(`Kernel.touched_inside`), unless an index is below zero: such an index is accepted
(`Kernel.touched_outside`).
-/

open List

namespace StencilForge

open Statement

namespace Access

variable {f : GridField} {os is : Ints}

/-- Where all positions are known, none of the index is behind the end. -/
theorem make_eq_ok {offsets : Exprs} {index : Option Exprs} {b : Bool} {a : Expr}
    (h : make f offsets index b = .ok a) :
    ∃ idx, a = .node (.access f offsets.length b) (offsets ++ idx) ∧
      (idx = index.getD [] ∨ index.getD [] = [] ∧ idx = firstIndex f) ∧
      ((offsets ++ index.getD []).all isKnown = true → f.hasFixedIndexShape = true →
        f.dtype.isRecord = false →
        checkBounds idx f.indexShape = .ok ()) := by
  have tail : ∀ idx, (do
      if (offsets ++ index.getD []).all isKnown then
        if f.indexDimensions = 1 && idx.isEmpty then Failure.raise .outOfRange
        if f.hasFixedIndexShape && !f.dtype.isRecord then checkBounds idx f.indexShape
      return Expr.node (.access f offsets.length b) (offsets ++ idx) : Outcome Expr) = .ok a →
      a = .node (.access f offsets.length b) (offsets ++ idx) ∧
        ((offsets ++ index.getD []).all isKnown = true →
        f.hasFixedIndexShape = true → f.dtype.isRecord = false →
          checkBounds idx f.indexShape = .ok ()) := by
    intro idx h
    dsimp only at h
    split at h
    · split at h
      · simp at h
      · split at h
        · obtain ⟨_, hbounds, h⟩ := Outcome.bind_eq_ok.1 h
          exact ⟨(Outcome.pure_eq_ok.1 h).symm, fun _ _ _ => hbounds⟩
        · next hno => exact ⟨(Outcome.pure_eq_ok.1 h).symm,
            fun _ hf hr => absurd (by simp [hf, hr]) hno⟩
    · next hno => exact ⟨(Outcome.pure_eq_ok.1 h).symm, fun hk => absurd hk hno⟩
  rcases index with _ | _ | ⟨i, is⟩ <;> obtain ⟨ha, hbounds⟩ := tail _ h
  · exact ⟨_, ha, .inr ⟨rfl, rfl⟩, hbounds⟩
  · exact ⟨_, ha, .inr ⟨rfl, rfl⟩, hbounds⟩
  · exact ⟨_, ha, .inl rfl, hbounds⟩

theorem checkBounds_eq_ok {ns : List Extent} {u : Unit} (h : checkBounds (is.map .lit) ns = .ok u)
    (hlen : is.length = ns.length)
    (his : ∀ i ∈ is, 0 ≤ i) {ν : Extent → Int} (hns : ∀ x ∈ ns, ∃ n, x = .known n) :
    Forall₂ (fun i (x : Extent) => 0 ≤ i ∧ i < x.value ν) is ns := by
  induction is generalizing ns with
  | nil =>
    obtain rfl : ns = [] := length_eq_zero_iff.1 hlen.symm
    exact .nil
  | cons i is ih =>
    cases ns with
    | nil => cases hlen
    | cons x ns =>
      obtain ⟨n, rfl⟩ := hns x mem_cons_self
      have h : (if i ≥ n then (Failure.raiseWith .invalid "Field index out of bounds" >>= fun _ :
        Unit => checkBounds (is.map .lit) ns)
        else checkBounds (is.map .lit) ns) = .ok u := h
      split at h
      · simp at h
      · next hlt =>
        exact .cons ⟨his i mem_cons_self, not_le.1 hlt⟩ (ih h (by simpa using hlen)
          (forall_mem_cons.1 his).2 (forall_mem_cons.1 hns).2)

/-- The index that is taken has a position along every index coordinate. -/
theorem value_eq_ok {a e : Expr} {index : Exprs} (hf : a.field? = some f)
    (h : value a index = .ok e) :
    ∃ taken, taken.length = f.indexDimensions ∧ make f a.offsets (some taken) = .ok e := by
  have tail : ∀ taken, (do
      if a.index.length != f.indexDimensions || a.index.any (·.int? != some 0) then
        Failure.raiseWith .invalid "Indexing an already indexed Field.Access"
      if taken.length != f.indexDimensions then
        Failure.raiseWith .invalid s!"Wrong number of indices: Got {taken.length}, expected {f.indexDimensions}"
      make f a.offsets (some taken) : Outcome Expr) = .ok e →
      taken.length = f.indexDimensions ∧ make f a.offsets (some taken) = .ok e := by
    intro taken h
    dsimp only at h
    split at h
    · simp at h
    · split at h
      · simp at h
      · next hlen => exact ⟨by simpa using hlen, h⟩
  unfold value at h
  rw [hf] at h
  rcases index with _ | ⟨i, _ | ⟨j, r⟩⟩
  · exact ⟨_, tail _ h⟩
  · exact ⟨_, tail _ h⟩
  · exact ⟨_, tail _ h⟩

/-- The value of a field at an offset and an index can be accessed. -/
def Accepts (f : GridField) (os is : Ints) : Prop :=
  (shifted f (os.map .lit) >>= fun a => value a (is.map .lit)) = .ok (literal f os is)

/-- A position along every coordinate, and none of the index behind the end. -/
theorem Accepts.spec (h : Accepts f os is) :
    os.length = f.spatialDimensions ∧ is.length = f.indexDimensions ∧
    (f.hasFixedIndexShape = true → f.dtype.isRecord = false →
    checkBounds (is.map .lit) f.indexShape = .ok ()) := by
  obtain ⟨a, ha, h⟩ := Outcome.bind_eq_ok.1 h
  unfold shifted at ha
  split at ha
  · simp at ha
  · next hos =>
    have hos : os.length = f.spatialDimensions := by simpa using hos
    obtain ⟨idx, rfl, -, -⟩ := make_eq_ok ha
    obtain ⟨index, hlen, h⟩ := value_eq_ok rfl h
    have hoffsets : (Expr.node (.access f (os.map Expr.lit).length false)
      (os.map .lit ++ idx)).offsets = os.map .lit := by
      simp [Expr.offsets]
    rw [hoffsets] at h
    obtain ⟨idx, hlit, hidx, hbounds⟩ := make_eq_ok h
    rw [literal, map_append] at hlit
    obtain rfl : is.map .lit = idx := append_cancel_left (Expr.node.inj hlit).2
    have hindex : is.map .lit = index := by
      rcases hidx with h | ⟨hnil, hfirst⟩
      · exact h
      · obtain rfl : index = [] := hnil
        rw [hfirst, firstIndex, ← hlen]
        rfl
    refine ⟨hos, by simpa [← hindex] using hlen, hbounds ?_⟩
    rw [Option.getD_some, ← hindex]
    simp [isKnown, Expr.int?]

end Access

/-- The element with some coordinates is one of the array of a field. -/
def GridField.Holds (ν : Extent → Int) (f : GridField) (xs : Ints) : Prop :=
  Forall₂ (fun i (n : Extent) => 0 ≤ i ∧ i < n.value ν) xs f.shape

def GridField.IsFixed (f : GridField) : Prop := ∀ x ∈ f.shape ++ f.strides, ∃ n, x = .known n

theorem GridField.IsFixed.hasFixedShape {f : GridField} (h : f.IsFixed) :
    f.hasFixedShape = true := by
  refine all_eq_true.2 fun x hx => ?_
  obtain ⟨n, rfl⟩ := h x (mem_append_left _ hx)
  rfl

namespace Kernel

variable {V : Type} {A : Algebra} {M : Model V} {H : Head → Prop} {fields : Fields}

/-- A kernel over fields of known size stays inside their arrays, if no index is below zero. -/
theorem touched_inside (hH : Operations H) (hS : A.Sound M H) (hC : A.Closed H)
    (hgrid : GridField.Grid fields)
    (hfixed : ∀ f ∈ fields, f.IsFixed) {body : List Statement}
    (hbody : Straight H (fun f os is => f ∈ fields ∧ Access.Accepts f os is ∧ ∀ i ∈ is, 0 ≤ i) body)
    {fresh : Nat} {o : Options}
    (hslice : o.slice = none) (hghost : o.ghost = .automatic) {kernel : Kernel}
    (hr : create A fresh body o = .ok kernel)
    {s : Machine.State V} (hs : ∀ f ∈ fields, ∀ readOnly, s.env (Address.fieldPointer readOnly f) =
    some (M.address f.name 0))
    (ν : Extent → Int) : ∀ t ∈ Machine.touchedList M kernel.body s,
      ∃ f ∈ fields, ∃ xs, f.Holds ν xs ∧ t = some (f.name, f.distance ν xs) := by
  have hgiven : Given M fields ν (free kernel.body) s := by
    intro y hy _
    cases hy with
    | @extent f x _ hf hx hy =>
      obtain ⟨n, rfl⟩ := hfixed f hf x (by
        rcases mem_append.1 hx with hx | hx
        · exact mem_append_left _ (mem_of_mem_take hx)
        · exact mem_append_right _ hx)
      cases hy
    | pointer hf readOnly => exact hs _ hf readOnly
  obtain ⟨f₀, -, htouched⟩ := touched_create hH hS hC hgrid
    (fun f os is h => ⟨h.1, h.2.1.spec.1, h.2.1.spec.2.1⟩) hbody hslice hghost hr
  intro t ht
  obtain ⟨f, os, is, xs, ⟨hf, haccepts, hnonneg⟩, hcommon, hxs, rfl⟩ := htouched hgiven t ht
  refine ⟨f, hf, xs ++ is, ?_, rfl⟩
  obtain ⟨-, his, hbounds⟩ := haccepts.spec
  have hshape := (hfixed f hf).hasFixedShape
  have hknown : f.hasFixedIndexShape = true :=
    all_eq_true.2 fun x hx => all_eq_true.1 hshape x (mem_of_mem_drop hx)
  have hrecord : f.dtype.isRecord = false := by
    have := (hgrid.plain f hf).1
    cases hdt : f.dtype <;> simp_all [DataType.isBasic, DataType.isRecord]
  have hlen : is.length = f.indexShape.length := his.trans length_drop.symm
  have hindex := Access.checkBounds_eq_ok (ν := ν) (hbounds hknown hrecord) hlen hnonneg fun x hx =>
    hfixed f hf x (mem_append_left _ (mem_of_mem_drop hx))
  rw [← (hcommon.resolve_right fun h => by simp [hshape] at h).2] at hxs
  rw [GridField.Holds, ← take_append_drop f.spatialDimensions f.shape]
  exact rel_append hxs hindex

end Kernel

/-- A field of known size along a line. -/
def GridField.row (name : String) (n : Int) : GridField where
  name := name
  kind := .generic
  dtype := .double
  layout := [0]
  shape := [.known n]
  strides := [.known 1]

/-- A field of known size along a line, with two values in each cell. -/
def GridField.pairs (name : String) (n : Int) : GridField :=
  { row name n with shape := [.known n, .known 2], strides := [.known 2, .known 1] }

theorem GridField.grid_pairs (names : Strings)
    (h : ∀ a ∈ names, ∀ b ∈ names, ¬ (a ++ "_").toList <+: b.toList) (n : Int) :
    Grid (names.map (pairs · n)) where
  distinct f hf g hg := by
    obtain ⟨a, ha, rfl⟩ := mem_map.1 hf
    obtain ⟨b, hb, rfl⟩ := mem_map.1 hg
    exact ⟨congrArg (pairs · n), h a ha b hb⟩
  formed f hf := by
    obtain ⟨a, -, rfl⟩ := mem_map.1 hf
    exact ⟨.refl _, Nat.le_succ 1, rfl⟩
  plain f hf := by
    obtain ⟨a, -, rfl⟩ := mem_map.1 hf
    exact ⟨rfl, rfl⟩
  layout f hf g hg := by
    obtain ⟨a, -, rfl⟩ := mem_map.1 hf
    obtain ⟨b, -, rfl⟩ := mem_map.1 hg
    rfl
  extents f hf := by
    obtain ⟨a, -, rfl⟩ := mem_map.1 hf
    exact .inl rfl
  stride f hf k hk := by
    obtain ⟨a, -, rfl⟩ := mem_map.1 hf
    obtain rfl : 0 = k := Option.some.inj hk
    nofun

namespace Kernel

/-- The second value of a cell becomes a sum of values of both neighbours. -/
theorem touched_inside_row :
    let f : GridField := .pairs "f" 4
    let g : GridField := .pairs "g" 4
    let body : List Statement := [.set (Access.literal g [0] [1])
      (.node .add [Access.literal f [1] [0], Access.literal f [-1] [1]])]
    let s : Machine.State Whole := ⟨fun x => some (.address (x.name.drop 6).toString 0),
      fun _ => none⟩
    ∃ kernel, create Algebra.bare 0 body { types := { fallback := some "double" } } = .ok kernel ∧
      ∀ t ∈ Machine.touchedList Whole.model kernel.body s, ∃ h ∈ [f, g], ∃ xs,
        h.Holds (fun _ => 0) xs ∧
        t = some (h.name, h.distance (fun _ => 0) xs) := by
  intro f g body s
  obtain ⟨kernel, hr⟩ : ∃ kernel, create Algebra.bare 0 body
      { types := { fallback := some "double" } } = .ok kernel := by
    have hsome : (create Algebra.bare 0 body
      { types := { fallback := some "double" } }).toOption.isSome = true := by decide +kernel
    cases hr : create Algebra.bare 0 body { types := { fallback := some "double" } } with
    | ok kernel => exact ⟨kernel, rfl⟩
    | error e =>
      rw [hr] at hsome
      cases hsome
  refine ⟨kernel, hr, touched_inside Arithmetic.operations
    (Algebra.bare_sound Whole.model) Algebra.bare_closed
    (GridField.grid_pairs ["f", "g"] (by decide) 4) ?_ ?_ rfl rfl hr ?_ _⟩
  · intro h hh x hx
    rcases mem_pair.1 hh with rfl | rfl <;> fin_cases hx <;> exact ⟨_, rfl⟩
  · have hf : f ∈ [f, g] := mem_cons_self
    have hg : g ∈ [f, g] := mem_cons_of_mem _ mem_cons_self
    refine .store ⟨hg, by cbv, by decide⟩ (.node .add fun a ha => ?_) .nil
    rcases mem_pair.1 ha with rfl | rfl
    · exact .leaf rfl (.access ⟨hf, by cbv, by decide⟩)
    · exact .leaf rfl (.access ⟨hf, by cbv, by decide⟩)
  · intro h hh readOnly
    rcases mem_pair.1 hh with rfl | rfl
    · cbv
    · cbv

/-- An index below zero is accepted, and the kernel leaves the array. -/
theorem touched_outside :
    let f : GridField := .pairs "f" 3
    let s : Machine.State Whole := ⟨fun _ => some (.address "f" 0), fun _ => none⟩
    Access.Accepts f [0] [-1] ∧ (∃ kernel,
      create Algebra.bare 0 [.set (Access.literal f [0] [-1]) (.typedSymbol "x" .double)]
      { types := { fallback := some "double" } } = .ok kernel ∧
      Machine.touchedList Whole.model kernel.body s = [some ("f", -1), some ("f", 1),
        some ("f", 3)]) ∧
      ∀ ν xs, f.Holds ν xs → f.distance ν xs ≠ -1 := by
  intro f s
  refine ⟨by cbv, ⟨_, by cbv, by cbv⟩, fun ν xs h => ?_⟩
  obtain ⟨x, xs, hx, h', rfl⟩ := forall₂_cons_right_iff.1 h
  obtain ⟨i, xs, hi, h'', rfl⟩ := forall₂_cons_right_iff.1 h'
  obtain rfl := forall₂_nil_right_iff.1 h''
  have hdistance : f.distance ν [x, i] = 2 * x + (1 * i + 0) := rfl
  rw [hdistance]
  omega

end Kernel

end StencilForge
