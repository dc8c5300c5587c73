import StencilForge.Execution.Call
import StencilForge.Proofs.Inside

/-!
# Proofs — the arguments of a call

A kernel over fields of open size learns extents and strides from its arrays, which are checked
before it runs.  After these checks every element that it touches is one of the arrays
(`Execution.Compiled.touched_held`), provided that what the checks leave out holds: indices are
inside the arrays, strides are multiples of the size of an element, and along index coordinates of
known size they are those of the field (`GridField.Strided`).  An array with fewer values in each
cell is accepted, and the kernel leaves it (`Execution.Compiled.touched_behind_end`).
-/

open List StencilForge.Outcome

namespace StencilForge

open Statement GridField Binding Address Outcome Kernel
variable {ν : Extent → Int} {typed : Bool} {g : GridField} {b : DataArray} {p : Parameter}
    {n : String}
  {k : Nat}

/-! ### Arrays -/

namespace DataArray

def Holds (a : DataArray) (xs : Ints) : Prop := Forall₂ (fun i n => 0 ≤ i ∧ i < n) xs a.shape

/-- In bytes from the first element. -/
def place (a : DataArray) (xs : Ints) : Int := (zipWith (· * ·) a.storage.strides xs).sum

end DataArray

namespace GridField

/-- Extents and strides are named after the field. -/
structure IsOpen (f : GridField) : Prop where
  size : f.hasFixedShape = false
  shape : ∀ (k : Nat) x, f.spatialShape[k]? = some x → x = Extent.shape [f.name] k
  strides : ∀ (k : Nat) x, f.strides[k]? = some x → x = Extent.stride f.name k

structure Strided (f : GridField) (a : DataArray) : Prop where
  whole : f.IsOpen → ∀ n ∈ a.storage.strides, a.itemSize ∣ n
  index : f.IsFixed → a.storage.strides.drop f.spatialDimensions =
    f.indexStrides.map (knownExtent · * a.itemSize)

end GridField

/-- Strides that differ by a factor, at least along the coordinates that are not zero. -/
theorem sum_zipWith_mul_mul {c : Int} {ss ts xs : Ints}
    (h : ∀ k, ss.getD k 0 * c * xs.getD k 0 = ts.getD k 0 * xs.getD k 0) :
    (zipWith (· * ·) ss xs).sum * c = (zipWith (· * ·) ts xs).sum := by
  induction xs generalizing ss ts with
  | nil => simp
  | cons x xs ih =>
    have hfirst := h 0
    have hrest : (zipWith (· * ·) ss.tail xs).sum * c = (zipWith (· * ·) ts.tail xs).sum :=
      ih fun k => by
      simpa [getD_eq_getElem?_getD] using h (k + 1)
    have hcons : ∀ ss : Ints, (zipWith (· * ·) ss (x :: xs)).sum =
      ss.getD 0 0 * x + (zipWith (· * ·) ss.tail xs).sum := fun ss => by
      cases ss <;> simp
    rw [getD_cons_zero] at hfirst
    rw [hcons, hcons, ← hrest, ← hfirst]
    ring

theorem GridField.distance_eq (f : GridField) (xs : Ints) :
    f.distance ν xs = (zipWith (· * ·) (f.strides.map (·.value ν)) xs).sum := by
  rw [distance, zipWith_map_left]

theorem forall₂_take_shape {xs shape : Ints} {ns : List Extent}
    (h : Forall₂ (fun x (n : Extent) => 0 ≤ x ∧ x < n.value ν) xs ns)
    (hshape : ∀ (k : Nat) n, ns[k]? = some n → shape.getD k 0 = n.value ν) :
    Forall₂ (fun i n => 0 ≤ i ∧ i < n) xs (shape.take ns.length) := by
  induction h generalizing shape with
  | nil => simp
  | @cons x n xs ns hx _ ih =>
    have hfirst := hshape 0 n rfl
    cases shape with
    | nil =>
      rw [getD_nil] at hfirst
      omega
    | cons m shape =>
      rw [getD_cons_zero] at hfirst
      exact .cons (hfirst ▸ hx) (ih fun k n hn => hshape (k + 1) n hn)

/-! ### Parameters -/

namespace Kernel

/-- Fields are found by the names that the symbol knows, and every symbol that is needed is a
parameter. -/
theorem parameters_eq_ok {k : Kernel} {ps : List Parameter} (hbundled : k.bundled = false)
    (hglobals : k.globals = [])
    (htarget : k.target = .cpu) (h : k.parameters = .ok ps) :
    (∀ p ∈ ps, Forall₂ (fun n f => k.fields.find? (·.name == n) =
      some f) (fieldNames p.symbol) p.fields) ∧
      ∀ y, .sym y ∈ free k.body → ∃ p ∈ ps, p.symbol = y := by
  have hneeds : k.needs = .ok (free k.body) := by
    rw [needs, hbundled]
    rfl
  have hlaunch : k.launchSymbols = [] := by rw [launchSymbols, htarget]
  have hall : without (free k.body) k.globals = free k.body := by
    rw [hglobals]
    exact filter_eq_self.2 fun e _ => rfl
  unfold parameters at h
  rw [hneeds, hlaunch] at h
  obtain ⟨_, hsame, h⟩ := bind_eq_ok.1 h
  obtain rfl := Except.ok.inj hsame
  rw [hall] at h
  obtain ⟨qs, hqs, h⟩ := bind_eq_ok.1 h
  obtain ⟨rs, hrs, h⟩ := bind_eq_ok.1 h
  obtain rfl := pure_eq_ok.1 h
  obtain rfl := pure_eq_ok.1 hrs
  have hqs := mapM_eq_ok.1 hqs
  refine ⟨fun p hp => ?_, fun y hy => ?_⟩
  · obtain ⟨e, he, hp⟩ := exists_of_forall₂ hqs (by simpa using hp)
    split at hp
    · next s =>
      obtain ⟨own, hown, hp⟩ := bind_eq_ok.1 hp
      obtain rfl := pure_eq_ok.1 hp
      refine (mapM_eq_ok.1 hown).imp fun n f h => ?_
      split at h
      · next g hg => exact hg.trans (congrArg some (Except.ok.inj h))
      · simp at h
    · obtain rfl := pure_eq_ok.1 hp
      split <;> exact .nil
  · obtain ⟨p, hp, h⟩ := exists_of_forall₂ hqs.flip hy
    obtain ⟨own, -, h⟩ := bind_eq_ok.1 h
    obtain rfl := pure_eq_ok.1 h
    exact ⟨_, by simpa using hp, rfl⟩

/-- What is created takes no objects for fields and runs on the processor. -/
theorem create_settings {A : Algebra} {fresh : Nat} {body : Body} {o : Options} {kernel : Kernel}
    (hr : create A fresh body o = .ok kernel) :
    kernel.bundled = false ∧ kernel.globals = [] ∧ kernel.target = .cpu := by
  have tail : ∀ {plan : Plan} {ghost : List (Int × Int)} {looped : Body}, (do
      let resolved ← resolve A plan looped
      let moved ← Motion.moveConstants A fresh resolved
      return { body := moved.1, ghostLayers := .each ghost, fresh := moved.2 } :
        Outcome Kernel) = .ok kernel →
      kernel.bundled = false ∧ kernel.globals = [] ∧ kernel.target = .cpu := by
    intro plan ghost looped hr
    obtain ⟨resolved, -, hr⟩ := bind_eq_ok.1 hr
    obtain ⟨moved, -, hr⟩ := bind_eq_ok.1 hr
    obtain rfl := pure_eq_ok.1 hr
    exact ⟨rfl, rfl, rfl⟩
  obtain ⟨typed, -, hr⟩ := bind_eq_ok.1 hr
  obtain ⟨order, -, hr⟩ := bind_eq_ok.1 hr
  obtain ⟨⟨looped, ghost⟩, -, hr⟩ := bind_eq_ok.1 hr
  obtain ⟨_, -, hr⟩ := bind_eq_ok.1 hr
  obtain ⟨groups, -, hr⟩ := bind_eq_ok.1 hr
  split at hr
  · obtain ⟨_, -, hr⟩ := bind_eq_ok.1 hr
    obtain ⟨_, -, hr⟩ := bind_eq_ok.1 hr
    exact tail hr
  · exact tail hr

theorem Parameter.kind_eq_pointer {p : Parameter} :
    p.kind = .pointer ↔ ∃ n t, p.symbol.kind = .pointer n t := by
  unfold kind
  split
  · next n t h => simp [h]
  · next h => simp [h]
  · next h => simp [h]
  · next h _ _ => simpa using h

end Kernel

namespace Execution.Compiled

variable {V : Type} {M : Model V} {c : Compiled} {given : Table String Argument} {f : GridField}
    {a : DataArray}

def fields (c : Compiled) : Fields := c.parameters.flatMap fun p => if p.kind =
    .pointer then p.fields else []

theorem mem_fields : f ∈ c.fields ↔ ∃ p ∈ c.parameters, p.kind = .pointer ∧ f ∈ p.fields := by
  simp only [fields, mem_flatMap]
  refine exists_congr fun p => and_congr_right fun _ => ?_
  split
  · next h => simp [h]
  · next h => simp [h]

/-! ### Checks -/

theorem checkArray_eq_ok (h : checkArray typed f a = .ok ()) :
    a.itemSize = elementSize f.dtype ∧ (f.hasFixedShape = true →
      (∀ (k : Nat) n, f.spatialShape[k]? = some n → a.shape.getD k 0 = knownExtent n) ∧
      ∀ (k : Nat) n, f.spatialStrides[k]? = some n →
        a.storage.strides.getD k 0 = knownExtent n * a.itemSize ∨ a.shape.getD k 0 ≤ 1) := by
  have hmem : ∀ {ns : Ints} {p : Int × Nat → Bool} {k : Nat} {n : Int}, ns.zipIdx.all p = true →
    ns[k]? = some n →
      p (n, k) = true := fun h hn =>
    all_eq_true.1 h _ (mk_mem_zipIdx_iff_getElem?.2 hn)
  suffices h : (do
      refuseUnless (a.itemSize == elementSize f.dtype)
      if f.hasFixedShape then
        refuseUnless ((f.spatialShape.map knownExtent).zipIdx.all fun p =>
          a.shape.getD p.2 0 == p.1)
        refuseUnless ((f.spatialStrides.map fun n => knownExtent n * elementSize f.dtype).zipIdx.all
          fun p =>
          a.storage.strides.getD p.2 0 == p.1 || a.shape.getD p.2 0 ≤ 1) : Outcome Unit) = .ok () by
    obtain ⟨_, hsize, h⟩ := bind_eq_ok.1 h
    have hsize : a.itemSize = elementSize f.dtype := by simpa [refuseUnless] using hsize
    refine ⟨hsize, fun hfixed => ?_⟩
    rw [if_pos hfixed] at h
    obtain ⟨_, hshape, hstrides⟩ := bind_eq_ok.1 h
    simp only [refuseUnless, require_eq_ok] at hshape hstrides
    refine ⟨fun k n hn => ?_, fun k n hn => ?_⟩
    · exact eq_of_beq (hmem hshape (by rw [getElem?_map, hn]; rfl))
    · have := hmem hstrides (by rw [getElem?_map, hn]; rfl)
      simpa [hsize] using this
  unfold checkArray at h
  dsimp only at h
  split at h
  · split at h
    · exact (bind_eq_ok.1 h).choose_spec.2
    · exact h
  · exact h

theorem checkSameShape_eq_ok {fs : Fields} {dim : Nat} (h : checkSameShape given fs = .ok ())
    (hdim : ∀ f ∈ fs, f.spatialDimensions = dim) (hf : f ∈ fs) (hg : g ∈ fs)
    (ha : arrayOf given f.name = .ok a) (hb : arrayOf given g.name = .ok b) :
    a.shape.take dim = b.shape.take dim := by
  cases fs with
  | nil => cases hf
  | cons f₀ fs =>
    obtain ⟨first, hfirst, h⟩ := bind_eq_ok.1 h
    have hsame : ∀ {g b}, g ∈ f₀ :: fs → arrayOf given g.name = .ok b →
      b.shape.take dim = first.shape.take dim := by
      intro g b hg hb
      rcases mem_cons.1 hg with rfl | hg
      · rw [Except.ok.inj (hb.symm.trans hfirst)]
      · obtain ⟨b', hb', h⟩ := bind_eq_ok.1 (forM_eq_ok.1 h g hg)
        obtain rfl := Except.ok.inj (hb.symm.trans hb')
        simpa [hdim f₀ mem_cons_self] using h
    exact (hsame hf ha).trans (hsame hg hb).symm

theorem bind_eq_ok {vs : Variables Float} (h : c.bind given = .ok vs) :
    (∀ p ∈ c.parameters, ∃ v, c.value given p = .ok v) ∧ ∃ fs, checkSameShape given fs = .ok () ∧
      ∀ f, f ∈ fs ↔ (∃ p ∈ c.parameters, p.kind = .pointer ∧ p.fields.head? = some f) ∧
        f.hasFixedShape = false ∧
        f.kind = .generic := by
  unfold bind at h
  split at h
  · simp at h
  · obtain ⟨vs', hvs, h⟩ := Outcome.bind_eq_ok.1 h
    obtain ⟨_, hsame, -⟩ := Outcome.bind_eq_ok.1 h
    refine ⟨fun p hp => ?_, _, hsame, fun f => ?_⟩
    · obtain ⟨_, -, h⟩ := exists_of_forall₂ (mapM_eq_ok.1 hvs).flip hp
      obtain ⟨v, hv, -⟩ := Outcome.bind_eq_ok.1 h
      exact ⟨v, hv⟩
    · simp only [mem_filter, mem_filterMap, Bool.and_eq_true, Bool.not_eq_true', beq_iff_eq]
      refine and_congr_left fun _ => exists_congr fun p => and_congr_right fun _ => ?_
      split
      · next h => simp [h]
      · next h => simp [show p.kind ≠ .pointer from h]

theorem value_pointer {t : DataType} (hkind : p.symbol.kind = .pointer n t)
    (hf : p.fields = [f]) {v : Value Float} (h : c.value given p = .ok v) :
    v = .address f.name 0 ∧ ∃ a, arrayOf given f.name = .ok a ∧
      checkArray (!c.kernel.isCut) f a = .ok () := by
  simp only [value, hkind, hf] at h
  obtain ⟨a, ha, h⟩ := Outcome.bind_eq_ok.1 h
  obtain ⟨_, hcheck, h⟩ := Outcome.bind_eq_ok.1 h
  exact ⟨(pure_eq_ok.1 h).symm, a, ha, hcheck⟩

theorem value_shape {ns : Strings} (hkind : p.symbol.kind = .shape ns k)
    (hf : p.fields = [f]) (ha : arrayOf given f.name = .ok a) :
    c.value given p = .ok (.whole (a.shape.getD k 0)) := by
  simp only [value, hkind, hf, headD_cons, ha]
  rfl

theorem value_stride (hkind : p.symbol.kind = .stride n k)
    (hf : p.fields = [f]) (ha : arrayOf given f.name = .ok a) :
    c.value given p = .ok (.whole (Int.tdiv (a.storage.strides.getD k 0)
      (elementSize f.dtype))) := by
  simp only [value, hkind, hf, headD_cons, ha]
  rfl

/-! ### States -/

/-- Numbers, and the places where arrays start. -/
structure Starts (M : Model V) (c : Compiled) (given : Table String Argument)
    (s : Machine.State V) : Prop where
  whole : ∀ p ∈ c.parameters, ∀ n, c.value given p = .ok (.whole n) →
    s.env p.symbol = some (M.int n)
  first : ∀ p ∈ c.parameters, ∀ m, c.value given p = .ok (.address m 0) →
    s.env p.symbol = some (M.address m 0)

/-- Strides count elements. -/
def extentOf (given : Table String Argument) : Extent → Int
  | .known n => n
  | .shape ns k => match arrayOf given (ns.headD "") with
    | .ok a => a.shape.getD k 0
    | .error _ => 0
  | .stride n k => match arrayOf given n with
    | .ok a => Int.tdiv (a.storage.strides.getD k 0) a.itemSize
    | .error _ => 0

section Call

variable {A : Algebra} {fresh : Nat} {body : Body} {o : Options} {vs : Variables Float}
  (hr : create A fresh body o = .ok c.kernel) (hc : c.kernel.parameters = .ok c.parameters)
  (hb : c.bind given = .ok vs)

include hr hc

theorem fields_of_name (hp : p ∈ c.parameters) (hn : fieldNames p.symbol = [n]) :
    ∃ f, p.fields = [f] ∧ f.name = n ∧ c.kernel.fields.find? (·.name == n) = some f := by
  obtain ⟨hbundled, hglobals, htarget⟩ := create_settings hr
  have hown := (parameters_eq_ok hbundled hglobals htarget hc).1 p hp
  rw [hn] at hown
  obtain ⟨f, fs, hf, hfs, heq⟩ := forall₂_cons_left_iff.1 hown
  obtain rfl := forall₂_nil_left_iff.1 hfs
  exact ⟨f, heq, by simpa using find?_some hf, hf⟩

theorem exists_pointer (hf : f ∈ c.fields) :
    ∃ p ∈ c.parameters, ∃ t, p.symbol.kind = .pointer f.name t ∧ p.fields = [f] ∧
    c.kernel.fields.find? (·.name == f.name) = some f := by
  obtain ⟨p, hp, hkind, hmem⟩ := mem_fields.1 hf
  obtain ⟨n, t, hkind⟩ := Parameter.kind_eq_pointer.1 hkind
  obtain ⟨g, hg, rfl, hfind⟩ := fields_of_name hr hc hp (by rw [fieldNames, hkind])
  rw [hg] at hmem
  obtain rfl := mem_singleton.1 hmem
  exact ⟨p, hp, t, hkind, hg, hfind⟩

theorem fields_of_mem (hf : f ∈ c.fields) (hp : p ∈ c.parameters)
    (hn : fieldNames p.symbol = [f.name]) : p.fields = [f] := by
  obtain ⟨g, hg, -, hfind⟩ := fields_of_name hr hc hp hn
  obtain ⟨_, -, _, -, -, hfind'⟩ := exists_pointer hr hc hf
  rw [hg, Option.some.inj (hfind.symm.trans hfind')]

include hb

theorem checked (hf : f ∈ c.fields) : ∃ a, arrayOf given f.name = .ok a ∧ checkArray
    (!c.kernel.isCut) f a = .ok () := by
  obtain ⟨p, hp, t, hkind, hg, -⟩ := exists_pointer hr hc hf
  obtain ⟨v, hv⟩ := (bind_eq_ok hb).1 p hp
  exact (value_pointer hkind hg hv).2

/-- Fields without a fixed shape have arrays that are equally large. -/
theorem same_shape (hdim : ∀ f ∈ c.fields, ∀ g ∈ c.fields,
      f.spatialDimensions = g.spatialDimensions)
    (hkind : ∀ f ∈ c.fields, f.kind = .generic) (hf : f ∈ c.fields) (hg : g ∈ c.fields)
    (hfree : f.hasFixedShape = false ∧ g.hasFixedShape = false) (ha : arrayOf given f.name = .ok a)
    (hg' : arrayOf given g.name = .ok b) :
    a.shape.take f.spatialDimensions = b.shape.take f.spatialDimensions := by
  obtain ⟨-, fs, hsame, hfs⟩ := bind_eq_ok hb
  have hhead : ∀ {f}, (∃ p ∈ c.parameters, p.kind = .pointer ∧ p.fields.head? = some f) ↔
    f ∈ c.fields := by
    intro f
    rw [mem_fields]
    refine exists_congr fun p => and_congr_right fun hp => and_congr_right fun hkind => ?_
    obtain ⟨n, t, hkind⟩ := Parameter.kind_eq_pointer.1 hkind
    obtain ⟨g, hg, -, -⟩ := fields_of_name hr hc hp (by rw [fieldNames, hkind])
    rw [hg]
    simp [eq_comm]
  refine checkSameShape_eq_ok hsame (fun g hg => ?_) ((hfs f).2 ⟨hhead.2 hf, hfree.1, hkind f hf⟩)
    ((hfs g).2 ⟨hhead.2 hg, hfree.2, hkind g hg⟩) ha hg'
  exact hdim g (hhead.1 ((hfs g).1 hg).1) f hf

theorem given_of_starts (hsize : ∀ f ∈ c.fields, f.IsFixed ∨ f.IsOpen) {s : Machine.State V}
    (hs : c.Starts M given s) :
    Given M c.fields (extentOf given) (free c.kernel.body) s := by
  intro y hy hneed
  obtain ⟨hbundled, hglobals, htarget⟩ := create_settings hr
  obtain ⟨p, hp, hpy⟩ := (parameters_eq_ok hbundled hglobals htarget hc).2 y hneed
  cases hy with
  | @extent f x y hf hx hy =>
    obtain ⟨a, ha, hcheck⟩ := checked hr hc hb hf
    rcases hsize f hf with hfixed | hopen
    · obtain ⟨n, rfl⟩ := hfixed x ((mem_append.1 hx).elim
        (fun h => mem_append_left _ (mem_of_mem_take h))
        (mem_append_right _))
      cases hy
    · rcases mem_append.1 hx with hx | hx
      · obtain ⟨k, hk⟩ := mem_iff_getElem?.1 hx
        obtain rfl := hopen.shape k x hk
        obtain rfl := Option.some.inj hy
        have hfields := fields_of_mem hr hc hf hp (by rw [hpy]; rfl)
        rw [← hpy, hs.whole p hp _ (value_shape (by rw [hpy]) hfields ha), hpy]
        simp [givenValue, extentOf, ha]
      · obtain ⟨k, hk⟩ := mem_iff_getElem?.1 hx
        obtain rfl := hopen.strides k x hk
        obtain rfl := Option.some.inj hy
        have hfields := fields_of_mem hr hc hf hp (by rw [hpy]; rfl)
        rw [← hpy, hs.whole p hp _ (value_stride (by rw [hpy]) hfields ha), hpy]
        simp [givenValue, extentOf, ha, (checkArray_eq_ok hcheck).1]
  | @pointer f hf readOnly =>
    have hfields := fields_of_mem hr hc hf hp (by rw [hpy]; rfl)
    obtain ⟨v, hv⟩ := (bind_eq_ok hb).1 p hp
    obtain ⟨rfl, -⟩ := value_pointer (by rw [hpy]; rfl) hfields hv
    rw [← hpy, hs.first p hp _ hv, hpy]
    rfl

end Call

/-- The distance of an element in its field leads to its place in the array. -/
theorem distance_mul_itemSize (hsize : f.IsFixed ∨ f.IsOpen) (ha : arrayOf given f.name = .ok a)
    (hcheck : checkArray typed f a = .ok ()) (hstrided : f.Strided a) {xs is : Ints}
    (hxs : Forall₂ (fun i n => 0 ≤ i ∧ i < n) xs (a.shape.take f.spatialDimensions))
    (hlen : xs.length = f.spatialDimensions) (hall : (xs ++ is).length = f.strides.length) :
    f.distance (extentOf given) (xs ++ is) * a.itemSize = a.place (xs ++ is) := by
  rw [f.distance_eq]
  refine sum_zipWith_mul_mul fun k => ?_
  by_cases hk : k < f.strides.length
  · obtain ⟨x, hx⟩ : ∃ x, f.strides[k]? = some x := ⟨_, getElem?_eq_getElem hk⟩
    have hvalue : (f.strides.map (·.value (extentOf given))).getD k 0 = x.value (extentOf given) :=
      by simp [hx]
    rw [hvalue]
    rcases hsize with hfixed | hopen
    · obtain ⟨n, rfl⟩ := hfixed x (mem_append_right _ (mem_of_getElem? hx))
      by_cases hspatial : k < f.spatialDimensions
      · have hstride : f.spatialStrides[k]? = some (.known n) :=
          by rw [spatialStrides, getElem?_take_of_lt hspatial, hx]
        rcases ((checkArray_eq_ok hcheck).2 hfixed.hasFixedShape).2 k _ hstride with h | h
        · rw [h]
          rfl
        · -- the stride does not matter, there is one position only
          have hkx : k < xs.length := hlen ▸ hspatial
          obtain ⟨hlen', hget⟩ := forall₂_iff_get.1 hxs
          obtain ⟨hlo, hhi⟩ := hget k hkx (hlen' ▸ hkx)
          have hshape : a.shape.getD k 0 = (a.shape.take f.spatialDimensions).get ⟨k,
            hlen' ▸ hkx⟩ := by
            have hks : k < a.shape.length := lt_of_lt_of_le (hlen' ▸ hkx) (length_take_le' ..)
            simp [hks]
          have hcoord : (xs ++ is).getD k 0 = xs.get ⟨k, hkx⟩ :=
            by simp [getElem?_append_left hkx, hkx]
          have hzero : (xs ++ is).getD k 0 = 0 := by omega
          rw [hzero, mul_zero, mul_zero]
      · have hindex : a.storage.strides[k]? = some (n * a.itemSize) := by
          have := congrArg (·[k - f.spatialDimensions]?) (hstrided.index hfixed)
          simpa [indexStrides, Nat.add_sub_cancel' (not_lt.1 hspatial), hx, knownExtent] using this
        simp [hindex, Extent.value]
    · obtain rfl := hopen.strides k x hx
      have hdvd : a.itemSize ∣ a.storage.strides.getD k 0 := by
        rw [getD_eq_getElem?_getD]
        cases hn : a.storage.strides[k]? with
        | none => exact dvd_zero _
        | some n => exact hstrided.whole hopen n (mem_of_getElem? hn)
      have hstride : (Extent.stride f.name k).value (extentOf given) =
        Int.tdiv (a.storage.strides.getD k 0) a.itemSize := by
        simp [Extent.value, extentOf, ha]
      rw [hstride, Int.tdiv_mul_cancel hdvd]
  · have hzero : (xs ++ is).getD k 0 = 0 := by
      rw [getD_eq_getElem?_getD, getElem?_eq_none (by omega)]
      rfl
    rw [hzero, mul_zero, mul_zero]

/-- Where the checks of a call have passed, every element that a kernel touches is one of the
arrays, if the indices of all accesses are inside of them. -/
theorem touched_held {A : Algebra} {H : Head → Prop} (hH : Operations H) (hS : A.Sound M H)
    (hC : A.Closed H) {fresh : Nat}
    {body : List Statement} {o : Kernel.Options} (hslice : o.slice = none)
    (hghost : o.ghost = .automatic)
    (hr : Kernel.create A fresh body o = .ok c.kernel) (hc : c.kernel.parameters = .ok c.parameters)
    (hgrid : GridField.Grid c.fields) (hkind : ∀ f ∈ c.fields, f.kind = .generic)
    (hsize : ∀ f ∈ c.fields, f.IsFixed ∨ f.IsOpen) {vs : Variables Float}
    (hb : c.bind given = .ok vs)
    (hstrided : ∀ f ∈ c.fields, ∀ a, arrayOf given f.name = .ok a → f.Strided a)
    (hbody : Straight H (fun f os is => f ∈ c.fields ∧ Access.Accepts f os is ∧ ∀ a,
      arrayOf given f.name = .ok a →
      Forall₂ (fun i n => 0 ≤ i ∧ i < n) is (a.shape.drop f.spatialDimensions)) body)
    {s : Machine.State V} (hs : c.Starts M given s) : ∀ t ∈ Machine.touchedList M c.kernel.body s,
      ∃ f ∈ c.fields, ∃ a xs k, arrayOf given f.name = .ok a ∧ a.Holds xs ∧ t = some (f.name, k) ∧
        k * a.itemSize = a.place xs := by
  obtain ⟨f₀, hf₀, htouched⟩ := touched_create hH hS hC hgrid
    (fun f os is h => ⟨h.1, h.2.1.spec.1, h.2.1.spec.2.1⟩)
    hbody hslice hghost hr
  intro t ht
  obtain ⟨f, os, is, xs, ⟨hf, haccepts, hindex⟩, hcommon, hxs, rfl⟩ :=
    htouched (given_of_starts hr hc hb hsize hs) t ht
  obtain ⟨a, ha, hcheck⟩ := checked hr hc hb hf
  obtain ⟨a₀, ha₀, -⟩ := checked hr hc hb hf₀
  have hdim : ∀ f ∈ c.fields, ∀ g ∈ c.fields, f.spatialDimensions = g.spatialDimensions :=
    fun f hf g hg =>
    congrArg length (hgrid.layout f hf g hg)
  have hspatial : ∀ f ∈ c.fields, f.spatialShape.length = f.spatialDimensions := fun f hf => by
    simpa [spatialShape, dimensions] using (hgrid.formed f hf).spatial
  have hlen : xs.length = f.spatialDimensions :=
    by rw [hxs.length_eq, hspatial f₀ hf₀, hdim f₀ hf₀ f hf]
  -- along the spatial coordinates the array is as large as the domain
  have hinside : Forall₂ (fun i n => 0 ≤ i ∧ i < n) xs (a.shape.take f.spatialDimensions) := by
    rcases hcommon with ⟨hfixed, hshape⟩ | hfree
    · rw [← hshape] at hxs
      rw [← hspatial f hf]
      refine forall₂_take_shape hxs fun k n hn => ?_
      rw [((checkArray_eq_ok hcheck).2 hfixed).1 k n hn]
      obtain ⟨m, rfl⟩ := ((hsize f hf).resolve_right fun h => by simp [h.size] at hfixed) n
        (mem_append_left _ (mem_of_mem_take (mem_of_getElem? hn)))
      rfl
    · rw [same_shape hr hc hb hdim hkind hf hf₀ hfree ha ha₀, hdim f hf f₀ hf₀, ← hspatial f₀ hf₀]
      refine forall₂_take_shape hxs fun k n hn => ?_
      have hopen := (hsize f₀ hf₀).resolve_left fun h => by simp [h.hasFixedShape] at hfree
      obtain rfl := hopen.shape k n hn
      simp [Extent.value, extentOf, ha₀]
  have hall : (xs ++ is).length = f.strides.length := by
    have h₁ := (hgrid.formed f hf).strides
    have h₂ := (hgrid.formed f hf).spatial
    have h₃ := haccepts.spec.2.1
    rw [length_append]
    simp only [indexDimensions, dimensions, spatialDimensions] at *
    omega
  refine ⟨f, hf, a, xs ++ is, _, ha, ?_, rfl,
    distance_mul_itemSize (hsize f hf) ha hcheck (hstrided f hf a ha) hinside hlen hall⟩
  rw [DataArray.Holds, ← take_append_drop f.spatialDimensions a.shape]
  exact rel_append hinside (hindex a ha)

end Execution.Compiled

/-! ### Fewer values than the field has -/

/-- A field of open size along a line, with two values in each cell. -/
def GridField.openPairs : GridField :=
  { line "f" with shape := [.shape ["f"] 0, .known 2], strides := [.stride "f" 0, .stride "f" 1] }

/-- Four cells along a line, with some values in each of them. -/
def DataArray.cells (n : Int) : DataArray := ⟨.double, ⟨[4, n], [8 * n, 8]⟩, default⟩

namespace Execution.Compiled

open GridField (openPairs)

/-- Moves the second values of all cells by one cell. -/
def shift : Compiled where
  kernel :=
    let base := Symbol.typed "_data_f_11" (.pointer .double false true)
    let stride (k : Nat) : Expr := .ofExtent (.stride "f" k)
    let element (offset : Int) : Expr := .node (.resolved openPairs 1) [.sym base, .node .add
      [.node .add [.int 0, .node .mul [stride 0, .node .mul [.sym (Counter.symbol 0), .int 1]]],
        .node .mul [stride 0, .int offset]], .lit offset, .lit 1]
    { body := [.assign (.sym base) (.node .add [.sym (fieldPointer [] openPairs),
          .node .add [.int 0, .node .mul [stride 1, .int 1]]]) false,
        .loop { coord := 0, start := .lit 1, stop := .node .add [.ofExtent (.shape ["f"] 0),
          .int (-1)] }
          [.assign (element 0) (element 1) true]],
      ghostLayers := .each [(1, 1)] }
  parameters := [⟨fieldPointer [] openPairs, [openPairs]⟩,
    ⟨⟨"_size_f_0", .shape ["f"] 0⟩, [openPairs]⟩,
    ⟨⟨"_stride_f_0", .stride "f" 0⟩, [openPairs]⟩, ⟨⟨"_stride_f_1", .stride "f" 1⟩, [openPairs]⟩]
  program := []

theorem create_shift : create Algebra.bare 0
    [.set (Access.literal openPairs [0] [1]) (Access.literal openPairs [1] [1])]
    { types := { fallback := some "double" }, unchecked := true } = .ok shift.kernel := by cbv

theorem parameters_shift : shift.kernel.parameters = .ok shift.parameters := by
  have hfields : shift.kernel.fields = [openPairs] := by cbv
  have hneeds : shift.kernel.needs = .ok [.sym (fieldPointer [] openPairs),
    .ofExtent (.stride "f" 1),
      .ofExtent (.stride "f" 0), .ofExtent (.shape ["f"] 0)] := by cbv
  unfold Kernel.parameters
  have hown : shift.kernel.globals = [] := rfl
  have hlaunch : shift.kernel.launchSymbols = [] := rfl
  refine congrArg Except.ok (?_ : mergeSort [⟨fieldPointer [] openPairs, [openPairs]⟩,
    ⟨⟨"_stride_f_1", .stride "f" 1⟩, [openPairs]⟩, ⟨⟨"_stride_f_0", .stride "f" 0⟩, [openPairs]⟩,
    ⟨⟨"_size_f_0", .shape ["f"] 0⟩, [openPairs]⟩]
      (fun a b => decide (a.symbol.name ≤ b.symbol.name)) = shift.parameters)
  simp [shift, mergeSort, fieldPointer, List.MergeSort.Internal.splitInTwo, openPairs, line]

def shiftStart (n : Int) : Machine.State Whole :=
  ⟨givenValue Whole.model (extentOf [("f", .array (.cells n))]), fun _ => none⟩

theorem starts_shift (n : Int) : shift.Starts Whole.model [("f", .array (.cells n))]
    (shiftStart n) := by
  have hcells : arrayOf [("f", .array (.cells n))] openPairs.name = .ok (.cells n) := rfl
  refine ⟨fun p hp m h => ?_, fun p hp m h => ?_⟩
  · simp only [shift, mem_cons, not_mem_nil, or_false] at hp
    rcases hp with rfl | rfl | rfl | rfl
    · cases (value_pointer rfl rfl h).1
    · cases (value_shape rfl rfl hcells).symm.trans h
      rfl
    · cases (value_stride rfl rfl hcells).symm.trans h
      rfl
    · cases (value_stride rfl rfl hcells).symm.trans h
      rfl
  · simp only [shift, mem_cons, not_mem_nil, or_false] at hp
    rcases hp with rfl | rfl | rfl | rfl
    · cases (value_pointer rfl rfl h).1
      rfl
    · cases (value_shape rfl rfl hcells).symm.trans h
    · cases (value_stride rfl rfl hcells).symm.trans h
    · cases (value_stride rfl rfl hcells).symm.trans h

theorem bind_shift (n : Int) : ∃ vs, shift.bind [("f", .array (.cells n))] = .ok vs := ⟨_, rfl⟩

/-- Two values in each cell, as the field has. -/
theorem touched_held_shift :
    let given := [("f", Argument.array (.cells 2))]
    (∃ vs, shift.bind given = .ok vs) ∧ ∀ t ∈ Machine.touchedList Whole.model shift.kernel.body
    (shiftStart 2),
      ∃ f ∈ shift.fields, ∃ a xs k, arrayOf given f.name = .ok a ∧ a.Holds xs ∧
        t = some (f.name, k) ∧ k * a.itemSize = a.place xs := by
  intro given
  have hfields : ∀ {P : GridField → Prop}, P openPairs → ∀ f ∈ shift.fields, P f :=
    fun h f hf => mem_singleton.1 hf ▸ h
  have harray : ∀ {P : DataArray → Prop}, P (.cells 2) → ∀ a, arrayOf given openPairs.name = .ok a →
    P a :=
    fun h a ha => (Except.ok.inj ha : DataArray.cells 2 = a) ▸ h
  have hopen : openPairs.IsOpen := by
    refine ⟨rfl, fun k x hx => ?_, fun k x hx => ?_⟩
    · rcases k with _ | k
      · exact (Option.some.inj hx).symm
      · cases hx
    · rcases k with _ | _ | k
      · exact (Option.some.inj hx).symm
      · exact (Option.some.inj hx).symm
      · cases hx
  have haccess : ∀ os, Access.Accepts openPairs os [1] → openPairs ∈ shift.fields ∧
    Access.Accepts openPairs os [1] ∧
      ∀ a, arrayOf given openPairs.name = .ok a →
        Forall₂ (fun i n => 0 ≤ i ∧ i < n) [1] (a.shape.drop openPairs.spatialDimensions) :=
    fun os h => ⟨mem_singleton_self _, h, harray (.cons (by decide) .nil)⟩
  obtain ⟨vs, hb⟩ := bind_shift 2
  refine ⟨⟨vs, hb⟩, touched_held Arithmetic.operations
    (Algebra.bare_sound Whole.model) Algebra.bare_closed rfl rfl create_shift
    parameters_shift ?_ (hfields rfl) (hfields (.inr hopen)) hb
      (hfields (harray ⟨fun _ n hn => ?_, fun h => ?_⟩)) ?_ (starts_shift 2)⟩
  · refine ⟨hfields (hfields ⟨fun _ => rfl, by decide⟩), hfields ⟨.refl _, by decide, rfl⟩,
      hfields ⟨rfl, rfl⟩,
      hfields (hfields rfl), hfields (.inr fun x hx => ?_), hfields fun k hk => ?_⟩
    · obtain rfl := mem_singleton.1 hx
      rfl
    · obtain rfl : 0 = k := Option.some.inj hk
      nofun
  · rcases mem_pair.1 hn with rfl | rfl <;> decide
  · cases h.hasFixedShape.symm.trans hopen.size
  · exact .store (haccess [0] (by cbv)) (.leaf rfl (.access (haccess [1] (by cbv)))) .nil

/-- An array with one value in each cell is accepted for a field with two, and the kernel leaves it.
-/
theorem touched_behind_end :
    let given := [("f", Argument.array (.cells 1))]
    (∃ vs, shift.bind given = .ok vs) ∧ shift.Starts Whole.model given (shiftStart 1) ∧
      some ("f", 4) ∈ Machine.touchedList Whole.model shift.kernel.body (shiftStart 1) ∧
      ∀ xs, (DataArray.cells 1).Holds xs →
        4 * (DataArray.cells 1).itemSize ≠ (DataArray.cells 1).place xs := by
  have htouched : Machine.touchedList Whole.model shift.kernel.body (shiftStart 1) =
      [some ("f", 2), some ("f", 3), some ("f", 3), some ("f", 4)] := by cbv
  refine ⟨bind_shift 1, starts_shift 1, by simp [htouched], fun xs h => ?_⟩
  obtain ⟨x, xs, hx, h', rfl⟩ := forall₂_cons_right_iff.1 h
  obtain ⟨i, xs, hi, h'', rfl⟩ := forall₂_cons_right_iff.1 h'
  obtain rfl := forall₂_nil_right_iff.1 h''
  have hplace : (DataArray.cells 1).place [x, i] = 8 * x + (8 * i + 0) := rfl
  have hsize : (DataArray.cells 1).itemSize = 8 := by decide
  rw [hplace, hsize]
  omega

end Execution.Compiled

end StencilForge
