import StencilForge.Proofs.Periodic
import StencilForge.Proofs.Strides

/-!
# Proofs — the register of a grid

What a grid keeps under a name fits together (`DataGrid.Consistent`) as long as no call breaks it
(`DataGrid.Breaks`): a name is not added again with another shape, a field not registered without
its array, and arrays that differ in shape or strides not exchanged.  Every other call, whether it
fails or not, keeps the register consistent (`DataGrid.consistent_run`); one that fails changes at
most the plan of the name that it adds, and leaves an array under a new one.
-/

open List StencilForge.Outcome StencilForge.Table StencilForge.Action

namespace StencilForge

open GridField

variable {a b : DataArray} {f : GridField} {α : Type}

/-! ### Shapes in memory -/

namespace Storage

variable {item : Int} {shape : Ints} {s : Storage}

theorem isRowDense_rows (item : Int) (shape : Ints) :
    isRowDense item ⟨shape, rowStrides item shape⟩ = true := by
  refine Bool.or_eq_true_iff.2 (.inr (all_eq_true.2 fun x hx => ?_))
  obtain ⟨k, hk, hx⟩ := getElem_of_mem (of_mem_zip hx).2
  simp [← hx]

theorem shape_paddedLines (hitem : 0 ≤ item) {alignment : Int}
    (h : paddedLines item alignment .rows shape = .ok s) : s.shape = shape := by
  rcases eq_nil_or_concat' shape with rfl | ⟨init, last, rfl⟩
  · simp [paddedLines] at h
  simp only [paddedLines, getLast?_concat, bind_eq_ok, Except.ok.injEq, exists_eq_left',
    require_eq_ok, Bool.and_eq_true,
    decide_eq_true_eq, dropLast_concat, isRowDense_rows, Option.getD_some, exists_const] at h
  obtain ⟨⟨hle, -⟩, h⟩ := h
  split_ifs at h
  · simp at h
  have hwide : last ≤ last + (alignment - last * item % alignment) % alignment / item := by
    have hpad : 0 ≤ (alignment - last * item % alignment) % alignment := by
      rcases eq_or_ne alignment 0 with rfl | hne
      · obtain rfl : item = 0 := by omega
        simp
      · exact Int.emod_nonneg _ hne
    have := Int.ediv_nonneg hpad hitem
    omega
  obtain rfl := pure_eq_ok.1 h
  rw [min_eq_right hwide]

theorem shape_withLayout (hitem : 0 ≤ item) {layout : Ints} {alignment : Option Int}
    (h : withLayout item shape layout alignment = .ok s) : s.shape = shape := by
  obtain ⟨_, hchecked, h⟩ := bind_eq_ok.1 h
  obtain ⟨swaps, hs, h⟩ := bind_eq_ok.1 h
  obtain ⟨_, -, h⟩ := bind_eq_ok.1 h
  have hperm := Layout.perm_ascending (requireWith_eq_ok.1 hchecked) hs
  obtain ⟨swaps, hs', hin, -⟩ := Layout.exchanges_ascending hperm
  obtain rfl := Except.ok.inj (hs.symm.trans hs')
  obtain ⟨t, ht, rfl⟩ : ∃ t : Storage, t.shape = swaps.foldl Layout.exchange shape ∧
      ⟨swaps.reverse.foldl Layout.exchange t.shape,
        swaps.reverse.foldl Layout.exchange t.strides⟩ = s := by
    cases alignment with
    | none => exact ⟨dense item _, rfl, Except.ok.inj h⟩
    | some a =>
      obtain ⟨t, ht, h⟩ := bind_eq_ok.1 h
      exact ⟨t, shape_paddedLines hitem ht, Except.ok.inj h⟩
  rw [ht]
  exact Layout.foldl_reverse_exchange hin

end Storage

/-! ### Arrays and fields that fit together -/

namespace DataArray

def elementStrides (a : DataArray) : Ints := a.storage.strides.map fun x => Int.fdiv x a.itemSize

/-- An array has a value for each place in memory. -/
structure Sound (a : DataArray) : Prop where
  full : a.values.Full
  shape : a.values.shape = a.storage.shape.map Int.toNat

structure Alike (a b : DataArray) : Prop where
  shape : a.storage.shape = b.storage.shape
  strides : a.elementStrides = b.elementStrides

theorem Alike.symm (h : a.Alike b) : b.Alike a := ⟨h.shape.symm, h.strides.symm⟩

end DataArray

namespace GridField

def recordPart (f : GridField) : List Extent := if f.dtype.isRecord then [.known 1] else []

structure Describes (f : GridField) (a : DataArray) : Prop where
  shape : f.shape = a.storage.shape.map .known ++ f.recordPart
  strides : f.strides = a.elementStrides.map .known ++ f.recordPart

theorem Describes.iff_alike (h : f.Describes a) : f.Describes b ↔ a.Alike b := by
  have hknown : Function.Injective (map Extent.known) :=
    map_injective_iff.2 fun _ _ => Extent.known.inj
  refine ⟨fun h' => ⟨hknown ?_, hknown ?_⟩,
    fun hab => ⟨hab.shape ▸ h.shape, hab.strides ▸ h.strides⟩⟩
  · exact append_cancel_right (h.shape.symm.trans h'.shape)
  · exact append_cancel_right (h.strides.symm.trans h'.strides)

theorem describes_ofStorage {name : String} {n : Nat}
    (h : ofStorage name a.storage a.dtype n = .ok f) :
    f.Describes a := by
  unfold ofStorage at h
  split_ifs at h
  · simp at h
  obtain ⟨layout, -, h⟩ := bind_eq_ok.1 h
  obtain ⟨⟨sh, st⟩, hclose, h⟩ := bind_eq_ok.1 h
  obtain ⟨_, -, h⟩ := bind_eq_ok.1 h
  obtain ⟨l, -, h⟩ := bind_eq_ok.1 h
  obtain rfl := pure_eq_ok.1 h
  unfold closeRecord at hclose
  split_ifs at hclose with hrecord
  · cases hclose
  all_goals
    obtain ⟨rfl, rfl⟩ := Prod.mk.inj (Except.ok.inj hclose)
    exact ⟨by simp [recordPart, hrecord], by simp [recordPart, hrecord, DataArray.elementStrides, DataArray.itemSize]⟩

end GridField

/-! ### Calls -/

/-- Checks of all elements leave the state alone. -/
theorem Action.mapM_lift_state {σ β : Type} (f : α → Outcome β) (xs : List α) (s : σ) :
    ((xs.mapM fun x => (liftM (f x) : Action σ β)).perform s).1 = s := by
  induction xs with
  | nil => rfl
  | cons x xs ih =>
    rw [mapM_cons, perform_bind, perform_lift]
    cases f x with
    | error e => rfl
    | ok b =>
      dsimp only
      rw [perform_bind]
      rcases h : (xs.mapM fun x => (liftM (f x) : Action σ β)).perform s with ⟨t, e | bs⟩ <;> exact
        (congrArg Prod.fst h).symm.trans ih

inductive GridCall where
  | add (name : String) (p : ArrayPlan) (places : ArrayPlaces)
  | addLike (name template : String)
  | swap (a b : String)
  | fill (name : String) (value : Cell) (index : Option Ints) (part : Option Slices)
    (layers : BlockLayers) (inner : Bool)

namespace DataGrid

variable {κ : Type} {g : DataGrid κ} {A : Algebra} {name : String} {p : ArrayPlan}
    {places : ArrayPlaces} {g' : DataGrid κ}

def call (A : Algebra) : GridCall → Action (DataGrid κ) Unit
  | .add name p places => do let _ ← add name p places
  | .addLike name template => do let _ ← addLike name template
  | .swap a b => swap a b
  | .fill name value index part layers inner => fill A name value index part layers inner

def after (A : Algebra) (g : DataGrid κ) (cs : List GridCall) :
    DataGrid κ := cs.foldl (fun g c => ((call A c).perform g).1) g

def kept (p : ArrayPlan) : ArrayPlan := { p with values := normalValues p.values }

inductive Added (g : DataGrid κ) (name : String) (p : ArrayPlan) (places : ArrayPlaces) :
    DataGrid κ × Outcome GridField → Prop where
  | refused (e : Failure) : Added g name p places ({ g with plans := g.plans.insert name (kept p) },
    .error e)
  | half {a : DataArray} (e : Failure) (ha : g.blank (kept p) = .ok a)
    (hnew : g.arrays.get? name = none) :
      Added g name p places ({ g with plans := g.plans.insert name (kept p), arrays := g.arrays.insert name a }, .error e)
  | bare {a : DataArray} {f : GridField} (ha : g.blank (kept p) = .ok a) (hcpu : places.cpu = false) (hnew : g.fields.get? name = none)
      (hf : f.Describes a) :
      Added g name p places ({ g with plans := g.plans.insert name (kept p), fields := g.fields.insert name f }, .ok f)
  | whole {a : DataArray} {f : GridField} (ha : g.blank (kept p) = .ok a) (hcpu : places.cpu = true) (hnone : g.arrays.get? name = none)
      (hnew : g.fields.get? name = none) (hf : f.Describes a) :
      Added g name p places ({ g with
        plans := g.plans.insert name (kept p), arrays := g.arrays.insert name a, fields :=
          g.fields.insert name f }, .ok f)

theorem blank_spec (h : g.blank p = .ok a) :
    a.Sound ∧ a.storage.shape = g.fullShape p ∧ a.dtype = p.dtype := by
  obtain ⟨order, -, h⟩ := bind_eq_ok.1 h
  split_ifs at h
  · simp at h
  obtain ⟨s, hs, h⟩ := bind_eq_ok.1 h
  obtain rfl := pure_eq_ok.1 h
  have hitem : 0 ≤ elementSize p.dtype := by
    unfold elementSize
    split <;> positivity
  have hshape := Storage.shape_withLayout hitem hs
  exact ⟨⟨NdArray.full_constant .., by rw [hshape]; rfl⟩, hshape, rfl⟩

theorem added (g : DataGrid κ) (name : String) (p : ArrayPlan) (places : ArrayPlaces) :
    Added g name p places ((add name p places).perform g) := by
  -- the array does not depend on the plans
  have hsame : ∀ t : Table String ArrayPlan,
    { g with plans := t }.blank { p with values := normalValues p.values } = g.blank (kept p) :=
    fun _ => rfl
  cases hblank : g.blank (kept p) with
  | error e =>
    simp only [add, perform_bind, perform_modify, perform_get, hsame, hblank]
    exact .refused e
  | ok a =>
    have hfield : ∀ f, ofStorage name a.storage p.dtype (normalValues p.values).length = .ok f →
      f.Describes a := fun f hf =>
      describes_ofStorage ((blank_spec hblank).2.2 ▸ hf)
    simp only [add, perform_bind, perform_modify, perform_get, perform_lift, hsame, hblank]
    by_cases halign : (p.alignment.isSome && places.gpu) = true
    · rw [if_pos halign]
      exact .refused _
    rw [if_neg halign]
    by_cases hcpu : places.cpu = true
    · by_cases harray : (g.arrays.get? name).isSome = true
      · rw [if_pos hcpu, if_pos harray]
        exact .refused _
      have hnone : g.arrays.get? name = none := by simpa using harray
      rw [if_pos hcpu, if_neg harray]
      by_cases hgpu : places.gpu = true
      · rw [if_pos hgpu]
        exact .half _ hblank hnone
      by_cases hknown : (g.fields.get? name).isSome = true
      · rw [if_neg hgpu, if_pos hknown]
        exact .half _ hblank hnone
      rw [if_neg hgpu, if_neg hknown]
      cases hf : ofStorage name a.storage p.dtype (normalValues p.values).length with
      | error e => exact .half e hblank hnone
      | ok f => exact .whole hblank hcpu hnone (by simpa using hknown) (hfield f hf)
    · rw [if_neg hcpu]
      by_cases hgpu : places.gpu = true
      · rw [if_pos hgpu]
        exact .refused _
      by_cases hknown : (g.fields.get? name).isSome = true
      · rw [if_neg hgpu, if_pos hknown]
        exact .refused _
      rw [if_neg hgpu, if_neg hknown]
      cases hf : ofStorage name a.storage p.dtype (normalValues p.values).length with
      | error e => exact .refused e
      | ok f => exact .bare hblank (by simpa using hcpu) (by simpa using hknown) (hfield f hf)

theorem swapped (g : DataGrid κ) (a b : String) :
    (∃ e, (swap a b).perform g = (g, .error e)) ∧
    (g.arrays.get? a = none ∨ g.arrays.get? b = none) ∨
      ∃ x y, g.arrays.get? a = some x ∧ g.arrays.get? b = some y ∧
        (swap a b).perform g = ({ g with arrays := insert (g.arrays.insert a y) b x }, .ok ()) := by
  simp only [swap, perform_bind, perform_get, array, entry]
  cases hb : g.arrays.get? b with
  | none => exact .inl ⟨⟨_, rfl⟩, .inr rfl⟩
  | some y =>
    cases ha : g.arrays.get? a with
    | none => exact .inl ⟨⟨_, rfl⟩, .inl rfl⟩
    | some x => exact .inr ⟨x, y, rfl, rfl, rfl⟩

/-- Or the call fails and nothing changes. -/
def FillsOnly (g : DataGrid κ) (name : String) (r : DataGrid κ × Outcome Unit) : Prop :=
  (∃ e, r = (g, .error e)) ∨ ∃ a v, g.arrays.get? name = some a ∧ v.shape = a.values.shape ∧
    (a.values.Full → v.Full) ∧
    r = ({ g with arrays := g.arrays.insert name { a with values := v } }, .ok ())

theorem FillsOnly.bind {x : Action (DataGrid κ) α} {f : α → Action (DataGrid κ) Unit}
    (hx : (x.perform g).1 = g)
    (hf : ∀ a, (x.perform g).2 = .ok a → FillsOnly g name ((f a).perform g)) :
    FillsOnly g name ((x >>= f).perform g) := by
  rw [perform_bind]
  rcases h : x.perform g with ⟨t, e | a⟩ <;> rw [h] at hx hf <;> obtain rfl : t = g := hx
  · exact .inl ⟨e, rfl⟩
  · exact hf a rfl

theorem filled (g : DataGrid κ) (name : String) (value : Cell) (index : Option Ints)
    (part : Option Slices) (layers : BlockLayers)
    (inner : Bool) : FillsOnly g name ((fill A name value index part layers inner).perform g) := by
  have hset : ∀ (w : Window) (c : Cell) (v : NdArray Cell), let r := (NdArray.indices w.shape).foldl (fun v i => v.set (w.index i) c) v
      r.shape = v.shape ∧ (v.Full → r.Full) := by
    intro w c v
    induction NdArray.indices w.shape generalizing v with
    | nil => exact ⟨rfl, id⟩
    | cons i is ih => exact ⟨(ih _).1.trans (NdArray.shape_set ..), fun hv => (ih _).2 (hv.set ..)⟩
  have hend : ∀ (a : DataArray) (w : Window), g.array name = .ok a →
    FillsOnly g name ((setValues name
      ((NdArray.indices w.shape).foldl (fun v i => v.set (w.index i) (Cell.ofType a.dtype value))
        a.values)).perform g) := by
    intro a w ha
    have ha := array_eq_ok.1 ha
    obtain ⟨hshape, hfull⟩ := hset w (Cell.ofType a.dtype value) a.values
    refine .inr ⟨a, _, ha, hshape, hfull, ?_⟩
    rw [setValues, perform_modify, ha]
  refine .bind rfl fun _ hg => ?_
  obtain rfl := Except.ok.inj hg
  refine .bind rfl fun b _ => ?_
  cases index with
  | none => exact .bind rfl fun w _ => .bind rfl fun a ha => .bind rfl fun _ _ => hend a _ ha
  | some i =>
    refine .bind rfl fun p _ => ?_
    split_ifs
    · exact .inl ⟨_, rfl⟩
    refine .bind rfl fun w _ => .bind rfl fun a ha => .bind ?_ fun own _ => .bind rfl fun _ _ =>
      hend a _ ha
    exact mapM_lift_state ..

/-! ### Consistency -/

/-- The array has a value for each place, and if there is a field, the array has the shape that the
plan says, and the field describes it. -/
structure ConsistentAt (g : DataGrid κ) (name : String) : Prop where
  sound : ∀ a, g.arrays.get? name = some a → a.Sound
  fits : ∀ f, g.fields.get? name = some f → ∃ p a, g.plans.get? name = some p ∧
    g.arrays.get? name = some a ∧
    a.storage.shape = g.fullShape p ∧ f.Describes a

def Consistent (g : DataGrid κ) : Prop := ∀ name, g.ConsistentAt name

/-- A registered name is added again with another shape. -/
def Reshapes (g : DataGrid κ) (name : String) (p : ArrayPlan) : Prop :=
  ∃ f a, g.fields.get? name = some f ∧ g.arrays.get? name = some a ∧
    a.storage.shape ≠ g.fullShape (kept p)

def Unbacked (g : DataGrid κ) (name : String) (p : ArrayPlan) (places : ArrayPlaces)
    (r : Outcome GridField) : Prop :=
  ∃ f a, places.cpu = false ∧ r = .ok f ∧ g.blank (kept p) = .ok a ∧ ∀ b,
    g.arrays.get? name = some b → ¬ a.Alike b

def Breaks (g : DataGrid κ) : GridCall → Prop
  | .add name p places => g.Reshapes name p ∨
    g.Unbacked name p places ((add name p places).perform g).2
  | .addLike name template => ∃ p, g.plans.get? template = some p ∧ g.Reshapes name p
  | .swap a b => ∃ x y, g.arrays.get? a = some x ∧ g.arrays.get? b = some y ∧ ¬ x.Alike y ∧
      ((g.fields.get? a).isSome = true ∨ (g.fields.get? b).isSome = true)
  | .fill .. => False

theorem ConsistentAt.congr (h : g.ConsistentAt name) (hsize : g'.size = g.size)
    (hsame : g'.plans.get? name = g.plans.get? name ∧ g'.arrays.get? name = g.arrays.get? name ∧
      g'.fields.get? name = g.fields.get? name) : g'.ConsistentAt name := by
  obtain ⟨hplan, harray, hfield⟩ := hsame
  obtain ⟨hsound, hfits⟩ := h
  unfold fullShape at hfits
  rw [← hfield, ← hplan, ← harray, ← hsize] at hfits
  exact ⟨harray ▸ hsound, hfits⟩

theorem Consistent.iff_at (hg : g.Consistent) (hsize : g'.size = g.size)
    (hother : ∀ n, name ≠ n → g'.plans.get? n = g.plans.get? n ∧
      g'.arrays.get? n = g.arrays.get? n ∧
      g'.fields.get? n = g.fields.get? n) : g'.Consistent ↔ g'.ConsistentAt name := by
  refine ⟨fun h => h name, fun h n => ?_⟩
  by_cases hn : name = n
  · exact hn ▸ h
  · exact (hg n).congr hsize (hother n hn)

theorem ConsistentAt.iff_replaced (hg : g.ConsistentAt name) (g' : DataGrid κ)
    (hsize : g'.size = g.size) (hplans : g'.plans = g.plans)
    (hfields : g'.fields = g.fields) (ha : g.arrays.get? name = some a)
    (hb : g'.arrays.get? name = some b)
    (hsound : b.Sound) : g'.ConsistentAt name ↔
    ((g.fields.get? name).isSome = true → a.Alike b) := by
  have hshape : ∀ p, g'.fullShape p = g.fullShape p := fun p => by rw [fullShape, hsize]; rfl
  constructor
  · intro h hreg
    obtain ⟨f, hf⟩ := Option.isSome_iff_exists.1 hreg
    obtain ⟨p, a', -, ha', -, hdesc⟩ := hg.fits f hf
    obtain ⟨p', b', -, hb', -, hdesc'⟩ := h.fits f (hfields ▸ hf)
    obtain rfl := Option.mem_unique ha ha'
    obtain rfl := Option.mem_unique hb hb'
    exact hdesc.iff_alike.1 hdesc'
  · refine fun h => ⟨fun b' hb' => Option.mem_unique hb hb' ▸ hsound, fun f hf => ?_⟩
    rw [hfields] at hf
    obtain ⟨p, a', hp, ha', hfull, hdesc⟩ := hg.fits f hf
    obtain rfl := Option.mem_unique ha ha'
    have halike := h (Option.isSome_iff_exists.2 ⟨f, hf⟩)
    exact ⟨p, b, hplans ▸ hp, hb, by rw [← halike.shape, hfull, hshape], hdesc.iff_alike.2 halike⟩

theorem Added.consistent_iff {r : DataGrid κ × Outcome GridField} (h : Added g name p places r)
    (hg : g.Consistent) :
    r.1.Consistent ↔ ¬ (g.Reshapes name p ∨ g.Unbacked name p places r.2) := by
  have hins : ∀ {α : Type} (t : Table String α) (v : α) (n : String), name ≠ n → get? (t.insert name v) n = get? t n :=
    fun t v n hn => get?_insert_of_ne hn t v
  have hself : ∀ {α : Type} {t : Table String α} {v w : α}, get? (t.insert name v) name = some w → v = w := fun h =>
    Option.some.inj ((get?_insert_self ..).symm.trans h)
  cases h with
  | refused e =>
    refine trans (hg.iff_at rfl fun n hn => ⟨hins _ _ n hn, rfl, rfl⟩) ?_
    constructor
    · rintro h (⟨f, a, hf, ha, hne⟩ | ⟨f, a, -, hok, -⟩)
      · obtain ⟨p', a', hp', ha', hshape, -⟩ := h.fits f hf
        obtain rfl := hself hp'
        obtain rfl := Option.mem_unique ha ha'
        exact hne hshape
      · cases hok
    · refine fun hno => ⟨(hg name).sound, fun f hf => ?_⟩
      obtain ⟨p', a, -, ha, -, hdesc⟩ := (hg name).fits f hf
      refine ⟨kept p, a, get?_insert_self .., ha, ?_, hdesc⟩
      by_contra hne
      exact hno (.inl ⟨f, a, hf, ha, hne⟩)
  | half e ha hnew =>
    refine trans (hg.iff_at rfl fun n hn => ⟨hins _ _ n hn, hins _ _ n hn, rfl⟩) ?_
    refine ⟨?_, fun _ => ⟨fun b hb => hself hb ▸ (blank_spec ha).1, fun f hf => ?_⟩⟩
    · rintro - (⟨f, a, -, hold, -⟩ | ⟨f, a, -, hok, -⟩)
      · cases hnew.symm.trans hold
      · cases hok
    · obtain ⟨p', a', -, hold, -⟩ := (hg name).fits f hf
      cases hnew.symm.trans hold
  | @bare a f ha hcpu hnew hf =>
    refine trans (hg.iff_at rfl fun n hn => ⟨hins _ _ n hn, rfl, hins _ _ n hn⟩) ?_
    constructor
    · rintro h (⟨f', a', hold, -⟩ | ⟨f', a', -, hok, ha', hno⟩)
      · cases hnew.symm.trans hold
      · obtain rfl := Except.ok.inj (ha.symm.trans ha')
        obtain ⟨p', b, -, hb, -, hdesc⟩ := h.fits f (get?_insert_self ..)
        exact hno b hb (hf.iff_alike.1 hdesc)
    · refine fun hno => ⟨(hg name).sound, fun f' hf' => ?_⟩
      obtain rfl := hself hf'
      by_contra hnone
      refine hno (.inr ⟨f, a, hcpu, rfl, ha, fun b hb halike => hnone ⟨kept p, b, get?_insert_self .., hb, ?_, hf.iff_alike.2 halike⟩⟩)
      exact halike.shape.symm.trans (blank_spec ha).2.1
  | @whole a f ha hcpu hnone hnew hf =>
    refine trans (hg.iff_at rfl fun n hn => ⟨hins _ _ n hn, hins _ _ n hn, hins _ _ n hn⟩) ?_
    refine ⟨?_, fun _ => ⟨fun b hb => hself hb ▸ (blank_spec ha).1, fun f' hf' => ?_⟩⟩
    · rintro - (⟨f', a', hold, -⟩ | ⟨f', a', hno, -⟩)
      · cases hnew.symm.trans hold
      · cases hcpu.symm.trans hno
    · obtain rfl := hself hf'
      exact ⟨kept p, a, get?_insert_self .., get?_insert_self .., (blank_spec ha).2.1, hf⟩

theorem consistent_swap (hg : g.Consistent) (a b : String) : ((swap a b).perform g).1.Consistent ↔
    ¬ g.Breaks (.swap a b) := by
  obtain ⟨⟨e, hswap⟩, hnone⟩ | ⟨x, y, hx, hy, hswap⟩ := swapped g a b
  · rw [hswap]
    refine ⟨?_, fun _ => hg⟩
    rintro - ⟨x, y, hx, hy, -⟩
    rcases hnone with hnone | hnone
    · cases hnone.symm.trans hx
    · cases hnone.symm.trans hy
  rw [hswap]
  set g' : DataGrid κ := { g with arrays := insert (g.arrays.insert a y) b x }
  have hb : g'.arrays.get? b = some x := get?_insert_self ..
  have ha : g'.arrays.get? a = some y := by
    by_cases hab : a = b
    · rw [hab, hb, ← hx, hab, hy]
    · exact (get?_insert_of_ne (symm hab) ..).trans (get?_insert_self ..)
  have hata := (hg a).iff_replaced g' rfl rfl rfl hx ha ((hg b).sound y hy)
  have hatb := (hg b).iff_replaced g' rfl rfl rfl hy hb ((hg a).sound x hx)
  have hboth : g'.Consistent ↔ g'.ConsistentAt a ∧ g'.ConsistentAt b := by
    refine ⟨fun h => ⟨h a, h b⟩, fun h n => ?_⟩
    by_cases hna : a = n
    · exact hna ▸ h.1
    by_cases hnb : b = n
    · exact hnb ▸ h.2
    exact (hg n).congr rfl ⟨rfl, (get?_insert_of_ne hnb ..).trans (get?_insert_of_ne hna ..), rfl⟩
  refine Iff.trans hboth (trans (and_congr hata hatb) ?_)
  constructor
  · rintro ⟨hreg, hreg'⟩ ⟨x', y', hx', hy', hne, h | h⟩ <;> obtain rfl :=
      Option.mem_unique hx hx' <;>
      obtain rfl := Option.mem_unique hy hy'
    · exact hne (hreg h)
    · exact hne (hreg' h).symm
  · intro hno
    by_cases halike : x.Alike y
    · exact ⟨fun _ => halike, fun _ => halike.symm⟩
    · exact ⟨fun h => absurd ⟨x, y, hx, hy, halike, .inl h⟩ hno,
        fun h => absurd ⟨x, y, hx, hy, halike, .inr h⟩ hno⟩

theorem FillsOnly.consistent {r : DataGrid κ × Outcome Unit} (h : FillsOnly g name r)
    (hg : g.Consistent) : r.1.Consistent := by
  obtain ⟨e, rfl⟩ | ⟨a, v, ha, hshape, hfull, rfl⟩ := h
  · exact hg
  · refine Iff.mpr (hg.iff_at rfl fun n hn => ⟨rfl, get?_insert_of_ne hn .., rfl⟩) ?_
    have hsound := (hg name).sound a ha
    exact Iff.mpr ((hg name).iff_replaced
      { g with arrays := g.arrays.insert name { a with values := v } } rfl rfl rfl ha
      (get?_insert_self ..) ⟨hfull hsound.full, hshape.trans hsound.shape⟩) fun _ => ⟨rfl, rfl⟩

/-! ### Runs -/

theorem call_add (name : String) (p : ArrayPlan) (places : ArrayPlaces) (g : DataGrid κ) :
    (call A (.add name p places)).perform g =
    (((add name p places).perform g).1, ((add name p places).perform g).2.map fun _ => ()) := by
  rw [call, perform_bind]
  rcases (add name p places).perform g with ⟨g', e | f⟩ <;> rfl

theorem call_addLike (name template : String) (g : DataGrid κ) :
    (∃ e, (call A (.addLike name template)).perform g = (g, .error e)) ∧
    g.plans.get? template = none ∨
      ∃ p, g.plans.get? template = some p ∧ (call A (.addLike name template)).perform g =
        (call A (.add name p {})).perform g := by
  simp only [call, addLike, perform_bind, perform_get, plan, entry]
  cases g.plans.get? template with
  | none => exact .inl ⟨⟨_, rfl⟩, rfl⟩
  | some p => exact .inr ⟨p, rfl, rfl⟩

theorem consistent_call (hg : g.Consistent) (c : GridCall) : ((call A c).perform g).1.Consistent ↔
    ¬ g.Breaks c := by
  have hadd : ∀ name p places, ((call A (.add name p places)).perform g).1.Consistent ↔
    ¬ g.Breaks (.add name p places) := fun name p places => by
    rw [call_add]
    exact (added g name p places).consistent_iff hg
  cases c with
  | add name p places => exact hadd name p places
  | addLike name template =>
    obtain ⟨⟨e, hcall⟩, hnone⟩ | ⟨p, hp, hcall⟩ := call_addLike name template g
    · rw [hcall]
      refine iff_of_true hg ?_
      rintro ⟨p, hp, -⟩
      cases hnone.symm.trans hp
    · rw [hcall, hadd]
      refine not_congr ⟨?_, ?_⟩
      · rintro (h | ⟨_, _, hcpu, -⟩)
        · exact ⟨p, hp, h⟩
        · cases hcpu
      · rintro ⟨p', hp', h⟩
        exact .inl (Option.mem_unique hp hp' ▸ h)
  | swap a b => exact consistent_swap hg a b
  | fill name value index part layers inner => exact iff_of_true ((filled g name value index part layers inner).consistent hg) not_false

/-- The plan of the name that it adds, and the array under that name if there was none. -/
def Unfinished (g : DataGrid κ) : GridCall → DataGrid κ → Prop
  | .add name _ _, g' | .addLike name _, g' => ∃ p, g' = { g with plans := g.plans.insert name p } ∨
      ∃ a, g.arrays.get? name = none ∧ g' =
        { g with plans := g.plans.insert name p, arrays := g.arrays.insert name a }
  | .swap .., _ | .fill .., _ => False

theorem call_eq_error {c : GridCall} {e : Failure} (h : (call A c).perform g = (g', .error e)) :
    g' = g ∨ g.Unfinished c g' := by
  have hadd : ∀ {name p places}, (call A (.add name p places)).perform g = (g', .error e) →
    g.Unfinished (.add name p places) g' := by
    intro name p places h
    rw [call_add] at h
    have hadded := added g name p places
    generalize (add name p places).perform g = r at h hadded
    cases hadded with
    | refused e' =>
      obtain ⟨rfl, -⟩ := Prod.mk.inj h
      exact ⟨_, .inl rfl⟩
    | half e' ha hnew =>
      obtain ⟨rfl, -⟩ := Prod.mk.inj h
      exact ⟨_, .inr ⟨_, hnew, rfl⟩⟩
    | bare | whole => cases (Prod.mk.inj h).2
  cases c with
  | add name p places => exact .inr (hadd h)
  | addLike name template =>
    obtain ⟨⟨e, hcall⟩, hnone⟩ | ⟨p, hp, hcall⟩ := call_addLike name template g
    · exact .inl (Prod.mk.inj (h.symm.trans hcall)).1
    · exact .inr (hadd (hcall.symm.trans h))
  | swap a b =>
    obtain ⟨⟨e, hswap⟩, -⟩ | ⟨x, y, -, -, hswap⟩ := swapped g a b
    · exact .inl (Prod.mk.inj (h.symm.trans hswap)).1
    · cases (Prod.mk.inj (h.symm.trans hswap)).2
  | fill name value index part layers inner =>
    obtain ⟨e, hfill⟩ | ⟨a, v, -, -, -, hfill⟩ := @filled κ A g name value index part layers inner
    · exact .inl (Prod.mk.inj (h.symm.trans hfill)).1
    · cases (Prod.mk.inj (h.symm.trans hfill)).2

/-- A call that fails leaves everything as it is, but for the plan, and a new array, of the name
that it adds. -/
theorem consistent_run (A : Algebra) (size : List Int) (periodicity : List Bool) (ghostLayers : Int)
    (layout : String) (cs : List GridCall) :
    let g : DataGrid κ := { size, periodicity, ghostLayers, layout }
    ((∀ done, done <+: cs → (after A g done).Consistent) ↔ ∀ done c, done ++ [c] <+: cs →
      ¬ (after A g done).Breaks c) ∧
      ∀ done c g' e, done ++ [c] <+: cs → (call A c).perform (after A g done) = (g', .error e) →
        g' = after A g done ∨ (after A g done).Unfinished c g' := by
  intro g
  have hstart : g.Consistent := fun name => ⟨fun a ha => (by cases ha), fun f hf => (by cases hf)⟩
  have hsnoc : ∀ done c, after A g (done ++ [c]) = ((call A c).perform (after A g done)).1 :=
    fun done c => by simp [after]
  refine ⟨⟨fun h done c hdone => ?_, fun h done => ?_⟩, fun done c g' e _ h => call_eq_error h⟩
  · exact (consistent_call (h done ((prefix_append done [c]).trans hdone)) c).1
      (hsnoc done c ▸ h _ hdone)
  · induction done using reverseRecOn with
    | nil => exact fun _ => hstart
    | append_singleton done c ih =>
      intro hdone
      rw [hsnoc]
      exact (consistent_call (ih ((prefix_append done [c]).trans hdone)) c).2 (h done c hdone)

/-- A name is added again: the call fails, but its plan says two ghost layers for the array with one
that is there. -/
theorem not_consistent_readded : ¬ (after .bare ({ size := [2, 2], periodicity := [false, false] } :
      DataGrid Unit)
    [.add "f" ⟨1, [], "SoA", .double, none⟩ {},
      .add "f" ⟨2, [], "SoA", .double, none⟩ {}]).Consistent := by
  obtain ⟨a, ha, hstorage⟩ : ∃ a, ({ size := [2, 2], periodicity := [false, false] } :
    DataGrid Unit).blank
      ⟨1, [], "SoA", .double, none⟩ = .ok a ∧ a.storage = ⟨[4, 4], [8, 32]⟩ := ⟨_, rfl, rfl⟩
  have hblank : ∀ t, ({ size := [2, 2], periodicity := [false, false], plans := t } :
    DataGrid Unit).blank ⟨1, [], "SoA", .double, none⟩ = .ok a :=
    fun _ => ha
  have hof : ofStorage "f" ⟨[4, 4], [8, 32]⟩ .double 0 =
      .ok ⟨"f", .generic, .double, [1, 0], [.known 4, .known 4], [.known 1, .known 4], none⟩ :=
        by cbv
  obtain ⟨f, hf⟩ : ∃ f, ofStorage "f" a.storage .double 0 = .ok f := ⟨_, hstorage ▸ hof⟩
  have hfirst : ((add "f" ⟨1, [], "SoA", .double, none⟩ {}).perform
    ({ size := [2, 2], periodicity := [false, false] } : DataGrid Unit)).1 =
      { size := [2, 2], periodicity := [false,
        false], plans := [("f", ⟨1, [], "SoA", .double, none⟩)], arrays := [("f", a)], fields :=
        [("f", f)] } := by
    simp [add, perform_bind, normalValues, Table.get?, Table.insert, Table.alter, hblank, hf]
    rfl
  intro h
  simp only [after, foldl_cons, foldl_nil, call_add, hfirst] at h
  obtain ⟨p, a', hp, ha', hshape, -⟩ := (h "f").fits f rfl
  cases hp
  cases ha'
  rw [hstorage] at hshape
  exact absurd (show ([4, 4] : List Int) = [6, 6] from hshape) (by decide)

end DataGrid

end StencilForge
