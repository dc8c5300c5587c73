import StencilForge.Kernel.Create
import StencilForge.Proofs.Faithful
import StencilForge.Proofs.Names
import StencilForge.Proofs.Descriptions
import StencilForge.Proofs.Sweep

/-!
# Proofs — addresses of elements

The distance of an element from the first one is the sum of its coordinates, each times its
stride.  Groups of coordinates move a pointer (`BasePointer.groups_inner`), and
`Address.access_reached` says that the element of an access is a position behind the last pointer.
-/

open List StencilForge.Outcome

namespace StencilForge

open Layout Expr Model

variable {g order out seen xs : Ints} {count index spatial : Nat} {k : Int} {gs : List Ints}
    {d : Expr}
  {ps : List Address.Place} {P : Expr → Prop} {p : Address.Place}

structure GridField.WellFormed (f : GridField) : Prop where
  layout : f.layout.Perm (ascending f.spatialDimensions)
  spatial : f.spatialDimensions ≤ f.dimensions
  strides : f.strides.length = f.dimensions

/-! ### Groups of coordinates -/

theorem Layout.map_getD_ascending (d : Int) (h : xs.length = count) :
    (ascending count).map (fun j => xs.getD j.toNat d) = xs := by
  subst h
  exact ext_getElem (by simp [ascending]) fun k hk hk' => by simp [ascending, hk']

theorem Layout.ascending_nodup (count : Nat) : (ascending count).Nodup := Nodup.map
    (fun _ _ h => Int.ofNat.inj h) nodup_range

theorem Layout.mem_ascending : k ∈ ascending count ↔ 0 ≤ k ∧ k < count := by
  constructor
  · intro h
    obtain ⟨n, hn, rfl⟩ := mem_map.1 h
    exact ⟨Int.natCast_nonneg n, Int.ofNat_lt.2 (mem_range.1 hn)⟩
  · rintro ⟨h₁, h₂⟩
    exact mem_map.2 ⟨k.toNat, mem_range.2 (by omega), Int.toNat_of_nonneg h₁⟩

theorem Layout.normalize_of_perm (hpos : 0 < count) (h : xs.Perm (ascending count)) :
    normalize xs = .ok xs := by
  have hmin : xs.min? = some 0 := min?_eq_some_iff.2
    ⟨h.mem_iff.2 (mem_ascending.2 (by omega)), fun j hj => (mem_ascending.1 (h.mem_iff.1 hj)).1⟩
  cases xs with
  | nil => cases hmin
  | cons x r =>
    have hleast : r.foldl min x = 0 := Option.some.inj hmin
    simp [normalize, hleast]

namespace BasePointer

/-- Each once and below the number of coordinates. -/
def Admits (count : Nat) (ks : Ints) : Prop := ks.Nodup ∧ ∀ k ∈ ks, k < count

theorem Admits.of_append {ks : Ints} (h : Admits count (seen ++ ks)) : Admits count seen :=
  ⟨h.1.of_append_left, fun k hk => h.2 k (mem_append_left _ hk)⟩

/-- Steps that append what an item stands for, as long as the whole is admitted. -/
theorem foldlM_append {α β γ : Type} {P : List β → Prop} {R : α → γ → Prop} {g : γ → List β}
    {f : List β → α → Outcome (List β)} (hP : ∀ {bs cs}, P (bs ++ cs) → P bs)
    (hf : ∀ {bs a out}, P bs → (f bs a = .ok out ↔ ∃ c, R a c ∧ out = bs ++ g c ∧ P out))
    {as : List α} {bs out : List β}
    (hbs : P bs) : as.foldlM f bs = .ok out ↔ ∃ cs, Forall₂ R as cs ∧ out = bs ++ cs.flatMap g ∧
    P out := by
  induction as generalizing bs with
  | nil =>
    simp only [foldlM_nil, pure_eq_ok, forall₂_nil_left_iff, exists_eq_left, flatMap_nil,
      append_nil]
    exact ⟨fun h => ⟨h.symm, h ▸ hbs⟩, fun h => h.1.symm⟩
  | cons a as ih =>
    simp only [foldlM_cons, bind_eq_ok, hf hbs]
    constructor
    · rintro ⟨_, ⟨c, ha, rfl, hc⟩, h⟩
      obtain ⟨cs, has, rfl, hout⟩ := (ih hc).1 h
      exact ⟨c :: cs, .cons ha has, by simp, hout⟩
    · rintro ⟨_, _ | ⟨ha, has⟩, rfl, hout⟩
      have hc := hP (append_assoc .. ▸ hout)
      exact ⟨_, ⟨_, ha, rfl, hc⟩, (ih hc).2 ⟨_, has, by simp, hout⟩⟩

theorem take_eq_ok (hseen : Admits count seen) :
    take count seen k = .ok out ↔ out = seen ++ [k] ∧ Admits count out := by
  have hadmits : Admits count (seen ++ [k]) ↔ k < count ∧ k ∉ seen := by
    rw [Admits, forall_mem_append, forall_mem_singleton, ← concat_eq_append, nodup_concat]
    exact ⟨fun h => ⟨h.2.2, h.1.1⟩, fun h => ⟨⟨h.2, hseen.1⟩, hseen.2, h.1⟩⟩
  have htake : take count seen k = .ok out ↔ (k < count ∧ k ∉ seen) ∧ seen ++ [k] = out :=
    by simp [take, and_assoc]
  rw [htake, ← hadmits]
  exact ⟨fun h => ⟨h.2.symm, h.2 ▸ h.1⟩, fun h => ⟨h.1 ▸ h.2, h.1.symm⟩⟩

/-- What the items of a group stand for, one behind the other. -/
def Stands (inward : Ints) (spatial : Nat) (items : List Item) (ks : Ints) : Prop :=
  ∃ kss, Forall₂ (fun i ks => coordinates inward spatial i = .ok ks) items kss ∧ ks = kss.flatten

theorem group_eq_ok {inward : Ints} {items : List Item} (hseen : Admits count seen) :
    group inward spatial count seen items = .ok out ↔ ∃ ks, Stands inward spatial items ks ∧
      out = seen ++ ks ∧ Admits count out := by
  rw [group, foldlM_append (R := fun i ks => coordinates inward spatial i = .ok ks)
    (g := id) Admits.of_append ?_ hseen]
  · simp [Stands, flatMap_id]
  · intro seen i out hseen
    refine bind_eq_ok.trans (exists_congr fun ks => and_congr_right fun _ => ?_)
    rw [foldlM_append (R := Eq) (g := ([·])) Admits.of_append
      (fun h => by simp [take_eq_ok h]) hseen]
    simp

theorem groups_eq_ok {description : List (List Item)} :
    groups description order spatial index = .ok gs ↔
    ∃ named, Forall₂ (Stands order.reverse spatial) description named ∧
      Admits (spatial + index) named.flatten ∧
      gs = named ++ [(ascending (spatial + index)).filter (!named.flatten.contains ·)].filter
        (!·.isEmpty) := by
  simp only [groups, bind_eq_ok, pure_eq_ok]
  refine exists_congr fun named => ?_
  rw [foldlM_append (P := fun found : List Ints => Admits (spatial + index) found.flatten)
    (g := ([·]))
    (R := Stands order.reverse spatial) ?_ ?_
    (by simp [Admits] : Admits (spatial + index) ([] : List Ints).flatten)]
  · simp [and_assoc, ascending, eq_comm (b := gs)]
  · intro bs cs h
    rw [flatten_append] at h
    exact h.of_append
  · intro found items out hfound
    simp only [bind_eq_ok, group_eq_ok hfound, pure_eq_ok]
    constructor
    · rintro ⟨_, ⟨ks, hks, rfl, hout⟩, rfl⟩
      exact ⟨ks, hks, by simp, by simpa using hout⟩
    · rintro ⟨ks, hks, rfl, hout⟩
      exact ⟨_, ⟨ks, hks, rfl, by simpa using hout⟩, by simp⟩

theorem perm_rest (hn : seen.Nodup) (hlt : ∀ k ∈ seen, 0 ≤ k ∧ k < count) :
    (seen ++ (ascending count).filter (!seen.contains ·)).Perm (ascending count) := by
  have hasc := ascending_nodup count
  refine (perm_ext_iff_of_nodup (nodup_append.2 ⟨hn, hasc.filter _, ?_⟩) hasc).2 fun k => ?_
  · rintro k hk _ hk' rfl
    simp [hk] at hk'
  · by_cases hk : k ∈ seen
    · simp [hk, mem_ascending, hlt k hk]
    · simp [hk]

theorem flatten_groups (rest : Ints) : (gs ++ [rest].filter (!·.isEmpty)).flatten = gs.flatten ++
    rest := by
  cases rest <;> simp

/-! ### Words for coordinates -/

theorem number_repr (k : Nat) : number k.repr = .ok (k : Int) := by
  have hread : Decimal.readInt k.repr = some (k : Int) :=
    FieldDescription.Spaced.readChars_eq ⟨[], [], nofun, (append_nil _).symm, nofun⟩
  rw [number, hread]
  rfl

theorem entry_eq_ok {n : Nat} {i : Int} : entry xs n = .ok i ↔ xs[n]? = some i := by
  simp only [entry, bind_eq_ok, pure_eq_ok, place_eq_ok_iff (Int.natCast_nonneg n),
    Int.toNat_natCast]
  constructor
  · rintro ⟨_, ⟨rfl, hlt⟩, rfl⟩
    simp [getElem?_eq_getElem hlt]
  · intro h
    exact ⟨n, ⟨rfl, (List.getElem?_eq_some_iff.1 h).1⟩, by simp [h]⟩

/-- Counted from the end, and there from one. -/
theorem entry_reverse {n : Nat} {i : Int} (h : xs[n]? = some i) :
    entry xs.reverse (-(n + 1 : Nat)) = .ok i := by
  have hlt := (List.getElem?_eq_some_iff.1 h).1
  have hplace : place xs.reverse.length (-(n + 1 : Nat)) = .ok (xs.length - 1 - n) := by
    rw [place, if_pos (by omega : (-(n + 1 : Nat) : Int) < 0), length_reverse,
      if_pos (by simp; omega)]
    congr 1
    omega
  refine bind_eq_ok.2 ⟨_, hplace, ?_⟩
  rw [pure_eq_ok, getD_eq_getElem?_getD, getElem?_reverse (by omega),
    show xs.length - 1 - (xs.length - 1 - n) = n by omega, h]
  rfl

theorem coordinates_word (inward : Ints) (spatial k : Nat) :
    coordinates inward spatial (.word ("spatialInner" ++ k.repr)) =
      (entry inward k >>= fun i => .ok [i]) ∧
      coordinates inward spatial (.word ("spatialOuter" ++ k.repr)) =
        (entry inward (-k) >>= fun i => .ok [i]) ∧
      coordinates inward spatial (.word ("index" ++ k.repr)) = .ok [spatial + k] := by
  have hnumber := number_repr k
  generalize k.repr = w at hnumber ⊢
  simp [coordinates, after?, isPrefixOf?, hnumber]
  exact ⟨rfl, rfl⟩

/-- What an item stands for.  Loops are counted from the inside, or from the outside, there from
one. -/
inductive Names (order : Ints) (spatial : Nat) : Item → Ints → Prop
  | coordinate (k : Int) : Names order spatial (.coordinate k) [k]
  | inner {k : Nat} {i : Int} (h : order.reverse[k]? = some i) :
    Names order spatial (.word ("spatialInner" ++ k.repr)) [i]
  | innermost {i : Int} (h : order.getLast? = some i) : Names order spatial (.word "spatialOuter0")
    [i]
  | outer {k : Nat} {i : Int} (h : order[k]? = some i) :
    Names order spatial (.word ("spatialOuter" ++ (k + 1).repr)) [i]
  | all : Names order spatial (.word "spatialall") (ascending spatial)
  | index (k : Nat) : Names order spatial (.word ("index" ++ k.repr)) [spatial + k]

theorem Names.coordinates {i : Item} {ks : Ints} (h : Names order spatial i ks) :
    BasePointer.coordinates order.reverse spatial i = .ok ks := by
  have hword := coordinates_word order.reverse spatial
  cases h with
  | coordinate | all => rfl
  | @inner k i h => exact (hword k).1.trans (bind_eq_ok.2 ⟨i, entry_eq_ok.2 h, rfl⟩)
  | @innermost i h =>
    rw [← head?_reverse, head?_eq_getElem?] at h
    exact (hword 0).2.1.trans (bind_eq_ok.2 ⟨i, entry_eq_ok.2 h, rfl⟩)
  | @outer k i h => exact (hword (k + 1)).2.1.trans (bind_eq_ok.2 ⟨i, entry_reverse h, rfl⟩)
  | index k => exact (hword k).2.2

/-- Groups of coordinates that are asked for by name come first, as they were asked for, and one group
with the rest follows: every coordinate is in one group. -/
theorem groups_partition {description : List (List Item)} {named : List (List Int)}
    (h : Forall₂ (fun items ks => ∃ kss, Forall₂ (Names order spatial) items kss ∧
      ks = kss.flatten) description named)
    (honce : named.flatten.Nodup) (hexist : ∀ k ∈ named.flatten, 0 ≤ k ∧
      k < (spatial + index : Nat)) :
    ∃ rest, groups description order spatial index = .ok (named ++ rest) ∧ rest.length ≤ 1 ∧
      (named ++ rest).flatten.Perm (ascending (spatial + index)) := by
  refine ⟨_, groups_eq_ok.2 ⟨named, h.imp fun items ks => ?_, ⟨honce, fun k hk => (hexist k hk).2⟩,
    rfl⟩, length_filter_le .., ?_⟩
  · rintro ⟨kss, hkss, rfl⟩
    exact ⟨kss, hkss.imp fun _ _ => Names.coordinates, rfl⟩
  · rw [flatten_groups]
    exact perm_rest honce hexist

/-- The outermost of three coordinates. -/
theorem groups_partition_outer : ∃ rest, groups [[.word "spatialOuter1"]]
    [2, 1, 0] 3 0 = .ok ([[2]] ++ rest) ∧
    rest.length ≤ 1 ∧ ([[2]] ++ rest).flatten.Perm (ascending (3 + 0)) :=
  groups_partition (.cons ⟨[[2]], .cons (.outer (k := 0) rfl) .nil, rfl⟩ .nil) (by decide)
    (by decide)

/-- The innermost coordinate alone, every coordinate in one group, and none empty. -/
theorem groups_inner (horder : ∀ k ∈ order, 0 ≤ k)
    (h : groups (if order.length ≥ 2 then [[.word "spatialInner0"],
      [.word "spatialInner1"]] else [[.word "spatialInner0"]])
      order spatial index = .ok gs) :
    ∃ k rest, order.getLast? = some k ∧ gs = [k] :: rest ∧
      gs.flatten.Perm (ascending (spatial + index)) ∧
      ∀ g ∈ gs, g ≠ [] := by
  have hinner : ∀ {n : Nat} {ks}, Stands order.reverse spatial
    [.word ("spatialInner" ++ n.repr)] ks →
      ∃ k, order.reverse[n]? = some k ∧ ks = [k] := by
    rintro n _ ⟨_, _ | ⟨hk, _ | _⟩, rfl⟩
    rw [(coordinates_word ..).1] at hk
    obtain ⟨k, hentry, hk⟩ := bind_eq_ok.1 hk
    obtain rfl := Except.ok.inj hk
    exact ⟨k, entry_eq_ok.1 hentry, rfl⟩
  obtain ⟨named, hnamed, ⟨honce, hlt⟩, rfl⟩ := groups_eq_ok.1 h
  obtain ⟨k, rest, hk, rfl, hsingle⟩ : ∃ k rest, order.reverse[0]? = some k ∧ named = [k] :: rest ∧
    ∀ g ∈ named, ∃ k ∈ order, g = [k] := by
    have hmem : ∀ {n : Nat} {k}, order.reverse[n]? = some k → k ∈ order :=
      fun h => mem_reverse.1 (mem_of_getElem? h)
    split at hnamed
    · obtain _ | ⟨h0, _ | ⟨h1, _ | _⟩⟩ := hnamed
      obtain ⟨k, hk, rfl⟩ := hinner (n := 0) h0
      obtain ⟨j, hj, rfl⟩ := hinner (n := 1) h1
      exact ⟨k, _, hk, rfl, by simp [hmem hk, hmem hj]⟩
    · obtain _ | ⟨h0, _ | _⟩ := hnamed
      obtain ⟨k, hk, rfl⟩ := hinner (n := 0) h0
      exact ⟨k, _, hk, rfl, by simp [hmem hk]⟩
  refine ⟨k, _, by rw [← head?_reverse, head?_eq_getElem?, hk], rfl, ?_, forall_mem_append.2 ⟨fun g hg => ?_, by simp⟩⟩
  · rw [flatten_groups]
    refine perm_rest honce fun i hi => ⟨?_, hlt i hi⟩
    obtain ⟨g, hg, hi⟩ := mem_flatten.1 hi
    obtain ⟨j, hj, rfl⟩ := hsingle g hg
    exact mem_singleton.1 hi ▸ horder j hj
  · obtain ⟨j, -, rfl⟩ := hsingle g hg
    simp

end BasePointer

/-! ### Distances -/

variable {V : Type} {M : Model V} {ν : Extent → Int} {c : Ints} {w : View V} {f : GridField}

def Extent.value (ν : Extent → Int) : Extent → Int
  | .known n => n
  | x => ν x

namespace GridField

def strideAt (f : GridField) (k : Int) : Extent := f.strides.getD k.toNat (.known 0)

def distance (ν : Extent → Int) (f : GridField) (xs : Ints) : Int :=
  (zipWith (fun x i => x.value ν * i) f.strides xs).sum

/-- The part of a distance that some coordinates account for. -/
def partialDistance (ν : Extent → Int) (f : GridField) (xs : Ints) (ks : Ints) : Int :=
  (ks.map fun k => (f.strideAt k).value ν * xs.getD k.toNat 0).sum

theorem partialDistance_append (ν : Extent → Int) (f : GridField) (xs ks js : Ints) :
    f.partialDistance ν xs (ks ++ js) = f.partialDistance ν xs ks + f.partialDistance ν xs js := by
  simp [partialDistance]

theorem partialDistance_of_perm {ks : Ints} (hxs : xs.length = f.strides.length)
    (hks : ks.Perm (ascending f.strides.length)) : f.partialDistance ν xs ks = f.distance ν xs := by
  have hlist : (ascending f.strides.length).map
    (fun k => (f.strideAt k).value ν * xs.getD k.toNat 0) =
      zipWith (fun x i => x.value ν * i) f.strides xs := by
    refine ext_getElem (by simp [ascending, hxs]) fun n hn _ => ?_
    have hn : n < f.strides.length := by simpa [ascending] using hn
    simp [ascending, strideAt, hn, hxs]
  rw [partialDistance, (hks.map _).sum_eq, hlist, distance]

end GridField

/-- The strides of a field and the counters of a cell have their values. -/
structure View.Stands (M : Model V) (ν : Extent → Int) (f : GridField) (cell : Ints) (w : View V) :
    Prop where
  stride : ∀ x ∈ f.strides, ∀ s, Symbol.ofExtent x = some s → w.symbol s = some (M.int (ν x))
  counter : ∀ (k : Nat) i, cell[k]? = some i → w.symbol (Counter.symbol k) = some (M.int i)

theorem Model.eval_extent {x : Extent}
    (h : ∀ s, Symbol.ofExtent x = some s → w.symbol s = some (M.int (ν x))) :
    M.eval w (.ofExtent x) = some (M.int (x.value ν)) := by
  cases x with
  | known n => exact M.eval_int w n
  | shape fs k => exact h _ rfl
  | stride f k => exact h _ rfl

theorem View.Stands.eval_stride
    (hw : w.Stands M ν f c) (k : Int) : M.eval w
    (.ofExtent (f.strideAt k)) = some (M.int ((f.strideAt k).value ν)) := by
  refine eval_extent fun s hs => ?_
  unfold GridField.strideAt at hs ⊢
  rw [getD_eq_getElem?_getD]
  cases hx : f.strides[k.toNat]? with
  | none => simp [hx, Symbol.ofExtent] at hs
  | some x => exact hw.stride x (mem_of_getElem? hx) s (by simpa [hx] using hs)

namespace Address

variable {A : Algebra} {H : Head → Prop} {es : Exprs} {ns os is : Ints} {plan : Plan} {a : Expr}

/-! ### Places along coordinates -/

theorem terms_value (hS : A.Sound M H) (hH : Operations H) {s : Expr} {m n : Int} {ts : Ints}
    (hd : M.eval w d = some (M.int m)) (hs : M.eval w s = some (M.int n))
    (hes : Forall₂ (fun e t => M.eval w e = some (M.int t)) es ts) :
    M.eval w (es.foldl (fun d t => A.add2 d (A.mul2 s t.ofPosition)) d) =
      some (M.int (m + n * ts.sum)) := by
  induction hes generalizing d m with
  | nil => simpa using hd
  | @cons e t es ts he _ ih =>
    have hmul : M.eval w (A.mul2 s e.ofPosition) = some (M.int (n * t)) :=
      hS.mul_ints hH hs (by rw [eval_ofPosition, he])
    have := ih (hS.add_ints hH hd hmul)
    rwa [sum_cons, mul_add, ← add_assoc]

theorem describe_value (hS : A.Sound M H) (hH : Operations H) (hw : w.Stands M ν f c)
    (hps : ∀ p ∈ ps, ∃ ts : Ints, Forall₂ (fun e t => M.eval w e = some (M.int t)) p.terms ts ∧
      ts.sum = xs.getD p.coord.toNat 0) :
    M.eval w (describe A f ps).2 = some (M.int (f.partialDistance ν xs (ps.map (·.coord)))) := by
  suffices ∀ d m, M.eval w d = some (M.int m) → M.eval w (ps.foldl (fun d p =>
      p.terms.foldl (fun d t => A.add2 d (A.mul2 (.ofExtent (f.strideAt p.coord)) t.ofPosition)) d)
        d) =
        some (M.int (m + f.partialDistance ν xs (ps.map (·.coord)))) by
    have := this .zero 0 (M.eval_int w 0)
    rwa [zero_add] at this
  induction ps with
  | nil => simp [GridField.partialDistance]
  | cons p ps ih =>
    intro d m hd
    obtain ⟨ts, hts, hsum⟩ := hps p mem_cons_self
    have hp := terms_value hS hH hd (hw.eval_stride p.coord) hts
    have := ih (forall_mem_cons.1 hps).2 _ _ hp
    rw [hsum, add_assoc] at this
    simpa [GridField.partialDistance] using this

theorem describe_over (hC : A.Closed H) (hH : Operations H)
    (hstride : ∀ x s, Symbol.ofExtent x = some s → P (.sym s))
    (hterm : ∀ p ∈ ps, ∀ e ∈ p.terms, Over H P e) :
    Over H P (describe A f ps).2 := by
  have hext : ∀ x : Extent, Over H P (.ofExtent x) := by
    intro x
    cases x with
    | known n => exact .int n
    | shape fs k => exact .sym (hstride (.shape fs k) _ rfl)
    | stride f k => exact .sym (hstride (.stride f k) _ rfl)
  have hadd : ∀ {a b}, Over H P a → Over H P b → Over H P (A.add2 a b) := fun ha hb =>
    hC.add hH (by simpa using ⟨ha, hb⟩)
  have hmul : ∀ {a b}, Over H P a → Over H P b → Over H P (A.mul2 a b) := fun ha hb =>
    hC.mul hH (by simpa using ⟨ha, hb⟩)
  refine foldlRecOn ps _ (.int 0) fun d hd p hp => ?_
  exact foldlRecOn p.terms _ hd fun d hd e he => hadd hd
    (hmul (hext _) (hterm p hp e he).ofPosition)

/-- A plain access: integers for its offsets and its index. -/
structure IsElement (f : GridField) (os is : Ints) (a : Expr) : Prop where
  relative : a.isAbsolute = false
  offsets : positions? a.offsets = some os
  index : positions? a.index = some is
  spatial : os.length = f.spatialDimensions
  indexed : is.length = f.indexDimensions

theorem place_eq_ok (hfixed : plan.fixed = []) (hf : f.dtype.isBasic = true)
    (ha : a.isAbsolute = false) (h : place A plan f a k = .ok p) :
    p.coord = k ∧ (p.terms = if k < f.spatialDimensions then
        [A.mul2 (.sym (Counter.symbol k)) (.int 1), a.offsets.getD k.toNat (.lit 0)]
      else [a.index.getD (k.toNat - f.spatialDimensions) (.lit 0)]) ∧
      p.shown = if k < f.spatialDimensions then a.offsets.getD k.toNat (.lit 0)
        else a.index.getD (k.toNat - f.spatialDimensions) (.lit 0) := by
  obtain ⟨s, b, hdt⟩ : ∃ s b, f.dtype = .basic s b := by
    cases hdt : f.dtype <;> simp [hdt, DataType.isBasic] at hf
    exact ⟨_, _, rfl⟩
  simp only [place, hdt] at h
  split at h
  · next hlt =>
    obtain rfl := pure_eq_ok.1 h
    simp [hlt, spatialValue, ha, hfixed, hdt, DataType.itemSize, Table.get?]
  · next hlt =>
    obtain rfl := pure_eq_ok.1 h
    simp [hlt]

theorem int?_getD (h : positions? es = some ns) (k : Nat) :
    int? (es.getD k (.lit 0)) = some (ns.getD k 0) := by
  replace h := mapM_eq_some.1 h
  induction h generalizing k with
  | nil => rfl
  | cons he _ ih =>
    cases k with
    | zero => exact he
    | succ k => simpa using ih k

theorem over_getD (h : positions? es = some ns) (k : Nat) : Over H P (es.getD k (.lit 0)) := by
  have he := int?_getD h k
  generalize es.getD k (.lit 0) = e at he
  cases e with
  | atom a => exact .atom fun s hs => by simp [hs, int?] at he
  | node h as => cases he

/-- The coordinates of an element seen from a cell. -/
def coordinatesOf (c os is : Ints) : Ints := zipWith (· + ·) c os ++ is

theorem advance_eq_ok {p q : Symbol} (h : advance A plan f a g p = .ok (q, d)) :
    ∃ ps, Forall₂ (fun k p => place A plan f a k = .ok p) g ps ∧ d = (describe A f ps).2 ∧
      q = .typed (p.name ++ (describe A f ps).1) (p.dtype?.getD .double) := by
  obtain ⟨ps, hps, hq⟩ := bind_eq_ok.1 h
  obtain ⟨rfl, rfl⟩ := Prod.mk.inj (pure_eq_ok.1 hq)
  exact ⟨ps, mapM_eq_ok.1 hps, rfl, rfl⟩

section Element

variable (hfixed : plan.fixed = []) (hf : f.dtype.isBasic = true) (ha : IsElement f os is a)

include hfixed hf ha

theorem place_value (hS : A.Sound M H) (hH : Operations H) (hw : w.Stands M ν f c)
    (hc : c.length = f.spatialDimensions)
    (hk : 0 ≤ k) (h : place A plan f a k = .ok p) :
    ∃ ts : Ints, Forall₂ (fun e t => M.eval w e = some (M.int t)) p.terms ts ∧
      ts.sum = (coordinatesOf c os is).getD p.coord.toNat 0 := by
  obtain ⟨hcoord, hterms, -⟩ := place_eq_ok hfixed hf ha.relative h
  have hlen : (zipWith (· + ·) c os).length = f.spatialDimensions := by simp [hc, ha.spatial]
  rw [hcoord, hterms, coordinatesOf]
  split
  · next hlt =>
    have hlt : k.toNat < f.spatialDimensions := by omega
    have hcount : M.eval w (.sym (Counter.symbol k)) = some (M.int (c.getD k.toNat 0)) := by
      have := hw.counter k.toNat (c.getD k.toNat 0) (by simp [hc, hlt])
      rwa [Int.toNat_of_nonneg hk] at this
    refine ⟨[c.getD k.toNat 0 * 1, os.getD k.toNat 0],
      .cons (hS.mul_ints hH hcount (M.eval_int w 1))
        (.cons (M.eval_of_int? w (int?_getD ha.offsets _)) .nil), ?_⟩
    have hos := ha.spatial
    simp [getElem?_append_left, hlt, hc, hos]
  · next hlt =>
    refine ⟨[is.getD (k.toNat - f.spatialDimensions) 0],
      .cons (M.eval_of_int? w (int?_getD ha.index _)) .nil, ?_⟩
    have hge : (zipWith (· + ·) c os).length ≤ k.toNat := by omega
    simp only [getD_eq_getElem?_getD, getElem?_append_right hge, hlen]
    simp

theorem place_over (hC : A.Closed H) (hH : Operations H)
    (hcount : P (.sym (Counter.symbol k))) (h : place A plan f a k = .ok p) :
    ∀ e ∈ p.terms, Over H P e := by
  obtain ⟨-, hterms, -⟩ := place_eq_ok hfixed hf ha.relative h
  rw [hterms]
  split
  · simp only [mem_cons, not_mem_nil, or_false]
    rintro e (rfl | rfl)
    · exact hC.mul hH (forall_mem_cons.2 ⟨.sym hcount, forall_mem_singleton.2 (.int 1)⟩)
    · exact over_getD ha.offsets _
  · simp only [mem_cons, not_mem_nil, or_false]
    rintro e rfl
    exact over_getD ha.index _

end Element

def IsMeasure (e : Expr) : Prop := ∃ s, e = .sym s ∧
    ((∃ x, Symbol.ofExtent x = some s) ∨ ∃ k, s = Counter.symbol k)

/-- The distance that some coordinates of an element account for, as an expression. -/
structure IsDistance (M : Model V) (H : Head → Prop) (f : GridField) (os is : Ints) (g : Ints)
    (d : Expr) : Prop where
  value : ∀ {ν c w}, View.Stands M ν f c w → c.length = f.spatialDimensions →
    M.eval w d = some (M.int (f.partialDistance ν (coordinatesOf c os is) g))
  measures : Over H IsMeasure d

/-- The positions of an access are plain integers. -/
def IsLiteral (a : Expr) : Prop := ∀ e ∈ a.offsets ++ a.index, ∃ n, e = .lit n

/-- What the name gets, and the distance. -/
structure IsStep (M : Model V) (H : Head → Prop) (f : GridField) (a : Expr) (os is g : Ints)
    (s : String) (d : Expr) : Prop
    extends IsDistance M H f os is g d where
  name : IsLiteral a → s.toList = suffix (os ++ is) g

/-- For each group of coordinates a pointer is moved by its distance. -/
inductive Reached (A : Algebra) (D : Ints → String → Expr → Prop) (first : Symbol) :
    List Ints → Symbol → Definitions → Prop where
  | start : Reached A D first [] first []
  | step {gs : List Ints} {g : Ints} {p : Symbol} {ds : Definitions} {s : String} {d : Expr}
      (hp : Reached A D first gs p ds) (hd : D g s d) :
      Reached A D first (gs ++ [g]) (.typed (p.name ++ s) (p.dtype?.getD .double))
        (ds ++ [(.sym (.typed (p.name ++ s) (p.dtype?.getD .double)), A.add2 (.sym p) d)])

section Element

variable (hfixed : plan.fixed = []) (hf : f.dtype.isBasic = true) (ha : IsElement f os is a)

include hfixed hf ha

/-- The name shows the integers along the coordinates. -/
theorem describe_name (hlit : IsLiteral a) (hg : ∀ k ∈ g, 0 ≤ k)
    (hps : Forall₂ (fun k p => place A plan f a k = .ok p) g ps) :
    (describe A f ps).1.toList = suffix (os ++ is) g := by
  have shown : ∀ {es : Exprs} {ns : Ints}, positions? es = some ns → (∀ e ∈ es, ∃ n, e = .lit n) →
      ∀ k, es.getD k (.lit 0) = .lit (ns.getD k 0) := by
    intro es ns h hes k
    have he := int?_getD h k
    obtain ⟨m, hm⟩ : ∃ m, es.getD k (.lit 0) = .lit m := by
      rcases lt_or_ge k es.length with hk | hk
      · exact getD_eq_getElem _ _ hk ▸ hes _ (getElem_mem hk)
      · exact ⟨0, getD_eq_default _ _ hk⟩
    rw [hm] at he ⊢
    exact congrArg lit (Option.some.inj he)
  have hshown : ∀ k p, 0 ≤ k → place A plan f a k = .ok p → p.coord = k ∧
    p.shown = .lit ((os ++ is).getD k.toNat 0) := by
    intro k p hk hp
    obtain ⟨hcoord, -, hp⟩ := place_eq_ok hfixed hf ha.relative hp
    refine ⟨hcoord, hp.trans ?_⟩
    have hos := ha.spatial
    split
    · next hlt =>
      rw [shown ha.offsets fun e he => hlit e (mem_append_left _ he)]
      have hlt : k.toNat < os.length := by omega
      simp [getElem?_append_left hlt]
    · next hlt =>
      rw [shown ha.index fun e he => hlit e (mem_append_right _ he)]
      have hge : os.length ≤ k.toNat := by omega
      simp [getElem?_append_right hge, hos]
  -- every position is known, so none is left for the digest
  have hopen : ∀ p ∈ ps, ∃ n, p.shown = .lit n := by
    intro p hp
    obtain ⟨k, hk, hp⟩ := exists_of_forall₂ hps hp
    exact ⟨_, (hshown k p (hg k hk) hp).2⟩
  unfold describe
  dsimp only
  rw [if_pos (isEmpty_iff.2 (filterMap_eq_nil_iff.2 fun p hp => by
    obtain ⟨n, hn⟩ := hopen p hp
    rw [hn])), String.append_empty, String.toList_join]
  clear hopen
  induction hps with
  | nil => rfl
  | @cons k p g ps hp _ ih =>
    obtain ⟨hcoord, hp⟩ := hshown k p (hg k mem_cons_self) hp
    rw [filterMap_cons, hp, hcoord]
    exact congrArg _ (ih (forall_mem_cons.1 hg).2)

variable (hS : A.Sound M H) (hC : A.Closed H) (hH : Operations H)

include hS hC hH

theorem advance_step {p q : Symbol} (hg : ∀ k ∈ g, 0 ≤ k)
    (h : advance A plan f a g p = .ok (q, d)) :
    ∃ s, IsStep M H f a os is g s d ∧ q = .typed (p.name ++ s) (p.dtype?.getD .double) := by
  obtain ⟨ps, hps, rfl, rfl⟩ := advance_eq_ok h
  have hcoord : ps.map (·.coord) = g := by
    clear h
    induction hps with
    | nil => rfl
    | cons hp _ ih => rw [map_cons, (place_eq_ok hfixed hf ha.relative hp).1,
      ih (forall_mem_cons.1 hg).2]
  have hmem : ∀ p ∈ ps, ∃ k ∈ g, place A plan f a k = .ok p := fun p hp => exists_of_forall₂ hps hp
  refine ⟨_, ⟨⟨fun {ν c w} hw hc => ?_, ?_⟩, fun hlit => describe_name hfixed hf ha hlit hg hps⟩,
    rfl⟩
  · rw [← hcoord]
    refine describe_value hS hH hw fun p hp => ?_
    obtain ⟨k, hk, h⟩ := hmem p hp
    exact place_value hfixed hf ha hS hH hw hc (hg k hk) h
  · refine describe_over hC hH (fun x s hs => ⟨s, rfl, .inl ⟨x, hs⟩⟩) fun p hp => ?_
    obtain ⟨k, -, h⟩ := hmem p hp
    exact place_over hfixed hf ha hC hH ⟨_, rfl, .inr ⟨k, rfl⟩⟩ h

theorem access_reached (hg : ∀ g ∈ groupsOf plan f, ∀ k ∈ g, 0 ≤ k) {e : Expr} {ds : Definitions}
    (h : access A plan f a = .ok (e, ds)) :
    ∃ last position, e = .node (.resolved f a.offsets.length)
      (.sym last :: position :: (a.offsets ++ a.index)) ∧
      Reached A (IsStep M H f a os is) (fieldPointer plan.readOnly f)
        ((groupsOf plan f).drop 1).reverse last ds ∧
      IsDistance M H f os is ((groupsOf plan f).headD []) position := by
  obtain ⟨⟨last, defs⟩, hfold, h⟩ := bind_eq_ok.1 h
  obtain ⟨⟨q, position⟩, hpos, h⟩ := bind_eq_ok.1 h
  have hplain : e = .node (.resolved f a.offsets.length)
    (.sym last :: position :: (a.offsets ++ a.index)) ∧ defs = ds := by
    dsimp only at h
    split at h
    · next hdt _ => simp [hdt, DataType.isBasic] at hf
    · obtain ⟨rfl, rfl⟩ := Prod.mk.inj (pure_eq_ok.1 h)
      exact ⟨rfl, rfl⟩
  obtain ⟨rfl, rfl⟩ := hplain
  have hhead : ∀ k ∈ (groupsOf plan f).headD [], 0 ≤ k := by
    cases hgs : groupsOf plan f with
    | nil => simp
    | cons g gs => exact hg g (hgs ▸ mem_cons_self)
  obtain ⟨_, hposition, -⟩ := advance_step hfixed hf ha hS hC hH hhead hpos
  refine ⟨last, position, rfl, ?_, hposition.toIsDistance⟩
  refine foldlM_induction (P := fun gs s =>
    Reached A (IsStep M H f a os is) (fieldPointer plan.readOnly f) gs s.1 s.2) hfold .start ?_
  rintro gs g ⟨p, ds⟩ out hp hstep hmem
  obtain ⟨⟨q, d⟩, hadv, hout⟩ := bind_eq_ok.1 hstep
  obtain rfl := pure_eq_ok.1 hout
  have hg' : ∀ k ∈ g, 0 ≤ k := hg g (mem_of_mem_drop (mem_reverse.1 hmem))
  obtain ⟨s, hd, rfl⟩ := advance_step hfixed hf ha hS hC hH hg' hadv
  exact .step hp hd

end Element

end Address

end StencilForge
