import StencilForge.Proofs.Launches
import StencilForge.Proofs.Places

/-!
# Proofs — lines of threads

A block of threads is one line of cells along the coordinate that runs fastest in memory; the other
coordinates are those of the block.  For each cell of a region there is one thread, and for each
thread a cell (`Threads.lines_bijective`): the coordinates are found from the indices, and the
extents of blocks from the coordinates, by the same exchange (`Threads.lines_launch`).
-/

open StencilForge.Expr (plus minus)
open List StencilForge.Outcome

namespace StencilForge

theorem Outcome.exists_mapM {α β γ : Type} {as : List α} {R : α → γ → Prop} {Q : β → γ → Prop}
    {f : α → Outcome β} {cs : List γ}
    (h : Forall₂ R as cs) (hf : ∀ a c, R a c → ∃ b, f a = .ok b ∧ Q b c) :
    ∃ bs, as.mapM f = .ok bs ∧ Forall₂ Q bs cs := by
  induction h with
  | nil => exact ⟨[], rfl, .nil⟩
  | cons hac _ ih =>
    obtain ⟨b, hb, hq⟩ := hf _ _ hac
    obtain ⟨bs, hbs, hqs⟩ := ih
    exact ⟨b :: bs, by rw [mapM_cons, hb, hbs]; rfl, .cons hq hqs⟩

open Machine

variable {V : Type} {M : Model V} {A : Algebra} {ν : Extent → Int} {x : Extent} {a b : Int}

/-! ### Slices -/

namespace Slice

/-- The bounds of a slice along an extent are such places. -/
inductive Cut (ν : Extent → Int) (x : Extent) : Normal → Int × Int → Prop where
  | range {start stop : Expr} {a b : Int} (ha : 0 ≤ a) (hab : a < b) (hstart : Counted ν x start a)
    (hstop : Counted ν x stop b) :
      Cut ν x (.range start stop (.lit 1)) (a, b)
  | point {a : Int} (ha : 0 ≤ a) : Cut ν x (.point (.lit a)) (a, a + 1)

theorem counted_bound (x : Extent) : Counted ν x (Domain.bound x) (x.value ν) := by
  cases x with
  | known n => exact counted_lit n
  | shape fs k | stride f k => exact .inr ⟨_, 0, rfl, rfl, (add_zero _).symm⟩

theorem counted_normalize (hA : A.Collects) (n : Int) :
    ∃ e, (Bound.at (.lit n)).normalize A (Domain.bound x) = .ok e ∧
      Counted ν x e (placeOf (x.value ν) n) := by
  unfold placeOf
  by_cases hn : n < 0
  · rw [if_pos hn, Bound.normalize, if_pos hn]
    refine ⟨_, rfl, ?_⟩
    cases x with
    | known m => exact counted_lit (m + n)
    | shape fs k | stride f k => exact .inr ⟨_, n, rfl, hA.add _ n, rfl⟩
  · rw [if_neg hn, Bound.normalize, if_neg hn]
    exact ⟨_, rfl, counted_lit n⟩

theorem counted_end (hA : A.Collects) (o : Option Int) {d : Expr} {v : Int} (hd : Counted ν x d v) :
    ∃ e, o.elim (pure d) (fun n => (Bound.at (.lit n)).normalize A (Domain.bound x)) = .ok e ∧
      Counted ν x e (o.elim v (placeOf (x.value ν))) := by
  cases o with
  | none => exact ⟨d, rfl, hd⟩
  | some n => exact counted_normalize hA n

theorem normalizeOne_cut (hA : A.Collects) {s : Slice} (h : Selects (x.value ν) s a b) (ha : 0 ≤ a)
    (hab : a < b) (hx : Placed x s) :
    ∃ n, normalizeOne A (Domain.bound x) s = .ok n ∧ Cut ν x n (a, b) := by
  cases h with
  | point n =>
    by_cases hn : n < 0
    · obtain ⟨m, rfl⟩ := Or.resolve_left hx (by omega)
      rw [placeOf, if_pos hn] at ha ⊢
      exact ⟨_, by rw [normalizeOne, Bound.normalize, if_pos hn]; rfl, .point ha⟩
    · rw [placeOf, if_neg hn] at ha ⊢
      exact ⟨_, by rw [normalizeOne, Bound.normalize, if_neg hn]; rfl, .point ha⟩
  | @range a b step hstep =>
    obtain ⟨start, hstart, hplace⟩ := counted_end hA a (counted_lit (ν := ν) (x := x) 0)
    obtain ⟨stop, hstop, hend⟩ := counted_end hA b (counted_bound (ν := ν) x)
    obtain ⟨c, rfl, hc⟩ : ∃ c : Option Int, step = c.map (fun n => .at (.lit n)) ∧
      c.getD 1 = 1 := by
      rcases hstep with rfl | rfl
      · exact ⟨none, rfl, rfl⟩
      · exact ⟨some 1, rfl, rfl⟩
    exact ⟨_, by rw [normalizeOne_range, hstart, hstop, hc]; rfl, .range ha hab hplace hend⟩

/-- The slices of an array, extent by extent. -/
def CutAll (ν : Extent → Int) (xs : List Extent) (ns : List Normal) (ps : List (Int × Int)) :
    Prop :=
  Forall₂ (fun n q => Cut ν q.1 n q.2) ns (xs.zip ps)

theorem normalize_cut (hA : A.Collects) {xs : List Extent} {shape : Ints} {ss : Slices}
    {ps : List (Int × Int)}
    (hshape : xs.map (Extent.value ν) = shape) (h : SelectsAll ss shape ps)
    (hplaced : Forall₂ Placed xs ss) :
    ∃ ns, normalize A ss (xs.map Domain.bound) = .ok ns ∧ CutAll ν xs ns ps := by
  have hlen : ss.length = (xs.map Domain.bound).length := by rw [length_map, hplaced.length_eq]
  suffices ∃ ns, (ss.zip (xs.map Domain.bound)).mapM (fun p => normalizeOne A p.2 p.1) = .ok ns ∧
    CutAll ν xs ns ps by
    obtain ⟨ns, hns, hall⟩ := this
    exact ⟨ns, by rw [normalize, if_neg (by simp [hlen])]; exact hns, hall⟩
  clear hlen
  induction h generalizing xs with
  | nil =>
    obtain rfl := map_eq_nil_iff.1 hshape
    exact ⟨[], rfl, .nil⟩
  | cons h ha hab _ ih =>
    cases hplaced with
    | cons hx hxs =>
      obtain ⟨rfl, htail⟩ := cons.inj hshape
      obtain ⟨n, hn, hcut⟩ := normalizeOne_cut hA h ha hab hx
      obtain ⟨ns, hns, hcuts⟩ := ih htail hxs
      refine ⟨n :: ns, ?_, .cons hcut hcuts⟩
      rw [map_cons, zip_cons_cons, mapM_cons, hn, hns]
      rfl

/-- What is counted from the start stays, on any shape. -/
theorem Cut.normalizeOne_toSlice {n : Normal} {p : Int × Int} (h : Cut ν x n p) (size : Expr) :
    normalizeOne A size n.toSlice = .ok n := by
  have hself : ∀ {e a}, Counted ν x e a → 0 ≤ a → (Bound.at e).normalize A size = .ok e := by
    intro e a he ha
    obtain rfl | ⟨y, n, -, rfl, -⟩ := he
    · rw [Bound.normalize, if_neg (by omega)]
    · unfold plus
      split <;> rfl
  cases h with
  | @range start stop a b ha hab hstart hstop =>
    change (do
      let start ← (Bound.at start).normalize A size
      let stop ← (Bound.at stop).normalize A size
      return Normal.range start stop (.lit 1)) = _
    rw [hself hstart ha, hself hstop (by omega)]
    rfl
  | point ha =>
    rw [Normal.toSlice, normalizeOne, hself (counted_lit _) ha]
    rfl

end Slice

namespace Threads

open Slice

variable {xs : List Extent} {ns : List Normal} {ps : List (Int × Int)} {s : State V}
variable {f : GridField} {m : Nat} {ws : Exprs}

theorem starts_cut (h : CutAll ν xs ns ps) :
    ∃ os, starts ns = .ok os ∧ Forall₂ (fun o q => Counted ν q.1 o q.2.1) os (xs.zip ps) := by
  refine exists_mapM h fun n q hq => ?_
  generalize q.2 = p at hq
  cases hq with
  | range _ _ hstart => exact ⟨_, rfl, hstart⟩
  | point => exact ⟨_, rfl, counted_lit _⟩

theorem stops_cut (h : CutAll ν xs ns ps) {sizes : Exprs} (hsizes : sizes.length = ns.length) :
    ∃ es, stops A ns sizes = .ok es ∧ Forall₂ (fun e q => Counted ν q.1 e q.2.2) es
      (xs.zip ps) := by
  have hsame : normalize A (ns.map (·.toSlice)) sizes = .ok ns := by
    rw [Slice.normalize, if_neg (by simp [hsizes])]
    refine mapM_eq_ok.2 ?_
    unfold CutAll at h
    generalize xs.zip ps = qs at h
    induction h generalizing sizes with
    | nil => exact .nil
    | cons h _ ih =>
      cases sizes with
      | nil => cases hsizes
      | cons size sizes => exact .cons (h.normalizeOne_toSlice size) (ih (by simpa using hsizes))
  rw [stops, hsame]
  refine exists_mapM h fun n q hq => ?_
  generalize q.2 = p at hq
  cases hq with
  | range _ _ _ hstop => exact ⟨_, rfl, hstop⟩
  | point => exact ⟨_, rfl, counted_lit _⟩

/-- The extents that are symbols, with their values. -/
def extentTable (xs : List Extent) (shape : Ints) : Table Expr Expr :=
  (xs.zip shape).filterMap fun (x, n) => match x with
    | .known _ => none
    | x => some (.ofExtent x, .int n)

theorem mem_extentTable {p : Expr × Expr} :
    p ∈ extentTable xs (xs.map (Extent.value ν)) ↔ ∃ x ∈ xs, ∃ y, Symbol.ofExtent x = some y ∧
      p = (.sym y, .int (x.value ν)) := by
  rw [extentTable, zip_map_right, zip_eq_zipWith, zipWith_self, map_map, mem_filterMap]
  simp only [mem_map, Function.comp_apply, Prod.map_apply, id]
  constructor
  · rintro ⟨_, ⟨x, hx, rfl⟩, hp⟩
    cases x with
    | known n => cases hp
    | shape fs k | stride f k => exact ⟨_, hx, _, rfl, (Option.some.inj hp).symm⟩
  · rintro ⟨x, hx, y, hy, rfl⟩
    refine ⟨_, ⟨x, hx, rfl⟩, ?_⟩
    cases x with
    | known n => cases hy
    | shape fs k | stride f k =>
      obtain rfl := Option.some.inj hy
      rfl

theorem extentTable_unique (hs : s.Sized M ν xs) {y : Symbol} {N N' : Int}
    (hN : (.sym y, .int N) ∈ extentTable xs (xs.map (Extent.value ν)))
    (hN' : (.sym y, .int N') ∈ extentTable xs (xs.map (Extent.value ν))) : N = N' := by
  have hread : ∀ {N}, (.sym y, .int N) ∈ extentTable xs (xs.map (Extent.value ν)) →
    M.eval s.view (.sym y) = some (M.int N) := by
    intro N hN
    obtain ⟨x, hx, z, hz, heq⟩ := mem_extentTable.1 hN
    obtain ⟨hy, hn⟩ := Prod.mk.inj heq
    have hvalue : x.value ν = ν x := by
      cases x with
      | known n => cases hz
      | shape fs k | stride f k => rfl
    rw [← M.eval_int s.view N, hn, hy, M.eval_int, hvalue]
    exact hs x hx z hz
  exact M.int_unique (hread hN) (hread hN')

theorem forall₂_zip {α β γ : Type} {R : α → γ → Prop} {S : β → γ → Prop} {as : List α} {bs : List β}
    {cs : List γ}
    (h : Forall₂ R as cs) (h' : Forall₂ S bs cs) :
    Forall₂ (fun p c => R p.1 c ∧ S p.2 c) (as.zip bs) cs := by
  induction h generalizing bs with
  | nil =>
    cases h'
    exact .nil
  | cons h _ ih =>
    obtain ⟨b, bs, hb, hbs, rfl⟩ := forall₂_cons_right_iff.1 h'
    exact .cons ⟨h, hb⟩ (ih hbs)

/-- A length is a number, or a symbol is left that the table knows. -/
theorem settles_sub {o e : Expr} (hx : x ∈ xs) (ho : Counted ν x o a) (he : Counted ν x e b) :
    Substitute.Settles (extentTable xs (xs.map (Extent.value ν)))
      (Algebra.standard.sub e.ofPosition o.ofPosition) (b - a) := by
  have hsub : ∀ m n : Int, Algebra.standard.sub (.int m) (.int n) = .int (m - n) := fun m n => by
    rw [sub_eq_add_neg, ← Algebra.add_ints (.level 149), ← Algebra.neg_int (.level 149)]
    rfl
  have hposition : ∀ (y : Symbol) (n : Int), (plus y n).ofPosition = plus y n := fun y n => by
    unfold plus
    split <;> rfl
  have hmem : ∀ {y}, Symbol.ofExtent x = some y →
    (.sym y, .int (x.value ν)) ∈ extentTable xs (xs.map (Extent.value ν)) :=
    fun hy => mem_extentTable.2 ⟨x, hx, _, hy, rfl⟩
  obtain rfl | ⟨y, m, hy, rfl, rfl⟩ := ho <;> obtain rfl | ⟨z, n, hz, rfl, rfl⟩ := he
  · exact (hsub b a).symm ▸ .int _
  · rw [hposition, show (Expr.lit a).ofPosition = .int a from rfl,
      Algebra.standard_collects.plusSub, add_sub_assoc]
    exact .plus (hmem hz) _
  · rw [hposition, show (Expr.lit b).ofPosition = .int b from rfl,
      Algebra.standard_collects.subPlus, add_comm, ← sub_sub]
    exact .minus (hmem hy) _
  · obtain rfl := Option.some.inj (hy.symm.trans hz)
    rw [hposition, hposition, Algebra.standard_collects.plusPlus, add_sub_add_left_eq_sub]
    exact .int _

/-- Lengths of slices are numbers where the shape is known. -/
theorem widths_cut (hs : s.Sized M ν xs) (h : CutAll ν xs ns ps) (hlen : xs.length = ns.length) :
    widths .standard ns xs (xs.map (Extent.value ν)) =
      .ok ((xs.zip ps).map fun q => .int (q.2.2 - q.2.1)) := by
  obtain ⟨os, hos, hstarts⟩ := starts_cut h
  obtain ⟨es, hes, hstops⟩ := stops_cut (A := .standard) h
    (show ((xs.map (Extent.value ν)).map Expr.lit).length = ns.length by simp [hlen])
  have htable : ∀ p ∈ extentTable xs (xs.map (Extent.value ν)), ∃ y N, p = (.sym y, .int N) :=
    fun p hp => by
    obtain ⟨x, -, y, -, rfl⟩ := mem_extentTable.1 hp
    exact ⟨y, _, rfl⟩
  rw [widths, hes, hos]
  refine mapM_eq_ok.2 (forall₂_map_right_iff.2
    (forall₂_imp_of_mem (forall₂_zip hstarts hstops).flip fun hq hp => ?_).flip)
  exact Substitute.algebraicTable_of_settles (A := .level 149) htable
    (fun _ _ _ => extentTable_unique hs)
    (settles_sub (of_mem_zip hq).1 hp.1 hp.2)

/-! ### Indices of coordinates -/

/-- The index of the thread, then those of the block. -/
def lineIndex : Exprs := threadIndex.take 1 ++ blockIndex

def Position.line (π : Position) : Nat → Int
  | 0 => π.thread 0
  | k + 1 => π.block k

theorem Knows.line {π : Position} {t : State V} (h : Knows M π t) {j : Nat} (hj : j < 4) :
    M.eval t.view (lineIndex.getD j .zero) = some (M.int (π.line j)) := by
  cases j with
  | zero => exact h.thread 0 (by omega)
  | succ k => exact h.block k (by omega)

/-- The indices of coordinates, of which `m` is the fastest. -/
def lineOrder (dim m : Nat) : Exprs := (List.range dim).map fun k => lineIndex.getD
    (Equiv.swap 0 m k) .zero

theorem swap_lt {dim k : Nat} (hm : m < dim) (hk : k < dim) : Equiv.swap 0 m k < dim := by
  rw [Equiv.swap_apply_def]
  split_ifs <;> omega

theorem ofLines_eq_ok {dim : Nat} {ss : Slices} (hlayout : f.layout.Perm (Layout.ascending dim))
    (hpos : 1 ≤ dim) (hdim : dim ≤ 4)
    (h : normalize A ss (f.spatialShape.map Domain.bound) = .ok ns) :
    ∃ m < dim, f.layout.getLastD 0 = (m : Int) ∧
      ofLines A f ss = .ok (.lines (lineOrder dim m) ns f.spatialShape) := by
  have hlen : f.spatialDimensions = dim := hlayout.length_eq.trans (by simp [Layout.ascending])
  obtain ⟨m, hm, hlast⟩ : ∃ m < dim, f.layout.getLastD 0 = m := by
    have hmem : f.layout.getLastD 0 ∈ Layout.ascending dim := by
      refine hlayout.mem_iff.1 ?_
      rw [getLastD_eq_getLast?, getLast?_eq_some_getLast
        (by rintro h; simp [GridField.spatialDimensions, h] at hlen; omega)]
      exact getLast_mem _
    have := Layout.mem_ascending.1 hmem
    exact ⟨(f.layout.getLastD 0).toNat, by omega, by omega⟩
  have hswap : ∀ ls : Exprs, ls = lineIndex.take dim →
    (ls.set 0 (ls.getD m .zero)).set m (ls.getD 0 .zero) = lineOrder dim m := by
    rintro _ rfl
    interval_cases dim <;> interval_cases m <;> rfl
  refine ⟨m, hm, hlast, ?_⟩
  rw [ofLines, hlen, if_neg (by omega)]
  refine bind_eq_ok.2 ⟨m, (Layout.place_eq_ok_iff (by omega)).2 ⟨by omega, ?_⟩,
    bind_eq_ok.2 ⟨ns, h, ?_⟩⟩
  · simp [threadIndex, blockIndex, axes]
    omega
  · rw [← hswap _ rfl]
    rfl

/-- The coordinate of a thread along an extent. -/
theorem eval_lineIndex {π : Position} {u : State V} (hu : Knows M π u) (hs : u.Sized M ν xs)
    (hx : x ∈ xs) {j : Nat} (hj : j < 4)
    {o : Expr} (ho : Counted ν x o a) :
    M.eval u.view (Algebra.standard.add2 (lineIndex.getD j .zero) o.ofPosition) =
      some (M.int (π.line j + a)) := by
  have hline := hu.line hj
  obtain ⟨i, hi, hknown⟩ : ∃ i, lineIndex.getD j .zero = .sym i ∧ .sym i ∈ known := by
    interval_cases j <;> exact ⟨_, rfl, by simp [known, threadIndex, blockIndex, axes, index]⟩
  rw [hi] at hline ⊢
  obtain rfl | ⟨y, n, hy, rfl, rfl⟩ := ho
  · exact (congrArg _ (Algebra.standard_collects.add i a)).trans (M.eval_plus hline a)
  · have hposition : (plus y n).ofPosition = plus y n := by
      unfold plus
      split <;> rfl
    have hne : i ≠ y := fun h => extent_notMem_known hy (h ▸ hknown)
    rw [hposition]
    have hvalue : x.value ν = ν x := by
      cases x with
      | known n => cases hy
      | shape fs k | stride f k => rfl
    exact Algebra.eval_plus_add (A := .level 149) hne hline (hvalue ▸ hs x hx y hy) n

/-- The values of some expressions are the coordinates of a cell. -/
def Locates (M : Model V) (u : State V) (cs : Exprs) (cell : Ints) :
    Prop := cs.map (M.eval u.view) = cell.map fun i => some (M.int i)

/-- The cell of a thread, in a region that starts at the left ends of `ps`. -/
def Position.cell (π : Position) (m : Nat) (ps : List (Int × Int)) :
    Ints := ps.zipIdx.map fun p => π.line (Equiv.swap 0 m p.2) + p.1.1

theorem lines_coordinates (hs : s.Sized M ν xs) (h : CutAll ν xs ns ps)
    (hlen : xs.length = ps.length) (hm : m < ps.length)
    (hdim : ps.length ≤ 4) : ∃ cs, (lines (lineOrder ps.length m) ns xs).coordinates .standard =
    .ok cs ∧
      ∀ π u, Started M s π u → ∀ cell, (Locates M u cs cell ↔ cell = π.cell m ps) := by
  obtain ⟨os, hos, hstarts⟩ := starts_cut h
  refine ⟨_, by rw [coordinates, hos]; rfl, fun π u hu cell => ?_⟩
  have hinj : Function.Injective fun i => some (M.int i) := fun i j hij => M.int_unique rfl hij
  have hread : ((lineOrder ps.length m).zip os).map
    (M.eval u.view ∘ fun p => Algebra.standard.add2 p.1 p.2.ofPosition) =
      (π.cell m ps).map fun i => some (M.int i) := by
    refine ext_getElem (by simp [lineOrder, Position.cell, hstarts.length_eq, hlen]) fun k hk hk' =>
      ?_
    simp only [Position.cell, length_map, length_zipIdx] at hk'
    have hx : k < xs.length := hlen ▸ hk'
    have hzip : k < (xs.zip ps).length := by simp [hx, hk']
    have ho := hstarts.get (hstarts.length_eq ▸ hzip) hzip
    simp only [get_eq_getElem, getElem_zip] at ho
    have hswap := swap_lt hm hk'
    simpa [lineOrder, Position.cell] using
      eval_lineIndex hu.knows (hu.sized hs) (getElem_mem hx) (hswap.trans_le hdim) ho
  rw [Locates, map_map, hread, (map_injective_iff.2 hinj).eq_iff, eq_comm]

/-! ### Extents of lines -/

/-- Extents are found by the exchange that gave coordinates their indices. -/
def Launch.line (ws : Exprs) (m : Nat) : Launch :=
  ⟨[ws.getD m .one, .one, .one], (List.range 3).map fun k => ws.getD (Equiv.swap 0 m (k + 1)) .one⟩

theorem lines_launch {shape : Ints} (hws : widths A ns xs shape = .ok ws) (hm : m < ws.length)
    (hdim : ws.length ≤ 4) :
    (lines (lineOrder ws.length m) ns xs).launch A shape = .ok (.line ws m) := by
  rw [launch, hws]
  rcases ws with _ | ⟨a, _ | ⟨b, _ | ⟨c, _ | ⟨d, _ | ⟨e, ws⟩⟩⟩⟩⟩
  on_goal 6 => simp only [length_cons] at hdim; omega
  all_goals
    simp only [length_cons, length_nil] at hm
    interval_cases m <;> rfl

section

variable {W : Nat → Int} (hW : ∀ k, M.eval s.view (ws.getD k .one) = some (M.int (W k)))
    {π π' : Position} {u u' : State V}

include hW

/-- Each index stays below the number of cells along its coordinate. -/
theorem Launch.Runs.line_lt (h : (line ws m).Runs M s π u) :
    (∀ j < 4, 0 ≤ π.line j ∧ π.line j < W (Equiv.swap 0 m j)) ∧ ∀ k, k = 1 ∨ k = 2 →
    π.thread k = 0 := by
  refine ⟨fun j hj => ?_, fun k hk => ?_⟩
  · cases j with
    | zero =>
      obtain ⟨hn, hrange⟩ := h.extent 0 (by omega)
      rw [Equiv.swap_apply_left, M.int_unique (hW m) hn]
      exact hrange
    | succ k =>
      obtain ⟨hg, hrange⟩ := h.grid k (by omega)
      have hk : k < 3 := by omega
      rw [M.int_unique (hW _) (by simpa [line, hk] using hg)]
      exact hrange
  · obtain ⟨hn, hpos, hlt⟩ := h.extent k (by omega)
    have : π.extent k = 1 := M.int_unique hn
      (by rcases hk with rfl | rfl <;> exact M.eval_int s.view 1)
    omega

theorem exists_line {d : Nat → Int} (hd : ∀ k, 0 ≤ d k ∧ d k < W k) :
    ∃ π u, (Launch.line ws m).Runs M s π u ∧ ∀ j, π.line j = d (Equiv.swap 0 m j) := by
  let π : Position := ⟨fun k => d (Equiv.swap 0 m (k + 1)), fun k => if k = 0 then d m else 0,
    fun k => if k = 0 then W m else 1,
    fun k => W (Equiv.swap 0 m (k + 1))⟩
  obtain ⟨u, hu⟩ := exists_started M s π
  refine ⟨π, u, ⟨hu, fun k hk => ?_, fun k hk => ⟨by simpa [Launch.line, hk] using hW _, hd _⟩⟩,
    fun j => ?_⟩
  · rcases k with _ | k
    · exact ⟨hW m, hd m⟩
    · refine ⟨?_, le_rfl, one_pos⟩
      obtain rfl | rfl : k = 0 ∨ k = 1 := by omega
      all_goals exact M.eval_int s.view 1
  · cases j with
    | zero => rfl
    | succ k => rfl

variable (hin : ∀ {k : Nat} (hk : k < ps.length), W k = ps[k].2 - ps[k].1)
    (hout : ∀ {k : Nat}, ps.length ≤ k → W k = 1)

include hin

theorem Launch.Runs.cell_inside (h : (line ws m).Runs M s π u) (hm : m < ps.length)
    (hdim : ps.length ≤ 4) :
    Forall₂ (fun c p => p.1 ≤ c ∧ c < p.2) (π.cell m ps) ps := by
  refine forall₂_iff_get.2 ⟨by simp [Position.cell], fun k hk hk' => ?_⟩
  have hrange := (h.line_lt hW).1 _ ((swap_lt hm hk').trans_le hdim)
  rw [Equiv.swap_apply_self, hin hk'] at hrange
  simp only [Position.cell, get_eq_getElem, getElem_map, getElem_zipIdx, zero_add]
  omega

include hout

theorem exists_line_cell {cell : Ints} (hcell : Forall₂ (fun c p => p.1 ≤ c ∧ c < p.2) cell ps) :
    ∃ π u, (Launch.line ws m).Runs M s π u ∧ cell = π.cell m ps := by
  have hlen := hcell.length_eq
  let d : Nat → Int := fun k => cell.getD k 0 - (ps.getD k (0, 0)).1
  have hd : ∀ {k : Nat} (hk : k < ps.length), d k = cell[k] - ps[k].1 :=
    fun {k} hk => by simp [d, hk, hlen]
  obtain ⟨π, u, hu, hline⟩ := exists_line hW (d := d) fun k => by
    by_cases hk : k < ps.length
    · have := hcell.get (by omega) hk
      rw [hd hk, hin hk]
      simp only [get_eq_getElem] at this
      omega
    · rw [hout (by omega)]
      simp [d, hlen, show ps.length ≤ k by omega]
  refine ⟨π, u, hu, ext_getElem (by simpa [Position.cell] using hlen) fun k hk hk' => ?_⟩
  simp [Position.cell, hline, hd (show k < ps.length by omega)]

omit hin in
theorem Launch.Runs.eq_of_cell (h : (Launch.line ws m).Runs M s π u)
    (h' : (Launch.line ws m).Runs M s π' u')
    (hcell : π.cell m ps = π'.cell m ps) {k : Nat} (hk : k < 3) :
    π.block k = π'.block k ∧ π.thread k = π'.thread k := by
  obtain ⟨hlt, hzero⟩ := h.line_lt hW
  obtain ⟨hlt', hzero'⟩ := h'.line_lt hW
  have hline : ∀ j < 4, π.line j = π'.line j := fun j hj => by
    by_cases hj' : Equiv.swap 0 m j < ps.length
    · simpa [Position.cell] using getElem_of_eq hcell (i := Equiv.swap 0 m j)
        (by simpa [Position.cell] using hj')
    · have := hlt j hj
      have := hlt' j hj
      have := hout (not_lt.1 hj')
      omega
  refine ⟨hline (k + 1) (by omega), ?_⟩
  cases k with
  | zero => exact hline 0 (by omega)
  | succ k => rw [hzero _ (by omega), hzero' _ (by omega)]

end

/-- The next thread of a block comes to the next cell along the fastest coordinate. -/
theorem Position.cell_next {π π' : Position} (hm : m < ps.length) (hdim : ps.length ≤ 4)
    (hblock : ∀ k < 3, π.block k = π'.block k)
    (hnext : π'.thread 0 = π.thread 0 + 1) : π'.cell m ps = (π.cell m ps).modify m (· + 1) := by
  refine ext_getElem (by simp [cell]) fun k hk hk' => ?_
  simp only [cell, length_map, length_zipIdx] at hk
  have hswap := swap_lt hm hk
  rw [getElem_modify]
  simp only [cell, getElem_map, getElem_zipIdx, zero_add]
  split
  · next hmk =>
    subst hmk
    rw [Equiv.swap_apply_right]
    change π'.thread 0 + _ = π.thread 0 + _ + 1
    omega
  · next hmk =>
    obtain ⟨j, hj⟩ : ∃ j, Equiv.swap 0 m k = j + 1 :=
      Nat.exists_eq_succ_of_ne_zero fun h => hmk (by simpa using (Equiv.swap_apply_eq_iff.1 h).symm)
    rw [hj]
    exact congrArg (· + _) (hblock j (by omega)).symm

/-- Each thread has a cell of the slice, each cell one thread, and threads that follow each other in
a block have cells that do so along the fastest coordinate. -/
theorem lines_bijective {shape : List Int}
    (hshape : f.spatialShape.map (Extent.value ν) = shape) (hpos : 1 ≤ shape.length)
    (hdim : shape.length ≤ 4)
    (hlayout : f.layout.Perm (Layout.ascending shape.length)) {ss : List Slice}
    (hss : SelectsAll ss shape ps)
    (hplaced : Forall₂ Placed f.spatialShape ss) (hs : s.Sized M ν f.spatialShape) :
    ∃ t cs L, ofLines .standard f ss = .ok t ∧ t.coordinates .standard = .ok cs ∧
      t.launch .standard shape = .ok L ∧
      (∀ π u, L.Runs M s π u → ∃ cell, Locates M u cs cell) ∧
      (∀ cell, (∃ π u, L.Runs M s π u ∧ Locates M u cs cell) ↔
        Forall₂ (fun c p => p.1 ≤ c ∧ c < p.2) cell ps) ∧
      ∀ π π' u u' cell cell', L.Runs M s π u → L.Runs M s π' u' → Locates M u cs cell →
        Locates M u' cs cell' →
        (cell = cell' → ∀ k < 3, π.block k = π'.block k ∧ π.thread k = π'.thread k) ∧
          ((∀ k < 3, π.block k = π'.block k) → π'.thread 0 = π.thread 0 + 1 →
            cell' = cell.modify (f.layout.getLastD 0).toNat (· + 1)) := by
  subst hshape
  obtain ⟨ns, hns, hcut⟩ := Slice.normalize_cut Algebra.standard_collects rfl hss hplaced
  have hpslen := hss.length_eq.2
  rw [← hpslen] at hpos hdim hlayout
  rw [length_map] at hpslen
  obtain ⟨m, hm, hlast, ht⟩ := ofLines_eq_ok hlayout hpos hdim hns
  obtain ⟨cs, hcs, hlocates⟩ := lines_coordinates hs hcut hpslen.symm hm hdim
  have hlen : f.spatialShape.length = ns.length :=
    by rw [hcut.length_eq, length_zip, hpslen, min_self]
  have hws := widths_cut hs hcut hlen
  have hmap : (f.spatialShape.zip ps).map (fun q => Expr.int (q.2.2 - q.2.1)) =
    ps.map fun p => .int (p.2 - p.1) := by
    have hsnd : (f.spatialShape.zip ps).map (·.2) = ps := map_snd_zip hpslen.le
    conv_rhs => rw [← hsnd, map_map]
    rfl
  rw [hmap] at hws
  have hL := lines_launch hws (by rwa [length_map]) (by rwa [length_map])
  rw [length_map] at hL
  let W : Nat → Int := fun k => (ps.map fun p => p.2 - p.1).getD k 1
  have hW : ∀ k, M.eval s.view ((ps.map fun p => Expr.int (p.2 - p.1)).getD k .one) =
    some (M.int (W k)) := fun k => by
    by_cases hk : k < ps.length
    · simp [W, hk]
    · simp only [W, getD_eq_default, length_map, not_lt.1 hk]
      exact M.eval_int s.view 1
  have hin : ∀ {k : Nat} (hk : k < ps.length), W k = ps[k].2 - ps[k].1 :=
    fun {k} hk => by simp [W, hk]
  have hout : ∀ {k : Nat}, ps.length ≤ k → W k = 1 := fun {k} hk => by simp [W, hk]
  refine ⟨_, cs, _, ht, hcs, hL, fun π u hu => ⟨_, (hlocates π u hu.started _).2 rfl⟩,
    fun cell => ⟨?_, fun hcell => ?_⟩, ?_⟩
  · rintro ⟨π, u, hu, hat⟩
    rw [(hlocates π u hu.started _).1 hat]
    exact hu.cell_inside hW hin hm hdim
  · obtain ⟨π, u, hu, heq⟩ := exists_line_cell hW hin hout hcell
    exact ⟨π, u, hu, (hlocates π u hu.started _).2 heq⟩
  · intro π π' u u' cell cell' hu hu' hat hat'
    rw [(hlocates π u hu.started _).1 hat, (hlocates π' u' hu'.started _).1 hat', hlast,
      Int.toNat_natCast]
    exact ⟨fun heq k hk => hu.eq_of_cell hW hout hu' heq hk,
      fun hblock hnext => Position.cell_next hm hdim hblock hnext⟩

/-- Columns of a plane without its first row. -/
theorem lines_bijective_plane :
    let ss : List Slice := [.range (some (.at (.lit 1))) none none, .whole]
    ∃ t cs L, ofLines .standard (.plane "f") ss = .ok t ∧ t.coordinates .standard = .ok cs ∧
      t.launch .standard [4, 5] = .ok L ∧
      ∃ π u, L.Runs Whole.dividing .plane π u ∧ Locates Whole.dividing u cs [3, 2] := by
  intro ss
  obtain ⟨t, cs, L, ht, hcs, hL, -, hcells, -⟩ :=
    lines_bijective (f := .plane "f") (ν := State.planeExtent) rfl (by decide) (by decide)
    (.refl _) selects_plane (.cons trivial (.cons trivial .nil)) (State.plane_sized "f")
  exact ⟨t, cs, L, ht, hcs, hL, (hcells [3, 2]).2 (.cons (by decide) (.cons (by decide) .nil))⟩

end Threads

end StencilForge
