import StencilForge.Proofs.Lanes
import StencilForge.Proofs.Selections

/-!
# Proofs — the threads of a launch

A thread knows its block and its place there (`Threads.Started`), and a launch starts those that lie
in its grid (`Threads.Launch.Runs`).  Block sizes that are folded or permuted have as many threads
as before (`BlockSize.fold_spec`, `BlockSize.permute_spec`).
-/

open List StencilForge.Outcome

namespace StencilForge

open Machine Whole Statement Algebra Layout Relation Substitute State

variable {V : Type} {M : Model V} {A : Algebra} {H : Head → Prop}
variable {es ws : Exprs} {S vs : Ints} {L : Threads.Launch} {dim : Nat} {f : GridField} {n : Int}
  {ν : Extent → Int} {xs : List Extent} {ns : List Slice.Normal} {ps : List (Int × Int)}
    {s t : State V} {ss : Slices}

/-! ### Numbers of threads -/

/-- Folding keeps the number of threads, and the first extent is the largest. -/
theorem BlockSize.fold_spec (fuel n : Nat) (bs : Ints) (hn : 1 ≤ n) (hlen : n ≤ bs.length)
    (hfuel : bs.length ≤ n + fuel)
    (hpos : ∀ v ∈ bs, 1 ≤ v) (hmax : ∀ v ∈ bs, v ≤ bs.headD 1) :
    (fold fuel n bs).length = n ∧ (fold fuel n bs).prod = bs.prod ∧ (∀ v ∈ fold fuel n bs, 1 ≤ v) ∧
      ∀ v ∈ fold fuel n bs, v ≤ (fold fuel n bs).headD 1 := by
  fun_induction fold fuel n bs with
  | case1 | case4 => exact ⟨by omega, rfl, hpos, hmax⟩
  | case2 fuel n b c r h ih =>
    have hlast : (c :: r).getLastD 1 = (c :: r).getLast (cons_ne_nil c r) :=
      by rw [getLastD_eq_getLast?, getLast?_eq_some_getLast, Option.getD_some]
    have hsplit := congrArg List.prod (dropLast_append_getLast (cons_ne_nil c r))
    rw [prod_append, prod_singleton, ← hlast] at hsplit
    have hb := hpos b mem_cons_self
    have hl : 1 ≤ (c :: r).getLastD 1 := hlast ▸ hpos _ (mem_cons_of_mem b (getLast_mem _))
    have hgrow : b ≤ b * (c :: r).getLastD 1 := le_mul_of_one_le_right (by omega) hl
    have hrest : ∀ v ∈ (c :: r).dropLast, v ∈ b :: c :: r :=
      fun v hv => mem_cons_of_mem _ (mem_of_mem_dropLast hv)
    obtain ⟨hlen', hprod, hnext⟩ := ih hn (by simp at h ⊢; omega) (by simp at hfuel ⊢; omega)
      (forall_mem_cons.2 ⟨hb.trans hgrow, fun v hv => hpos v (hrest v hv)⟩)
      (forall_mem_cons.2 ⟨le_rfl, fun v hv => (hmax v (hrest v hv)).trans hgrow⟩)
    refine ⟨hlen', hprod.trans ?_, hnext⟩
    rw [prod_cons, prod_cons, ← hsplit]
    ring
  | case3 fuel n bs hshort h =>
    rcases bs with _ | ⟨b, _ | ⟨c, r⟩⟩
    · simp at h
    · simp at h
      omega
    · exact absurd rfl (hshort b c r)

theorem BlockSize.foldlM_set (ps : List (Int × Int)) (r : Ints)
    (hps : ∀ p ∈ ps, 0 ≤ p.1 ∧ p.1 < r.length) (hkeys : (ps.map (·.1)).Nodup) :
    ∃ r', (ps.foldlM (fun r p => do return r.set (← place r.length p.1) p.2) r :
      Outcome Ints) = .ok r' ∧
      r'.length = r.length ∧ (∀ p ∈ ps, r'[p.1.toNat]? = some p.2) ∧ ∀ k : Nat,
        (∀ p ∈ ps, p.1 ≠ k) → r'[k]? = r[k]? := by
  induction ps generalizing r with
  | nil => exact ⟨r, rfl, rfl, nofun, fun _ _ => rfl⟩
  | cons p ps ih =>
    obtain ⟨hp, hps⟩ := forall_mem_cons.1 hps
    obtain ⟨hnew, hkeys⟩ := nodup_cons.1 hkeys
    have hlt := (Int.toNat_lt hp.1).2 hp.2
    obtain ⟨r', hr', hlen, hread, hother⟩ := ih (r.set p.1.toNat p.2) (by simpa using hps) hkeys
    refine ⟨r', ?_, by simpa using hlen, forall_mem_cons.2 ⟨?_, hread⟩, fun k hk => ?_⟩
    · exact bind_eq_ok.2 ⟨_, bind_eq_ok.2 ⟨_, (place_eq_ok_iff hp.1).2 ⟨rfl, hlt⟩, rfl⟩, hr'⟩
    · rw [hother _ fun q hq h => hnew (mem_map.2 ⟨q, hq, show q.1 = p.1 by omega⟩),
        getElem?_set_self hlt]
    · obtain ⟨hpk, hk⟩ := forall_mem_cons.1 hk
      rw [hother k hk, getElem?_set_ne (by omega)]

/-- Each direction gets an extent, the fastest one the largest. -/
theorem BlockSize.permute_spec {size layout : Ints} (h : layout.Perm (ascending dim))
    (hpos : 1 ≤ dim) (hlen : dim ≤ size.length)
    (hsize : ∀ v ∈ size, 1 ≤ v) : ∃ S, permute size layout = .ok S ∧ S.length = dim ∧
    (∀ v ∈ S, 1 ≤ v) ∧ S.prod = size.prod ∧
      ∃ b, S[(layout.getLastD 0).toNat]? = some b ∧ ∀ v ∈ S, v ≤ b := by
  have hlayout : layout.length = dim := by simpa [ascending] using h.length_eq
  have hsorted := mergeSort_perm size fun a b => decide (b ≤ a)
  generalize hd : size.mergeSort (fun a b => decide (b ≤ a)) = desc at hsorted
  have hmax : ∀ v ∈ desc, v ≤ desc.headD 1 := by
    have hpair := @pairwise_mergeSort Int (fun a b => decide (b ≤ a)) (by simp; omega)
      (by simp; omega) size
    rw [hd] at hpair
    cases desc with
    | nil => simp
    | cons d ds => simpa using (pairwise_cons.1 hpair).1
  obtain ⟨hext, hprod, hall, hhead⟩ := fold_spec size.length dim desc hpos
    (hsorted.length_eq ▸ hlen) (by rw [hsorted.length_eq]; omega)
    (fun v hv => hsize v (hsorted.mem_iff.1 hv)) hmax
  generalize hes : fold size.length dim desc = es at hext hprod hall hhead
  -- pairs of a coordinate and its extent
  have hkeys : (layout.reverse.zip es).map (·.1) = layout.reverse := map_fst_zip (by simp; omega)
  have hvalues : (layout.reverse.zip es).map (·.2) = es := map_snd_zip (by simp; omega)
  generalize hps : layout.reverse.zip es = ps at hkeys hvalues
  have hmem : ∀ p ∈ ps, 0 ≤ p.1 ∧ p.1 < dim := fun p hp =>
    mem_ascending.1 (h.mem_iff.1 (mem_reverse.1 (hkeys ▸ mem_map_of_mem hp)))
  obtain ⟨r, hr, hrlen, hread, -⟩ := foldlM_set ps size (fun p hp => by have := hmem p hp; omega)
    (by rw [hkeys, nodup_reverse]; exact h.nodup_iff.2 (ascending_nodup dim))
  have hget : ∀ p ∈ ps, (r.take dim)[p.1.toNat]? = some p.2 := fun p hp => by
    have := hmem p hp
    rw [getElem?_take_of_lt (by omega), hread p hp]
  have hlen : (r.take dim).length = dim := by rw [length_take]; omega
  have hS : permute size layout = .ok (r.take dim) :=
    bind_eq_ok.2 ⟨r, by rw [hd, hlayout, hes, hps]; exact hr, by rw [hlayout]; rfl⟩
  generalize r.take dim = S at hget hlen hS
  have hperm : S.Perm es := by
    have hself := map_getD_ascending 1 hlen
    have hother : layout.reverse.map (fun l => S.getD l.toNat 1) = es := by
      rw [← hkeys, ← hvalues, map_map]
      exact map_congr_left fun p hp => by simp [hget p hp]
    rw [← hself, ← hother]
    exact (h.symm.trans (reverse_perm layout).symm).map _
  refine ⟨S, hS, hlen, fun v hv => hall v (hperm.mem_iff.1 hv),
    hperm.prod_eq.trans (hprod.trans hsorted.prod_eq), es.headD 1, ?_,
    fun v hv => hhead v (hperm.mem_iff.1 hv)⟩
  subst hvalues
  obtain ⟨p, ps, rfl⟩ := exists_cons_of_length_pos (l := ps) (by rw [length_map] at hext; omega)
  have hlast : layout.getLastD 0 = p.1 := by
    rw [getLastD_eq_getLast?, ← head?_reverse, ← hkeys]
    rfl
  exact hlast ▸ hget p mem_cons_self

/-- Threads that are not needed go to the next direction, and no more than these. -/
theorem Threads.share_le {D : Ints} {b v : Int} {m : Nat} (hb : 1 ≤ b) (hD : 1 ≤ D.prod)
    (hprod : D.prod ≤ (S.take m).prod) (hm : S[m]? = some b) :
    1 ≤ b * ((S.take m).prod / D.prod) ∧ (D ++ [min (b * ((S.take m).prod / D.prod)) v]).prod ≤
      (S.take (m + 1)).prod := by
  have hquot : 1 ≤ (S.take m).prod / D.prod := (Int.le_ediv_iff_mul_le (by omega)).2 (by omega)
  refine ⟨one_le_mul_of_one_le_of_one_le hb hquot, ?_⟩
  rw [prod_append, prod_singleton, take_add_one, hm, Option.toList_some, prod_append,
    prod_singleton]
  calc D.prod * min (b * ((S.take m).prod / D.prod)) v
      ≤ D.prod * (b * ((S.take m).prod / D.prod)) :=
        mul_le_mul_of_nonneg_left (min_le_left _ _) (by omega)
    _ = (D.prod * ((S.take m).prod / D.prod)) * b := by ring
    _ ≤ (S.take m).prod * b := mul_le_mul_of_nonneg_right (Int.mul_ediv_self_le (by omega))
      (by omega)

namespace Threads

open Slice

def adaptOne (A : Algebra) (full done : Exprs) (p : Expr × Nat) : Outcome Exprs :=
  full[p.2]?.elim (Failure.raise .outOfRange) fun b => do
    let factor ← Build.node A (.fn .divFloor) [A.prod (full.take p.2), A.prod done]
    return done ++ [← least A (A.mul2 b factor) p.1]

theorem adapt_eq (full ws : Exprs) : adapt A full ws = ws.zipIdx.foldlM (adaptOne A full) [] := by
  unfold adapt
  congr 1
  funext done p
  obtain ⟨w, i⟩ := p
  dsimp only [adaptOne]
  cases full[i]? <;> rfl

theorem ofBlocks_sizes (size : Ints) (permute : Bool) (maximum : Ints)
    (hlayout : f.layout.Perm (ascending dim)) (hpos : 1 ≤ dim) (hdim : dim ≤ 3)
    (hsize : ∀ v ∈ size, 1 ≤ v)
    (hlen : permute = true → dim ≤ size.length)
    (h : normalize A ss (f.spatialShape.map Domain.bound) = .ok ns) :
    ∃ S : Ints, ofBlocks A f ss (size.map .lit) permute false maximum =
      .ok (.blocks (S.map .lit) false maximum ns f.spatialShape) ∧
      S.length = (if permute then dim else size.length) ∧ ∀ v ∈ S, 1 ≤ v := by
  have hf : ¬ f.spatialDimensions > 3 := by
    have := hlayout.length_eq
    simp [ascending] at this
    rw [GridField.spatialDimensions]
    omega
  have hnums : areNumbers (size.map .lit) = true := by simp [areNumbers, Expr.int?]
  have hints : (size.map Expr.lit).filterMap Expr.int? = size := by
    rw [filterMap_map]
    exact filterMap_some
  rw [ofBlocks, if_neg hf, hnums, hints]
  cases permute with
  | false => exact ⟨size, bind_eq_ok.2 ⟨_, rfl, bind_eq_ok.2 ⟨ns, h, rfl⟩⟩, rfl, hsize⟩
  | true =>
    obtain ⟨S, hS, hlen, hall, -⟩ := BlockSize.permute_spec hlayout hpos (hlen rfl) hsize
    rw [hS]
    exact ⟨S, bind_eq_ok.2 ⟨_, rfl, bind_eq_ok.2 ⟨_, rfl, bind_eq_ok.2 ⟨ns, h, rfl⟩⟩⟩, hlen, hall⟩

/-! ### Positions -/

/-- The block, the place in it, the threads of a block and the blocks of the grid, in each
direction. -/
structure Position where
  block : Nat → Int
  thread : Nat → Int
  extent : Nat → Int
  grid : Nat → Int

variable {π : Position}

structure Knows (M : Model V) (π : Position) (t : State V) : Prop where
  block : ∀ k < 3, M.eval t.view (blockIndex.getD k .zero) = some (M.int (π.block k))
  thread : ∀ k < 3, M.eval t.view (threadIndex.getD k .zero) = some (M.int (π.thread k))
  extent : ∀ k < 3, M.eval t.view (blockExtent.getD k .zero) = some (M.int (π.extent k))
  grid : ∀ k < 3, M.eval t.view (gridExtent.getD k .zero) = some (M.int (π.grid k))

/-- It knows where it is; all else is as it was. -/
structure Started (M : Model V) (s : State V) (π : Position) (t : State V) : Prop where
  mem : t.mem = s.mem
  env : ∀ y, .sym y ∉ known → t.env y = s.env y
  knows : Knows M π t

theorem exists_started (M : Model V) (s : State V) (π : Position) : ∃ t, Started M s π t := by
  classical
  let values : Ints := [π.block, π.thread, π.extent, π.grid].flatMap (List.range 3).map
  refine ⟨{ s with env := fun y => ((known.zip values).find?
    (·.1 = .sym y)).elim (s.env y) fun p => some (M.int p.2) }, rfl, fun y hy => ?_, ?_⟩
  · have hnone : (known.zip values).find? (·.1 = .sym y) = none :=
      find?_eq_none.2 fun p hp => by
        have := (of_mem_zip hp).1
        simp only [decide_eq_true_eq]
        rintro h
        exact hy (h ▸ this)
    simp only [hnone, Option.elim_none]
  · constructor <;> intro k hk <;> interval_cases k <;>
      simp [blockIndex, threadIndex, blockExtent, gridExtent, axes, index, State.view, known,
        values, range_succ]

theorem extent_notMem_known {x : Extent} {y : Symbol} (h : Symbol.ofExtent x = some y) :
    .sym y ∉ known := by
  cases x <;> simp [Symbol.ofExtent] at h <;> subst h <;> simp [known, blockIndex, threadIndex,
    blockExtent, gridExtent, index]

theorem Started.sized (ht : Started M s π t) (hs : s.Sized M ν xs) :
    t.Sized M ν xs := fun x hx y hy =>
  (ht.env y (extent_notMem_known hy)).trans (hs x hx y hy)

/-- Its block is in the grid, and its place is in the block. -/
structure Launch.Runs (M : Model V) (L : Launch) (s : State V) (π : Position) (t : State V) :
    Prop where
  started : Started M s π t
  extent : ∀ k < 3, M.eval s.view (L.block.getD k .zero) = some (M.int (π.extent k)) ∧
    0 ≤ π.thread k ∧ π.thread k < π.extent k
  grid : ∀ k < 3, M.eval s.view (L.grid.getD k .zero) = some (M.int (π.grid k)) ∧ 0 ≤ π.block k ∧
    π.block k < π.grid k

end Threads

/-! ### Whole numbers with quotients -/

namespace Whole

def quotient (q : Int → Int → Int) : List Whole → Option Whole
  | [.int a, .int b] => some (.int (q a b))
  | _ => none

/-- The meaning of an operation, of quotients too. -/
def divide (h : Head) (vs : List (Option Whole)) : Option Whole :=
  match h with
  | .fn .divFloor => (vs.mapM id).bind (quotient fun a b => a / b)
  | .fn .divCeil => (vs.mapM id).bind (quotient fun a b => -(-a / b))
  | h => apply h vs

theorem divide_mono {h : Head} {vs ws : List (Option Whole)} (hv : Forall₂ Refines vs ws) :
    Refines (divide h vs) (divide h ws) := by
  have hquot : ∀ f, Refines ((vs.mapM id).bind (quotient f)) ((ws.mapM id).bind (quotient f)) :=
    fun f =>
    Refines.bind (mapM_id_mono hv) fun _ => .refl _
  unfold divide
  split
  · exact hquot _
  · exact hquot _
  · exact apply_mono hv

def dividing : Model Whole where
  __ := model
  apply := divide
  apply_mono := divide_mono
  add_ints := model.add_ints
  mul_ints := model.mul_ints
  add_address := model.add_address
  cast_plain := model.cast_plain
  cast_boolean := model.cast_boolean

end Whole

namespace IntegerFunction

theorem floorDiv_ints (m : Int) (hn : 0 < n) :
    floorDiv (.rat m) (.rat n) = some (m / n, ((m - m / n * n : Int) : Rat)) := by
  obtain ⟨k, rfl⟩ := Int.eq_ofNat_of_zero_le hn.le
  have hk : ((k : Int) : Rat) ≠ 0 := by exact_mod_cast hn.ne'
  have hfloor : (m / ((k : Int) : Rat)).num.fdiv (m / ((k : Int) : Rat)).den = m / k := by
    rw [Int.fdiv_eq_ediv_of_nonneg _ (by positivity), ← Rat.floor_def]
    exact Rat.floor_intCast_div_natCast m k
  simp only [floorDiv, Number.toRat?, Option.bind_eq_bind, Option.bind_some, if_neg hk]
  rw [hfloor]
  push_cast
  rfl

theorem ceil_eq (m : Int) (hn : 0 < n) : (if m - m / n * n = 0 then m / n else m / n + 1) =
    -(-m / n) := by
  have hdvd : m - m / n * n = 0 ↔ n ∣ m :=
    by rw [Int.dvd_iff_emod_eq_zero, Int.emod_def, mul_comm n]
  rw [Int.neg_ediv, Int.sign_eq_one_of_pos hn]
  split <;> omega

theorem roundNumbers_floor (m : Int) (hn : 0 < n) :
    roundNumbers false .divFloor (.rat m) (.rat n) = .ok (.rat (m / n : Int)) := by
  simp [roundNumbers, floorDiv_ints m hn, Number.ofInt]

theorem roundNumbers_ceil (m : Int) (hn : 0 < n) :
    roundNumbers false .divCeil (.rat m) (.rat n) = .ok (.rat (-(-m / n) : Int)) := by
  have hzero : ((m - m / n * n : Int) : Rat) = 0 ↔ m - m / n * n = 0 := Int.cast_eq_zero
  simp only [roundNumbers, floorDiv_ints m hn, hzero, ← ceil_eq m hn]
  split <;> rfl

end IntegerFunction

/-! ### Planes of cells -/

def GridField.plane (name : String) : GridField where
  name := name
  kind := .generic
  dtype := .double
  layout := [0, 1]
  shape := [.shape ["f", "g"] 0, .shape ["f", "g"] 1]
  strides := [.stride name 0, .stride name 1]

/-- A plane with four rows of five cells. -/
def Machine.State.plane : State Whole where
  env := fun y => match y.kind with
    | .shape _ 0 => some (.int 4)
    | .shape _ 1 => some (.int 5)
    | _ => none
  mem := fun _ => none

def Machine.State.planeExtent (x : Extent) : Int := if x = .shape ["f", "g"] 1 then 5 else 4

theorem Machine.State.plane_sized (name : String) :
    plane.Sized dividing planeExtent (GridField.plane name).spatialShape :=
  fun x hx y hy => by rcases mem_pair.1 hx with rfl | rfl <;> obtain rfl := Option.some.inj hy <;> rfl

theorem Slice.selects_plane : SelectsAll [.range (some (.at (.lit 1))) none none, .whole] [4, 5]
    [(1, 4), (0, 5)] :=
  .cons (.range (some 1) none (.inl rfl)) (by decide) (by decide)
    (.cons (.range none none (.inl rfl)) (by decide) (by decide) .nil)

end StencilForge
