import StencilForge.Proofs.Collecting
import StencilForge.Proofs.Launches

/-!
# Proofs — bounds of a launch

Blocks of threads keep the bounds that they are given (`Threads.launch_bounds`): threads that one
direction does not need go to the next one, and no more than these (`Threads.adapt_ints`).
-/

open List StencilForge.Expr StencilForge.Outcome

namespace StencilForge

open IntegerFunction

variable {A : Algebra} {f : GridField} {dim : Nat} {D S W : Ints}

/-! ### Whole numbers -/

theorem Elementary.extremum_ints (A : Algebra) (m n : Int) :
    extremum A true [.int m, .int n] = .int (min m n) := by
  have hcompare : ∀ m n : Int, compareValues A (.int m) (.int n) =
    some (if m < n then .lt else if m = n then .eq else .gt) := fun m n => by
    simp [compareValues, int, Number.compare?, Number.toRat?]
  have hsame : ∀ a b : Number, (num a == num b) = decide (a = b) := fun a b => by
    change same _ _ = _
    rw [Bool.eq_iff_iff]
    simp [same]
  simp only [int] at hcompare ⊢
  rcases lt_trichotomy m n with h | rfl | h
  · simp [extremum, unionNew, insertNew, keepExtreme, hcompare, bne, hsame, h.ne', not_lt_of_gt h,
      min_eq_left h.le]
  · simp [extremum, unionNew, insertNew, keepExtreme, bne, hsame]
  · simp [extremum, unionNew, insertNew, keepExtreme, hcompare, bne, hsame, h, h.ne, h.ne',
      not_lt_of_gt h, min_eq_right h.le]

namespace Threads

open Slice

/-- Whole numbers are real numbers, so that they can be compared. -/
theorem least_ints (A : Algebra) (m n : Int) :
    least A.next (.int m) (.int n) = .ok (.int (min m n)) := by
  have hreal : ∀ k : Int, A.next.isNot .extReal (.int k) = false := fun k => by
    have hsigned : ∀ b : Bool, ∀ s ∈ [Fact.positive, .negative],
        (Facts.ofList [(.integer, true), (.even, b), (s, true)]).fails .extReal = false :=
          by decide +kernel
    have hzero : (Facts.ofList [(.integer, true), (.even, true), (.zero, true)]).fails .extReal =
      false := by decide +kernel
    have hfacts : A.next.facts (.int k) = Number.facts (.rat k) :=
      by simp only [Algebra.next, int, Judgement.factsOf]
    rw [Algebra.isNot, hfacts, Number.facts]
    simp only [Rat.den_intCast, Rat.num_intCast, Int.cast_eq_zero, if_true]
    by_cases hk : k = 0
    · simp only [hk, if_true]
      exact hzero
    · simp only [if_neg hk]
      refine hsigned _ _ ?_
      split_ifs <;> simp
  have hkind : ∀ k : Int, (int k == .const .complexInf || (int k).isBoolean && !(int k).isSymbol) =
    false := fun _ => rfl
  have hany : [int m, int n].any (fun x =>
    A.next.isNot .extReal x && !x.isNan || x == .const .complexInf || x.isBoolean && !x.isSymbol) =
    false := by
    simp [hreal, Bool.or_assoc, hkind]
  change Build.extremum A.next .min [.int m, .int n] = _
  rw [Build.extremum, hany]
  exact congrArg Except.ok (Elementary.extremum_ints A m n)

theorem prod_ints (A : Algebra) (S : Ints) : A.next.prod (S.map .int) = .int S.prod := by
  suffices ∀ v : Int, (S.map int).foldl A.next.mul2 (.int v) = .int (v * S.prod) by
    rw [← one_mul S.prod]
    exact this 1
  induction S with
  | nil => simp
  | cons n S ih =>
    intro v
    rw [map_cons, foldl_cons, Algebra.mul2, A.mul_ints, ih, prod_cons, mul_assoc]

theorem mapM_zip_ints {α : Type} {g : Expr × α → Outcome Expr} {d : Int → α} {q : Int → Int → Int}
    {X Y : Ints}
    (h : ∀ x, ∀ y ∈ Y, g (.int x, d y) = .ok (.int (q x y))) :
    ((X.map int).zip (Y.map d)).mapM g = .ok ((zipWith q X Y).map int) := by
  induction X generalizing Y with
  | nil => rfl
  | cons x X ih =>
    cases Y with
    | nil => rfl
    | cons y Y => exact mapM_eq_ok.2 (.cons (h x y mem_cons_self)
      (mapM_eq_ok.1 (ih fun x y hy => h x y (mem_cons_of_mem _ hy))))

/-! ### Products -/

theorem prod_take_le (h : ∀ v ∈ S, 1 ≤ v) (m : Nat) : (S.take m).prod ≤ S.prod := by
  have htake := one_le_prod fun v hv => h v (mem_of_mem_take (i := m) hv)
  have hdrop := one_le_prod fun v hv => h v (mem_of_mem_drop (i := m) hv)
  conv_rhs => rw [← take_append_drop m S, prod_append]
  exact le_mul_of_one_le_right (by omega) hdrop

theorem prod_min_le {X Y : Ints} (hX : ∀ x ∈ X, 1 ≤ x) (hY : ∀ y ∈ Y, 1 ≤ y) :
    (zipWith min X Y).prod ≤ X.prod := by
  induction X generalizing Y with
  | nil => exact le_rfl
  | cons x X ih =>
    cases Y with
    | nil => exact one_le_prod hX
    | cons y Y =>
      obtain ⟨hx, hX⟩ := forall_mem_cons.1 hX
      obtain ⟨hy, hY⟩ := forall_mem_cons.1 hY
      have hpos := one_le_prod hX
      calc min x y * (zipWith min X Y).prod ≤ min x y * X.prod :=
        mul_le_mul_of_nonneg_left (ih hX hY) (by omega)
        _ ≤ x * X.prod := mul_le_mul_of_nonneg_right (min_le_left x y) (by omega)

/-! ### Blocks -/

/-- Each direction has a thread for some of its cells, and all of them are no more than there were.
-/
theorem adapt_ints (hS : ∀ v ∈ S, 1 ≤ v) (hW : ∀ w ∈ W, 1 ≤ w) (hlen : W.length ≤ S.length) :
    ∃ D : Ints, adapt A.next (S.map .int) (W.map .int) = .ok (D.map .int) ∧
      Forall₂ (fun d w => 1 ≤ d ∧ d ≤ w) D W ∧
      D.prod ≤ (S.take W.length).prod := by
  -- the last direction takes what the ones before it leave
  induction W using reverseRecOn with
  | nil => exact ⟨[], rfl, .nil, by simp⟩
  | append_singleton W w ih =>
    rw [length_append] at hlen
    obtain ⟨hW, hw⟩ := forall_mem_append.1 hW
    obtain ⟨D, hD, hall, hprod⟩ := ih hW (by omega)
    have hDpos : 1 ≤ D.prod := one_le_prod fun d hd => by
      obtain ⟨w, -, hd⟩ := exists_of_forall₂ hall.flip hd
      exact hd.1
    have hm : S[W.length]? = some S[W.length] := getElem?_eq_getElem hlen
    obtain ⟨hshare, hnext⟩ := share_le (hS _ (getElem_mem hlen)) hDpos hprod hm
    refine ⟨_, ?_, rel_append hall (.cons ⟨le_min hshare (hw w (mem_singleton_self w)),
      min_le_right _ _⟩ .nil), by
      rwa [length_append]⟩
    have hfloor : Build.node A.next (.fn .divFloor) [.int (S.take W.length).prod, .int D.prod] =
      .ok (.int ((S.take W.length).prod / D.prod)) :=
      rounding_ints (roundNumbers_floor _ hDpos)
    rw [adapt_eq] at hD ⊢
    rw [map_append, zipIdx_append, foldlM_append, hD, length_map, zero_add]
    refine bind_eq_ok.2 ⟨_, rfl, bind_eq_ok.2 ⟨_, ?_, rfl⟩⟩
    rw [adaptOne, getElem?_map, hm, ← map_take, prod_ints, prod_ints, hfloor]
    exact bind_eq_ok.2 ⟨_, rfl, bind_eq_ok.2 ⟨_,
      by rw [Algebra.mul2, A.mul_ints, least_ints], by rw [map_append]; rfl⟩⟩

theorem launch_ints {xs : List Extent} {ns : List Normal} {shape maximum : Ints}
    (hS : ∀ v ∈ S, 1 ≤ v) (hSlen : S.length ≤ 3)
    (hW : widths A.next ns xs shape = .ok (W.map .int)) (hWpos : ∀ w ∈ W, 1 ≤ w)
    (hlen : W.length ≤ S.length) (hmax : maximum.length = 3)
    (hmaxpos : ∀ v ∈ maximum, 1 ≤ v) :
    ∃ (B : Ints) (G : Exprs), (blocks (S.map .lit) false maximum ns xs).launch A.next shape =
      .ok ⟨B.map .int, G⟩ ∧
      W.length ≤ B.length ∧ (∀ (k : Nat) b, B[k]? = some b → 1 ≤ b ∧
        (∃ m, maximum[k]? = some m ∧ b ≤ m) ∧ ∀ w, W[k]? = some w → b ≤ w) ∧
      B.prod ≤ S.prod := by
  let ones : Ints := replicate (3 - S.length) 1
  have hones : ∀ v ∈ ones, 1 ≤ v := fun v hv => (eq_of_mem_replicate hv).ge
  have hfull : (S.map lit).map (·.ofPosition) ++ replicate (3 - S.length) .one =
    (S ++ ones).map .int := by
    rw [map_append, map_map, map_replicate]
    rfl
  have hFpos : ∀ v ∈ S ++ ones, 1 ≤ v := forall_mem_append.2 ⟨hS, hones⟩
  have hFlen : (S ++ ones).length = 3 := by simp [ones]; omega
  obtain ⟨D, hadapt, hD, hDprod⟩ := adapt_ints hFpos hWpos (by omega)
  have hpos : ∀ v ∈ D ++ ones, 1 ≤ v := forall_mem_append.2 ⟨fun d hd => by
    obtain ⟨w, -, hd⟩ := exists_of_forall₂ hD.flip hd
    exact hd.1, hones⟩
  have hentry : ∀ (k : Nat) b, (zipWith min (D ++ ones) maximum)[k]? = some b →
      ∃ x m, (D ++ ones)[k]? = some x ∧ maximum[k]? = some m ∧ 1 ≤ min x m ∧ min x m = b :=
        fun k b hb => by
    obtain ⟨x, m, hx, hm, h⟩ := getElem?_zipWith_eq_some.1 hb
    exact ⟨x, m, hx, hm, le_min (hpos x (mem_of_getElem? hx)) (hmaxpos m (mem_of_getElem? hm)), h⟩
  generalize hB : zipWith min (D ++ ones) maximum = B at hentry
  have hblock := mapM_zip_ints (g := fun p => least A.next p.1 (.int p.2)) (d := id)
    (X := D ++ ones) fun x y (_ : y ∈ maximum) => least_ints A x y
  have hgrid := mapM_zip_ints (g := fun p => Build.node A.next (.fn .divCeil) [p.1, p.2])
    (d := .int) (q := fun w b => -(-w / b)) (X := W)
    fun w b hb => by
      obtain ⟨k, hk⟩ := getElem?_of_mem hb
      obtain ⟨x, m, -, -, hone, rfl⟩ := hentry k b hk
      exact rounding_ints (roundNumbers_ceil w hone)
  rw [map_id, hB, map_append, map_replicate] at hblock
  have hlaunch : ∃ G, (Threads.blocks (S.map .lit) false maximum ns xs).launch A.next shape =
    .ok ⟨B.map .int, G⟩ := by
    rw [← hfull] at hadapt
    rw [launch, hW, length_map]
    exact ⟨_, bind_eq_ok.2 ⟨_, rfl, bind_eq_ok.2 ⟨(), require_eq_ok.2 (by simp; omega),
      bind_eq_ok.2 ⟨_, hadapt, bind_eq_ok.2 ⟨_, rfl,
      bind_eq_ok.2 ⟨_, hblock, bind_eq_ok.2 ⟨_, hgrid, rfl⟩⟩⟩⟩⟩⟩⟩
  obtain ⟨G, hG⟩ := hlaunch
  refine ⟨B, G, hG, ?_, fun k b hb => ?_, ?_⟩
  · rw [← hB, length_zipWith, length_append, hD.length_eq]
    omega
  · obtain ⟨x, m, hx, hm, hone, rfl⟩ := hentry k b hb
    refine ⟨hone, ⟨m, hm, min_le_right x m⟩, fun w hw => (min_le_left x m).trans ?_⟩
    obtain ⟨hk, rfl⟩ := List.getElem?_eq_some_iff.1 hw
    have hkD : k < D.length := hD.length_eq ▸ hk
    rw [getElem?_append_left hkD, getElem?_eq_getElem hkD] at hx
    exact Option.some.inj hx ▸ (hD.get hkD hk).2
  · calc B.prod ≤ (D ++ ones).prod := hB ▸ prod_min_le hpos hmaxpos
      _ = D.prod := by simp [ones]
      _ ≤ ((S ++ ones).take W.length).prod := hDprod
      _ ≤ (S ++ ones).prod := prod_take_le hFpos _
      _ = S.prod := by simp [ones]

/-- The fastest coordinate gets the largest extent of a block, if extents are permuted. -/
theorem launch_bounds (f : GridField) (ss : List Slice) (size : List Int) (permute : Bool)
    (maximum : List Int) {shape : List Int} {ns : List Normal}
    (hlayout : f.layout.Perm (Layout.ascending dim)) (hpos : 1 ≤ dim) (hdim : dim ≤ 3)
    (hlen : size.length = 3) (hsize : ∀ v ∈ size, 1 ≤ v)
    (hmax : maximum.length = 3) (hmaxpos : ∀ v ∈ maximum, 1 ≤ v)
    (hns : normalize .standard ss (f.spatialShape.map Domain.bound) = .ok ns)
    (hW : widths .standard ns f.spatialShape shape = .ok (W.map .int)) (hWlen : W.length = dim)
    (hWpos : ∀ w ∈ W, 1 ≤ w) :
    (∃ (t : Threads) (L : Launch) (B : List Int) (n : Int),
      ofBlocks .standard f ss (size.map .lit) permute false maximum = .ok t ∧
      t.launch .standard shape = .ok L ∧ L.block = B.map .int ∧
        t.maxThreads .standard = some (.int n) ∧ dim ≤ B.length ∧
      (∀ (k : Nat) b, B[k]? = some b → 1 ≤ b ∧ (∃ m, maximum[k]? = some m ∧ b ≤ m) ∧ ∀ w,
        W[k]? = some w → b ≤ w) ∧ B.prod ≤ n) ∧
    ∃ S, BlockSize.permute size f.layout = .ok S ∧ S.prod = size.prod ∧ ∃ b,
      S[(f.layout.getLastD 0).toNat]? = some b ∧ ∀ v ∈ S, v ≤ b := by
  constructor
  · obtain ⟨S, ht, hSlen, hSpos⟩ := ofBlocks_sizes size permute maximum hlayout hpos hdim hsize
      (fun _ => by omega) hns
    have hS : dim ≤ S.length ∧ S.length ≤ 3 := by
      rw [hSlen]
      split <;> omega
    obtain ⟨B, G, hL, hBlen, hentry, hprod⟩ :=
      launch_ints (A := .level 149) hSpos hS.2 hW hWpos (by omega) hmax hmaxpos
    refine ⟨_, _, B, S.prod, ht, hL, rfl, ?_, by omega, hentry, hprod⟩
    have hnums : areNumbers (S.map .lit) = true := by simp [areNumbers, Expr.int?]
    rw [maxThreads, if_pos hnums, map_map]
    exact congrArg some (prod_ints (.level 149) S)
  · obtain ⟨S, hS, -, -, hprod, hfast⟩ := BlockSize.permute_spec hlayout hpos (by omega) hsize
    exact ⟨S, hS, hprod, hfast⟩

/-- One row without its ends. -/
theorem launch_bounds_row :
    let ss : List Slice := [.point (.at (.lit 1)),
      .range (some (.at (.lit 1))) (some (.at (.lit (-1)))) none]
    ∃ (t : Threads) (L : Launch) (B : List Int) (n : Int), ofBlocks .standard (.plane "f") ss =
      .ok t ∧ t.launch .standard [4, 5] = .ok L ∧
      L.block = B.map .int ∧ t.maxThreads .standard = some (.int n) ∧
        (∀ (k : Nat) b, B[k]? = some b → ∀ w, [1, 3][k]? = some w → b ≤ w) ∧ B.prod ≤ n := by
  intro ss
  have hns : normalize .standard ss ((GridField.plane "f").spatialShape.map Domain.bound) =
      .ok [.point (.lit 1), .range (.lit 1) (.plus ⟨"_size_f_g_1", .shape ["f", "g"] 1⟩ (-1))
        (.lit 1)] := by cbv
  have hW : widths .standard [.point (.lit 1),
    .range (.lit 1) (.plus ⟨"_size_f_g_1", .shape ["f", "g"] 1⟩ (-1)) (.lit 1)]
      (GridField.plane "f").spatialShape [4, 5] = .ok ([1, 3].map .int) := by cbv
  obtain ⟨⟨t, L, B, n, ht, hL, hblock, hn, -, hentry, hprod⟩, -⟩ :=
    launch_bounds (.plane "f") ss [16, 16, 1] true [1024, 1024, 64]
    (show [0, 1].Perm (Layout.ascending 2) by decide) (by decide) (by decide) rfl (by decide) rfl
    (by decide) hns hW rfl (by decide)
  exact ⟨t, L, B, n, ht, hL, hblock, hn, fun k b hb => (hentry k b hb).2.2, hprod⟩

end Threads

end StencilForge
