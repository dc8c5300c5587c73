import StencilForge.Proofs.Addresses

/-!
# Proofs — strides of a layout

Along a layout the stride of a coordinate is the number of elements in the coordinates behind it
(`Layout.weight`), so that the number of an element is written in digits whose bases are the extents
(`Layout.number`).
-/

open List StencilForge.Outcome

namespace StencilForge

open Storage Function

namespace Layout

variable {e x y : Int → Int} {item j k m : Int} {l shape layout : Ints}

/-- How many elements a step along a coordinate passes. -/
def weight (e : Int → Int) : Ints → Int → Int
  | [], _ => 0
  | k :: r, j => if j = k then (r.map e).prod else weight e r j

/-- The number of the element at `x`, in the order of memory. -/
def number (e x : Int → Int) (l : Ints) : Int := (l.map fun j => x j * weight e l j).sum

theorem number_cons (h : k ∉ l) : number e x (k :: l) = x k * (l.map e).prod + number e x l := by
  have hw : ∀ j ∈ l, x j * weight e (k :: l) j = x j * weight e l j := fun j hj => by
    rw [weight, if_neg (ne_of_mem_of_not_mem hj h)]
  rw [number, map_cons, map_congr_left hw, weight, if_pos rfl]
  rfl

theorem number_lt (hl : l.Nodup) (hx : ∀ j ∈ l, 0 ≤ x j ∧ x j < e j) :
    0 ≤ number e x l ∧ number e x l < (l.map e).prod := by
  induction l with
  | nil => simp [number]
  | cons k l ih =>
    obtain ⟨hk, hl⟩ := nodup_cons.1 hl
    obtain ⟨⟨h₀, h₁⟩, hx⟩ := forall_mem_cons.1 hx
    obtain ⟨ih₀, ih₁⟩ := ih hl hx
    rw [number_cons hk, map_cons, prod_cons]
    constructor <;> nlinarith

/-- Division by the elements of the later coordinates gives the first digit. -/
theorem number_inj (hl : l.Nodup) (hx : ∀ j ∈ l, 0 ≤ x j ∧ x j < e j)
    (hy : ∀ j ∈ l, 0 ≤ y j ∧ y j < e j)
    (h : number e x l = number e y l) : ∀ j ∈ l, x j = y j := by
  induction l with
  | nil => simp
  | cons k l ih =>
    obtain ⟨hk, hl⟩ := nodup_cons.1 hl
    have hx := (forall_mem_cons.1 hx).2
    have hy := (forall_mem_cons.1 hy).2
    have hdigit : ∀ z, (∀ j ∈ l, 0 ≤ z j ∧ z j < e j) →
      number e z (k :: l) / (l.map e).prod = z k := fun z hz => by
      obtain ⟨h₀, h₁⟩ := number_lt hl hz
      rw [number_cons hk, add_comm, Int.add_mul_ediv_right _ _ (h₀.trans_lt h₁).ne',
        Int.ediv_eq_zero_of_lt h₀ h₁, zero_add]
    have hfirst : x k = y k := by rw [← hdigit x hx, h, hdigit y hy]
    rw [number_cons hk, number_cons hk, hfirst] at h
    exact forall_mem_cons.2 ⟨hfirst, ih hl hx hy (add_left_cancel h)⟩

theorem exists_number (hl : l.Nodup) (he : ∀ j ∈ l, 0 < e j) (h₀ : 0 ≤ m)
    (h₁ : m < (l.map e).prod) :
    ∃ x : Int → Int, (∀ j ∈ l, 0 ≤ x j ∧ x j < e j) ∧ number e x l = m := by
  induction l generalizing m with
  | nil =>
    obtain rfl : m = 0 := by simp at h₁; omega
    exact ⟨0, by simp, rfl⟩
  | cons k l ih =>
    obtain ⟨hk, hl⟩ := nodup_cons.1 hl
    obtain ⟨hek, he⟩ := forall_mem_cons.1 he
    have hpos : 0 < (l.map e).prod := prod_pos (forall_mem_map.2 he)
    obtain ⟨x, hx, hm⟩ := ih hl he (Int.emod_nonneg m hpos.ne') (Int.emod_lt_of_pos m hpos)
    have hother : ∀ j ∈ l, update x k (m / (l.map e).prod) j = x j := fun j hj =>
      update_of_ne (ne_of_mem_of_not_mem hj hk) ..
    refine ⟨update x k (m / (l.map e).prod),
      forall_mem_cons.2 ⟨?_, fun j hj => by rw [hother j hj]; exact hx j hj⟩, ?_⟩
    · rw [update_self]
      exact ⟨Int.ediv_nonneg h₀ hpos.le, Int.ediv_lt_of_lt_mul hpos (by rwa [map_cons] at h₁)⟩
    · have hsame : number e (update x k (m / (l.map e).prod)) l = m % (l.map e).prod := by
        rw [← hm]
        exact congrArg sum (map_congr_left fun j hj => by rw [hother j hj])
      rw [number_cons hk, update_self, hsame, mul_comm, Int.mul_ediv_add_emod]

/-! ### Strides are weights -/

theorem eraseDups_of_nodup (h : l.Nodup) : l.eraseDups = l := by
  induction l with
  | nil => rfl
  | cons a l ih =>
    obtain ⟨ha, hl⟩ := nodup_cons.1 h
    rw [eraseDups_cons, filter_eq_self.2 fun b hb =>
      by simpa using ne_of_mem_of_not_mem hb ha, ih hl]

def extent (shape : Ints) (j : Int) : Int := shape.getD j.toNat 1

/-- The coordinates are visited from the fastest to the slowest one. -/
theorem strides_eq (h : layout.Perm (ascending shape.length)) :
    strides shape layout = .ok ((ascending shape.length).map (weight (extent shape) layout)) := by
  have hlen : layout.length = shape.length := by simpa [ascending] using h.length_eq
  have hdups := eraseDups_of_nodup (h.nodup_iff.2 (ascending_nodup _))
  suffices ∀ l, (∀ j ∈ l, j ∈ ascending shape.length) →
      (l.reverse.foldlM (fun st j => do
        let k ← place shape.length j
        return (st.1.set k st.2, st.2 * shape.getD k 1)) (replicate shape.length 0, 1) :
          Outcome (Ints × Int)) =
      .ok ((ascending shape.length).map (weight (extent shape) l), (l.map (extent shape)).prod) by
    simp only [strides, hlen, hdups, beq_self_eq_true]
    exact bind_eq_ok.2 ⟨(), rfl, bind_eq_ok.2 ⟨(), rfl,
      bind_eq_ok.2 ⟨_, this layout fun j hj => h.mem_iff.1 hj, rfl⟩⟩⟩
  intro l hl
  induction l with
  | nil => simp [ascending, weight, comp_def]
  | cons j l ih =>
    obtain ⟨hj, hl⟩ := forall_mem_cons.1 hl
    obtain ⟨h₀, h₁⟩ := mem_ascending.1 hj
    rw [reverse_cons, foldlM_append, ih hl]
    refine bind_eq_ok.2 ⟨_, rfl, bind_eq_ok.2 ⟨_,
      bind_eq_ok.2 ⟨_, (place_eq_ok_iff h₀).2 ⟨rfl, by omega⟩, rfl⟩, ?_⟩⟩
    have hset : ((ascending shape.length).map (weight (extent shape) l)).set j.toNat (l.map
      (extent shape)).prod =
        (ascending shape.length).map (weight (extent shape) (j :: l)) := by
      refine ext_getElem (by simp) fun k hk hk' => ?_
      have : j.toNat = k ↔ k = j := by omega
      simp [getElem_set, ascending, weight, this]
    rw [map_cons, mul_comm, ← hset]
    rfl

theorem foldl_extents (hl : ∀ n ∈ l, 0 < n) (n : Int) :
    l.foldl (fun n d => if d = 0 then n else n * d) n = n * l.prod := by
  induction l generalizing n with
  | nil => simp
  | cons a l ih =>
    obtain ⟨ha, hl⟩ := forall_mem_cons.1 hl
    rw [foldl_cons, if_neg ha.ne', ih hl, prod_cons, mul_assoc]

theorem rowStrides_map (item : Int) (hl : l.Nodup) (he : ∀ j ∈ l, 0 < e j) :
    rowStrides item (l.map e) = l.map fun j => item * weight e l j := by
  induction l with
  | nil => rfl
  | cons k l ih =>
    obtain ⟨hk, hl⟩ := nodup_cons.1 hl
    obtain ⟨-, he⟩ := forall_mem_cons.1 he
    rw [map_cons, rowStrides, foldl_extents (forall_mem_map.2 he), ih hl he, map_cons, weight,
      if_pos rfl]
    refine congrArg _ (map_congr_left fun j hj => ?_)
    rw [weight, if_neg (ne_of_mem_of_not_mem hj hk)]

theorem extent_mem (h : j ∈ ascending shape.length) : extent shape j ∈ shape := by
  obtain ⟨h₀, h₁⟩ := mem_ascending.1 h
  rw [extent, getD_eq_getElem _ _ (by omega)]
  exact getElem_mem _

/-! ### Exchanges -/

section

variable {xs : Ints} {p : Nat × Nat} {swaps : List (Nat × Nat)}

@[simp] theorem length_exchange : (exchange xs p).length = xs.length := by simp [exchange]

theorem exchange_map (f : Int → Int) (hp : p.1 < xs.length ∧ p.2 < xs.length) :
    exchange (xs.map f) p = (exchange xs p).map f := by
  simp [exchange, hp.1, hp.2, map_set]

theorem exchange_exchange (hp : p.1 < xs.length ∧ p.2 < xs.length) :
    exchange (exchange xs p) p = xs := by
  obtain ⟨a, b⟩ := p
  refine ext_getElem (by simp) fun k hk hk' => ?_
  by_cases ha : a = k <;> by_cases hb : b = k <;> simp_all [exchange, getElem_set]

/-- All exchanges are between places of a list of this length. -/
def Within (n : Nat) (swaps : List (Nat × Nat)) : Prop := ∀ p ∈ swaps, p.1 < n ∧ p.2 < n

theorem foldl_exchange_map (f : Int → Int) (h : Within xs.length swaps) :
    swaps.foldl exchange (xs.map f) = (swaps.foldl exchange xs).map f := by
  induction swaps generalizing xs with
  | nil => rfl
  | cons p swaps ih =>
    obtain ⟨hp, h⟩ := forall_mem_cons.1 h
    rw [foldl_cons, foldl_cons, exchange_map f hp]
    exact ih (by rwa [Within, length_exchange])

/-- In the reverse order, exchanges restore what was there. -/
theorem foldl_reverse_exchange (h : Within xs.length swaps) :
    swaps.reverse.foldl exchange (swaps.foldl exchange xs) = xs := by
  induction swaps generalizing xs with
  | nil => rfl
  | cons p swaps ih =>
    obtain ⟨hp, h⟩ := forall_mem_cons.1 h
    rw [foldl_cons, reverse_cons, foldl_append, ih (by rwa [Within, length_exchange])]
    exact exchange_exchange hp

theorem exchange_append (pre a b : Ints) (j k : Int) :
    exchange (pre ++ k :: (a ++ j :: b)) (pre.length, pre.length + (a.length + 1)) =
      pre ++ j :: (a ++ k :: b) := by
  simp [exchange]

/-- The places in front of `i` are settled. -/
theorem exchanges_spec (pre : Ints) {rest : Ints} (hnodup : (pre ++ rest).Nodup)
    (h : rest.Perm layout) :
    ∃ swaps, exchanges (pre ++ rest) pre.length layout = .ok swaps ∧
      Within (pre ++ rest).length swaps ∧
      swaps.foldl exchange (pre ++ rest) = pre ++ layout := by
  induction layout generalizing pre rest with
  | nil => exact ⟨[], rfl, nofun, by rw [h.eq_nil]; rfl⟩
  | cons j layout ih =>
    obtain ⟨k, r, rfl⟩ := exists_cons_of_ne_nil (ne_nil_of_mem (h.mem_iff.2 mem_cons_self))
    have hat : (pre ++ k :: r)[pre.length]? = some k := by simp
    by_cases hk : k = j
    · subst hk
      obtain ⟨swaps, hs, hin, hfold⟩ := ih (pre ++ [k]) (by simpa using hnodup) h.cons_inv
      simp only [append_assoc, singleton_append, length_append, length_singleton] at hs hin hfold
      exact ⟨swaps, by simpa [exchanges] using hs, by simpa [Within] using hin, hfold⟩
    · -- the wanted coordinate stands further behind
      obtain ⟨a, b, rfl⟩ := append_of_mem ((mem_cons.1 (h.mem_iff.2 mem_cons_self)).resolve_left
        (Ne.symm hk))
      have hidx : (pre ++ k :: (a ++ j :: b)).idxOf j = pre.length + (a.length + 1) := by
        have hpre : j ∉ pre := fun hj => (nodup_append.1 hnodup).2.2 j hj j (by simp) rfl
        have ha : j ∉ a := fun hj => by
          have := (nodup_cons.1 (nodup_append.1 hnodup).2.1).2
          exact (nodup_append.1 this).2.2 j hj j (by simp) rfl
        rw [idxOf_append_of_notMem hpre, idxOf_cons_ne _ hk, idxOf_append_of_notMem ha,
          idxOf_cons_self]
      have hperm : (k :: (a ++ j :: b)).Perm (j :: (a ++ k :: b)) :=
        ((perm_middle.cons k).trans (.swap ..)).trans (perm_middle.symm.cons j)
      have hnew : ((pre ++ [j]) ++ (a ++ k :: b)).Nodup := by
        rw [append_assoc, singleton_append]
        exact (hperm.append_left pre).nodup_iff.1 hnodup
      have hswap := exchange_append pre a b j k
      obtain ⟨swaps, hs, hin, hfold⟩ := ih _ hnew (hperm.symm.trans h).cons_inv
      simp only [append_assoc, singleton_append, length_append, length_singleton] at hs hin hfold
      refine ⟨(pre.length, pre.length + (a.length + 1)) :: swaps, ?_,
        forall_mem_cons.2 ⟨by simp, by simpa [Within] using hin⟩, ?_⟩
      · simp only [exchanges, hat, if_neg hk, hidx, hswap]
        exact bind_eq_ok.2 ⟨swaps, hs, rfl⟩
      · rw [foldl_cons, hswap, hfold]

theorem le_of_exchanges (h : exchanges coords i layout = .ok swaps) (hi : i ≤ coords.length) :
    i + layout.length ≤ coords.length := by
  induction layout generalizing coords i swaps with
  | nil => exact hi
  | cons j layout ih =>
    unfold exchanges at h
    split at h
    · simp at h
    · next k hk =>
      have hlt := (List.getElem?_eq_some_iff.1 hk).1
      split at h
      · have := ih h hlt
        rw [length_cons]
        omega
      · obtain ⟨_, h, -⟩ := bind_eq_ok.1 h
        have := ih h (by simpa using hlt)
        rw [length_exchange] at this
        rw [length_cons]
        omega

end

theorem exchanges_ascending (h : layout.Perm (ascending shape.length)) :
    ∃ swaps, exchanges (ascending shape.length) 0 layout = .ok swaps ∧ Within shape.length swaps ∧
      ∀ f, swaps.foldl exchange ((ascending shape.length).map f) = layout.map f := by
  obtain ⟨swaps, hs, hin, hfold⟩ := exchanges_spec [] (ascending_nodup shape.length) h.symm
  refine ⟨swaps, hs, by simpa [ascending] using hin, fun f => ?_⟩
  exact (foldl_exchange_map f hin).trans (congrArg (map f) hfold)

/-- A list that passes the checks is an order of the coordinates. -/
theorem perm_ascending {swaps : List (Nat × Nat)}
    (hall : (layout.all ((ascending shape.length).contains ·) && (ascending shape.length).all
      (layout.contains ·)) = true)
    (h : exchanges (ascending shape.length) 0 layout = .ok swaps) :
    layout.Perm (ascending shape.length) := by
  simp only [Bool.and_eq_true, all_eq_true, contains_iff_mem] at hall
  have hlen := le_of_exchanges h (Nat.zero_le _)
  rw [zero_add] at hlen
  exact ((subperm_of_subset (ascending_nodup _) hall.2).perm_of_length_le hlen).symm

theorem withLayout_eq (item : Nat) (hshape : ∀ n ∈ shape, 0 < n)
    (h : layout.Perm (ascending shape.length)) :
    withLayout item shape layout none =
      .ok ⟨shape, (ascending shape.length).map fun j => item * weight (extent shape) layout j⟩ := by
  obtain ⟨swaps, hs, hin, hfold⟩ := exchanges_ascending h
  have hself : (ascending shape.length).map (extent shape) = shape := map_getD_ascending 1 rfl
  have hordered : swaps.foldl exchange shape = layout.map (extent shape) := by
    rw [← hfold, hself]
  have hall : (layout.all ((ascending shape.length).contains ·) && (ascending shape.length).all
    (layout.contains ·)) = true := by
    simp [h.mem_iff]
  have hlayout : (swaps.foldl exchange (ascending shape.length) == layout) = true := by
    simpa using hfold id
  have hback : ∀ f, swaps.reverse.foldl exchange (layout.map f) = (ascending shape.length).map f :=
    fun f => by
    rw [← hfold f]
    exact foldl_reverse_exchange (by simpa [ascending] using hin)
  have hstrides := rowStrides_map item (h.nodup_iff.2 (ascending_nodup _))
    fun j hj => hshape _ (extent_mem (h.mem_iff.1 hj))
  refine bind_eq_ok.2 ⟨(), requireWith_eq_ok.2 hall,
    bind_eq_ok.2 ⟨swaps, hs, bind_eq_ok.2 ⟨(), require_eq_ok.2 hlayout, ?_⟩⟩⟩
  refine bind_eq_ok.2 ⟨dense item (layout.map (extent shape)), by rw [hordered], ?_⟩
  refine congrArg Except.ok (congrArg₂ mk ((hback _).trans hself) ?_)
  rw [dense, hstrides]
  exact hback _

/-! ### Strides tell the layout -/

theorem weight_lt (he : ∀ j ∈ l, 2 ≤ e j) (hj : j ∈ l) : weight e l j < (l.map e).prod := by
  induction l with
  | nil => simp at hj
  | cons k l ih =>
    obtain ⟨hk, he⟩ := forall_mem_cons.1 he
    have hpos : 0 < (l.map e).prod := prod_pos (forall_mem_map.2 fun j hj => by linarith [he j hj])
    rw [weight, map_cons, prod_cons]
    split_ifs with h
    · nlinarith
    · nlinarith [ih he ((mem_cons.1 hj).resolve_left h)]

theorem pairwise_weight (hl : l.Nodup) (he : ∀ j ∈ l, 2 ≤ e j) :
    l.Pairwise fun j k => weight e l k < weight e l j := by
  induction l with
  | nil => exact .nil
  | cons k l ih =>
    obtain ⟨hk, hl⟩ := nodup_cons.1 hl
    obtain ⟨-, he⟩ := forall_mem_cons.1 he
    have hw : ∀ j ∈ l, weight e (k :: l) j = weight e l j :=
      fun j hj => if_neg (ne_of_mem_of_not_mem hj hk)
    refine .cons (fun j hj => ?_) ((ih hl he).imp_of_mem fun hi hj h => by rwa [hw _ hi, hw _ hj])
    rw [hw j hj, weight, if_pos rfl]
    exact weight_lt he hj

theorem ofStrides_eq (hne : shape ≠ []) (hshape : ∀ n ∈ shape, 2 ≤ n)
    (h : layout.Perm (ascending shape.length)) :
    ofStrides ((ascending shape.length).map (weight (extent shape) layout)) [] = .ok layout := by
  let pair : Int → Int × Nat := fun j => (weight (extent shape) layout j, j.toNat)
  have hpairs : ((ascending shape.length).map (weight (extent shape) layout)).zipIdx =
    (ascending shape.length).map pair :=
    ext_getElem (by simp) fun k hk hk' => by simp [pair, ascending]
  have hweights : (layout.map pair).Pairwise fun a b => b.1 < a.1 := pairwise_map.2
    (pairwise_weight (h.nodup_iff.2 (ascending_nodup _)) fun j hj =>
      hshape _ (extent_mem (h.mem_iff.1 hj)))
  have hsorted : ((ascending shape.length).map pair).mergeSort
    (fun a b => b.1 ≤ a.1) = layout.map pair := by
    have hperm := (mergeSort_perm ((ascending shape.length).map pair) fun a b => decide
      (b.1 ≤ a.1)).trans (h.symm.map pair)
    have hpair := @pairwise_mergeSort (Int × Nat) (fun a b => decide (b.1 ≤ a.1)) (by simp; omega)
      (by simp; omega)
      ((ascending shape.length).map pair)
    refine Perm.eq_of_pairwise (fun a b ha hb hab hba => ?_) hpair
      (hweights.imp fun h => decide_eq_true h.le) hperm
    have hinj : ((layout.map pair).map Prod.fst).Nodup := pairwise_map.2 (hweights.imp ne_of_gt)
    exact inj_on_of_nodup_map hinj (hperm.mem_iff.1 ha) hb (by simp at hab hba; omega)
  have hcast : (layout.map pair).map (fun p => (p.2 : Int)) = layout := by
    rw [map_map]
    exact (map_congr_left fun j hj => Int.toNat_of_nonneg
      (mem_ascending.1 (h.mem_iff.1 hj)).1).trans (map_id _)
  have hused : ∀ xs : Ints, xs.zipIdx.filterMap (fun p => some p.1) = xs := fun xs => by
    rw [filterMap_eq_map', zipIdx_map_fst]
  simp only [ofStrides, contains_nil, Bool.false_eq_true, if_false, hused, hpairs, hsorted, hcast]
  exact normalize_of_perm (length_pos_of_ne_nil hne) h

/-- Elements have the numbers from zero on, an array without padding has the strides in bytes, and
the strides tell the layout if no coordinate is trivial. -/
theorem strides_spec (item : Nat) (hshape : ∀ n ∈ shape, 0 < n)
    (h : layout.Perm (ascending shape.length)) :
    ∃ out, strides shape layout = .ok out ∧
      Set.BijOn (fun i => (zipWith (· * ·) i out).sum)
        {i | Forall₂ (fun k n => 0 ≤ k ∧ k < n) i shape} (Set.Ico 0 shape.prod) ∧
      Storage.withLayout item shape layout none = .ok ⟨shape, out.map (item * ·)⟩ ∧
      (shape ≠ [] → (∀ n ∈ shape, 2 ≤ n) → ofStrides out [] = .ok layout) := by
  refine ⟨_, strides_eq h, ?_, by rw [withLayout_eq item hshape h, map_map]; rfl, fun hne htwo => ofStrides_eq hne htwo h⟩
  have hnodup := h.nodup_iff.2 (ascending_nodup _)
  have hself := map_getD_ascending 1 (rfl : shape.length = _)
  have hprod : (layout.map (extent shape)).prod = shape.prod := by
    rw [(h.map _).prod_eq]
    exact congrArg List.prod hself
  have hnumber : ∀ x, (zipWith (· * ·) ((ascending shape.length).map x)
    ((ascending shape.length).map (weight (extent shape) layout))).sum =
      number (extent shape) x layout := fun x => by
    rw [zipWith_map, zipWith_self]
    exact (h.symm.map _).sum_eq
  have hindex : ∀ x, Forall₂ (fun k n => 0 ≤ k ∧ k < n) ((ascending shape.length).map x) shape ↔
      ∀ j ∈ layout, 0 ≤ x j ∧ x j < extent shape j := fun x => by
    nth_rewrite 2 [← hself]
    rw [forall₂_map_left_iff, forall₂_map_right_iff, forall₂_same]
    simp only [h.mem_iff, extent]
  have hdigits : ∀ i, Forall₂ (fun k n => 0 ≤ k ∧ k < n) i shape → ∃ x,
    i = (ascending shape.length).map x := fun i hi =>
    ⟨_, (map_getD_ascending 0 hi.length_eq).symm⟩
  refine ⟨fun i hi => ?_, fun i hi i' hi' heq => ?_, fun m hm => ?_⟩
  · obtain ⟨x, rfl⟩ := hdigits i hi
    simpa only [hnumber, hprod, Set.mem_Ico] using number_lt hnodup ((hindex x).1 hi)
  · obtain ⟨x, rfl⟩ := hdigits i hi
    obtain ⟨y, rfl⟩ := hdigits i' hi'
    have := number_inj hnodup ((hindex x).1 hi) ((hindex y).1 hi')
      (by simpa only [hnumber] using heq)
    exact map_congr_left fun j hj => this j (h.mem_iff.2 hj)
  · obtain ⟨x, hx, hnum⟩ := exists_number hnodup
      (fun j hj => hshape _ (extent_mem (h.mem_iff.1 hj))) hm.1 (hprod ▸ hm.2)
    exact ⟨_, (hindex x).2 hx, (hnumber x).trans hnum⟩

/-- Two rows of three, stored column by column. -/
theorem strides_spec_columns :
    (∀ n ∈ ([2, 3] : List Int), 2 ≤ n) ∧ [1, 0].Perm (ascending 2) ∧ strides [2, 3]
    [1, 0] = .ok [1, 2] ∧
      Set.BijOn (fun i : List Int => (zipWith (· * ·) i [1, 2]).sum)
        {i | Forall₂ (fun k n => 0 ≤ k ∧ k < n) i [2, 3]} (Set.Ico 0 6) ∧
      Storage.withLayout 8 [2, 3] [1, 0] none = .ok ⟨[2, 3], [8, 16]⟩ ∧
        ofStrides [1, 2] [] = .ok [1, 0] := by
  have hperm : [1, 0].Perm (ascending 2) := by decide
  obtain ⟨out, hout, hbij, harray, hback⟩ :=
    strides_spec 8 (by decide : ∀ n ∈ ([2, 3] : List Int), 0 < n) hperm
  obtain rfl : [1, 2] = out := Except.ok.inj hout
  exact ⟨by decide, hperm, hout, hbij, harray, hback (by decide) (by decide)⟩

/-- An array of one element has no strides to tell a layout. -/
theorem ofStrides_nil : strides [] [] = .ok [] ∧ ofStrides [] [] = Failure.raise .invalid :=
  ⟨rfl, by simp [ofStrides, normalize]⟩

end Layout

end StencilForge
