import StencilForge.Proofs.Selections

/-!
# Proofs — arrays as functions of their indices

A `NdArray.Full` array is the function `get?`, and nothing else (`NdArray.Full.ext`).  If a window
selects no place twice, what is written into it is read from it again, and everything outside stays
(`NdArray.Full.assign`).  Slices without gaps select a box (`Window.of_selects`).
-/

open List StencilForge.Window

namespace StencilForge

namespace NdArray

open Window

variable {α : Type} {shape i j : Nats}

/-! ### Indices -/

theorem volume_eq_prod (shape : Nats) : volume shape = shape.prod := prod_eq_foldl.symm

theorem volume_cons (n : Nat) (ns : Nats) : volume (n :: ns) = n * volume ns := by
  rw [volume_eq_prod, volume_eq_prod, prod_cons]

theorem inside_iff : inside shape i = true ↔ Forall₂ (· < ·) i shape := by
  induction shape generalizing i with
  | nil => cases i <;> simp [inside]
  | cons n ns ih => cases i <;> simp [inside, ih]

theorem exists_of_inside_cons {n : Nat} {ns : Nats} (h : inside (n :: ns) i = true) :
    ∃ k js, k < n ∧ inside ns js = true ∧ i = k :: js := by
  obtain ⟨k, js, hk, hjs, rfl⟩ := forall₂_cons_right_iff.1 (inside_iff.1 h)
  exact ⟨k, js, hk, inside_iff.2 hjs, rfl⟩

theorem mem_indices : i ∈ indices shape ↔ inside shape i = true := by
  induction shape generalizing i with
  | nil => cases i <;> simp [indices, inside]
  | cons n ns ih => cases i <;> simp [indices, inside, ih]

theorem length_indices (shape : Nats) : (indices shape).length = volume shape := by
  induction shape with
  | nil => rfl
  | cons n ns ih => simp [indices, volume_cons, ih]

theorem nodup_indices (shape : Nats) : (indices shape).Nodup := by
  induction shape with
  | nil => simp [indices]
  | cons n ns ih =>
    refine nodup_flatMap.2 ⟨fun k _ => ih.map (cons_injective), ?_⟩
    refine nodup_range.pairwise_of_forall_ne fun k _ m _ hkm i hk hm => ?_
    obtain ⟨_, -, rfl⟩ := mem_map.1 hk
    obtain ⟨_, -, h⟩ := mem_map.1 hm
    exact hkm (cons.inj h).1.symm

theorem getElem?_flatMap_range {β : Type} {f : Nat → List β} {m : Nat} (hf : ∀ k, (f k).length = m)
    {n k p : Nat} (hk : k < n)
    (hp : p < m) : ((range n).flatMap f)[k * m + p]? = (f k)[p]? := by
  induction n with
  | zero => omega
  | succ n ih =>
    have hlen : ((range n).flatMap f).length = n * m := by simp [hf]
    rw [range_succ, flatMap_append, flatMap_singleton]
    rcases Nat.lt_succ_iff_lt_or_eq.1 hk with hk | rfl
    · have : k * m + p < n * m := by nlinarith
      rw [getElem?_append_left (by omega), ih hk]
    · rw [getElem?_append_right (by omega), hlen, Nat.add_sub_cancel_left]

theorem getElem?_indices (h : inside shape i = true) :
    (indices shape)[position shape i]? = some i := by
  induction shape generalizing i with
  | nil => cases i <;> simp_all [inside, indices, position]
  | cons n ns ih =>
    obtain ⟨k, is, hk, his, rfl⟩ := exists_of_inside_cons h
    replace his := ih his
    obtain ⟨hlt, -⟩ := List.getElem?_eq_some_iff.1 his
    rw [length_indices] at hlt
    rw [indices, position, getElem?_flatMap_range
      (fun j => by rw [length_map, length_indices]) hk hlt, getElem?_map, his]
    rfl

theorem position_lt (h : inside shape i = true) : position shape i < volume shape := by
  rw [← length_indices]
  exact (List.getElem?_eq_some_iff.1 (getElem?_indices h)).1

/-! ### Values -/

def Full (a : NdArray α) : Prop := a.data.size = volume a.shape

theorem full_ofFn (shape : Nats) (f : Nats → α) :
    (ofFn shape f).Full := by simp [Full, ofFn, length_indices]

theorem full_constant (shape : Nats) (v : α) : (constant shape v).Full := by simp [Full, constant]

theorem get?_ofFn (shape : Nats) (f : Nats → α) (i : Nats) :
    (ofFn shape f).get? i = if inside shape i then some (f i) else none := by
  unfold get? ofFn
  split
  · next h => simp [getElem?_indices h]
  · rfl

@[simp] theorem shape_set (a : NdArray α) (i : Nats) (v : α) : (a.set i v).shape = a.shape := by
  unfold set
  split <;> rfl

namespace Full

variable {a b : NdArray α}

theorem get?_eq_some [Inhabited α] (ha : a.Full) (hi : inside a.shape i = true) :
    a.get? i = some (a.getD i default) := by
  have hlt : position a.shape i < a.data.size := ha ▸ position_lt hi
  have hget : a.get? i = some a.data[position a.shape i] :=
    by rw [get?, if_pos hi, Array.getElem?_eq_getElem hlt]
  rw [getD, hget, Option.getD_some]

theorem set (ha : a.Full) (i : Nats) (v : α) : (a.set i v).Full := by
  unfold NdArray.set
  split
  · simpa [Full] using ha
  · exact ha

theorem get?_set (ha : a.Full) (hi : inside a.shape i = true) (v : α) (j : Nats) :
    (a.set i v).get? j = if i = j then some v else a.get? j := by
  have hset : a.set i v = { a with data := a.data.setIfInBounds (position a.shape i) v } :=
    if_pos hi
  rw [hset]
  by_cases hij : i = j
  · subst hij
    have hlt : position a.shape i < a.data.size := ha ▸ position_lt hi
    rw [if_pos rfl, get?, if_pos hi, Array.getElem?_setIfInBounds_self_of_lt hlt]
  · rw [if_neg hij]
    by_cases hj : inside a.shape j = true
    · rw [get?, get?, if_pos hj, if_pos hj, Array.getElem?_setIfInBounds_ne fun h => hij ?_]
      exact Option.some.inj ((getElem?_indices hi).symm.trans (h ▸ getElem?_indices hj))
    · rw [get?, get?, if_neg hj, if_neg hj]

theorem ext (ha : a.Full) (hb : b.Full) (hshape : a.shape = b.shape)
    (h : ∀ i, inside a.shape i = true → a.get? i = b.get? i) : a = b := by
  obtain ⟨shape, xs⟩ := a
  obtain ⟨_, ys⟩ := b
  obtain rfl : shape = _ := hshape
  suffices xs = ys by rw [this]
  refine Array.ext (ha.trans hb.symm) fun k hx hy => ?_
  have hk : k < (indices shape).length := by
    rw [length_indices]
    exact lt_of_lt_of_eq hx ha
  -- the index that stands at this place
  have hin : inside shape (indices shape)[k] = true := mem_indices.1 (getElem_mem hk)
  have hpos : k = position shape (indices shape)[k] :=
    (getElem?_inj hk (nodup_indices shape)).1
    ((getElem?_eq_getElem hk).trans (getElem?_indices hin).symm)
  have := h _ hin
  rw [get?, get?, if_pos hin, if_pos hin, ← hpos, Array.getElem?_eq_getElem hx,
    Array.getElem?_eq_getElem hy] at this
  exact Option.some.inj this

/-- Where an index is met again, it gets the same value. -/
theorem foldl_set (ha : a.Full) {js : List Nats} {place : Nats → Nats} (value : Nats → α)
    (hin : ∀ j ∈ js, inside a.shape (place j) = true)
    (hinj : ∀ j ∈ js, ∀ k ∈ js, place j = place k → j = k) :
    let r := js.foldl (fun a j => a.set (place j) (value j)) a
    r.Full ∧ r.shape = a.shape ∧ (∀ j ∈ js, r.get? (place j) = some (value j)) ∧ ∀ i,
      (∀ j ∈ js, place j ≠ i) → r.get? i = a.get? i := by
  induction js generalizing a with
  | nil => exact ⟨ha, rfl, forall_mem_nil _, fun _ _ => rfl⟩
  | cons j js ih =>
    obtain ⟨hj, hjs⟩ := forall_mem_cons.1 hin
    have hrest : ∀ k ∈ js, ∀ m ∈ js, place k = place m → k = m := fun k hk m hm =>
      hinj k (mem_cons_of_mem _ hk) m (mem_cons_of_mem _ hm)
    obtain ⟨hfull, hshape, hread, hframe⟩ :=
      ih (ha.set (place j) (value j)) (by simpa using hjs) hrest
    refine ⟨hfull, hshape.trans (shape_set ..), forall_mem_cons.2 ⟨?_, hread⟩, fun i hi => ?_⟩
    · by_cases hmem : ∃ k ∈ js, place k = place j
      · obtain ⟨k, hk, hkj⟩ := hmem
        obtain rfl := hinj k (mem_cons_of_mem _ hk) j mem_cons_self hkj
        exact hread k hk
      · rw [foldl_cons, hframe _ fun k hk hkj => hmem ⟨k, hk, hkj⟩, ha.get?_set hj, if_pos rfl]
    · obtain ⟨hne, hi⟩ := forall_mem_cons.1 hi
      rw [foldl_cons, hframe i hi, ha.get?_set hj, if_neg hne]

end Full

end NdArray

/-! ### Windows -/

namespace Window

open NdArray
variable {w : Window} {shape j : Nats}

/-- All selected places are there, and none is selected twice. -/
def Fits (w : Window) (shape : Nats) : Prop := Forall₂
    (fun p n => (∀ i ∈ p.list, i < n) ∧ p.list.Nodup) w shape

theorem Fits.inside_index (h : w.Fits shape) (hj : inside w.shape j = true) :
    inside shape (w.index j) = true := by
  induction h generalizing j with
  | nil => rfl
  | @cons p n w shape hp _ ih =>
    cases p with
    | one i =>
      have hi : i < n := hp.1 i (by simp [Places.list])
      simpa [index, inside, hi] using ih hj
    | many is =>
      obtain ⟨k, js, hk, hjs, rfl⟩ := exists_of_inside_cons hj
      have hi : is[k] < n := hp.1 _ (getElem_mem hk)
      simpa [index, inside, hk, hi] using ih hjs

/-- Different indices in the window are different indices in the array. -/
theorem Fits.index_inj {k : Nats} (h : w.Fits shape) (hj : inside w.shape j = true)
    (hk : inside w.shape k = true)
    (hjk : w.index j = w.index k) : j = k := by
  induction h generalizing j k with
  | nil => rw [forall₂_nil_right_iff.1 (inside_iff.1 hj), forall₂_nil_right_iff.1 (inside_iff.1 hk)]
  | @cons p n w shape hp _ ih =>
    cases p with
    | one i => exact ih hj hk (by simpa [index] using hjk)
    | many is =>
      obtain ⟨x, js, hx, hjs, rfl⟩ := exists_of_inside_cons hj
      obtain ⟨y, ks, hy, hks, rfl⟩ := exists_of_inside_cons hk
      obtain ⟨hxy, htail⟩ : is[x] = is[y] ∧ index w js = index w ks :=
        by simpa [index, hx, hy] using hjk
      rw [(Nodup.getElem_inj_iff hp.2).1 hxy, ih hjs hks htail]

end Window

namespace NdArray

variable {α : Type} [Inhabited α] {a b : NdArray α} {w : Window}

theorem Full.get?_window (ha : a.Full) (hw : w.Fits a.shape) {j : Nats}
    (hj : inside w.shape j = true) :
    (a.window w).get? j = a.get? (w.index j) := by
  rw [window, get?_ofFn, if_pos hj, ha.get?_eq_some (hw.inside_index hj)]

theorem Full.spread_self (hb : b.Full) : b.spread b.shape = .ok b := by
  have hzip : ∀ shape : Nats, (shape.zip shape).any (fun x => x.1 != x.2 && x.1 != 1) = false :=
    fun shape => by
    induction shape with
    | nil => rfl
    | cons n ns ih => simp [ih]
  have hindex : ∀ {shape i : Nats}, inside shape i = true →
    (shape.zip i).map (fun x => if x.1 = 1 then 0 else x.2) = i := by
    intro shape i h
    induction inside_iff.1 h with
    | nil => rfl
    | @cons k n is ns hk htail ih =>
      have : (if n = 1 then 0 else k) = k := by split <;> omega
      simp only [zip_cons_cons, map_cons, this, ih (inside_iff.2 htail)]
  have hsame : ofFn b.shape (fun i => b.getD ((b.shape.zip i).map fun x => if x.1 =
    1 then 0 else x.2) default) = b := by
    refine (full_ofFn ..).ext hb rfl fun i (hi : inside b.shape i = true) => ?_
    rw [get?_ofFn, if_pos hi, hindex hi, hb.get?_eq_some hi]
  simp only [spread, Nat.sub_self, drop_zero, hzip]
  exact congrArg Except.ok hsame

/-- What is written into a window is read from it, and everything else stays. -/
theorem Full.assign (ha : a.Full) (hb : b.Full) (hw : w.Fits a.shape) (hshape : b.shape = w.shape) :
    ∃ r, a.assign w b = .ok r ∧ r.Full ∧ r.shape = a.shape ∧
      (∀ j, inside w.shape j = true → r.get? (w.index j) = b.get? j) ∧
      ∀ i, (∀ j, inside w.shape j = true → w.index j ≠ i) → r.get? i = a.get? i := by
  obtain ⟨hfull, hsame, hread, hframe⟩ := ha.foldl_set (fun j => b.getD j default)
    (fun j hj => hw.inside_index (mem_indices.1 hj)) fun j hj k hk => hw.index_inj
    (mem_indices.1 hj) (mem_indices.1 hk)
  refine ⟨_, by rw [NdArray.assign, ← hshape, hb.spread_self]; rfl, hshape ▸ hfull, hshape ▸ hsame, fun j hj => ?_, fun i hi => ?_⟩
  · rw [hb.get?_eq_some (hshape ▸ hj), ← hread j (mem_indices.2 hj), hshape]
  · rw [← hframe i fun j hj => hi j (mem_indices.1 hj), hshape]

end NdArray

/-! ### Boxes -/

open NdArray

theorem Places.ofSlice_selects {n : Nat} {start stop : Option Int} {step : Option Slice.Bound}
    (hstep : step = none ∨ step = some (.at (.lit 1))) {lo hi : Nat}
    (hlo : start.elim 0 (Slice.placeOf n) = lo)
    (hhi : stop.elim (n : Int) (Slice.placeOf n) = hi) (hle : lo ≤ hi) (hn : hi ≤ n) :
    ofSlice n (.range (start.map fun k => .at (.lit k)) (stop.map fun k => .at (.lit k)) step) =
      .ok (.many (range' lo (hi - lo))) := by
  have hstart : (start.map fun (x : Int) => if x < 0 then x + n else x).getD 0 = lo := by
    rw [← hlo]
    cases start <;> simp [Slice.placeOf, add_comm]
  have hstop : (stop.map fun (x : Int) => if x < 0 then x + n else x).getD n = hi := by
    rw [← hhi]
    cases stop <;> simp [Slice.placeOf, add_comm]
  have hrange : ofRange n start stop 1 = range' lo (hi - lo) := by
    simp only [ofRange, hstart, hstop]
    rw [range'_eq_map_range, show max 0 (min (n : Int) lo) =
      lo by omega, show max 0 (min (n : Int) hi) = hi by omega,
      show (((hi : Int) - lo + 1 - 1) / 1).toNat = hi - lo by omega]
    exact map_congr_left fun k _ => by omega
  cases start <;> cases stop <;> rcases hstep with rfl | rfl <;> exact congrArg
    (fun is => Except.ok (many is)) hrange

namespace Window

variable {ps : List (Nat × Nat)} {shape i : Nats}

def box (ps : List (Nat × Nat)) : Window := ps.map fun p => .many (range' p.1 (p.2 - p.1))

def Within (ps : List (Nat × Nat)) (i : Nats) : Prop := Forall₂ (fun k p => p.1 ≤ k ∧ k < p.2) i ps

/-- Where an index in the second of two boxes lies in the first. -/
def moved (ps qs : List (Nat × Nat)) (i : Nats) :
    Nats := zipWith (fun pq k => k - pq.2.1 + pq.1.1) (ps.zip qs) i

theorem moved_self (h : Within ps i) : moved ps ps i = i := by
  induction h with
  | nil => rfl
  | cons hk _ ih => exact congrArg₂ cons (Nat.sub_add_cancel hk.1) ih

theorem shape_box (ps : List (Nat × Nat)) : (box ps).shape = ps.map fun p => p.2 - p.1 := by
  induction ps with
  | nil => rfl
  | cons p ps ih => simp [box, shape]

theorem fits_box (h : Forall₂ (fun p n => p.2 ≤ n) ps shape) : (box ps).Fits shape := by
  induction h with
  | nil => exact .nil
  | @cons p n ps shape hp _ ih =>
    refine .cons ⟨fun i hi => ?_, nodup_range'⟩ ih
    have := mem_range'_1.1 hi
    omega

theorem index_box {j : Nats} (hj : inside (box ps).shape j = true) :
    (box ps).index j = zipWith (fun p k => p.1 + k) ps j := by
  induction ps generalizing j with
  | nil => rfl
  | cons p ps ih =>
    rw [shape_box] at hj
    obtain ⟨k, js, hk, hjs, rfl⟩ := exists_of_inside_cons hj
    simpa [box, index, hk] using ih (shape_box ps ▸ hjs)

/-- The indices in a box are those between its bounds. -/
theorem within_iff : Within ps i ↔ ∃ j, inside (box ps).shape j = true ∧ zipWith
    (fun p k => p.1 + k) ps j = i := by
  rw [shape_box]
  constructor
  · intro h
    induction h with
    | nil => exact ⟨[], rfl, rfl⟩
    | @cons k p is ps hk _ ih =>
      obtain ⟨js, hjs, rfl⟩ := ih
      refine ⟨(k - p.1) :: js, ?_, by simp; omega⟩
      simp only [map_cons, inside, Bool.and_eq_true, decide_eq_true_eq]
      exact ⟨by omega, hjs⟩
  · rintro ⟨j, hj, rfl⟩
    induction ps generalizing j with
    | nil => exact .nil
    | cons p ps ih =>
      obtain ⟨k, js, hk, hjs, rfl⟩ := exists_of_inside_cons hj
      exact .cons ⟨Nat.le_add_right .., Nat.add_lt_of_lt_sub' hk⟩ (ih js hjs)

/-- Slices without gaps select a box; coordinates without a slice are whole. -/
theorem of_selects {rest : Nats} {ss : Slices}
    (h : Forall₂ (fun n (x : Slice × Nat × Nat) => Places.ofSlice n x.1 =
      .ok (.many (range' x.2.1 (x.2.2 - x.2.1)))) shape (ss.zip ps))
    (hlen : ss.length = ps.length) : of (shape ++ rest) ss =
    .ok (box (ps ++ rest.map fun n => (0, n))) := by
  have hss : shape.length = ss.length := by simpa [hlen] using h.length_eq
  have hwhole : ∀ n : Nat, Places.ofSlice n .whole = .ok (.many (range' 0 (n - 0))) := fun n =>
    @Places.ofSlice_selects n none none none (.inl rfl) 0 n rfl rfl (Nat.zero_le n) le_rfl
  have hrest : (rest.zip (replicate rest.length Slice.whole)).mapM
    (fun x => Places.ofSlice x.1 x.2) = .ok (box (rest.map fun n => (0, n))) := by
    refine Outcome.mapM_eq_ok.2 ?_
    induction rest with
    | nil => exact .nil
    | cons n rest ih => exact .cons (hwhole n) ih
  have hfirst : (shape.zip ss).mapM (fun x => Places.ofSlice x.1 x.2) = .ok (box ps) := by
    refine Outcome.mapM_eq_ok.2 ?_
    clear hss
    induction shape generalizing ss ps with
    | nil => cases ss <;> cases ps <;> simp_all [box]
    | cons n shape ih =>
      cases ss with
      | nil => simp at h
      | cons s ss =>
        cases ps with
        | nil => simp at hlen
        | cons p ps =>
          obtain ⟨hs, htail⟩ := forall₂_cons.1 h
          exact .cons hs (ih htail (by simpa using hlen))
  have hnot : ¬ (shape ++ rest).length < ss.length := by simp [hss]
  have hpad : (shape ++ rest).length - ss.length = rest.length := by simp [hss]
  simp only [of, if_neg hnot, hpad, zip_append hss, mapM_append, hfirst, hrest]
  simp [box]

end Window

namespace NdArray

variable {α : Type} [Inhabited α] {a : NdArray α}

/-- One box of an array is copied to another one of the same size, and everything else stays. -/
theorem Full.copy_box (ha : a.Full) {ps qs : List (Nat × Nat)}
    (hps : Forall₂ (fun p n => p.2 ≤ n) ps a.shape)
    (hqs : Forall₂ (fun q n => q.2 ≤ n) qs a.shape)
    (hsize : ps.map (fun p => p.2 - p.1) = qs.map fun q => q.2 - q.1) :
    ∃ r, a.assign (box qs) (a.window (box ps)) = .ok r ∧ r.Full ∧ r.shape = a.shape ∧
      (∀ i, Within qs i → r.get? i = a.get? (moved ps qs i)) ∧ ∀ i, ¬ Within qs i →
        r.get? i = a.get? i := by
  have hwindow : (a.window (box ps)).shape = (box qs).shape := by
    rw [shape_box, ← hsize, ← shape_box]
    rfl
  obtain ⟨r, hr, hfull, hshape, hread, hframe⟩ :=
    ha.assign (show (a.window (.box ps)).Full from full_ofFn ..) (fits_box hqs) hwindow
  refine ⟨r, hr, hfull, hshape, fun i hi => ?_, fun i hi => hframe i fun j hj h => ?_⟩
  · obtain ⟨j, hj, rfl⟩ := within_iff.1 hi
    have hj' : inside (box ps).shape j = true := by rwa [shape_box, hsize, ← shape_box]
    rw [← index_box hj, hread j hj, ha.get?_window (fits_box hps) hj', index_box hj', index_box hj]
    congr 1
    have hlen : ps.length = qs.length := hps.length_eq.trans hqs.length_eq.symm
    clear hps hqs hsize hwindow hr hread hframe hi hj hj'
    induction ps generalizing qs j with
    | nil => rfl
    | cons p ps ih =>
      cases qs with
      | nil => simp at hlen
      | cons q qs =>
        cases j with
        | nil => rfl
        | cons k js =>
          have hk : p.1 + k = q.1 + k - q.1 + p.1 := by omega
          exact congrArg₂ cons hk (ih js (by simpa using hlen))
  · exact hi (within_iff.2 ⟨j, hj, (index_box hj).symm.trans h⟩)

end NdArray

end StencilForge
