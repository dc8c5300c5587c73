import StencilForge.Proofs.Outcome
import StencilForge.Study.Basic

/-!
# Proofs — shares of a study

Runs that are dealt out by weight are divided among the processes, and no share has more than
another by more than the greatest weight (`Study.Run.share_balanced`).
-/

open List

namespace StencilForge

theorem Places.ofRange_from (m p : Nat) {n : Nat} (hn : 0 < n) :
    ofRange m (some p) none n = (range ((m - p + n - 1) / n)).map fun k => p + k * n := by
  have hshift : ¬ (p : Int) < 0 := by omega
  have hcount : (max 0 (min (m : Int) m) - max 0 (min (m : Int) p) + n - 1) / n =
    ((m - p + n - 1) / n : Nat) := by
    rw [Int.natCast_ediv]
    congr 1
    omega
  simp only [ofRange, Nat.cast_pos.2 hn, if_true, Option.map_some, Option.map_none,
    Option.getD_some, Option.getD_none, if_neg hshift, hcount]
  refine map_congr_left fun k hk => ?_
  -- a place is only there if the list goes beyond the first one
  have hstart : max 0 (min (m : Int) p) = p := by
    by_contra h
    simp [Nat.div_eq_of_lt (show m - p + n - 1 < n by omega)] at hk
  rw [hstart]
  exact_mod_cast Int.toNat_natCast (p + k * n)

namespace Study

variable {α : Type} {n p q : Nat} (xs : List α)

/-- A share is its part of the first `n` items, behind its share of the rest. -/
theorem everyNth_drop (hp : p < n) : everyNth xs p n = everyNth
    (xs.drop n) p n ++ xs[p]?.toList := by
  have hn : 0 < n := by omega
  have hrest : ∀ k, xs[p + (k + 1) * n]? = (xs.drop n)[p + k * n]? := fun k => by
    rw [getElem?_drop]
    congr 1
    ring
  simp only [everyNth, Places.ofRange_from _ p hn, length_drop, filterMap_map]
  rcases Nat.lt_or_ge p xs.length with h | h
  · have hcount : (xs.length - p + n - 1) / n = (xs.length - n - p + n - 1) / n + 1 := by
      rw [← Nat.add_div_right _ hn]
      rcases Nat.lt_or_ge (n + p) xs.length with hlong | hshort
      · congr 1
        omega
      · rw [Nat.div_eq_of_lt_le (k := 1) (by omega) (by omega),
          Nat.div_eq_of_lt_le (k := 1) (by omega) (by omega)]
    rw [hcount, range_succ_eq_map, filterMap_cons, filterMap_map]
    simp [h, Function.comp_def, hrest]
  · rw [Nat.div_eq_of_lt (by omega), Nat.div_eq_of_lt (by omega), getElem?_eq_none h]
    rfl

theorem blocks_induction (hn : 0 < n) {P : List α → Prop} (hnil : P [])
    (hdrop : ∀ xs, P (xs.drop n) → P xs) (xs : List α) : P xs := by
  induction h : xs.length using Nat.strong_induction_on generalizing xs with
  | _ k ih =>
    rcases xs with _ | ⟨x, r⟩
    · exact hnil
    · exact hdrop _ (ih _ (by simp at h ⊢; omega) _ rfl)

theorem flatMap_toList (n : Nat) : ((range n).flatMap fun p => xs[p]?.toList) = xs.take n := by
  induction n with
  | zero => rfl
  | succ n ih => rw [range_succ, flatMap_append, ih, flatMap_singleton, take_add_one]

theorem flatMap_everyNth_perm (hn : 0 < n) : ((range n).flatMap fun (p : Nat) => everyNth xs p n) ~ xs := by
  induction xs using blocks_induction hn with
  | hnil => simp [everyNth]
  | hdrop xs ih =>
    rw [flatMap_congr fun p hp => everyNth_drop xs (mem_range.1 hp)]
    calc _ ~ _ := (flatMap_append_perm ..).symm
      _ ~ xs.drop n ++ xs.take n := flatMap_toList xs n ▸ ih.append_right _
      _ ~ xs := perm_append_comm.trans (.of_eq (take_append_drop n xs))

theorem everyNth_sublist (hp : p < n) : everyNth xs p n <+ xs.reverse := by
  induction xs using blocks_induction (Nat.zero_lt_of_lt hp) with
  | hnil => simp [everyNth]
  | hdrop xs ih =>
    have hfirst : xs[p]?.toList <+ (xs.take n).reverse := by
      cases h : xs[p]? with
      | none => simp
      | some x => exact singleton_sublist.2 (mem_reverse.2 (mem_of_getElem? ((getElem?_take_of_lt hp).trans h)))
    rw [everyNth_drop xs hp, ← take_append_drop n xs, reverse_append, take_append_drop]
    exact ih.append hfirst

/-- What a share gets later, any other one has got before. -/
theorem everyNth_sum_le {w : α → Rat} (hxs : xs.Pairwise fun a b => w b ≤ w a)
    (hw : ∀ x ∈ xs, 0 ≤ w x) (hp : p < n) (hq : q < n) :
    ((everyNth xs p n).map w).sum ≤ ((everyNth xs q n).map w).sum + (xs[p]?.toList.map w).sum := by
  induction xs using blocks_induction (Nat.zero_lt_of_lt hp) with
  | hnil => simp [everyNth]
  | hdrop xs ih =>
    have hnext : ((xs.drop n)[p]?.toList.map w).sum ≤ (xs[q]?.toList.map w).sum := by
      rw [getElem?_drop]
      rcases Nat.lt_or_ge (n + p) xs.length with h | h
      · simpa [h, show q < xs.length by omega] using pairwise_iff_getElem.1 hxs q (n + p)
          (by omega) h (by omega)
      · rw [getElem?_eq_none h]
        exact sum_nonneg (by simpa using fun x hx => hw x (mem_of_getElem? hx))
    rw [everyNth_drop xs hp, everyNth_drop xs hq]
    simp only [map_append, sum_append]
    linarith [ih (hxs.sublist (drop_sublist n xs)) fun x hx => hw x (mem_of_mem_drop hx)]

def Run.work (r : Run) : Rat := r.rat?.getD 0

/-- The shares hold all runs, the lighter ones first, and differ by no more than any bound on the
weights. -/
theorem Run.share_balanced (runs : List Run) (hn : 1 ≤ n)
    (hw : ∀ r ∈ runs, ∃ w, r.rat? = some w ∧ 0 ≤ w) :
    ∃ chunk : Nat → List Run, (∀ p < n, Run.share runs p n = .ok (chunk p)) ∧
      (range n).flatMap chunk ~ runs ∧
      (∀ p < n, (chunk p).Pairwise (·.work ≤ ·.work)) ∧ ∀ p < n, ∀ q < n, ∀ m, 0 ≤ m →
        (∀ r ∈ runs, r.work ≤ m) →
        |((chunk p).map work).sum - ((chunk q).map work).sum| ≤ m := by
  have hsome : runs.all (·.rat?.isSome) = true := by
    rw [all_eq_true]
    intro r hr
    obtain ⟨w, h, -⟩ := hw r hr
    rw [h]
    rfl
  have hok : ∀ p < n, Run.share runs p n = .ok (Study.share work runs p n) := fun p _ => by
    simp [Run.share, show n ≠ 0 by omega, hsome]
    rfl
  refine ⟨_, hok, ?_⟩
  unfold Study.share
  have hperm := mergeSort_perm runs fun a b => decide (b.work ≤ a.work)
  have hpair := @pairwise_mergeSort _ (fun a b : Run => decide (b.work ≤ a.work))
    (by simp; intros; linarith)
    (by simp [le_total]) runs
  simp only [decide_eq_true_eq] at hpair
  generalize runs.mergeSort _ = sorted at *
  refine ⟨(flatMap_everyNth_perm sorted hn).trans hperm,
    fun p hp => (pairwise_reverse.2 hpair).sublist (everyNth_sublist sorted hp),
    fun p hp q hq m hm hle => ?_⟩
  have hbound : ∀ p < n, ∀ q < n, ((everyNth sorted p n).map work).sum -
    ((everyNth sorted q n).map work).sum ≤ m := by
    intro p hp q hq
    have hsum := everyNth_sum_le sorted hpair (fun r hr => ?_) hp hq
    · have hfirst : (sorted[p]?.toList.map work).sum ≤ m := by
        cases hr : sorted[p]? with
        | none => exact hm
        | some r => simpa using hle r (hperm.mem_iff.1 (mem_of_getElem? hr))
      linarith
    · obtain ⟨w, h, hpos⟩ := hw r (hperm.mem_iff.1 hr)
      rwa [work, h]
  exact abs_sub_le_iff.2 ⟨hbound p hp q hq, hbound q hq p hp⟩

/-- Two machines share runs of weight five, zero and seven. -/
theorem Run.share_balanced_three : ∃ chunk : Nat → List Run,
    (∀ p : Nat, p < 2 → Run.share [⟨.null, .int 5⟩, ⟨.null, .int 0⟩,
      ⟨.null, .int 7⟩] p 2 = .ok (chunk p)) ∧
      |((chunk 0).map work).sum - ((chunk 1).map work).sum| ≤ 7 := by
  have hw : ∀ n : Nat, (⟨.null, .int n⟩ : Run).rat? = some (n : Rat) := fun _ => rfl
  obtain ⟨chunk, hok, -, -, hdiff⟩ := Run.share_balanced [⟨.null, .int 5⟩, ⟨.null, .int 0⟩,
    ⟨.null, .int 7⟩] one_le_two
    (by simpa using ⟨⟨_, hw 5, by simp⟩, ⟨_, hw 0, by simp⟩, ⟨_, hw 7, by simp⟩⟩)
  exact ⟨chunk, hok, hdiff 0 two_pos 1 one_lt_two 7 (by decide) (by decide +kernel)⟩

end Study

end StencilForge
