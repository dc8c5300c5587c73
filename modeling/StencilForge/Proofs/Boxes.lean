import StencilForge.Proofs.Arrays

/-!
# Proofs — bounding boxes

The box of the true entries of an array starts at the least index along each axis.  It ends at the
first index behind that without an entry, not at the last one with an entry
(`NdArray.boundingBox_bounds`).
-/

open List StencilForge.Outcome

namespace StencilForge.NdArray

variable {a : NdArray Bool} {n : Nat}

/-- Some true entry has this index along an axis. -/
def Hits (a : NdArray Bool) (axis : Nat) : Set Nat :=
  {i | ∃ is, inside a.shape is = true ∧ a.getD is false = true ∧ is[axis]? = some i}

/-- From the least index to the first one left out after it; empty if none is. -/
def Bounds (n : Nat) (S : Set Nat) (p : Nat × Nat) : Prop :=
  IsLeast S p.1 ∧ (IsLeast (Set.Ico p.1 n \ S) p.2 ∨ p.2 = p.1 ∧ Set.Ico p.1 n ⊆ S)

theorem firstRun_ofFn {f : Nats → Bool} (h : ∃ i < n, f [i] = true) :
    ∃ p, (ofFn [n] f).firstRun = .ok p ∧ Bounds n {i | i < n ∧ f [i] = true} p := by
  have hlist : (ofFn [n] f).toList = (range n).map fun i => f [i] := by
    simp [ofFn, indices, toList, map_eq_flatMap, flatMap_assoc]
  have hdrop : ∀ k, (ofFn [n] f).dropRows k = (range' k (n - k)).map fun i => f [i] := fun k => by
    rw [dropRows, hlist, ← map_drop, range_eq_range', drop_range']
    simp [ofFn, volume]
  obtain ⟨lo, hfirst⟩ : ∃ lo, ((range n).map fun i => f [i]).findIdx? id = some lo :=
    Option.isSome_iff_exists.1 (by simpa [findIdx?_isSome] using h)
  obtain ⟨htrue, hlo, hbefore⟩ : f [lo] = true ∧ lo < n ∧ ∀ j < lo, f [j] = false := by
    simpa [findIdx?_eq_some_iff_getElem] using hfirst
  refine ⟨(lo, lo + (((range' lo (n - lo)).map fun i => f [i]).findIdx? (!·)).getD 0), ?_,
    ⟨⟨hlo, htrue⟩, fun i hi => ?_⟩, ?_⟩
  · simp [firstRun, hlist, hdrop, hfirst, Nat.ne_zero_of_lt hlo, Nat.sub_ne_zero_of_lt hlo]
  · by_contra hlt
    simp [hbefore i (not_le.1 hlt)] at hi
  · cases hend : ((range' lo (n - lo)).map fun i => f [i]).findIdx? (!·) with
    | none =>
      have hall : ∀ i, lo ≤ i → i < n → f [i] = true := by
        simpa [findIdx?_eq_none_iff, Nat.add_sub_cancel' hlo.le] using hend
      exact .inr ⟨rfl, fun i hi => ⟨hi.2, hall i hi.1 hi.2⟩⟩
    | some k =>
      obtain ⟨hfalse, hk, hrun⟩ : f [lo + k] = false ∧ k < n - lo ∧ ∀ j < k, f [lo + j] = true := by
        simpa [findIdx?_eq_some_iff_getElem] using hend
      refine .inl ⟨⟨⟨Nat.le_add_right _ _, Nat.add_lt_of_lt_sub' hk⟩, by simp [hfalse]⟩, ?_⟩
      rintro i ⟨⟨hle, hlt⟩, hout⟩
      refine not_lt.1 fun hbelow => hout ⟨hlt, ?_⟩
      have hhit := hrun (i - lo) (Nat.sub_lt_left_of_lt_add hle hbelow)
      rwa [Nat.add_sub_cancel' hle] at hhit

/-- Along each axis the box starts at the least index of a true entry and ends at the first gap. -/
theorem boundingBox_bounds (hdim : a.dimensions = 2)
    (h : ∃ is, inside a.shape is = true ∧ a.getD is false = true) :
    ∃ ps, a.boundingBox = .ok ps ∧ ps.length = 2 ∧
      ∀ axis p, ps[axis]? = some p → Bounds (a.shape.getD axis 0) (a.Hits axis) p := by
  obtain ⟨m, n, hshape⟩ := length_eq_two.1 hdim
  obtain ⟨i, k, hi, hk, h⟩ : ∃ i k, i < m ∧ k < n ∧ a.getD [i, k] false = true := by
    simpa [hshape, inside_iff, forall₂_cons_right_iff, and_assoc] using h
  obtain ⟨p, hp, hp'⟩ := firstRun_ofFn (n := m) (f :=
    fun i => (range n).any fun k => a.getD (i.insertIdx 1 k) false)
    ⟨i, hi, any_eq_true.2 ⟨k, mem_range.2 hk, h⟩⟩
  obtain ⟨q, hq, hq'⟩ := firstRun_ofFn (n := n) (f :=
    fun k => (range m).any fun i => a.getD (k.insertIdx 0 i) false)
    ⟨k, hk, any_eq_true.2 ⟨i, mem_range.2 hi, h⟩⟩
  refine ⟨[p, q], ?_, rfl, fun axis r hr => ?_⟩
  · simp only [boundingBox, hdim, anyAlong, hshape]
    exact mapM_eq_ok.2 (.cons hp (.cons hq .nil))
  · rcases axis with _ | _ | _
    · obtain rfl := Option.some.inj hr
      simpa [Hits, hshape, inside_iff, forall₂_cons_right_iff, and_assoc] using hp'
    · obtain rfl := Option.some.inj hr
      simpa [Hits, hshape, inside_iff, forall₂_cons_right_iff, and_assoc,
        and_left_comm (b := _ < n)] using hq'
    · cases hr

def corner : NdArray Bool := ofFn [3, 3] (· == [1, 1])

/-- One entry, in the corner. -/
theorem boundingBox_bounds_corner : ∃ ps, corner.boundingBox = .ok ps ∧ ps.length = 2 ∧
    ∀ axis p, ps[axis]? = some p → Bounds (corner.shape.getD axis 0) (corner.Hits axis) p :=
  boundingBox_bounds rfl ⟨[1, 1], by decide⟩

end StencilForge.NdArray
