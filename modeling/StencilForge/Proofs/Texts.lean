import StencilForge.Proofs.Descriptions
import StencilForge.Proofs.Names
import StencilForge.Proofs.Whole

/-!
# Proofs — texts that are read back

The direction of an offset is read back as the offset (`Stencil.ofDirectionName_directionName`), so
accesses to a field have different names at different places (`Access.IsAt.accessName_eq_iff`).
-/

open List

namespace StencilForge

variable {c : Char} {cs r : Chars} {k n : Nat} {os ps is js : Ints}

/-! ### Directions -/

namespace Stencil

open Decimal

theorem digitValue?_of_isDigit (hc : c.isDigit = true) :
    digitValue? c = some (c.toNat - '0'.toNat) := by
  have hc : 48 ≤ c.toNat ∧ c.toNat ≤ 57 := Char.isDigit_iff_toNat.1 hc
  rw [digitValue?, zeros, find?_cons_of_pos (by simp; omega)]
  rfl

/-- Digits go to the distance read so far. -/
theorem readSteps_digits {d : Option Distance} (hcs : ∀ c ∈ cs, c.isDigit = true) (hne : cs ≠ [])
    (hd : d.getD (some 0) = some n) :
    readSteps (cs ++ r) d os = readSteps r (some (some (Nat.ofDigitChars 10 cs n))) os := by
  induction cs generalizing d n with
  | nil => exact absurd rfl hne
  | cons c cs ih =>
    obtain ⟨hc, hcs⟩ := forall_mem_cons.1 hcs
    rw [cons_append, readSteps, if_pos (by simp [looksLikeDigit, digitValue?_of_isDigit hc]),
      Nat.ofDigitChars_cons, Distance.push, hd, digitValue?_of_isDigit hc]
    rcases eq_or_ne cs [] with rfl | hne
    · rfl
    · exact ih hcs hne rfl

/-- A distance of one is not written. -/
theorem readSteps_letter (hc : looksLikeDigit c = false) (hu : unitOf c = some ps) (hn : 0 < n) :
    readSteps ((if n > 1 then toString n else "").toList ++ c :: r) none os =
      readSteps r none (zipWith (fun a b => a + (n : Int) * b) os ps) := by
  split
  · have hread : readSteps (Nat.toDigits 10 n ++ c :: r) none os = _ :=
      readSteps_digits isDigit_of_mem_toDigits Nat.toDigits_ne_nil rfl
    rw [Nat.ofDigitChars_ten_toDigits] at hread
    simp [hread]
    simp [readSteps, hc, hu]
  · obtain rfl : n = 1 := by omega
    simp [readSteps, hc, hu]

theorem unitOf_letters (hk : k < 3) (negative : Bool) :
    ∃ c, (if negative then (letters k).1 else (letters k).2).toList = [c] ∧
    looksLikeDigit c = false ∧ unitOf c = some ([0, 0, 0].set k (if negative then -1 else 1)) := by
  interval_cases k <;> cases negative <;> exact ⟨_, by simp [letters]; rfl, by decide, rfl⟩

theorem readSteps_component (hk : k < 3) (v x y z : Int) :
    readSteps ((componentText k v).toList ++ r) none [x, y, z] =
      readSteps r none ([x, y, z].modify k (· + v)) := by
  rcases eq_or_ne v 0 with rfl | hv
  · interval_cases k <;> simp [componentText]
  obtain ⟨c, hletter, hc, hu⟩ := unitOf_letters hk (v < 0)
  have htext : (componentText k v).toList =
    (if v.natAbs > 1 then toString v.natAbs else "").toList ++ [c] := by
    rw [← hletter, ← String.toList_append]
    simp only [componentText, if_neg hv, decide_eq_true_eq]
    split <;> simp
  have hsize : (if v < 0 then -|v| else |v|) = v :=
    by split <;> simp_all [abs_of_neg, abs_of_nonneg]
  rw [htext, append_assoc, singleton_append, readSteps_letter hc hu (by omega)]
  interval_cases k <;> simp [hsize]

/-- The direction is read back. -/
theorem ofDirectionName_directionName (ho : os.length ≤ 3) :
    ofDirectionName (directionName os) os.length = .ok os := by
  have hread : ∀ x y z, readSteps ((componentText 2 z).toList ++
    ((componentText 1 y).toList ++ (componentText 0 x).toList)) none [0, 0, 0] =
      .ok [x, y, z] := fun x y z => by
    have hlast := readSteps_component (r := []) (k := 0) (by decide) x 0 y z
    rw [append_nil] at hlast
    simp [readSteps_component, hlast, readSteps]
  have hcenter : ∀ s n, ofDirectionName (if s == "" then "C" else s) n = ofDirectionName s n :=
    fun s n => by
    by_cases hs : s = ""
    · subst hs
      rfl
    · simp [hs]
  have hzero : ∀ k, (componentText k 0).toList = [] := fun k => rfl
  rw [directionName, if_neg (by omega), hcenter, ofDirectionName, String.toList_intercalate]
  rcases os with _ | ⟨x, _ | ⟨y, _ | ⟨z, _ | _⟩⟩⟩
  · rfl
  · have h := hread x 0 0
    simp_all
  · have h := hread x y 0
    simp_all
  · simp [hread]
  · simp at ho
    omega

theorem directionName_injective (hlen : os.length = ps.length)
    (h : directionName os = directionName ps) : os = ps := by
  by_cases hos : os.length ≤ 3
  · have hread := ofDirectionName_directionName hos
    rw [h, hlen, ofDirectionName_directionName (hlen ▸ hos)] at hread
    exact (Except.ok.inj hread).symm
  · have htext : ∀ {ns : Ints}, 3 < ns.length →
        (directionName ns).toList = '(' ::
          ([',', ' '].intercalate (ns.map (·.repr.toList)) ++ [')']) := by
      rintro (_ | ⟨_, _ | _⟩) hns <;> simp_all [directionName, tupleText, String.toList_intercalate,
        Function.comp_def]
    have h := congrArg String.toList h
    rw [htext (by omega), htext (by omega)] at h
    exact FieldDescription.intercalate_repr_injective (l := [' '])
      (by simp [FieldDescription.Blank]) hlen (append_cancel_right (cons.inj h).2)

end Stencil

/-! ### Names of accesses -/

namespace Access

variable {f : GridField} {a b : Expr}

/-- An access to a field, with an integer along every coordinate. -/
def IsAt (f : GridField) (os is : Ints) (a : Expr) : Prop :=
  os.length = f.spatialDimensions ∧ is.length = f.indexDimensions ∧ ∃ absolute xs ys,
    a = .node (.access f os.length absolute) (xs ++ ys) ∧
    Forall₂ (fun x n => x.int? = some n) xs os ∧ Forall₂ (fun y n => y.int? = some n) ys is

theorem texts_of_ints {es : Exprs} (h : Forall₂ (fun e n => e.int? = some n) es is) :
    (∀ e ∈ es, (e.int?.isSome || e.isMember) = true) ∧ es.filterMap Expr.int? = is ∧
    es.map Expr.accessName.indexText = is.map Int.repr := by
  induction h with
  | nil => simp
  | @cons e n es is he _ ih =>
    have htext : Expr.accessName.indexText e = n.repr := by
      unfold Expr.accessName.indexText
      split <;> simp_all [Expr.int?]
    simp_all

theorem IsAt.accessName_eq (h : IsAt f os is a) :
    a.accessName = f.name ++ "_" ++ (Stencil.directionName os ++ if f.indexDimensions =
      0 then "" else "^" ++ ",".intercalate (is.map Int.repr)) := by
  obtain ⟨-, hdims, absolute, xs, ys, rfl, hxs, hys⟩ := h
  obtain ⟨hx, hoffset, -⟩ := texts_of_ints hxs
  obtain ⟨hy, -, hindex⟩ := texts_of_ints hys
  have hplain : (xs ++ ys).all (fun x => x.int?.isSome || x.isMember) = true :=
    all_eq_true.2 (forall_mem_append.2 ⟨hx, hy⟩)
  have hall : (if f.indexDimensions = 1 then ys.take 1 else ys) = ys := by
    split
    · next hone => rw [take_of_length_le (by rw [hys.length_eq, hdims, hone])]
    · rfl
  simp [Expr.accessName, Expr.offsets, Expr.index, ← hxs.length_eq, hall, hplain, hoffset, hindex,
    String.append_assoc]

/-- Accesses to a field have the same name only at the same place. -/
theorem IsAt.accessName_eq_iff (ha : IsAt f os is a) (hb : IsAt f ps js b) :
    a.accessName = b.accessName ↔ os = ps ∧ is = js := by
  constructor
  · intro h
    have hos := ha.1.trans hb.1.symm
    have his := ha.2.1.trans hb.2.1.symm
    rw [ha.accessName_eq, hb.accessName_eq, String.append_right_inj] at h
    split at h
    · exact ⟨Stencil.directionName_injective hos (by simpa using h), by simp_all [IsAt]⟩
    · -- no index has a mark in it, so the last mark is in front of the index
      have hblank : FieldDescription.Blank [] := by simp [FieldDescription.Blank]
      have hmark : ∀ ns : Ints, '^' ∉ ([','].intercalate (ns.map (·.repr.toList))).reverse :=
        fun ns => by
        simpa using (FieldDescription.spaced_intercalate hblank ns).notMem rfl
          (FieldDescription.notMem_numbers rfl ns)
      have h := congrArg (·.toList.reverse) h
      simp only [String.toList_append, String.toList_intercalate, map_map, reverse_append,
        append_assoc] at h
      obtain ⟨hindex, hoffset⟩ := Address.append_inj_of_notMem (hmark is) (hmark js) (.inr ⟨_, rfl⟩)
        (.inr ⟨_, rfl⟩) h
      exact ⟨Stencil.directionName_injective hos
        (String.toList_inj.1 (reverse_injective (cons.inj hoffset).2)),
        FieldDescription.intercalate_repr_injective hblank his (reverse_injective hindex)⟩
  · rintro ⟨rfl, rfl⟩
    rw [ha.accessName_eq, hb.accessName_eq]

/-- Directions are read back, so different offsets have different directions, and accesses to a
field different names. -/
theorem names_faithful :
    (∀ o : List Int, o.length ≤ 3 → Stencil.ofDirectionName (Stencil.directionName o) o.length =
      .ok o) ∧
    (∀ o p : List Int, o.length = p.length → Stencil.directionName o = Stencil.directionName p →
      o = p) ∧
    ∀ (f : GridField) (os is ps js : List Int) (a b : Expr), IsAt f os is a → IsAt f ps js b →
      (a.accessName = b.accessName ↔ os = ps ∧ is = js) :=
  ⟨fun _ => Stencil.ofDirectionName_directionName, fun _ _ => Stencil.directionName_injective,
    fun _ _ _ _ _ _ _ => IsAt.accessName_eq_iff⟩

/-- Three cells to the west and two down, and the sides of a cell. -/
theorem names_faithful_sides : Stencil.ofDirectionName "2B3W" 3 = .ok [-3, 0, -2] ∧
    (Expr.node (.access (.line "f") 1 false) [.lit 1]).accessName ≠
    (Expr.node (.access (.line "f") 1 false) [.lit (-1)]).accessName := by
  obtain ⟨hread, -, hnames⟩ := names_faithful
  have htext : Stencil.directionName [-3, 0, -2] = "2B3W" := by decide
  have hat : ∀ n, IsAt (.line "f") [n] [] (.node (.access (.line "f") 1 false) [.lit n]) :=
    fun n => ⟨rfl, rfl, false, [.lit n], [], rfl, .cons rfl .nil, .nil⟩
  refine ⟨htext ▸ hread [-3, 0, -2] (by decide), fun h => ?_⟩
  simpa using ((hnames _ _ _ _ _ _ _ (hat 1) (hat (-1))).1 h).1

end Access
end StencilForge
