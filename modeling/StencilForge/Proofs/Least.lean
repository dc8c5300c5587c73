import StencilForge.Proofs.Rebuilding
import StencilForge.Proofs.Signs

/-!
# Proofs — the end of a block

What is counted from a counter cannot be compared with the end of a loop
(`Elementary.compareValues_end`), so that their minimum is left to be found when the counter is
known (`Build.least_end`).
-/

open StencilForge.Expr (plus minus)
open List

namespace StencilForge

variable {A : Algebra}

namespace Elementary

open Judgement

variable {a b : Expr}

/-- Two values are not compared if the sign of their difference is not known. -/
theorem compareValues_eq_none {q : Int} {us : Exprs} (hus : Swings us)
    (hsub : A.next.next.next.next.sub a b = .addOf ((if q = 0 then [] else [.int q]) ++ us))
    (hnum : a.isNum = false ∨ b.isNum = false) :
    compareValues A.next.next.next.next a b = none := by
  obtain ⟨hle, hnumber⟩ := hus.facts_le (A := A) q
  rw [← hsub] at hle hnumber
  have hnonneg : A.next.next.next.next.is .extNonnegative (A.next.next.next.next.sub a b) = false :=
    hle.is (whole_open.1 true)
  have hnonpos : A.next.next.next.next.is .extNonpositive (A.next.next.next.next.sub a b) = false :=
    hle.is (whole_open.1 false)
  unfold compareValues
  split
  · simp [Expr.isNum] at hnum
  · dsimp only
    generalize A.next.next.next.next.sub a b = d at *
    split
    · cases hnumber
    · rw [hnumber, hnonneg, hnonpos]
      simp

theorem plus_eq_addOf (s : Symbol) (n : Int) :
    plus s n = .addOf ((if n = 0 then [] else [.int n]) ++ [.sym s]) := by
  unfold plus
  split <;> rfl

theorem minus_eq_addOf (s : Symbol) (n : Int) :
    minus s n = .addOf ((if n = 0 then [] else [.int n]) ++ [.mul [.negOne, .sym s]]) := by
  unfold minus
  split <;> rfl

theorem sub_plus_of_ne {s x : Symbol} (hne : s ≠ x) (m n : Int) :
    A.next.next.next.sub (plus s m) (plus x n) =
    .addOf ((if m - n = 0 then [] else [.int (m - n)]) ++ Expr.sorted [.sym s,
      .mul [.negOne, .sym x]]) := by
  have hkey : (Expr.sym s == Expr.sym x) = false := by
    rw [Bool.eq_false_iff]
    simpa using hne
  rw [Algebra.sub, Algebra.neg_plus]
  change Sum.build A.next.next _ = _
  rw [Sum.build_terms (q := 0 + m + -n) (Expr.isZero_plus s m) (Expr.isZero_minus x (-n))
    [(.sym s, 1), (.sym x, -1)] ?_]
  · have hone : Sum.scaled A.next.next (.sym s) (.ofInt 1) = some (.sym s) :=
      by simp [Sum.scaled, Number.ofInt, Number.isZero, Number.isOne]
    simp only [filterMap_cons, filterMap_nil, hone, Algebra.scaled_negOne, zero_add,
      ← sub_eq_add_neg]
  · rw [Sum.collect_plus, Sum.collect_minus]
    simp [Table.alter, hkey, Number.one, Number.negOne, Number.ofInt]

/-- Where a loop ends: at a number, or counted from an extent. -/
def IsEnd (e : Expr) : Prop := (∃ n, e = .int n) ∨ ∃ x n, x.facts = extent ∧ e = plus x n

theorem compareValues_end {c : Symbol} (hc : c.facts = DataType.integer.facts) {e : Expr}
    (he : IsEnd e) (k : Int) :
    compareValues A.next.next.next.next e (plus c k) = none ∧
      compareValues A.next.next.next.next (plus c k) e = none := by
  have hnum : (plus c k).isNum = false := by
    unfold plus
    split <;> rfl
  have hcollects := Algebra.collects_next A.next
  obtain ⟨hplus, hminus⟩ := swings_counter hc
  obtain ⟨n, rfl⟩ | ⟨x, n, hx, rfl⟩ := he
  · exact ⟨compareValues_eq_none hminus ((hcollects.subPlus c n k).trans (minus_eq_addOf c _))
      (.inr hnum),
      compareValues_eq_none hplus ((hcollects.plusSub c k n).trans (plus_eq_addOf c _)) (.inl hnum)⟩
  · have hne : c ≠ x := by
      rintro rfl
      exact absurd (hc.symm.trans hx) (by rw [extent_eq]; decide +kernel)
    obtain ⟨hcx, hxc⟩ := swings_extent hc hx
    exact ⟨compareValues_eq_none (hxc.perm (mergeSort_perm ..)) (sub_plus_of_ne hne.symm n k)
      (.inr hnum),
      compareValues_eq_none (hcx.perm (mergeSort_perm ..)) (sub_plus_of_ne hne k n) (.inl hnum)⟩

/-- A number, a symbol or a sum. -/
def IsPlain (e : Expr) : Prop := (∃ n, e = .int n) ∨ (∃ s, e = .sym s) ∨ ∃ ts, e = .add ts

theorem isPlain_plus (s : Symbol) (n : Int) : IsPlain (plus s n) := by
  unfold plus
  split
  · exact .inr (.inl ⟨s, rfl⟩)
  · exact .inr (.inr ⟨_, rfl⟩)

/-- The minimum of two values that are not compared. -/
theorem extremum_pair {a b : Expr} (ha : IsPlain a) (hb : IsPlain b) (hab : (b == a) = false)
    (h : compareValues A a b = none)
    (h' : compareValues A b a = none) : extremum A true
    [a, b] = .fn .min (Arrange.sortBySize A [a, b]) := by
  have hkeep : keepExtreme A true [a, b] [] = [a, b] := by simp [keepExtreme, h, h']
  have hunion : unionNew [] [a, b] = [a, b] := by simp [unionNew, insertNew, hab]
  have hinf : ∀ {e}, IsPlain e → (e == .num .negInf) = false ∧ (e != .num .inf) = true := by
    rintro e (⟨n, rfl⟩ | ⟨s, rfl⟩ | ⟨ts, rfl⟩) <;> exact ⟨rfl, rfl⟩
  have hbottom : [a, b].any (· == .num .negInf) = false := by simp [(hinf ha).1, (hinf hb).1]
  have htop : [a, b].filter (· != .num .inf) = [a, b] := by simp [(hinf ha).2, (hinf hb).2]
  have hflat : ∀ f : Expr → Exprs, f a = [a] → f b = [b] → [a, b].flatMap f = [a, b] := by
    intro f hfa hfb
    simp [hfa, hfb]
  have hnews : ∀ p : Expr → Bool, p a = true → p b = true → [a, b].filter p = [a, b] := by
    intro p hpa hpb
    simp [hpa, hpb]
  simp only [extremum, if_true]
  rw [hflat, hbottom, if_neg Bool.false_ne_true, hunion, htop, hnews, hkeep]
  -- none of the two is a minimum or a maximum itself
  · obtain ⟨n, rfl⟩ | ⟨s, rfl⟩ | ⟨ts, rfl⟩ := ha <;> rfl
  · obtain ⟨n, rfl⟩ | ⟨s, rfl⟩ | ⟨ts, rfl⟩ := hb <;> rfl
  · obtain ⟨n, rfl⟩ | ⟨s, rfl⟩ | ⟨ts, rfl⟩ := ha <;> rfl
  · obtain ⟨n, rfl⟩ | ⟨s, rfl⟩ | ⟨ts, rfl⟩ := hb <;> rfl

theorem isPlain_end {e : Expr} (he : IsEnd e) : IsPlain e := by
  obtain ⟨n, rfl⟩ | ⟨x, n, -, rfl⟩ := he
  · exact .inl ⟨n, rfl⟩
  · exact isPlain_plus x n

theorem counter_ne_extent {c x : Symbol} (hc : c.facts = DataType.integer.facts)
    (hx : x.facts = extent) : c ≠ x := by
  rintro rfl
  exact absurd (hc.symm.trans hx) (by rw [extent_eq]; decide +kernel)

theorem plus_ne_end {c : Symbol} (hc : c.facts = DataType.integer.facts) {e : Expr} (he : IsEnd e)
    (k : Int) : (plus c k == e) = false := by
  rw [Bool.eq_false_iff]
  intro h
  obtain ⟨n, rfl⟩ | ⟨x, n, hx, rfl⟩ := he
  · unfold plus at h
    split at h <;> cases h
  · have hne : ¬ Expr.same (.sym c) (.sym x) = true :=
      fun h => counter_ne_extent hc hx (by simpa [Expr.same] using h)
    unfold plus at h
    split at h <;> split at h
    · exact hne h
    · cases h
    · cases h
    · have h : (Expr.sameHead .add .add &&
        (Expr.same (.int k) (.int n) && (Expr.same (.sym c) (.sym x) && true))) = true := h
      simp only [Bool.and_eq_true] at h
      exact hne h.2.2.1

end Elementary

open Judgement Elementary

theorem Judgement.extReal_int (n : Int) : (A.next.facts (.int n)).fails .extReal = false := by
  by_cases hn : n = 0
  · rw [hn, facts_int]
    decide +kernel
  · obtain ⟨U, hU, -, hle⟩ := exists_facts_int_le (A := A) hn
    exact hle.fails (hU.2.1 .extReal (by simp [additive])).2

theorem Judgement.extReal_end {e : Expr} (he : IsEnd e) : A.next.next.isNot .extReal e = false := by
  obtain ⟨n, rfl⟩ | ⟨x, n, hx, rfl⟩ := he
  · exact extReal_int n
  · exact (facts_extent_le hx n).fails (integral_above.2.1 .extReal (by simp [additive])).2

/-- The minimum of the end of a loop and a place counted from a counter is left open. -/
theorem Build.least_end {c : Symbol} (hc : c.facts = DataType.integer.facts) {e : Expr}
    (he : IsEnd e) (k : Int) :
    ∃ us, us.Perm [e, plus c k] ∧ Build.node .standard (.fn .min) [e,
      plus c k] = .ok (.fn .min us) := by
  refine ⟨Arrange.sortBySize (.level 149) [e, plus c k], ?_, ?_⟩
  · have hperm := (mergeSort_perm ([e, plus c k].map fun e => (e.nodeCount,
      (Algebra.level 149).key e, e)) fun a b =>
      a.1 < b.1 || (a.1 == b.1 && SortKey.le a.2.1 b.2.1)).map (·.2.2)
    rw [map_map] at hperm
    exact hperm.trans (.of_eq (map_id _))
  have hplain : ∀ {x}, IsPlain x → (x == .const .complexInf) = false ∧
    (x.isBoolean && !x.isSymbol) = false := by
    rintro x (⟨n, rfl⟩ | ⟨s, rfl⟩ | ⟨ts, rfl⟩)
    · exact ⟨rfl, rfl⟩
    · exact ⟨rfl, by simp [Expr.isSymbol]⟩
    · exact ⟨rfl, rfl⟩
  have hcounter : Algebra.standard.isNot .extReal (plus c k) = false := by
    have := ((swings_counter hc).1.facts_le (A := .level 146) k).1
    rw [← plus_eq_addOf] at this
    exact this.fails whole_open.2
  have hend : Algebra.standard.isNot .extReal e = false := extReal_end (A := .level 148) he
  have hcheck : [e, plus c k].any (fun x =>
    Algebra.standard.isNot .extReal x && !x.isNan || x == .const .complexInf ||
      x.isBoolean && !x.isSymbol) = false := by
    obtain ⟨h1, h2⟩ := hplain (isPlain_end he)
    obtain ⟨h3, h4⟩ := hplain (isPlain_plus c k)
    simp only [any_cons, any_nil, hend, hcounter, h1, h2, h3, h4, Bool.false_and, Bool.or_false]
  have hnode : Build.node .standard (.fn .min) [e, plus c k] = Build.extremum .standard .min [e,
    plus c k] := rfl
  obtain ⟨hlt, hgt⟩ := compareValues_end (A := .level 145) hc he k
  have happly := extremum_pair (isPlain_end he) (isPlain_plus c k) (plus_ne_end hc he k) hlt hgt
  rw [hnode, Build.extremum, hcheck]
  exact congrArg Except.ok happly

end StencilForge
