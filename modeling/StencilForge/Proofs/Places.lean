import StencilForge.Proofs.Collecting
import StencilForge.Proofs.Selections

/-!
# Proofs — sums of symbols and integers

Values of sums that the standard algebra builds of symbols and integers (`Model.eval_plus`,
`Algebra.eval_plus_add`). Where each symbol gets a number, such a sum becomes one
(`Substitute.algebraicTable_of_settles`).
-/

open StencilForge.Expr (plus minus)
open List StencilForge.Outcome

namespace StencilForge

variable {V : Type} {M : Model V} {w : View V} {A : Algebra} {s x : Symbol} {m n N : Int}

namespace Model

/-- The value of a sum does not depend on the order of its terms. -/
theorem eval_addOf {ts us : Exprs} {ns : Ints} (hperm : ts.Perm us)
    (h : Forall₂ (fun e n => M.eval w e = some (M.int n)) us ns) :
    M.eval w (.addOf ts) = some (M.int ns.sum) := by
  let v : Expr → Int := fun e => ((M.eval w e).bind M.toInt?).getD 0
  have hv : us.map v = ns := by
    rw [← forall₂_eq_eq_eq, forall₂_map_left_iff]
    exact h.imp fun e n he => by simp [v, he, M.toInt?_int]
  have hread : ∀ e ∈ ts, M.eval w e = some (M.int (v e)) := fun e he => by
    obtain ⟨n, -, hn⟩ := exists_of_forall₂ h.flip (hperm.mem_iff.1 he)
    simp [v, hn, M.toInt?_int]
  rw [← hv, ← (hperm.map v).sum_eq]
  have hall : M.eval w (.add ts) = some (M.int (ts.map v).sum) := by
    rw [eval_add, ← M.add_ints, map_map]
    exact congrArg _ (map_congr_left hread)
  match ts with
  | [] => exact M.eval_int w 0
  | [e] => simpa [Expr.addOf] using hread
  | _ :: _ :: _ => exact hall

theorem eval_plus (hx : M.eval w (.sym x) = some (M.int N)) (n : Int) :
    M.eval w (plus x n) = some (M.int (N + n)) := by
  unfold plus
  split
  · next h => rw [hx, h, add_zero]
  · have hadd := M.add_ints [n, N]
    rw [eval_add, map_cons, map_cons, hx]
    simpa [add_comm] using hadd

end Model

/-- A sum with two symbols. -/
theorem Algebra.eval_plus_add (hne : s ≠ x) (hs : M.eval w (.sym s) = some (M.int m))
    (hx : M.eval w (.sym x) = some (M.int N)) (n : Int) :
    M.eval w (A.next.add [.sym s, plus x n]) = some (M.int (m + (N + n))) := by
  have hkey : (Expr.sym s == Expr.sym x) = false := by
    rw [Bool.eq_false_iff]
    simpa using hne
  have hbuild : A.next.add [.sym s, plus x n] =
    .addOf ((if n = 0 then [] else [.int n]) ++ Expr.sorted [.sym s, .sym x]) := by
    change Sum.build A _ = _
    rw [Sum.build_terms (q := 0 + 0 + n) rfl (Expr.isZero_plus x n)
      [(.sym s, 1), (.sym x, 1)] ?_]
    · simp [Sum.scaled, Number.ofInt, Number.isZero, Number.isOne]
    · rw [show Expr.sym s = plus s 0 from rfl, Sum.collect_plus, Sum.collect_plus]
      simp [Table.alter, hkey, plus, Number.one, Number.ofInt]
  have hperm : (Expr.sorted [.sym s, .sym x]).Perm [.sym s, .sym x] := mergeSort_perm ..
  have hpair : Forall₂ (fun e n => M.eval w e = some (M.int n)) [.sym s, .sym x] [m, N] :=
    .cons hs (.cons hx .nil)
  rw [hbuild]
  by_cases hn : n = 0
  · simpa [hn] using M.eval_addOf hperm hpair
  · rw [if_neg hn]
    have := M.eval_addOf (hperm.cons (.int n)) (.cons (M.eval_int w n) hpair)
    rw [show m + (N + n) = [n, m, N].sum by simp; ring]
    exact this

/-! ### Numbers for symbols -/

namespace Substitute

variable {y : Symbol} {new a b a' b' : Expr} {h : Head} {j : Nat}

/-- Replacing a symbol gives this, if there is fuel enough. -/
def Turns (A : Algebra) (y : Symbol) (new : Expr) (j : Nat) (e e' : Expr) : Prop :=
  ∀ k, j ≤ k → algebraicDeep A k (.sym y) new e = .ok e'

theorem turns_self : Turns A y new 1 (.sym y) new := fun k hk => by
  obtain ⟨k, rfl⟩ := Nat.exists_eq_add_of_le' hk
  exact if_pos (Expr.same_refl (.sym y))

theorem turns_int (n : Int) : Turns A y new 1 (.int n) (.int n) := fun k hk => by
  obtain ⟨k, rfl⟩ := Nat.exists_eq_add_of_le' hk
  rfl

theorem turns_sym (hne : x ≠ y) : Turns A y new 1 (.sym x) (.sym x) := fun k hk => by
  obtain ⟨k, rfl⟩ := Nat.exists_eq_add_of_le' hk
  rw [algebraicDeep, if_neg (by simpa using hne)]
  rfl

theorem turns_pair (hh : h = .add ∨ h = .mul) (hj : 1 ≤ j) (ha : Turns A y new j a a')
    (hb : Turns A y new j b b') :
    (Expr.same b b' = false → ∀ e, Build.node A h [a', b'] = .ok e →
      Turns A y new (j + 3) (.node h [a, b]) e) ∧
      (a' = a → b' = b → Turns A y new (j + 3) (.node h [a, b]) (.node h [a, b])) := by
  have hlist : ∀ k, j + 2 ≤ k → algebraicList A k (.sym y) new [a, b] = .ok [a', b'] :=
    fun k hk => by
    obtain ⟨k, rfl⟩ := Nat.exists_eq_add_of_le' (show 3 ≤ k by omega)
    simp only [algebraicList, ha _ (show j ≤ k + 2 by omega), hb _ (show j ≤ k + 1 by omega)]
    rfl
  have hnode : ∀ k, j + 2 ≤ k → algebraicDeep A (k + 1) (.sym y) new (.node h [a, b]) =
      if Expr.sameList [a, b] [a', b'] then .ok (.node h [a, b]) else Build.node A h [a', b'] :=
        fun k hk => by
    have hrest : (do
        let bs ← algebraicList A k (.sym y) new [a, b]
        if Expr.sameList [a, b] bs then return Expr.node h [a, b] else Build.node A h bs) =
          if Expr.sameList [a, b] [a', b'] then .ok (.node h [a, b]) else Build.node A h [a',
            b'] := by
      rw [hlist k hk]
      rfl
    rcases hh with rfl | rfl <;> exact hrest
  refine ⟨fun hne e he k hk => ?_, ?_⟩
  · obtain ⟨k, rfl⟩ := Nat.exists_eq_add_of_le' (show 1 ≤ k by omega)
    rw [hnode k (by omega), if_neg (by simp [Expr.sameList, hne]), he]
  · rintro rfl rfl k hk
    obtain ⟨k, rfl⟩ := Nat.exists_eq_add_of_le' (show 1 ≤ k by omega)
    rw [hnode k (by omega), if_pos (by simp [Expr.sameList, Expr.same_refl])]

theorem algebraic_of_turns {n : Int} {e e' : Expr} (hj : j ≤ 8) (h : Turns A y (.int n) j e e') :
    algebraic A (.sym y) (.int n) e = .ok e' := by
  rw [algebraic, if_neg (by rintro ⟨⟩)]
  exact h _ (by omega)

theorem turns_plus (n N : Int) : Turns A.next y (.int N) 4 (plus y n) (.int (N + n)) := by
  unfold plus
  split
  · next h =>
    rw [h, add_zero]
    exact fun k hk => turns_self k (by omega)
  · refine (turns_pair (.inl rfl) le_rfl (turns_int n) turns_self).1 rfl _ (congrArg Except.ok ?_)
    rw [add_comm N n]
    exact A.add_ints n N

theorem turns_plus_of_ne (hne : x ≠ y) (n : Int) : Turns A y new 4 (plus x n) (plus x n) := by
  unfold plus
  split
  · exact fun k hk => turns_sym hne k (by omega)
  · exact (turns_pair (.inl rfl) le_rfl (turns_int n) (turns_sym hne)).2 rfl rfl

theorem turns_neg (N : Int) : Turns A.next y (.int N) 4 (.mul [.negOne, .sym y]) (.int (-N)) := by
  refine (turns_pair (.inr rfl) le_rfl (turns_int (-1)) turns_self).1 rfl _ (congrArg Except.ok ?_)
  rw [← neg_one_mul N]
  exact A.mul_ints (-1) N

theorem turns_neg_of_ne (hne : x ≠ y) : Turns A y new 4 (.mul [.negOne, .sym x])
    (.mul [.negOne, .sym x]) :=
  (turns_pair (.inr rfl) le_rfl (turns_int (-1)) (turns_sym hne)).2 rfl rfl

theorem turns_minus (n N : Int) : Turns A.next y (.int N) 7 (minus y n) (.int (n - N)) := by
  unfold minus
  split
  · next h =>
    rw [h, zero_sub]
    exact fun k hk => turns_neg N k (by omega)
  · refine (turns_pair (.inl rfl) (show 1 ≤ 4 by decide) (fun k hk => turns_int n k (by omega))
      (turns_neg N)).1 rfl _
      (congrArg Except.ok ?_)
    rw [sub_eq_add_neg]
    exact A.add_ints n (-N)

theorem turns_minus_of_ne (hne : x ≠ y) (n : Int) : Turns A y new 7 (minus x n) (minus x n) := by
  unfold minus
  split
  · exact fun k hk => turns_neg_of_ne hne k (by omega)
  · exact (turns_pair (.inl rfl) (show 1 ≤ 4 by decide) (fun k hk => turns_int n k (by omega))
      (turns_neg_of_ne hne)).2 rfl rfl

/-- The symbols of a table are replaced one after the other. -/
inductive Settles (t : Table Expr Expr) : Expr → Int → Prop
  | int (n : Int) : Settles t (.int n) n
  | plus {z : Symbol} {N : Int} (hz : (.sym z, .int N) ∈ t) (n : Int) : Settles t (plus z n) (N + n)
  | minus {z : Symbol} {N : Int} (hz : (.sym z, .int N) ∈ t) (n : Int) :
    Settles t (minus z n) (n - N)

theorem algebraicSeq_int {ps : List (Expr × Expr)} (hps : ∀ p ∈ ps, ∃ y N, p = (.sym y, .int N))
    (n : Int) :
    algebraicSeq A ps (.int n) = .ok (.int n) := by
  induction ps with
  | nil => rfl
  | cons p ps ih =>
    obtain ⟨⟨y, N, rfl⟩, hrest⟩ := forall_mem_cons.1 hps
    exact bind_eq_ok.2 ⟨_, algebraic_of_turns (by decide) (turns_int n), ih hrest⟩

theorem algebraicTable_of_settles {t : Table Expr Expr} (ht : ∀ p ∈ t, ∃ y N, p = (.sym y, .int N))
    (hone : ∀ y N N', (.sym y, .int N) ∈ t → (.sym y, .int N') ∈ t → N = N') {e : Expr} {n : Int}
    (h : Settles t e n) :
    algebraicTable A.next t e = .ok (.int n) := by
  have hmem : ∀ {p}, p ∈ arrange A.next t ↔ p ∈ t := fun {p} => by
    refine mem_arrange.trans ⟨And.left, fun hp => ⟨hp, ?_⟩⟩
    obtain ⟨y, N, rfl⟩ := ht p hp
    rfl
  have hps : ∀ p ∈ arrange A.next t, ∃ y N, p = (.sym y, .int N) := fun p hp => ht p (hmem.1 hp)
  have hone' : ∀ y N N', (.sym y, .int N) ∈ arrange A.next t →
    (.sym y, .int N') ∈ arrange A.next t → N = N' :=
    fun y N N' h h' => hone y N N' (hmem.1 h) (hmem.1 h')
  suffices ∀ ps : List (Expr × Expr), (∀ p ∈ ps, ∃ y N, p = (.sym y, .int N)) →
      (∀ y N N', (.sym y, .int N) ∈ ps → (.sym y, .int N') ∈ ps → N = N') → Settles ps e n →
        algebraicSeq A.next ps e = .ok (.int n) by
    refine this _ hps hone' ?_
    cases h with
    | int => exact .int _
    | plus hy => exact .plus (hmem.2 hy) _
    | minus hy => exact .minus (hmem.2 hy) _
  intro ps hps hone h
  induction ps with
  | nil =>
    cases h with
    | int => rfl
    | plus hy | minus hy => cases hy
  | cons p ps ih =>
    obtain ⟨⟨z, L, rfl⟩, hrest⟩ := forall_mem_cons.1 hps
    have hone' : ∀ y N N', (.sym y, .int N) ∈ ps → (.sym y, .int N') ∈ ps → N = N' :=
      fun y N N' h h' =>
      hone y N N' (mem_cons_of_mem _ h) (mem_cons_of_mem _ h')
    cases h with
    | int => exact algebraicSeq_int hps n
    | @plus y N hy m =>
      by_cases hyz : y = z
      · subst hyz
        obtain rfl := hone y N L hy mem_cons_self
        exact bind_eq_ok.2 ⟨_, algebraic_of_turns (by decide) (turns_plus m N),
          algebraicSeq_int hrest _⟩
      · refine bind_eq_ok.2 ⟨_, algebraic_of_turns (by decide) (turns_plus_of_ne hyz m),
          ih hrest hone' (.plus ?_ m)⟩
        exact (mem_cons.1 hy).resolve_left fun h => hyz (by simpa using congrArg Prod.fst h)
    | @minus y N hy m =>
      by_cases hyz : y = z
      · subst hyz
        obtain rfl := hone y N L hy mem_cons_self
        exact bind_eq_ok.2 ⟨_, algebraic_of_turns (by decide) (turns_minus m N),
          algebraicSeq_int hrest _⟩
      · refine bind_eq_ok.2 ⟨_, algebraic_of_turns (by decide) (turns_minus_of_ne hyz m),
          ih hrest hone' (.minus ?_ m)⟩
        exact (mem_cons.1 hy).resolve_left fun h => hyz (by simpa using congrArg Prod.fst h)

end Substitute

/-! ### Places of slices and loops -/

namespace Slice

open Machine

variable {ν : Extent → Int} {e : Expr} {a : Int}

/-- A place that is written out, or counted from an extent that is a symbol. -/
def Counted (ν : Extent → Int) (x : Extent) (e : Expr) (a : Int) : Prop :=
  e = .lit a ∨ ∃ y n, Symbol.ofExtent x = some y ∧ e = plus y n ∧ a = x.value ν + n

theorem counted_lit {x : Extent} (n : Int) : Counted ν x (.lit n) n := .inl rfl

theorem Counted.eval {x : Extent} (h : Counted ν x e a) {zs : List Extent} (hx : x ∈ zs)
    {s : State V} (hs : s.Sized M ν zs) :
    M.eval s.view e = some (M.int a) := by
  obtain rfl | ⟨y, n, hy, rfl, rfl⟩ := h
  · exact M.eval_lit s.view a
  · have hvalue : x.value ν = ν x := by
      cases x with
      | known n => cases hy
      | shape fs k | stride f k => rfl
    rw [hvalue]
    exact M.eval_plus (w := s.view) (hs x hx y hy) n

end Slice

end StencilForge
