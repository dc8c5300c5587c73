import StencilForge.Execution.Program
import StencilForge.Proofs.Mentions

/-!
# Proofs — random numbers

Ten rounds can be undone, since both multipliers have an inverse (`Philox.mix_bijective`), so that
draws at different times or cells have different words (`Philox.draws_distinct`).
-/

open List Function

namespace StencilForge.Execution.Philox

/-! ### Rounds -/

theorem multiply_snd (x y : UInt32) : (multiply x y).2 = x * y := by simp [multiply]

theorem mul_cancel {m i : UInt32} (h : m * i = 1) (x : UInt32) : m * (i * x) = x := by
  rw [← UInt32.mul_assoc, h, UInt32.one_mul]

/-- The counters before a round. -/
def undo (c : Counters) (k : Keys) : Counters :=
  let a := 0x991A7CDB * c.d
  let b := 0x6D7CAE67 * c.b
  ⟨a, (multiply 0xCD9E8D57 b).1 ^^^ (c.a ^^^ k.a), b, (multiply 0xD2511F53 a).1 ^^^ (c.c ^^^ k.b)⟩

theorem round_bijective (k : Keys) : Bijective (round · k) := by
  have h0 : (0x991A7CDB : UInt32) * 0xD2511F53 = 1 := by decide +kernel
  have h1 : (0x6D7CAE67 : UInt32) * 0xCD9E8D57 = 1 := by decide +kernel
  refine bijective_iff_has_inverse.2 ⟨(undo · k), fun c => ?_, fun c => ?_⟩
  · simp [undo, round, multiply_snd, mul_cancel h0, mul_cancel h1, UInt32.xor_assoc]
  · simp [undo, round, multiply_snd, mul_cancel (UInt32.mul_comm .. ▸ h0),
      mul_cancel (UInt32.mul_comm .. ▸ h1)]

theorem foldl_bijective {σ κ β : Type} {f : σ → κ → σ} (hf : ∀ k, Bijective (f · k)) (g : κ → κ)
    (l : List β) (k : κ) :
    Bijective fun s => (l.foldl (fun (p : σ × κ) _ => (f p.1 p.2, g p.2)) (s, k)).1 := by
  induction l generalizing k with
  | nil => exact bijective_id
  | cons _ l ih => exact (ih (g k)).comp (hf k)

theorem mix_bijective (k : Keys) : Bijective (mix · k) := foldl_bijective round_bijective bump
    (range 10) k

/-! ### Counters -/

theorem word_injective {ns ns' : Ints} {i : Nat} (heq : word ns i = word ns' i)
    (h : 0 ≤ ns.getD i 0 ∧ ns.getD i 0 < 2 ^ 32)
    (h' : 0 ≤ ns'.getD i 0 ∧ ns'.getD i 0 < 2 ^ 32) : ns.getD i 0 = ns'.getD i 0 := by
  have := congrArg UInt32.toNat heq
  rw [word, word, UInt32.ofInt, UInt32.ofInt, UInt32.toNat_ofNat', UInt32.toNat_ofNat'] at this
  omega

variable {V : Type} {M : Model V} {A : Algebra} {H : Head → Prop} {w w' : View V} {r : RandomDraw}
    {t t' : Int} {x x' o : Nat → Int}
  {ks : Ints}

def Reads (M : Model V) (w : View V) : Exprs → Ints → Prop :=
    Forall₂ fun e n => M.eval w e = some (M.int n)

/-- A time and a cell, whose place among all cells fits into words. -/
structure Stands (M : Model V) (w : View V) (r : RandomDraw) (t : Int) (x o : Nat → Int)
    (ks : Ints) : Prop where
  time : M.eval w r.timeStep = some (M.int t)
  cell : ∀ i < r.dim, w.symbol (Counter.symbol i) = some (M.int (x i))
  offset : ∀ i < r.dim, M.eval w (r.offsets.getD i .zero) = some (M.int (o i))
  keys : Reads M w r.keys ks
  time_inside : 0 ≤ t ∧ t < 2 ^ 32
  inside : ∀ i < r.dim, 0 ≤ x i + o i ∧ x i + o i < 2 ^ 32

def words (dim : Nat) (t : Int) (x o : Nat → Int) (ks : Ints) : Ints :=
  t :: (range dim).map (fun i => x i + o i) ++ replicate (3 - dim) 0 ++ ks

theorem Stands.reads (h : Stands M w r t x o ks) (hS : A.Sound M H) (hH : Operations H) :
    Reads M w (Code.drawParameters A r) (words r.dim t x o ks) := by
  refine rel_append (R := fun e n => M.eval w e = some (M.int n))
    (.cons h.time (rel_append ?_ ?_)) h.keys
  · refine forall₂_map_left_iff.2 (forall₂_map_right_iff.2 (forall₂_same.2 fun i hi => ?_))
    have hi := mem_range.1 hi
    exact hS.add_ints hH (h.cell i hi) ((M.eval_ofPosition w _).trans (h.offset i hi))
  · induction 3 - r.dim with
    | zero => exact .nil
    | succ n ih => exact .cons (M.eval_int w 0) ih

theorem getD_words {dim i : Nat} (hi : i < dim) : (words dim t x o ks).getD
    (i + 1) 0 = x i + o i := by
  simp [words, getElem?_append_left, hi]

theorem getD_words_key {dim i : Nat} (hdim : dim ≤ 3) : (words dim t x o ks).getD
    (i + 4) 0 = ks.getD i 0 := by
  rw [words, getD_append_right _ _ _ _ (by simp; omega)]
  congr 1
  simp
  omega

theorem words_injective (hdim : r.dim ≤ 3) (h : Stands M w r t x o ks)
    (h' : Stands M w' r t' x' o ks)
    (heq : counters (words r.dim t x o ks) = counters (words r.dim t' x' o ks)) :
    t = t' ∧ ∀ i < r.dim, x i = x' i := by
  have hword : ∀ i < 4, word (words r.dim t x o ks) i = word (words r.dim t' x' o ks) i := by
    simp only [counters, Counters.mk.injEq] at heq
    intro i hi
    interval_cases i <;> tauto
  refine ⟨word_injective (hword 0 (by omega)) h.time_inside h'.time_inside, fun i hi => ?_⟩
  have := word_injective (hword (i + 1) (by omega))
  rw [getD_words hi, getD_words hi] at this
  exact add_right_cancel (this (h.inside i hi) (h'.inside i hi))

theorem keys_words (hdim : r.dim ≤ 3) : keys (words r.dim t x o ks) = keys
    (words r.dim t' x' o ks) := by
  simp only [keys, word, getD_words_key hdim]

/-! ### Doubles -/

/-- Exact arithmetic; the unit may be the fraction that is written or the double below which it
lies. -/
structure Exact (R : Arithmetic ℚ) : Prop where
  add : ∀ a b, R.add a b = a + b
  mul : ∀ a b, R.mul a b = a * b
  div : ∀ a b, R.div a b = a / b
  nat : ∀ n : Nat, R.ofRat false n = n
  unit : 0 < R.ofRat false (scale 11102230246251565 32) ∧
    R.ofRat false (scale 11102230246251565 32) ≤ 1 / 2 ^ 53

theorem Exact.double_inside {R : Arithmetic ℚ} (hR : Exact R) (a b : UInt32) :
    0 < double R a b ∧ double R a b < 1 := by
  have hz : (a.toUInt64 ^^^ (b.toUInt64 <<< 21)).toNat < 2 ^ 53 := by
    rw [UInt64.toNat_xor]
    refine Nat.xor_lt_two_pow ?_ ?_
    · have := a.toNat_lt
      simp
      omega
    · have := b.toNat_lt
      simp [UInt64.toNat_shiftLeft]
      omega
  have hz : ((a.toUInt64 ^^^ (b.toUInt64 <<< 21)).toNat : ℚ) + 1 ≤ 2 ^ 53 := by exact_mod_cast hz
  have hpos : (0 : ℚ) ≤ (a.toUInt64 ^^^ (b.toUInt64 <<< 21)).toNat := Nat.cast_nonneg _
  have htwo : R.ofRat false 2 = 2 := hR.nat 2
  simp only [double, hR.add, hR.mul, hR.div, hR.nat, htwo]
  obtain ⟨hu, hu'⟩ := hR.unit
  constructor <;> nlinarith

/-- Different times or cells mix different counters, by a mixture that can be undone, and doubles
lie between zero and one. -/
theorem draws_distinct (hS : A.Sound M H) (hH : Operations H) :
    (∀ k, Bijective (mix · k)) ∧
    (∀ r w w' t t' x x' o ks, r.dim ≤ 3 → Stands M w r t x o ks → Stands M w' r t' x' o ks →
      (t ≠ t' ∨ ∃ i < r.dim, x i ≠ x' i) →
      ∃ ns ns', Reads M w (Code.drawParameters A r) ns ∧ Reads M w' (Code.drawParameters A r) ns' ∧
        mix (counters ns) (keys ns) ≠ mix (counters ns') (keys ns')) ∧
    ∀ R, Exact R → ∀ c k, ∀ y ∈ draw R false c k, 0 < y ∧ y < 1 := by
  refine ⟨mix_bijective, ?_, ?_⟩
  · intro r w w' t t' x x' o ks hdim h h' hne
    refine ⟨_, _, h.reads hS hH, h'.reads hS hH, fun heq => ?_⟩
    rw [keys_words hdim] at heq
    obtain ⟨ht, hx⟩ := words_injective hdim h h' ((mix_bijective _).1 heq)
    obtain hne | ⟨i, hi, hne⟩ := hne
    · exact hne ht
    · exact hne (hx i hi)
  · intro R hR c k y hy
    simp [draw] at hy
    obtain rfl | rfl := hy <;> exact hR.double_inside _ _

def oneDraw : RandomDraw := ⟨.philox, false, 1, .int 124, [.int 5], [.int 0, .int 7], []⟩

def cellView (n : Int) : View Whole where
  symbol _ := some (.int n)
  access _ _ _ := none
  load _ _ := none

/-- Exact arithmetic, without functions. -/
def rational : Arithmetic ℚ :=
  ⟨fun _ q => q, 0, 0, (· + ·), (· - ·), (· * ·), (· / ·), (- ·), (decide <| · < ·), (· == ·), id,
    (⌊·⌋), fun _ _ _ => none⟩

/-- Two neighbours at one time. -/
theorem draws_distinct_neighbours : (∃ ns ns',
      Reads Whole.model (cellView 0) (Code.drawParameters .bare oneDraw) ns ∧
    Reads Whole.model (cellView 1) (Code.drawParameters .bare oneDraw) ns' ∧
      mix (counters ns) (keys ns) ≠ mix (counters ns') (keys ns')) ∧
      ∀ y ∈ draw rational false ⟨124, 5, 0, 0⟩ ⟨0, 7⟩, 0 < y ∧ y < 1 := by
  obtain ⟨-, hne, hinside⟩ := draws_distinct (Algebra.bare_sound Whole.model) Arithmetic.operations
  have hs : ∀ n : Int, 0 ≤ n ∧ n < 2 → Stands Whole.model (cellView n) oneDraw 124 (fun _ => n)
    (fun _ => 5) [0, 7] := by
    refine fun n hn => ⟨rfl, fun _ _ => rfl, fun i hi => ?_, .cons rfl (.cons rfl .nil),
      by decide, fun _ _ => by omega⟩
    obtain rfl : i = 0 := Nat.lt_one_iff.1 hi
    rfl
  have hrational : Exact rational := ⟨fun _ _ => rfl, fun _ _ => rfl, fun _ _ => rfl, fun _ => rfl,
    by norm_num [rational, scale, Rat.mkRat_eq_div]⟩
  exact ⟨hne oneDraw _ _ _ _ _ _ _ _ (by decide) (hs 0 (by decide)) (hs 1 (by decide))
    (.inr ⟨0, by decide, by decide⟩), hinside _ hrational _ _⟩

end StencilForge.Execution.Philox
