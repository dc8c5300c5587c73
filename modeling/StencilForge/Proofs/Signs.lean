import StencilForge.Proofs.Collecting

/-!
# Proofs — signs that are not known

Facts that are closed under the rules and have every answer bound what is concluded
(`Judgement.conclude_le`).  So the sign of a sum with a counter stays unknown, whatever else is
added (`Judgement.Swings.facts_le`).
-/

open StencilForge.Expr (plus minus)
open List

namespace StencilForge

namespace Facts

variable {s t T : Facts} {f : Fact} {b : Bool}

/-- Nothing is known that is not known in `t`. -/
def Le (s t : Facts) : Prop := s.yes &&& t.yes = s.yes ∧ s.no &&& t.no = s.no

instance : Decidable (s.Le t) := inferInstanceAs (Decidable (_ ∧ _))

/-- Everything is known that follows by the rules. -/
def Closed (T : Facts) : Prop :=
  ∀ r ∈ rules.toList, T.yes &&& r.whenYes = r.whenYes → T.no &&& r.whenNo = r.whenNo →
    (mk r.thenYes r.thenNo).Le T

instance : Decidable T.Closed := inferInstanceAs (Decidable (∀ r ∈ rules.toList, _))

theorem or_and_of {a b m : UInt64} (ha : a &&& m = a) (hb : b &&& m = b) :
    (a ||| b) &&& m = a ||| b := by
  rw [← UInt64.toBitVec_inj] at ha hb ⊢
  ext i hi
  have ha := congrArg (fun x => x[i]) ha
  have hb := congrArg (fun x => x[i]) hb
  simp at ha hb ⊢
  grind

theorem and_eq_of {a m w : UInt64} (ha : a &&& m = a) (hw : a &&& w = w) : m &&& w = w := by
  rw [← hw, ← UInt64.and_assoc, UInt64.and_comm m a, ha]

theorem Le.step (hT : T.Closed) (hs : s.Le T) : s.step.Le T := by
  unfold Facts.step
  rw [← Array.foldl_toList]
  refine foldlRecOn (motive := fun s : Facts => s.Le T) _ _ hs fun s hs r hr => ?_
  split
  · next h =>
    simp only [Bool.and_eq_true, beq_iff_eq] at h
    obtain ⟨hyes, hno⟩ := hT r hr (and_eq_of hs.1 h.1) (and_eq_of hs.2 h.2)
    exact ⟨or_and_of hs.1 hyes, or_and_of hs.2 hno⟩
  · exact hs

theorem Le.close (hT : T.Closed) (hs : s.Le T) : s.close.Le T := by
  suffices ∀ fuel, ∀ s : Facts, s.Le T → (closeWith fuel s).Le T from this 64 s hs
  intro fuel
  induction fuel with
  | zero => exact fun s hs => hs
  | succ fuel ih =>
    intro s hs
    rw [closeWith]
    split
    · exact hs
    · exact ih _ (hs.step hT)

/-- What is known about one fact. -/
def Knows (T : Facts) (f : Fact) (b : Bool) : Prop := (none.set f b).Le T

instance : Decidable (T.Knows f b) := inferInstanceAs (Decidable (Le _ _))

theorem Le.set (hs : s.Le T) (h : T.Knows f b) : (s.set f b).Le T := by
  cases b with
  | false => exact ⟨hs.1, or_and_of hs.2 (by simpa [Knows, Le, Facts.set, none] using h)⟩
  | true => exact ⟨or_and_of hs.1 (by simpa [Knows, Le, Facts.set, none] using h), hs.2⟩

theorem Le.trans (hs : s.Le t) (ht : t.Le T) : s.Le T := by
  refine ⟨?_, ?_⟩
  · rw [← hs.1, UInt64.and_assoc, ht.1]
  · rw [← hs.2, UInt64.and_assoc, ht.2]

theorem Le.is (hs : s.Le T) (h : T.is f = false) : s.is f = false := by
  simp only [Facts.is, bne_eq_false_iff_eq] at h ⊢
  rw [← hs.1, UInt64.and_assoc, h, UInt64.and_zero]

theorem Le.fails (hs : s.Le T) (h : T.fails f = false) : s.fails f = false := by
  simp only [Facts.fails, bne_eq_false_iff_eq] at h ⊢
  rw [← hs.2, UInt64.and_assoc, h, UInt64.and_zero]

theorem get_eq_some : s.get f = some b → if b then s.is f = true else s.fails f = true := by
  unfold get is fails
  split
  · rintro ⟨⟩
    assumption
  · split
    · rintro ⟨⟩
      assumption
    · rintro ⟨⟩

end Facts

namespace Judgement

theorem conclude_le {T : Facts} (hT : T.Closed) {js : List Judgement}
    (hjs : ∀ j ∈ js, ∀ s : Facts, s.Le T → ∀ b, j.judge s = some b → T.Knows j.fact b) :
    (conclude js).Le T := by
  have htry : ∀ s : Facts, s.Le T → (tryAll js s).Le T := fun s hs => by
    refine foldlRecOn (motive := fun s : Facts => s.Le T) _ _ hs fun s hs j hj => ?_
    split
    · exact hs
    · split
      · next b hb => exact (hs.set (hjs j hj s hs b hb)).close hT
      · exact hs
  suffices ∀ n, ∀ s : Facts, s.Le T → (settle js n s).Le T from this 8 .none ⟨UInt64.zero_and,
    UInt64.zero_and⟩
  intro n
  induction n with
  | zero => exact fun s hs => hs
  | succ n ih =>
    intro s hs
    rw [settle]
    split
    · exact hs
    · exact ih _ (htry s hs)

/-! ### Sums -/

/-- What holds of a sum if it holds of all its terms. -/
def additive : List Fact := [.real, .extReal, .complex, .finite, .integer, .rational, .algebraic]

/-- The facts of an integer; sign and parity may be known or not. -/
def Integral (T : Facts) : Prop :=
  T.Closed ∧ (∀ p ∈ additive, T.Knows p true ∧ T.fails p = false) ∧ T.Knows .infinite false ∧
    T.is .infinite = false ∧
    T.Knows .irrational false ∧ T.is .irrational = false

instance {T : Facts} : Decidable (Integral T) := inferInstanceAs (Decidable (_ ∧ _))

def known (yes no : List Fact) : Facts := ⟨yes.foldl (· ||| ·.bit) 0, no.foldl (· ||| ·.bit) 0⟩

/-- What is known of any integer, and more. -/
def integer (yes no : List Fact) : Facts :=
  known (.complex :: .real :: .extReal :: .rational :: .integer :: .finite :: .algebraic ::
    .hermitian :: yes)
    (.imaginary :: .irrational :: .noninteger :: .infinite :: .transcendental :: no)

/-- Neither the sign nor whether it is zero is known. -/
def counter : Facts := integer [.even] [.odd]

/-- Either parity may be known, but not the sign. -/
def whole : Facts := integer [.even, .odd, .nonzero, .extNonzero] [.even, .odd, .zero]

def above : Facts :=
  integer [.even, .odd, .nonzero, .extNonzero, .positive, .nonnegative, .extPositive,
    .extNonnegative]
    [.even, .odd, .zero, .negative, .nonpositive, .extNegative, .extNonpositive]

def below : Facts :=
  integer [.even, .odd, .nonzero, .extNonzero, .negative, .nonpositive, .extNegative,
    .extNonpositive]
    [.even, .odd, .zero, .positive, .nonnegative, .extPositive, .extNonnegative]

theorem integral_counter : Integral counter := by decide +kernel
theorem integral_whole : Integral whole := by decide +kernel
theorem integral_above : Integral above := by decide +kernel
theorem integral_below : Integral below := by decide +kernel

theorem counter_open : (∀ up, counter.is (signFact up) = false ∧ counter.is (weakFact up) = false) ∧
    counter.is .zero = false ∧
    counter.fails .zero = false ∧ counter.is .imaginary = false := by decide +kernel

variable {A : Algebra} {T U : Facts} {ts : Exprs} {fs : List Facts}

theorem eq_true_of_group {xs : List (Option Bool)} {b : Bool} (hxs : some false ∉ xs)
    (h : group xs = some b) : b = true := by
  have hnone : xs.filter (· == some false) = [] := filter_eq_nil_iff.2 fun x hx => by
    simp only [beq_iff_eq]
    rintro rfl
    exact hxs hx
  unfold group at h
  rw [hnone] at h
  split at h
  · cases h
  · exact (Option.some.inj h).symm

/-- An integral set of facts bounds those of a sum of integers if it has the answers about sign,
parity and zero. -/
theorem facts_add_le (hT : Integral T) (hts : ∀ t ∈ ts, ∃ U, Integral U ∧ (A.facts t).Le U)
    (hzero : ∀ b, sumZero A ts (ts.map A.facts) = some b → T.Knows .zero b)
    (himaginary : ∀ b, sumImaginary A ts (ts.map A.facts) = some b → T.Knows .imaginary b)
    (hodd : ∀ b, sumOdd A ts (ts.map A.facts) = some b → T.Knows .odd b)
    (hstrict : ∀ up s b, sumStrict A ts (ts.map A.facts) up s = some b → T.Knows (signFact up) b)
    (hweak : ∀ up b, sumWeak A ts up = some b → T.Knows (weakFact up) b) :
    (A.next.facts (.add ts)).Le T := by
  obtain ⟨hclosed, hadd, hinf, -, hirr, -⟩ := hT
  have hfails : ∀ p ∈ additive, ∀ f ∈ ts.map A.facts, f.fails p = false := fun p hp f hf => by
    obtain ⟨t, ht, rfl⟩ := mem_map.1 hf
    obtain ⟨U, hU, hle⟩ := hts t ht
    exact hle.fails (hU.2.1 p hp).2
  have hall : ∀ p ∈ additive, ∀ b, group ((ts.map A.facts).map (·.get p)) = some b → T.Knows p b :=
    fun p hp b hb => by
    obtain rfl : b = true := by
      refine eq_true_of_group (fun hmem => ?_) hb
      obtain ⟨f, hf, hget⟩ := mem_map.1 hmem
      have : f.fails p = true := Facts.get_eq_some hget
      rw [hfails p hp f hf] at this
      cases this
    exact (hadd p hp).1
  have hinfinite : ∀ b, sumInfinite (ts.map A.facts) = some b → T.Knows .infinite b :=
    fun b hb => by
    have hnone : (ts.map A.facts).filter (·.is .infinite) = [] := filter_eq_nil_iff.2 fun f hf => by
      obtain ⟨t, ht, rfl⟩ := mem_map.1 hf
      obtain ⟨U, hU, hle⟩ := hts t ht
      simp [hle.is hU.2.2.2.1]
    unfold sumInfinite at hb
    rw [hnone] at hb
    split at hb
    · cases hb
    · exact Option.some.inj hb ▸ hinf
  have hirrational : ∀ b, sumIrrational (ts.map A.facts) = some b → T.Knows .irrational b :=
    fun b hb => by
    unfold sumIrrational at hb
    split at hb
    · exact Option.some.inj hb ▸ hirr
    · next f hf =>
      obtain ⟨t, ht, rfl⟩ := mem_map.1 (mem_of_find?_eq_some hf)
      obtain ⟨U, hU, hle⟩ := hts t ht
      rw [hle.is hU.2.2.2.2.2] at hb
      cases hb
  refine conclude_le hclosed fun j hj s _ b hb => ?_
  simp only [ofSum, mem_cons, not_mem_nil, or_false] at hj
  rcases hj with rfl | rfl | rfl | rfl | rfl | rfl | rfl | rfl | rfl | rfl | rfl | rfl | rfl | rfl | rfl | rfl
  on_goal 8 => exact hinfinite b hb
  on_goal 8 => exact hzero b hb
  on_goal 8 => exact himaginary b hb
  on_goal 8 => exact hodd b hb
  on_goal 8 => exact hirrational b hb
  on_goal 8 => exact hstrict true s b hb
  on_goal 8 => exact hstrict false s b hb
  on_goal 8 => exact hweak true b hb
  on_goal 8 => exact hweak false b hb
  all_goals exact hall _ (by simp [additive]) b hb

/-- A term with neither a known sign nor a known parity: a counter, or one with the sign changed. -/
theorem sumSign_open (hts : ∀ f ∈ fs, ∃ U, Integral U ∧ f.Le U) {f : Facts} (hf : f ∈ fs)
    (hopen : f.Le counter) (up : Bool) :
    sumSign fs up = none := by
  have hkeep : f ∈ fs.filter (!·.is .zero) := mem_filter.2 ⟨hf, by simp [hopen.is counter_open.2.1]⟩
  have hempty : (fs.filter (!·.is .zero)).isEmpty = false :=
    isEmpty_eq_false_iff.2 (ne_nil_of_mem hkeep)
  have hinfs : (fs.filter (!·.is .zero)).filter (·.is .infinite) = [] :=
    filter_eq_nil_iff.2 fun g hg => by
    obtain ⟨U, hU, hle⟩ := hts g (mem_of_mem_filter hg)
    simp [hle.is hU.2.2.2.1]
  have hsign := counter_open.1
  have hany : (fs.filter (!·.is .zero)).any
    (fun f => !(f.is (signFact up) || f.is (weakFact up) || f.is (weakFact (!up)))) = true :=
    any_eq_true.2 ⟨f, hkeep, by simp [hopen.is (hsign up).1, hopen.is (hsign up).2, hopen.is (hsign !up).2]⟩
  simp only [sumSign, hempty, hinfs, hany]
  simp

theorem shifted_eq_none {c : Number} {a : Expr}
    (h : c.isZero = true ∨ ∀ up, A.is (weakFact up) a = false) (strict up : Bool) :
    shifted A c a strict up = none := by
  have : (c.isZero || !A.is (if up then .extNonnegative else .extNonpositive) a) = true := by
    rcases h with h | h
    · simp [h]
    · have := h up
      simp only [weakFact] at this
      simp [this]
  simp only [shifted, this, if_true]

/-- A sum with such a term has no known sign. -/
theorem facts_open_add (hts : ∀ t ∈ ts, ∃ U, Integral U ∧ (A.facts t).Le U) {t : Expr} (ht : t ∈ ts)
    (hopen : (A.facts t).Le counter)
    (hnumber : (Expr.add ts).isNumber = false)
    (hrest : (Expr.add ts).coeffAdd.1.isZero = true ∨ ∀ up,
      A.is (weakFact up) (Expr.add ts).coeffAdd.2 = false) :
    (A.next.facts (.add ts)).Le whole := by
  have hfs : ∀ f ∈ ts.map A.facts, ∃ U, Integral U ∧ f.Le U := fun f hf => by
    obtain ⟨t, ht, rfl⟩ := mem_map.1 hf
    exact hts t ht
  have hsplit : ∀ judge, sumSplit ts (ts.map A.facts) judge = none := fun judge => by
    refine if_neg fun hall => ?_
    have := all_eq_true.1 hall _ (mem_map_of_mem ht)
    have hzero : (A.facts t).get .zero = none := by
      have h1 := hopen.is counter_open.2.1
      have h2 := hopen.fails counter_open.2.2.1
      rw [Facts.is] at h1
      rw [Facts.fails] at h2
      simp [Facts.get, h1, h2]
    rw [hzero, hopen.is counter_open.2.2.2] at this
    simp at this
  have hstrict : ∀ up s, sumStrict A ts (ts.map A.facts) up s = none := fun up s => by
    have hsign := sumSign_open hfs (mem_map_of_mem ht) hopen up
    simp only [sumStrict, hnumber, shifted_eq_none hrest, hsign]
    rfl
  have hweak : ∀ up, sumWeak A ts up = none := fun up => by
    simp only [sumWeak, hnumber, shifted_eq_none hrest]
    rfl
  refine facts_add_le integral_whole hts (fun b hb => ?_) (fun b hb => ?_) (fun b _ => ?_)
    (fun up s b hb => ?_) fun up b hb => ?_
  · rw [sumZero, hsplit] at hb
    cases hb
  · rw [sumImaginary, hsplit] at hb
    cases hb
  · exact (by decide +kernel : ∀ b, whole.Knows .odd b) b
  · rw [hstrict] at hb
    cases hb
  · rw [hweak] at hb
    cases hb

/-! ### Products -/

def minusOne : Facts := Number.facts (.rat (-1))

/-- Extents are positive integers. -/
def extent : Facts := (Facts.ofList [(.positive, true)]).set .integer true

-- the rules are tried out once
theorem minusOne_eq : minusOne = integer [.odd, .nonzero, .extNonzero, .negative, .nonpositive,
      .extNegative, .extNonpositive]
    [.even, .zero, .positive, .nonnegative, .extPositive, .extNonnegative] := by decide +kernel

theorem extent_eq : extent =
    known [.complex, .real, .extReal, .integer, .finite, .hermitian, .nonzero, .extNonzero,
      .positive, .nonnegative, .extPositive,
      .extNonnegative] [.imaginary, .zero, .negative, .nonpositive, .extNegative, .extNonpositive,
        .infinite] := by decide +kernel

/-- The facts `T` have all answers about a product of `-1` and what `g` is known of. -/
structure Negates (g T : Facts) : Prop where
  complex : ∀ b, productComplex [minusOne, g] = some b → T.Knows .complex b
  finite : ∀ b, productFinite [minusOne, g] = some b → T.Knows .finite b
  infinite : ∀ b, productInfinite [minusOne, g] = some b → T.Knows .infinite b
  zero : ∀ b, productZero [minusOne, g] = some b → T.Knows .zero b
  extReal : ∀ b, productReal [minusOne, g] true = some b → T.Knows .extReal b
  imaginary : ∀ b, productReal [minusOne, g] false = some b → T.Knows .imaginary b
  irrational : ∀ f ∈ [minusOne, g], f.is .irrational = false
  sign : ∀ up b, productSign [minusOne, g] up = some b → T.Knows (signFact up) b
  rational : ∀ p, p = .rational ∨ p = .algebraic → group ([minusOne, g].map (·.get p)) ≠ some false
  odd : T.Knows .odd false
  even : ∀ b, (b = true → T.is .odd = true) → T.Knows .even (!b)
  open_ : g.is .odd = false
  nonzero : T.is .zero = false
  bounded : T.fails .finite = false

theorem negates_counter : Negates DataType.integer.facts counter := by
  constructor
  case rational =>
    rw [minusOne_eq]
    rintro p (rfl | rfl) <;> decide +kernel
  all_goals
    try rw [minusOne_eq]
    decide +kernel

theorem negates_extent : Negates extent below := by
  constructor
  case rational =>
    rw [minusOne_eq, extent_eq]
    rintro p (rfl | rfl) <;> decide +kernel
  all_goals
    try rw [extent_eq]
    try rw [minusOne_eq]
    decide +kernel

theorem productInteger_neg (s : Symbol)
    (h : group ([minusOne, s.facts].map (·.get .rational)) ≠ some false) {b : Bool}
    (hb : productInteger A.next [.negOne, .sym s] [minusOne, s.facts] = some b) : b = true := by
  have hparts : productParts A.next [.negOne, .sym s] = (A.next.mul [.int (-1), .sym s],
    .int 1) := by
    exact congrArg (A.next.mul [.int (-1), .sym s], ·) (A.mul_ints 1 1)
  have heven : A.next.is .even (.int 1) = false := by
    have : A.next.facts (.int 1) = Number.facts (.rat (1 : Int)) :=
      by simp only [Algebra.next, Expr.int, factsOf]
    rw [Algebra.is, this]
    decide +kernel
  unfold productInteger at hb
  rw [hparts] at hb
  generalize hr : ((group ([minusOne, s.facts].map (·.get .rational))).bind fun b =>
    if b then some true else productZero [minusOne, s.facts]) = r at hb
  have hne : r ≠ some false := by
    rintro rfl
    cases hg : group ([minusOne, s.facts].map (·.get .rational)) with
    | none => rw [hg] at hr; cases hr
    | some b =>
      cases b with
      | false => exact h hg
      | true => rw [hg] at hr; cases hr
  have hfalse : (r == some false) = false := by simpa using hne
  simp only [hfalse, heven] at hb
  split at hb
  · simp_all
  · split at hb
    · exact (Option.some.inj hb).symm
    · simp only [given] at hb
      split at hb <;> simp_all

theorem facts_neg_le {s : Symbol} (hT : Integral T) (h : Negates s.facts T) :
    (A.next.next.facts (.mul [.negOne, .sym s])).Le T := by
  obtain ⟨hclosed, hadd, -, -, hirr, -⟩ := hT
  have hfacts : [Expr.negOne, .sym s].map A.next.facts = [minusOne, s.facts] := by
    simp [Algebra.next, factsOf, Expr.negOne, Expr.int, minusOne]
  have hquotient : ∀ p, p = .rational ∨ p = .algebraic → ∀ (s' : Facts) b,
      ((group ([minusOne, s.facts].map (·.get p))).bind fun b =>
        if b then some true else s'.get .zero) = some b → T.Knows p b := by
    intro p hp s' b hb
    cases hg : group ([minusOne, s.facts].map (·.get p)) with
    | none => rw [hg] at hb; cases hb
    | some c =>
      cases c with
      | false => exact absurd hg (h.rational p hp)
      | true =>
        rw [hg] at hb
        obtain rfl : b = true := (Option.some.inj hb).symm
        exact (hadd p (by rcases hp with rfl | rfl <;> simp [additive])).1
  have hinteger : ∀ {s' : Facts}, s'.Le T → ∀ b, s'.get .integer = some b → b = true :=
    fun hs' b hb => by
    have := Facts.get_eq_some hb
    cases b with
    | true => rfl
    | false =>
      rw [if_neg Bool.false_ne_true, hs'.fails (hadd .integer (by simp [additive])).2] at this
      cases this
  have hmul : A.next.next.facts (.mul [.negOne, .sym s]) =
    conclude (ofProduct A.next [.negOne, .sym s] [minusOne, s.facts]) := by
    rw [← hfacts]
    rfl
  rw [hmul]
  refine conclude_le hclosed fun j hj s' hs' b hb => ?_
  simp only [ofProduct, mem_cons, not_mem_nil, or_false] at hj
  rcases hj with rfl | rfl | rfl | rfl | rfl | rfl | rfl | rfl | rfl | rfl | rfl | rfl | rfl | rfl
  all_goals dsimp only at hb ⊢
  · exact h.complex b hb
  · exact h.finite b hb
  · exact h.infinite b hb
  · exact hquotient .rational (.inl rfl) s' b hb
  · exact hquotient .algebraic (.inr rfl) s' b hb
  · exact h.zero b hb
  · rw [productInteger_neg s (h.rational .rational (.inl rfl)) hb]
    exact (hadd .integer (by simp [additive])).1
  · exact h.extReal b hb
  · rw [hs'.is h.nonzero, hs'.fails h.bounded] at hb
    split at hb
    · simp_all
    · split at hb
      · exact h.imaginary b hb
      · cases hb
  · split at hb
    · next f hf =>
      rw [h.irrational f (mem_of_find?_eq_some hf)] at hb
      cases hb
    · simp only [given] at hb
      split at hb
      · exact Option.some.inj hb ▸ hirr
      · cases hb
  · exact h.sign true b hb
  · exact h.sign false b hb
  · -- the counter is not known to be odd
    obtain ⟨whole, hwhole, hb⟩ := Option.bind_eq_some_iff.1 hb
    obtain rfl := hinteger hs' whole hwhole
    obtain rfl : b = false := by
      simp only [Bool.not_true, Bool.false_eq_true, if_false] at hb
      split at hb
      · cases hb
      · split at hb
        · exact (Option.some.inj hb).symm
        · simp [given, h.open_] at hb
    exact h.odd
  · obtain ⟨whole, hwhole, hb⟩ := Option.bind_eq_some_iff.1 hb
    obtain rfl := hinteger hs' whole hwhole
    obtain ⟨c, hc, rfl⟩ := Option.map_eq_some_iff.1 hb
    refine h.even c ?_
    rintro rfl
    by_contra hodd
    have := Facts.get_eq_some hc
    rw [if_pos rfl, hs'.is (by simpa using hodd)] at this
    cases this

/-! ### Integers, counters and extents -/

theorem ofList_le (hT : T.Closed) {ls : List Facts.Literal} (hls : ∀ l ∈ ls, T.Knows l.1 l.2) :
    (Facts.ofList ls).Le T :=
  (foldlRecOn (motive := fun s : Facts => s.Le T) _ _ ⟨UInt64.zero_and,
    UInt64.zero_and⟩ fun _ hs l hl => hs.set (hls l hl)).close hT

theorem facts_int (n : Int) : A.next.facts (.int n) = Number.facts
    (.rat n) := by simp only [Algebra.next, Expr.int, factsOf]

theorem facts_sym (s : Symbol) : A.next.facts
    (.sym s) = s.facts := by simp only [Algebra.next, factsOf]

theorem facts_int_le {n : Int} (hn : n ≠ 0) : (A.next.facts (.int n)).Le above ∨
    (A.next.facts (.int n)).Le below := by
  have hne : (n : Rat) ≠ 0 := Int.cast_ne_zero.2 hn
  have hden : (n : Rat).den = 1 := Rat.den_intCast n
  rw [facts_int, Number.facts, if_neg hne, if_pos hden]
  rcases lt_or_gt_of_ne hn with h | h
  · rw [if_neg (by exact_mod_cast h.le.not_gt)]
    refine .inr (ofList_le integral_below.1 ?_)
    simp only [forall_mem_cons, not_mem_nil, false_implies, implies_true, and_true]
    exact ⟨by decide +kernel, (by decide +kernel : ∀ b, below.Knows .even b) _, by decide +kernel⟩
  · rw [if_pos (by exact_mod_cast h)]
    refine .inl (ofList_le integral_above.1 ?_)
    simp only [forall_mem_cons, not_mem_nil, false_implies, implies_true, and_true]
    exact ⟨by decide +kernel, (by decide +kernel : ∀ b, above.Knows .even b) _, by decide +kernel⟩

theorem exists_facts_int_le {n : Int} (hn : n ≠ 0) :
    ∃ U, Integral U ∧ (U.is .zero = false ∧ U.is .imaginary = false) ∧
      (A.next.facts (.int n)).Le U := by
  rcases facts_int_le (A := A) hn with h | h
  · exact ⟨above, integral_above, by decide +kernel, h⟩
  · exact ⟨below, integral_below, by decide +kernel, h⟩

theorem counter_le_whole : counter.Le whole := by decide +kernel

theorem integer_le_counter : DataType.integer.facts.Le counter := by decide +kernel

theorem extent_le_above : extent.Le above := by
  rw [extent_eq]
  decide +kernel

theorem whole_open : (∀ up, whole.is (weakFact up) = false) ∧ whole.fails .extReal = false :=
    by decide +kernel

/-- Symbols, some with the sign changed, at least one of them a counter. -/
structure Swings (us : Exprs) : Prop where
  terms : ∀ u ∈ us, (∃ s, u = .sym s) ∨ ∃ s, u = .mul [.negOne, .sym s]
  integral : ∀ u ∈ us, ∀ A : Algebra, ∃ U, Integral U ∧ (A.next.next.facts u).Le U
  counter : ∃ t ∈ us, ∀ A : Algebra, (A.next.next.facts t).Le counter

theorem Swings.perm {us vs : Exprs} (h : Swings us) (hperm : vs.Perm us) : Swings vs where
  terms u hu := h.terms u (hperm.mem_iff.1 hu)
  integral u hu := h.integral u (hperm.mem_iff.1 hu)
  counter := by
    obtain ⟨t, ht, hfacts⟩ := h.counter
    exact ⟨t, hperm.mem_iff.2 ht, hfacts⟩

section

variable {c x : Symbol} (hc : c.facts = DataType.integer.facts)

include hc

theorem swings_counter : Swings [.sym c] ∧ Swings [.mul [.negOne, .sym c]] := by
  have hplus : ∀ A : Algebra, (A.next.next.facts (.sym c)).Le counter := fun A => by
    rw [facts_sym, hc]
    exact integer_le_counter
  have hminus : ∀ A : Algebra, (A.next.next.facts (.mul [.negOne, .sym c])).Le counter := fun A =>
    facts_neg_le integral_counter (hc ▸ negates_counter)
  exact ⟨⟨by simp, by simpa using fun A => ⟨_, integral_counter, hplus A⟩, _, mem_singleton_self _, hplus⟩,
    ⟨by simp, by simpa using fun A => ⟨_, integral_counter, hminus A⟩, _, mem_singleton_self _, hminus⟩⟩

theorem swings_extent (hx : x.facts = extent) :
    Swings [.sym c, .mul [.negOne, .sym x]] ∧ Swings [.sym x, .mul [.negOne, .sym c]] := by
  obtain ⟨hplus, hminus⟩ := swings_counter hc
  have hextent : ∀ A : Algebra, (A.next.next.facts (.sym x)).Le above := fun A => by
    rw [facts_sym, hx]
    exact extent_le_above
  have hback : ∀ A : Algebra, (A.next.next.facts (.mul [.negOne, .sym x])).Le below := fun A =>
    facts_neg_le integral_below (hx ▸ negates_extent)
  constructor
  · refine ⟨by simp, forall_mem_cons.2 ⟨hplus.integral _ (mem_singleton_self _), forall_mem_singleton.2 fun A => ⟨_, integral_below, hback A⟩⟩, ?_⟩
    obtain ⟨t, ht, hfacts⟩ := hplus.counter
    exact ⟨t, mem_singleton.1 ht ▸ mem_cons_self, hfacts⟩
  · refine ⟨by simp, forall_mem_cons.2 ⟨fun A => ⟨_, integral_above, hextent A⟩, hminus.integral⟩, ?_⟩
    obtain ⟨t, ht, hfacts⟩ := hminus.counter
    exact ⟨t, mem_cons_of_mem _ ht, hfacts⟩

end

theorem isNumber_eq_false {us : Exprs} {t : Expr} (ht : t ∈ us) (hnum : t.isNumber = false) :
    Expr.allNumbers us = false := by
  induction us with
  | nil => cases ht
  | cons u us ih =>
    rw [Expr.allNumbers]
    rcases mem_cons.1 ht with rfl | ht
    · rw [hnum, Bool.false_and]
    · rw [ih ht, Bool.and_false]

theorem Swings.isNumber {us : Exprs} (h : Swings us) :
    ∀ u ∈ us, u.isNumber = false := fun u hu => by
  obtain ⟨s, rfl⟩ | ⟨s, rfl⟩ := h.terms u hu <;> rfl

/-- The sign of such a sum is not known, also with a number. -/
theorem Swings.facts_le {us : Exprs} (h : Swings us) (q : Int) :
    (A.next.next.next.next.facts (.addOf ((if q = 0 then [] else [.int q]) ++ us))).Le whole ∧
      (Expr.addOf ((if q = 0 then [] else [.int q]) ++ us)).isNumber = false := by
  obtain ⟨t, ht, hopen⟩ := h.counter
  have hnumber := isNumber_eq_false ht (h.isNumber t ht)
  have hsum : ∀ A : Algebra, (A.next.next.next.facts (.addOf us)).Le whole := fun A => by
    match us, h, ht, hnumber with
    | [u], _, ht, _ =>
      obtain rfl := mem_singleton.1 ht
      exact (hopen A.next).trans counter_le_whole
    | u :: v :: us, h, ht, hnumber =>
      refine facts_open_add (A := A.next.next) (fun u hu => h.integral u hu A) ht (hopen A) hnumber
        (.inl ?_)
      obtain ⟨s, rfl⟩ | ⟨s, rfl⟩ := h.terms u mem_cons_self <;> rfl
  by_cases hq : q = 0
  · rw [if_pos hq, nil_append]
    refine ⟨hsum A.next, ?_⟩
    match us, h, hnumber with
    | [u], h, _ => exact h.isNumber u mem_cons_self
    | _ :: _ :: _, _, hnumber => exact hnumber
  · obtain ⟨u, vs, rfl⟩ := exists_cons_of_ne_nil (ne_nil_of_mem ht)
    rw [if_neg hq, singleton_append]
    have hall : Expr.allNumbers (.int q :: u :: vs) = false :=
      isNumber_eq_false (mem_cons_of_mem _ ht) (h.isNumber t ht)
    refine ⟨facts_open_add (A := A.next.next.next) ?_ (mem_cons_of_mem _ ht) (hopen A.next) hall
      (.inr fun up => ?_), hall⟩
    · obtain ⟨U, hU, -, hle⟩ := exists_facts_int_le (A := A.next.next) hq
      exact forall_mem_cons.2 ⟨⟨U, hU, hle⟩, fun v hv => h.integral v hv A.next⟩
    · exact (hsum A).is (whole_open.1 up)

/-! ### An extent and a number -/

theorem sumSign_extent {f : Facts} {U : Facts} (hU : Integral U) (hf : f.Le U) {up b : Bool}
    (h : sumSign [f, extent] up = some b) : b = up := by
  have hextent : extent.is .zero = false ∧ extent.is .infinite = false ∧
    extent.is .extPositive = true ∧ extent.is .extNegative = false ∧
      extent.is .extNonpositive = false ∧ extent.is .extNonnegative = true := by
    rw [extent_eq]
    decide +kernel
  obtain ⟨hzero, hinf, hpos, hneg, hnonpos, hnonneg⟩ := hextent
  have hfinf := hf.is hU.2.2.2.1
  cases up <;> cases hfz : f.is .zero <;>
    simp_all [sumSign, signFact, weakFact]

theorem extent_known : extent.is .extReal = true ∧ extent.get .zero = some false ∧
    extent.is .imaginary = false ∧ extent.is .zero = false ∧
    extent.fails .zero = true := by
  rw [extent_eq]
  decide +kernel

theorem sumSplit_extent {f : Facts} (hzero : f.is .zero = false)
    (himaginary : f.is .imaginary = false) (a b : Expr)
    (judge : Exprs → Option Bool) : sumSplit [a, b] [f, extent] judge = none ∨ sumSplit [a, b]
    [f, extent] judge = judge [a, b] := by
  obtain ⟨hreal, hget, hnot, -, hfails⟩ := extent_known
  unfold sumSplit
  split
  · next hall =>
    right
    simp only [all_cons, all_nil, himaginary, hreal, hget, hnot, Bool.or_false, Bool.and_true,
      Bool.and_eq_true] at hall
    obtain ⟨hf, c, hc⟩ : f.is .extReal = true ∧ ∃ c, f.get .zero = some c :=
      by simpa [Option.isSome_iff_exists] using hall
    have hfz : f.fails .zero = true := by
      cases c with
      | false => exact Facts.get_eq_some hc
      | true =>
        have : f.is .zero = true := Facts.get_eq_some hc
        rw [hzero] at this
        cases this
    simp [hf, hfz, hreal, hfails]
  · exact .inl rfl

theorem facts_extent_le {x : Symbol} (hx : x.facts = extent) (n : Int) :
    (A.next.next.facts (plus x n)).Le above := by
  unfold plus
  by_cases hn : n = 0
  · rw [if_pos hn, facts_sym, hx]
    exact extent_le_above
  rw [if_neg hn]
  have hfs : [Expr.int n, .sym x].map A.next.facts = [A.next.facts (.int n), extent] := by
    rw [map_cons, map_cons, facts_sym, hx, map_nil]
  obtain ⟨U, hU, ⟨hUzero, hUimaginary⟩, hle⟩ := exists_facts_int_le (A := A) hn
  have hnonneg : A.next.is .extNonnegative (.sym x) = true := by
    rw [Algebra.is, facts_sym, hx, extent_eq]
    decide +kernel
  have hnonpos : A.next.is .extNonpositive (.sym x) = false := by
    rw [Algebra.is, facts_sym, hx, extent_eq]
    decide +kernel
  have hshifted : ∀ strict up b, shifted A.next (.ofInt n) (.sym x) strict up = some b → up = true ∧
    b = true := by
    intro strict up b hb
    cases up with
    | false =>
      simp only [shifted, Bool.false_eq_true, if_false, hnonpos, Bool.not_false, Bool.or_true,
        if_true] at hb
      cases hb
    | true =>
      refine ⟨rfl, ?_⟩
      have hzero : (Number.ofInt n).isZero = false :=
        by simpa [Number.ofInt, Number.isZero] using hn
      simp only [shifted, given, if_true, hnonneg, hzero, Bool.not_true, Bool.or_false,
        Bool.false_eq_true, if_false] at hb
      repeat' split at hb
      all_goals simp_all
  have hzero := hle.is hUzero
  have himaginary := hle.is hUimaginary
  have hnumber : (Expr.add [.int n, .sym x]).isNumber = false := rfl
  have hcoeff : (Expr.add [.int n, .sym x]).coeffAdd = (.ofInt n, .sym x) := rfl
  refine facts_add_le integral_above (forall_mem_cons.2 ⟨⟨U, hU, hle⟩,
    forall_mem_singleton.2 ⟨above, integral_above, ?_⟩⟩)
    ?_ ?_ (fun b _ => (by decide +kernel : ∀ b, above.Knows .odd b) b)
      (fun up s b hb => ?_) fun up b hb => ?_
  · rw [facts_sym, hx]
    exact extent_le_above
  · intro b hb
    rw [sumZero, hfs] at hb
    obtain h | h := sumSplit_extent hzero himaginary (.int n) (.sym x) _ <;> rw [h] at hb
    · cases hb
    · simp [hzero, extent_known.2.2.2.1] at hb
  · intro b hb
    rw [sumImaginary, hfs] at hb
    obtain rfl : b = false := by
      obtain h | h := sumSplit_extent hzero himaginary (.int n) (.sym x) _ <;> rw [h] at hb
      · cases hb
      · -- no term is imaginary, and the empty sum is zero
        have hempty : A.next.ask .zero (A.next.add []) = some true := by
          rw [show A.next.add [] = .int 0 from rfl, Algebra.ask, facts_int]
          decide +kernel
        simp only [zip_cons_cons, zip_nil_right, filter_cons, himaginary, extent_known.2.2.1,
          Bool.false_eq_true, if_false, filter_nil,
          map_nil, hempty] at hb
        split at hb
        · exact (Option.some.inj hb).symm
        · next hne =>
          cases b with
          | false => rfl
          | true => exact absurd hb hne
    decide +kernel
  · obtain rfl : b = up := by
      simp only [sumStrict, hnumber, hcoeff, Bool.false_eq_true, if_false] at hb
      cases hs : shifted A.next (.ofInt n) (.sym x) true up with
      | none =>
        rw [hs, hfs] at hb
        exact sumSign_extent hU hle hb
      | some c =>
        rw [hs] at hb
        obtain ⟨rfl, rfl⟩ := hshifted _ _ _ hs
        exact (Option.some.inj hb).symm
    exact (by decide +kernel : ∀ up, above.Knows (signFact up) up) b
  · simp only [sumWeak, hnumber, hcoeff, Bool.false_eq_true, if_false] at hb
    obtain ⟨rfl, rfl⟩ := hshifted _ _ _ hb
    decide +kernel

end Judgement

end StencilForge
