import StencilForge.DataGrid.Exchange
import StencilForge.Proofs.Arrays

/-!
# Proofs — periodic continuation

What one direction fills (`ghostZone`) is read from cells that are no ghost cells (`sourceZone`),
and no cell is filled in two directions.  So a run over directions in any order reads only what the
array held before (`NdArray.Continues.unique`), and each ghost cell beside the domain along periodic
coordinates only holds what the cell one period further inside held (`DataGrid.exchange_wraps`).
-/

open List StencilForge.Outcome StencilForge.Action

namespace StencilForge

open Window Places Window

variable {g t : Nat} {ns rest : Nats}

/-! ### Layers beside an extent -/

namespace Slice

/-- Ghost layers on one side of `n` places, or these themselves. -/
def ghostZone (g t n : Nat) (c : Int) : Nat × Nat :=
  if c = -1 then (g - t, g) else if c = 1 then (g + n, g + n + t) else (g, g + n)

/-- The places that are copied there, from the opposite side. -/
def sourceZone (g t n : Nat) (c : Int) : Nat × Nat :=
  if c = -1 then (g + n - t, g + n) else if c = 1 then (g, g + t) else (g, g + n)

def ghostPart (g t : Nat) (c : Int) : Slice :=
  if c = -1 then between (some (g - t)) (some g)
  else if c = 1 then between (some (-g)) (openEnd (-g + t))
  else between (some g) (some (-g))

def sourcePart (g t : Nat) (c : Int) : Slice :=
  if c = -1 then between (some (-t - g)) (some (-g))
  else if c = 1 then between (some g) (some (t + g))
  else between (some g) (some (-g))

def IsDirection (ns : Nats) (d : Ints) : Prop := Forall₂ (fun _ c => c = -1 ∨ c = 0 ∨ c = 1) ns d

/-- A direction that leads somewhere, along extents that are wide enough. -/
structure Leads (t : Nat) (ns : Nats) (d : Ints) : Prop where
  direction : IsDirection ns d
  nonzero : d.any (· != 0) = true
  wide : Forall₂ (fun n c => c ≠ 0 → t ≤ n) ns d

variable {n : Nat} {c : Int} (ht : 0 < t) (htg : t ≤ g)

include ht htg

theorem ofSlice_ghostPart : ofSlice (n + 2 * g) (ghostPart g t c) =
    .ok (.many (range' (ghostZone g t n c).1 ((ghostZone g t n c).2 - (ghostZone g t n c).1))) := by
  have hg : 0 < g := by omega
  unfold ghostPart ghostZone between
  split_ifs with h1 h2
  · exact ofSlice_selects (.inl rfl) (by simp [placeOf]; omega) (by simp [placeOf]) (by simp)
      (by omega)
  · refine ofSlice_selects (.inl rfl) (by simp [placeOf]; omega) ?_ (by simp) (by simp; omega)
    unfold openEnd
    split_ifs with h
    · simp; omega
    · simp only [Option.elim_some, placeOf]
      omega
  · exact ofSlice_selects (.inl rfl) (by simp [placeOf]) (by simp [placeOf]; omega) (by simp)
      (by simp; omega)

theorem ofSlice_sourcePart : ofSlice (n + 2 * g) (sourcePart g t c) =
    .ok (.many (range' (sourceZone g t n c).1
      ((sourceZone g t n c).2 - (sourceZone g t n c).1))) := by
  have hg : 0 < g := by omega
  unfold sourcePart sourceZone between
  split_ifs with h1 h2
  · refine ofSlice_selects (.inl rfl) ?_ (by simp [placeOf]; omega) (by simp) (by simp; omega)
    simp only [Option.elim_some, placeOf]
    omega
  · exact ofSlice_selects (.inl rfl) (by simp [placeOf]) (by simp [placeOf]; omega) (by simp)
      (by omega)
  · exact ofSlice_selects (.inl rfl) (by simp [placeOf]) (by simp [placeOf]; omega) (by simp)
      (by simp; omega)

theorem periodic_eq {ds : List Ints} (hds : ∀ d ∈ ds, ∀ c ∈ d, c = -1 ∨ c = 0 ∨ c = 1)
    {thickness : Option Int}
    (hthick : thicknessOr g thickness = t) :
    periodic ds g thickness = .ok ((ds.filter fun d => d.any (· != 0)).map fun d =>
      (d.map (sourcePart g t), d.map (ghostPart g t))) := by
  have hg : 0 < g := by omega
  refine mapM_eq_ok.2 (forall₂_map_right_iff.2 (forall₂_same.2 fun d hd => ?_))
  have hd := hds d (mem_filter.1 hd).1
  have hsource : beforeGhost (d.map (-·)) g thickness false = .ok (d.map (sourcePart g t)) := by
    refine mapM_eq_ok.2 (forall₂_map_left_iff.2
      (forall₂_map_right_iff.2 (forall₂_same.2 fun c hc => ?_)))
    rcases hd c hc with rfl | rfl | rfl
    · simp [hthick, sourcePart, openEnd, show ¬ (-(t : Int) - g = 0) by omega, hg.ne']
    · simp [sourcePart, alongBorder, openEnd, hg.ne']
    · simp [hthick, sourcePart]
  have hghost : ghostRegion d g thickness false = .ok (d.map (ghostPart g t)) := by
    refine bind_eq_ok.2 ⟨(), by simp [hthick, ht], bind_eq_ok.2 ⟨(), by simp [hthick, htg], ?_⟩⟩
    refine mapM_eq_ok.2 (forall₂_map_right_iff.2 (forall₂_same.2 fun c hc => ?_))
    rcases hd c hc with rfl | rfl | rfl
    · simp [hthick, ghostPart]
    · simp [ghostPart, alongBorder, openEnd, hg.ne']
    · simp [hthick, ghostPart, openEnd, hg.ne']
  rw [hsource, hghost]
  rfl

end Slice

/-! ### Boxes of a direction -/

namespace Slice

variable {d e : Ints}

/-- What is no spatial coordinate is whole. -/
def ghostBox (g t : Nat) (ns rest : Nats) (d : Ints) : List (Nat × Nat) :=
  zipWith (ghostZone g t) ns d ++ rest.map fun n => (0, n)

def sourceBox (g t : Nat) (ns rest : Nats) (d : Ints) : List (Nat × Nat) :=
  zipWith (sourceZone g t) ns d ++ rest.map fun n => (0, n)

theorem isDirection_zero (ns : Nats) : IsDirection ns (ns.map fun _ => 0) :=
  forall₂_map_right_iff.2 (forall₂_same.2 fun _ _ => .inr (.inl rfl))

theorem IsDirection.windows (ht : 0 < t) (htg : t ≤ g) (hd : IsDirection ns d) :
    of (ns.map (· + 2 * g) ++ rest) (d.map (ghostPart g t)) = .ok (box (ghostBox g t ns rest d)) ∧
      of (ns.map (· + 2 * g) ++ rest) (d.map (sourcePart g t)) =
        .ok (box (sourceBox g t ns rest d)) := by
  have hall : ∀ {part : Int → Slice} {zone : Nat → Int → Nat × Nat},
      (∀ n c, ofSlice (n + 2 * g) (part c) =
        .ok (.many (range' (zone n c).1 ((zone n c).2 - (zone n c).1)))) →
        of (ns.map (· + 2 * g) ++ rest) (d.map part) =
          .ok (box (zipWith zone ns d ++ rest.map fun n => (0, n))) := by
    intro part zone hzone
    refine of_selects ?_ (by simp [hd.length_eq])
    induction hd with
    | nil => exact .nil
    | @cons n c _ _ _ _ ih => exact .cons (hzone n c) ih
  exact ⟨hall fun n c => ofSlice_ghostPart ht htg, hall fun n c => ofSlice_sourcePart ht htg⟩

theorem IsDirection.boxes_le (htg : t ≤ g) (hd : IsDirection ns d) :
    Forall₂ (fun p n => p.2 ≤ n) (ghostBox g t ns rest d) (ns.map (· + 2 * g) ++ rest) ∧
      Forall₂ (fun p n => p.2 ≤ n) (sourceBox g t ns rest d) (ns.map (· + 2 * g) ++ rest) ∧
      (sourceBox g t ns rest d).map (fun p => p.2 - p.1) = (ghostBox g t ns rest d).map fun q =>
        q.2 - q.1 := by
  induction hd with
  | nil =>
    have hrest : Forall₂ (fun p n => p.2 ≤ n) (rest.map fun n => (0, n)) rest :=
      forall₂_map_left_iff.2 (forall₂_same.2 fun _ _ => le_rfl)
    exact ⟨hrest, hrest, rfl⟩
  | @cons n c ns d hc _ ih =>
    obtain ⟨hghost, hsource, hsize⟩ := ih
    have hzones : (ghostZone g t n c).2 ≤ n + 2 * g ∧ (sourceZone g t n c).2 ≤ n + 2 * g ∧
        (sourceZone g t n c).2 - (sourceZone g t n c).1 =
          (ghostZone g t n c).2 - (ghostZone g t n c).1 := by
      unfold sourceZone ghostZone
      split_ifs <;> omega
    exact ⟨.cons hzones.1 hghost, .cons hzones.2.1 hsource, congrArg₂ cons hzones.2.2 hsize⟩

theorem IsDirection.eq_of_within (hd : IsDirection ns d) (he : IsDirection ns e) {i : Nats}
    (hi : Within (ghostBox g t ns rest d) i) (hi' : Within (ghostBox g t ns rest e) i) : d = e := by
  induction hd generalizing e i with
  | nil => exact (forall₂_nil_left_iff.1 he).symm
  | @cons n c ns d hc _ ih =>
    obtain ⟨c', e, hc', htail, rfl⟩ := forall₂_cons_left_iff.1 he
    obtain ⟨k, i, hk, hin, rfl⟩ := forall₂_cons_right_iff.1 hi
    obtain ⟨hk', hin'⟩ := forall₂_cons.1 hi'
    refine congrArg₂ cons ?_ (ih htail hin hin')
    unfold ghostZone at hk hk'
    split_ifs at hk hk' <;> omega

/-- What is copied comes from cells that are no ghost cells. -/
theorem within_moved (htg : t ≤ g) (hd : Forall₂ (fun n c => c ≠ 0 → t ≤ n) ns d) {i : Nats}
    (hi : Within (ghostBox g t ns rest d) i) :
    Within (ghostBox g t ns rest (ns.map fun _ => 0))
      (moved (sourceBox g t ns rest d) (ghostBox g t ns rest d) i) := by
  induction hd generalizing i with
  | nil =>
    have hself : moved (sourceBox g t [] rest []) (ghostBox g t [] rest []) i = i := moved_self hi
    rwa [hself]
  | @cons n c ns d hc _ ih =>
    obtain ⟨k, i, hk, hin, rfl⟩ := forall₂_cons_right_iff.1 hi
    refine .cons ?_ (ih hin)
    unfold ghostZone sourceZone at *
    split_ifs at * <;> simp only at * <;> omega

theorem Leads.not_within_moved (htg : t ≤ g) (hd : Leads t ns d) (he : Leads t ns e) {i : Nats}
    (hi : Within (ghostBox g t ns rest e) i) :
    ¬ Within (ghostBox g t ns rest d) (moved (sourceBox g t ns rest e)
      (ghostBox g t ns rest e) i) := fun hi' => by
  obtain rfl := (isDirection_zero ns).eq_of_within hd.direction (within_moved htg he.wide hi) hi'
  simpa using hd.nonzero

end Slice

/-! ### Runs over directions -/

namespace NdArray

open Slice

variable {α : Type} {a r : NdArray α} {ds es : List Ints}

/-- An array is another one with the ghost cells in some directions filled. -/
structure Continues (g t : Nat) (ns rest : Nats) (ds : List Ints) (a r : NdArray α) : Prop where
  full : r.Full
  shape : r.shape = a.shape
  filled : ∀ d ∈ ds, ∀ i, Within (ghostBox g t ns rest d) i →
    r.get? i = a.get? (moved (sourceBox g t ns rest d) (ghostBox g t ns rest d) i)
  other : ∀ i, (∀ d ∈ ds, ¬ Within (ghostBox g t ns rest d) i) → r.get? i = a.get? i

/-- It is determined by the directions, in whichever order. -/
theorem Continues.unique {r' : NdArray α} (h : Continues g t ns rest ds a r)
    (h' : Continues g t ns rest es a r')
    (hmem : ∀ d, d ∈ ds ↔ d ∈ es) : r = r' := by
  refine h.full.ext h'.full (h.shape.trans h'.shape.symm) fun i _ => ?_
  by_cases hi : ∃ d ∈ ds, Within (ghostBox g t ns rest d) i
  · obtain ⟨d, hd, hi⟩ := hi
    rw [h.filled d hd i hi, h'.filled d ((hmem d).1 hd) i hi]
  · rw [h.other i fun d hd hid => hi ⟨d, hd, hid⟩,
      h'.other i fun d hd hid => hi ⟨d, (hmem d).2 hd, hid⟩]

section

variable [Inhabited α] (ht : 0 < t) (htg : t ≤ g) (hshape : a.shape = ns.map (· + 2 * g) ++ rest)

include ht htg hshape

theorem Continues.step (h : Continues g t ns rest ds a r) (hds : ∀ d ∈ ds, Leads t ns d) {e : Ints}
    (he : Leads t ns e) : ∃ r', (do
      r.assign (← of r.shape (e.map (ghostPart g t)))
        (r.window (← of r.shape (e.map (sourcePart g t)))) : Outcome _) = .ok r' ∧
        Continues g t ns rest (ds ++ [e]) a r' := by
  have hrs := h.shape.trans hshape
  obtain ⟨hghost, hsource, hsize⟩ := @IsDirection.boxes_le g t ns rest e htg he.direction
  obtain ⟨r', hr', hfull, hs', hread, hframe⟩ :=
    h.full.copy_box (hrs ▸ hsource) (hrs ▸ hghost) hsize
  refine ⟨r', ?_, hfull, hs'.trans h.shape, fun d hd i hi => ?_, fun i hi => ?_⟩
  · rw [hrs, (he.direction.windows ht htg).1, (he.direction.windows ht htg).2]
    exact hr'
  · by_cases hie : Within (ghostBox g t ns rest e) i
    · obtain rfl : d = e := by
        rcases mem_append.1 hd with hd | hd
        · exact (hds d hd).direction.eq_of_within he.direction hi hie
        · exact mem_singleton.1 hd
      -- a cell that is copied is filled in no direction
      rw [hread i hi, h.other _ fun e he' => (hds e he').not_within_moved htg he hi]
    · rw [hframe i hie]
      rcases mem_append.1 hd with hd | hd
      · exact h.filled d hd i hi
      · exact absurd (mem_singleton.1 hd ▸ hi) hie
  · rw [hframe i (hi e (by simp)), h.other i fun d hd => hi d (mem_append_left _ hd)]

theorem Full.continues (ha : a.Full) (hds : ∀ d ∈ ds, Leads t ns d) :
    ∃ r, a.copyPeriodic (ds.map fun d => (d.map (sourcePart g t), d.map (ghostPart g t))) = .ok r ∧
      Continues g t ns rest ds a r := by
  suffices ∀ done rem r, done ++ rem = ds → Continues g t ns rest done a r →
      ∃ r', r.copyPeriodic (rem.map fun d => (d.map (sourcePart g t), d.map (ghostPart g t))) =
        .ok r' ∧ Continues g t ns rest ds a r' from
    this [] ds a rfl ⟨ha, rfl, forall_mem_nil _, fun _ _ => rfl⟩
  intro done rem
  induction rem generalizing done with
  | nil =>
    rintro r rfl hr
    exact ⟨r, rfl, by rwa [append_nil]⟩
  | cons e rem ih =>
    intro r hds' hr
    have he : e ∈ ds := hds' ▸ by simp
    obtain ⟨r', hr', hcont⟩ := hr.step ht htg hshape
      (fun d hd => hds d (hds' ▸ mem_append_left _ hd)) (hds e he)
    obtain ⟨r'', hr'', hcont'⟩ := ih (done ++ [e]) r' (by simpa using hds') hcont
    refine ⟨r'', ?_, hcont'⟩
    exact bind_eq_ok.2 ⟨r', hr', hr''⟩

end

end NdArray

/-! ### Tables -/

namespace Table

variable {α β : Type} [BEq α] {t : Table α β} {a k : α} {b : β}

theorem get?_cons (p : α × β) (t : Table α β) (k : α) :
    get? (p :: t) k = if p.1 == k then some p.2 else get? t k := by
  unfold get?
  rw [find?_cons]
  cases p.1 == k <;> rfl

theorem get?_insert_self [LawfulBEq α] (t : Table α β) (a : α) (b : β) :
    get? (t.insert a b) a = some b := by
  unfold insert
  induction t with
  | nil => simp [alter, get?_cons]
  | cons p t ih =>
    rw [alter]
    split_ifs with h
    · rw [get?_cons, if_pos h]
    · rw [get?_cons, if_neg h, ih]

theorem get?_insert_of_ne [LawfulBEq α] (h : a ≠ k) (t : Table α β) (b : β) :
    get? (t.insert a b) k = get? t k := by
  have hne : (a == k) = false := beq_false_of_ne h
  unfold insert
  induction t with
  | nil => simp [alter, get?_cons, hne]
  | cons p t ih =>
    rw [alter]
    split_ifs with hp
    · rw [get?_cons, get?_cons, eq_of_beq hp, hne]
      rfl
    · rw [get?_cons, get?_cons, ih]

theorem insert_insert [LawfulBEq α] (t : Table α β) (a : α) (b c : β) :
    (t.insert a b).insert a c = t.insert a c := by
  unfold insert
  induction t with
  | nil => simp [alter]
  | cons p t ih =>
    by_cases h : (p.1 == a) = true
    · simp [alter, h]
    · simp [alter, h, ih]

theorem insert_self (h : t.get? a = some b) : t.insert a b = t := by
  unfold insert
  induction t with
  | nil => simp [get?] at h
  | cons p t ih =>
    rw [get?_cons] at h
    rw [alter]
    split_ifs at h ⊢ with hp
    · rw [← Option.some.inj h]
    · rw [ih h]

end Table

/-! ### Directions of a grid -/

theorem Tuples.mem_product {α : Type} {xss : List (List α)} {t : List α} :
    t ∈ product xss ↔ Forall₂ (· ∈ ·) t xss := by
  induction xss generalizing t with
  | nil => simp [product]
  | cons xs xss ih => cases t <;> simp [product, ih]

open NdArray Slice

namespace DataGrid

variable {κ : Type} {g : DataGrid κ} {name : String} {p : ArrayPlan} {a : DataArray}

structure Holds (g : DataGrid κ) (name : String) (p : ArrayPlan) (a : DataArray) : Prop where
  plan : g.plans.get? name = some p
  array : g.arrays.get? name = some a
  shape : a.values.shape = (g.fullShape p).map Int.toNat
  full : a.values.Full

/-- A place along a coordinate lies in the ghost layers. -/
def Outside (layers n : Int) (k : Nat) : Prop := k < layers ∨ layers + n ≤ k

/-- A cell lies outside of the domain, and only along coordinates that are periodic. -/
structure Repeats (g : DataGrid κ) (layers : Int) (i : Nats) : Prop where
  outside : ∃ x ∈ (g.size.zip g.periodicity).zip i, Outside layers x.1.1 x.2
  periodic : ∀ x ∈ (g.size.zip g.periodicity).zip i, Outside layers x.1.1 x.2 → x.1.2 = true

/-- What is no spatial coordinate stays. -/
def wrapped (g : DataGrid κ) (layers : Int) (i : Nats) : Nats :=
  zipWith (fun n (k : Nat) => (layers + ((k : Int) - layers) % n).toNat) g.size i ++ i.drop g.dim

/-- The side of the domain on which a place lies. -/
def side (l n k : Nat) : Int := if k < l then -1 else if k < l + n then 0 else 1

variable {l : Nat} {ns rest i : Nats}

/-- Each cell is filled in the direction in which it lies. -/
theorem within_side (h : inside (ns.map (· + 2 * l) ++ rest) i = true) :
    IsDirection ns (zipWith (side l) ns i) ∧
      Within (ghostBox l l ns rest (zipWith (side l) ns i)) i := by
  induction ns generalizing i with
  | nil => exact ⟨.nil, forall₂_map_right_iff.2 ((inside_iff.1 h).imp fun _ _ hk => ⟨Nat.zero_le _,
    hk⟩)⟩
  | cons n ns ih =>
    obtain ⟨k, i, hk, hi, rfl⟩ := exists_of_inside_cons h
    refine ⟨.cons ?_ (ih hi).1, .cons ?_ (ih hi).2⟩
    · unfold side
      split_ifs <;> simp
    · unfold ghostZone side
      split_ifs <;> simp_all
      omega

theorem side_ne_zero_iff {n k : Nat} : side l n k ≠ 0 ↔ Outside l n k := by
  unfold side Outside
  split_ifs <;> omega

theorem side_repeats {ps : List Bool} (h : inside (ns.map (· + 2 * l) ++ rest) i = true)
    (hps : ps.length = ns.length) :
    ((zipWith (side l) ns i).any (· != 0) = true ↔ ∃ x ∈ ((ns.map Nat.cast).zip ps).zip i,
      Outside l x.1.1 x.2) ∧
      (((zipWith (side l) ns i).zip ps).all (fun x => x.2 || x.1 == 0) = true ↔
        ∀ x ∈ ((ns.map Nat.cast).zip ps).zip i, Outside l x.1.1 x.2 → x.1.2 = true) := by
  induction ns generalizing i ps with
  | nil => simp
  | cons n ns ih =>
    obtain ⟨k, i, -, hi, rfl⟩ := exists_of_inside_cons h
    obtain ⟨b, ps, rfl⟩ := exists_cons_of_length_eq_add_one hps
    obtain ⟨hany, hall⟩ := ih hi (by simpa using hps)
    have hk := @side_ne_zero_iff l n k
    simp only [zipWith_cons_cons, any_cons, map_cons, zip_cons_cons, all_cons, Bool.or_eq_true,
      Bool.and_eq_true, bne_iff_ne, beq_iff_eq, exists_mem_cons_iff, forall_mem_cons, hany, hall,
        hk]
    exact ⟨trivial, and_congr_left fun _ => by tauto⟩

theorem moved_side (h : inside (ns.map (· + 2 * l) ++ rest) i = true)
    (hwide : Forall₂ (fun n c => c ≠ 0 → l ≤ n) ns (zipWith (side l) ns i)) :
    moved (sourceBox l l ns rest (zipWith (side l) ns i))
      (ghostBox l l ns rest (zipWith (side l) ns i)) i =
      zipWith (fun (n : Int) (k : Nat) => ((l : Int) + ((k : Int) - l) % n).toNat)
        (ns.map Nat.cast) i ++ i.drop ns.length := by
  have hin := (within_side h).2
  induction ns generalizing i with
  | nil => exact moved_self hin
  | cons n ns ih =>
    obtain ⟨k, i, hk, hi, rfl⟩ := exists_of_inside_cons h
    dsimp only at hk
    obtain ⟨hn, hwide⟩ := forall₂_cons.1 hwide
    refine congrArg₂ cons ?_ (ih hi hwide (within_side hi).2)
    have hn : ¬ (l ≤ k ∧ k < l + n) → l ≤ n :=
      fun hout => hn (side_ne_zero_iff.2 (by unfold Outside; omega))
    have hmod : (k - l) % n = if k < l then (k : Int) - l + n else if k < l + n then (k :
      Int) - l else (k : Int) - l - n := by
      split_ifs
      · rw [← Int.add_emod_right, Int.emod_eq_of_lt] <;> omega
      · rw [Int.emod_eq_of_lt] <;> omega
      · rw [← Int.sub_emod_right, Int.emod_eq_of_lt] <;> omega
    unfold sourceZone ghostZone side
    split_ifs <;> simp_all <;> omega

/-! ### The exchange -/

theorem plan_eq_ok : g.plan name = .ok p ↔ g.plans.get? name = some p := by
  unfold plan entry
  cases g.plans.get? name <;> simp

theorem array_eq_ok : g.array name = .ok a ↔ g.arrays.get? name = some a := by
  unfold array entry
  cases g.arrays.get? name <;> simp

theorem exchange_perform {stencil : Option String} {ds : List Ints} {pairs : List (Slices × Slices)}
    {v : NdArray Cell}
    (ha : g.arrays.get? name = some a) (hds : g.periodicDirections stencil = .ok ds)
    (hpairs : g.copies ds name = .ok pairs)
    (hv : a.values.copyPeriodic pairs = .ok v) :
    (exchange [name] stencil).perform g =
    ({ g with arrays := g.arrays.insert name { a with values := v } }, .ok ()) := by
  have hloop : ∀ (pairs : List (Slices × Slices)) (g : DataGrid κ) (a : DataArray),
    g.arrays.get? name = some a →
      a.values.copyPeriodic pairs = .ok v → (forIn pairs PUnit.unit (fun x _ => do
        let a ← (← get).array name
        let w ← of a.values.shape x.2
        setValues name (← a.values.assign w (a.values.window (← of a.values.shape x.1)))
        pure (ForInStep.yield PUnit.unit)) : Action (DataGrid κ) PUnit).perform g =
          ({ g with arrays := g.arrays.insert name { a with values := v } }, .ok ⟨⟩) := by
    intro pairs
    induction pairs with
    | nil =>
      intro g a ha hv
      obtain rfl := pure_eq_ok.1 hv
      rw [Table.insert_self ha]
      rfl
    | cons x pairs ih =>
      intro g a ha hv
      obtain ⟨r, hr, hv⟩ := bind_eq_ok.1 hv
      obtain ⟨w, hw, hr⟩ := bind_eq_ok.1 hr
      obtain ⟨u, hu, hr⟩ := bind_eq_ok.1 hr
      have hnext := ih { g with arrays := g.arrays.insert name { a with values := r } }
        { a with values := r } (Table.get?_insert_self ..) hv
      simp only [Table.insert_insert] at hnext
      simp only [forIn_cons, perform_bind, perform_get, perform_lift, array_eq_ok.2 ha, hw, hu, hr,
        setValues,
        perform_modify, ha, perform_pure]
      exact hnext
  unfold exchange
  simp only [perform_bind, perform_get, perform_lift, hds, mapM_cons, mapM_nil, hpairs,
    perform_pure]
  split_ifs with hempty
  · obtain rfl : pairs = [] := by
      obtain ⟨p, -, hpairs⟩ := bind_eq_ok.1 hpairs
      split_ifs at hpairs <;> simp_all
    obtain rfl := pure_eq_ok.1 hv
    rw [Table.insert_self ha, perform_pure]
  · simp only [forIn_cons, forIn_nil, perform_bind, perform_get, perform_lift, array_eq_ok.2 ha]
    rw [hloop pairs g a ha hv]
    rfl

theorem mem_periodicDirections (hdim : g.dim = 2 ∨ g.dim = 3) :
    ∃ ds, g.periodicDirections none = .ok ds ∧ ∀ d, d ∈ ds ↔
    (Forall₂ (fun (_ : Int) c => c = -1 ∨ c = 0 ∨ c = 1) g.size d) ∧ d.any (· != 0) = true ∧
      (d.zip g.periodicity).all (fun x => x.2 || x.1 == 0) = true := by
  refine ⟨_, by rw [periodicDirections, neighbours, if_pos (by simpa using hdim)]; rfl, fun d => ?_⟩
  rw [mem_filter, Tuples.mem_product, Bool.and_eq_true, dim]
  refine and_congr ?_ Iff.rfl
  generalize g.size = ns
  induction ns generalizing d with
  | nil => simp
  | cons n ns ih => cases d <;> simp [replicate_succ, ih]

theorem leads_of_periodic {ps : List Bool} (hps : ps.length = ns.length) {d : Ints}
    (hdir : IsDirection ns d) (hne : d.any (· != 0) = true)
    (hall : (d.zip ps).all (fun x => x.2 || x.1 == 0) = true)
    (hwide : ∀ x ∈ (ns.map Nat.cast).zip ps, x.2 = true → (l : Int) ≤ x.1) :
    Leads l ns d := by
  refine ⟨hdir, hne, ?_⟩
  clear hne
  induction hdir generalizing ps with
  | nil => exact .nil
  | @cons n c ns d _ _ ih =>
    cases ps with
    | nil => simp at hps
    | cons b ps =>
      simp only [zip_cons_cons, all_cons, Bool.and_eq_true, Bool.or_eq_true, beq_iff_eq] at hall
      simp only [map_cons, zip_cons_cons, forall_mem_cons] at hwide
      exact .cons (fun hc => by exact_mod_cast hwide.1 (hall.1.resolve_right hc))
        (ih (by simpa using hps) hall.2 hwide.2)

/-- In whichever order the directions are taken, a cell outside of the domain along periodic
coordinates holds what the cell of the domain whole periods away held, and all others stay. -/
theorem exchange_wraps (h : g.Holds name p a) (hdim : g.dim = 2 ∨ g.dim = 3)
    (hsize : ∀ n ∈ g.size, 0 ≤ n)
    (hperiodic : g.periodicity.length = g.dim) (hlayers : 1 ≤ p.ghostLayers)
    (hwide : ∀ x ∈ g.size.zip g.periodicity, x.2 = true → p.ghostLayers ≤ x.1)
    (hvalues : p.values.length ≤ 1) :
    ∃ ds v, g.periodicDirections none = .ok ds ∧
      (exchange [name] none).perform g = ({ g with arrays := Table.insert g.arrays name { a with values := v } }, .ok ()) ∧
      v.shape = a.values.shape ∧
      (∀ i, inside v.shape i = true → g.Repeats p.ghostLayers i →
        v.get? i = a.values.get? (g.wrapped p.ghostLayers i)) ∧
      (∀ i, inside v.shape i = true → ¬ g.Repeats p.ghostLayers i → v.get? i = a.values.get? i) ∧
      ∀ es, es.Perm ds → ∃ pairs, Slice.periodic es p.ghostLayers none = .ok pairs ∧
        a.values.copyPeriodic pairs = .ok v := by
  obtain ⟨ns, hns⟩ : ∃ ns : List Nat, ns.map Nat.cast = g.size := CanLift.prf g.size hsize
  obtain ⟨l, hl⟩ := Int.eq_ofNat_of_zero_le (show 0 ≤ p.ghostLayers by omega)
  have hl0 : 0 < l := by omega
  have hdimns : ns.length = g.dim := by simp [dim, ← hns]
  have hshape : a.values.shape = ns.map (· + 2 * l) ++ p.values.map Int.toNat := by
    rw [h.shape, fullShape, map_append, ← hns, hl, map_map, map_map]
    exact congrArg (· ++ _) (map_congr_left fun n _ => by simp; omega)
  obtain ⟨ds, hds, hmem⟩ := mem_periodicDirections hdim
  simp only [← hns, forall₂_map_left_iff] at hmem
  have hleads : ∀ d ∈ ds, Leads l ns d := by
    intro d hd
    obtain ⟨hdir, hne, hall⟩ := (hmem d).1 hd
    exact leads_of_periodic (hperiodic.trans hdimns.symm) hdir hne hall (by rwa [hns, ← hl])
  have hany : ∀ es : List (List Int), es.Perm ds → ∃ pairs r,
    Slice.periodic es p.ghostLayers none = .ok pairs ∧
      a.values.copyPeriodic pairs = .ok r ∧
        Continues l l ns (p.values.map Int.toNat) es a.values r := by
    intro es hes
    have hes' : ∀ d ∈ es, Leads l ns d := fun d hd => hleads d (hes.mem_iff.1 hd)
    obtain ⟨r, hr, hcont⟩ := h.full.continues hl0 le_rfl hshape hes'
    refine ⟨_, r, ?_, hr, hcont⟩
    rw [hl, periodic_eq hl0 le_rfl (fun d hd c hc => ?_) rfl,
      filter_eq_self.2 fun d hd => (hes' d hd).nonzero]
    obtain ⟨_, -, hc⟩ := exists_of_forall₂ (hes' d hd).direction hc
    exact hc
  obtain ⟨pairs, v, hpairs, hv, hcont⟩ := hany ds (.refl ds)
  have hcopies : g.copies ds name = .ok pairs := by
    rw [copies, plan_eq_ok.2 h.plan]
    by_cases hempty : ds.isEmpty = true
    · obtain rfl := isEmpty_iff.1 hempty
      obtain rfl := pure_eq_ok.1 hpairs
      simp [bind, Except.bind, pure, Except.pure, hvalues]
    · simp [bind, Except.bind, hempty, hvalues, hpairs]
  -- the direction in which a cell lies decides
  have hside : ∀ {i}, inside v.shape i = true → (zipWith (side l) ns i ∈ ds ↔
    g.Repeats p.ghostLayers i) := by
    intro i hi
    rw [hcont.shape, hshape] at hi
    obtain ⟨hsome, hall⟩ := side_repeats hi (hperiodic.trans hdimns.symm)
    rw [hns, ← hl] at hsome hall
    rw [hmem, hsome, hall]
    exact ⟨fun h => ⟨h.2.1, h.2.2⟩, fun hrep => ⟨(within_side hi).1, hrep.outside, hrep.periodic⟩⟩
  refine ⟨ds, v, hds, exchange_perform h.array hds hcopies hv, hcont.shape, fun i hi hrep => ?_,
    fun i hi hrep => ?_, fun es hes => ?_⟩
  · have hd := (hside hi).2 hrep
    rw [hcont.shape, hshape] at hi
    rw [hcont.filled _ hd i (within_side hi).2, moved_side hi (hleads _ hd).wide, wrapped, ← hl,
      hns, hdimns]
  · refine hcont.other i fun d hd hin => hrep ((hside hi).1 ?_)
    rw [hcont.shape, hshape] at hi
    rwa [← (hleads d hd).direction.eq_of_within (within_side hi).1 hin (within_side hi).2]
  · obtain ⟨pairs, r, hpairs, hr, hcont'⟩ := hany es hes
    exact ⟨pairs, hpairs, hcont'.unique hcont (fun d => hes.mem_iff) ▸ hr⟩

def rowValues : DataArray := ⟨.double, default,
      ⟨[4, 3, 2], ((range 24).map fun (k : Nat) => Cell.int k).toArray⟩⟩

def row : DataGrid Unit where
  size := [2, 1]
  periodicity := [true, false]
  plans := [("u", ⟨1, [2], "SoA", .double, none⟩)]
  arrays := [("u", rowValues)]

/-- Before the first cell of the row stands the last one; above the row nothing changes. -/
theorem exchange_wraps_row : ∃ v : NdArray Cell,
    (Table.get? ((exchange ["u"] none).perform row).1.arrays "u").map (·.values) = some v ∧
    v.get? [0, 1, 1] = some (.int 15) ∧ v.get? [0, 0, 1] = some (.int 1) := by
  have hrow : row.Holds "u" ⟨1, [2], "SoA", .double, none⟩ rowValues := ⟨rfl, rfl, rfl, rfl⟩
  obtain ⟨ds, v, -, hrun, hshape, hwrap, hstay, -⟩ :=
    exchange_wraps hrow (.inl rfl) (by decide) rfl (by decide) (by decide) (by decide)
  refine ⟨v, ?_, ?_, ?_⟩
  · rw [hrun]
    exact congrArg (Option.map _) (Table.get?_insert_self ..)
  · rw [hwrap _ (by rw [hshape]; rfl) ⟨⟨((2, true), 0), by simp [row], .inl (by decide)⟩,
      by simp [row, Outside]⟩]
    rfl
  · rw [hstay _ (by rw [hshape]; rfl) fun h => absurd
      (h.periodic ((1, false), 0) (by simp [row]) (.inl (by decide))) (by decide)]
    rfl

end DataGrid

end StencilForge
