import StencilForge.Proofs.Least
import StencilForge.Proofs.Mentions
import StencilForge.Proofs.Periodic
import StencilForge.Proofs.Places

/-!
# Proofs — the rounds of nested loops

Nested loops run their innermost statements once for each tuple of counters (`Machine.Tours`), the
outermost counter changing slowest (`Tuples.pairwise_product`).  Loops over blocks run them for the
same tuples (`LoopNest.tours_block`).
-/

open List StencilForge.Outcome

namespace StencilForge

variable {V : Type} {M : Model V}

theorem Tuples.pairwise_product {xss : List Ints} (h : ∀ xs ∈ xss, xs.Pairwise (· < ·)) :
    (product xss).Pairwise (Lex (· < ·)) := by
  induction xss with
  | nil => exact pairwise_singleton _ _
  | cons xs xss ih =>
    obtain ⟨hxs, hxss⟩ := forall_mem_cons.1 h
    refine pairwise_flatMap.2 ⟨fun x _ => pairwise_map.2 ((ih hxss).imp .cons),
      hxs.imp fun hlt => ?_⟩
    simp only [mem_map]
    rintro _ ⟨_, -, rfl⟩ _ ⟨_, -, rfl⟩
    exact .rel hlt

namespace Machine

variable {F : State V → Prop} {c : Symbol} {cs : List Symbol} {is : Ints} {iss : List Ints}
  {body code : Body} {a b k : Int}

theorem pairwise_range : (range a b k).Pairwise fun x y => x + k ≤ y := by
  unfold range
  split
  · next hk =>
    refine pairwise_map.2 (pairwise_lt_range.imp fun {i j} hij => ?_)
    have : k * (i + 1) ≤ k * j := mul_le_mul_of_nonneg_left (by omega) hk.le
    linarith
  · exact .nil

/-- The counters have the values of a tuple. -/
def State.counting (M : Model V) (s : State V) (cs : List Symbol) (is : Ints) : State V :=
  (cs.zip is).foldl (fun s p => s.set p.1 (some (M.int p.2))) s

def oneRound (M : Model V) (cs : List Symbol) (body : Body) (s : State V) (m : Memory V)
    (is : Ints) :
    Memory V :=
  (execList M body ({ s with mem := m }.counting M cs is)).mem

/-- The memory after a list has run once for each tuple, one after the other. -/
def tour (M : Model V) (cs : List Symbol) (body : Body) (s : State V) (tuples : List Ints) :
    Memory V :=
  tuples.foldl (oneRound M cs body s) s.mem

/-- Running `code` is running `body` once for each tuple of counters. -/
def Tours (M : Model V) (F : State V → Prop) (cs : List Symbol) (tuples : List Ints)
    (body code : Body) : Prop :=
  ∀ s, F s → (execList M code s).mem = tour M cs body s tuples

theorem tours_self : Tours M F [] (Tuples.product []) body body := fun _ _ => rfl

theorem tour_map_cons (s : State V) (i : Int) (tuples : List Ints) :
    tour M (c :: cs) body s (tuples.map (i :: ·)) =
      tour M cs body (s.set c (some (M.int i))) tuples := foldl_map

theorem Tours.loop {l : Loop} (h : Tours M F cs (Tuples.product iss) body code)
    (hF : ∀ s m v, F s → F ({ s with mem := m }.set l.symbol v))
    (hr : ∀ s, F s → rounds M s l = some is) :
    Tours M F (l.symbol :: cs) (Tuples.product (is :: iss)) body [.loop l code] := by
  intro s hs
  rw [execList_cons, exec, hr s hs, tour, Tuples.product, foldl_flatMap]
  refine foldl_ext _ _ _ fun m i _ => ?_
  rw [h _ (hF s m _ hs)]
  exact (tour_map_cons { s with mem := m } i _).symm

theorem Tours.point {e : Expr} {i : Int} (h : Tours M F cs (Tuples.product iss) body code)
    (hF : ∀ s m v, F s → F ({ s with mem := m }.set c v))
    (he : ∀ s, F s → M.eval s.view e = some (M.int i)) :
    Tours M F (c :: cs) (Tuples.product ([i] :: iss)) body (.set (.sym c) e :: code) := by
  intro s hs
  have hexec : execList M (.set (.sym c) e :: code) s =
    execList M code (s.set c (some (M.int i))) := by
    rw [← he s hs]
    rfl
  rw [hexec, h _ (hF s s.mem _ hs), Tuples.product, flatMap_singleton, tour_map_cons]

/-- Loops around each other. -/
theorem tours_nest {ls : List Loop} (hF : ∀ l ∈ ls, ∀ s m v, F s →
      F ({ s with mem := m }.set l.symbol v))
    (hr : Forall₂ (fun l is => ∀ s, F s → rounds M s l = some is) ls iss) :
    Tours M F (ls.map Loop.symbol) (Tuples.product iss) body
      (Statement.nest (ls.map (·, [])) body) := by
  induction hr with
  | nil => exact tours_self
  | cons hl _ ih =>
    obtain ⟨hset, hF⟩ := forall_mem_cons.1 hF
    exact (ih hF).loop hset hl

namespace State

theorem counting_mem (s : State V) : (s.counting M cs is).mem = s.mem :=
  foldlRecOn (motive := fun t : State V => t.mem = s.mem) _ _ rfl fun _ h _ _ => h

theorem counting_env_of_notMem (s : State V) (hc : c ∉ cs) :
    (s.counting M cs is).env c = s.env c := by
  refine foldlRecOn (motive := fun t : State V => t.env c = s.env c) _ _ rfl fun t h p hp => ?_
  have hcp : c ≠ p.1 := fun hcp => hc (hcp ▸ (of_mem_zip hp).1)
  exact (t.set_env_of_ne _ hcp).trans h

theorem counting_env (s : State V) (hcs : cs.Nodup) (hlen : cs.length = is.length) :
    Forall₂ (fun c i => (s.counting M cs is).env c = some (M.int i)) cs is := by
  induction cs generalizing s is with
  | nil => exact length_eq_zero_iff.1 hlen.symm ▸ .nil
  | cons c cs ih =>
    obtain ⟨i, is, rfl⟩ := exists_cons_of_length_eq_add_one hlen.symm
    obtain ⟨hc, hcs⟩ := nodup_cons.1 hcs
    exact .cons ((counting_env_of_notMem _ hc).trans (s.set_env_self ..))
      (ih _ hcs (Nat.succ.inj hlen))

end State

/-- Symbols that the list does not mention do not matter. -/
theorem oneRound_congr {D : Symbol → Prop} {s s' : State V} (h : ∀ y, ¬ D y → s.env y = s'.env y)
    (hD : ∀ y, D y → ¬ Statement.MentionsList y body) (m : Memory V) :
    oneRound M cs body s m = oneRound M cs body s' m := by
  have halike : Alike D { s with mem := m } { s' with mem := m } := ⟨h, rfl⟩
  refine funext fun is => (Alike.runsList hD ?_).1.mem
  exact foldl_rel halike fun _ _ _ _ h => h.set _ _

end Machine

/-! ### Blocks -/

/-- Choosing blocks first and then a place in each of them. -/
theorem Tuples.product_flatMap_perm {ι : Type} (ls : List ι) (starts : ι → Ints)
    (within : ι → Int → Ints) :
    ((product (ls.map starts)).flatMap fun ys => product (zipWith within ls ys)).Perm
      (product (ls.map fun l => (starts l).flatMap (within l))) := by
  induction ls with
  | nil => exact .refl _
  | cons l ls ih =>
    simp only [map_cons, product, flatMap_assoc, flatMap_map]
    refine .flatMap_left _ fun y _ => ?_
    have hswap : ((product (ls.map starts)).flatMap fun ys => (within l y).flatMap fun i =>
      (product (zipWith within ls ys)).map (i :: ·)).Perm
        ((within l y).flatMap fun i => (product (ls.map starts)).flatMap fun ys =>
          (product (zipWith within ls ys)).map (i :: ·)) := by
      rw [← Multiset.coe_eq_coe]
      simp only [← Multiset.coe_bind]
      exact Multiset.bind_bind _ _
    refine hswap.trans (.flatMap_left _ fun i _ => ?_)
    rw [← map_flatMap]
    exact ih.map _

namespace Counter

theorem blockSymbol_ne_extent {x : Extent} {y : Symbol} (h : Symbol.ofExtent x = some y) (c : Int) :
    y ≠ blockSymbol c := by
  rintro rfl
  cases x <;> simp [Symbol.ofExtent, blockSymbol, Symbol.typed] at h

end Counter

theorem Machine.State.Sized.set {zs : List Extent} {ν : Extent → Int} {s : State V}
    (h : s.Sized M ν zs) {c : Symbol}
    (hc : ∀ z y, Symbol.ofExtent z = some y → y ≠ c) (m : Memory V) (v : Option V) :
    ({ s with mem := m }.set c v).Sized M ν zs :=
  fun z hz y hy => (State.set_env_of_ne _ _ (hc z y hy)).trans (h z hz y hy)

/-- The loop counts the numbers from `a` to `b`, which are written out or counted from an extent. -/
structure Loop.Spans (ν : Extent → Int) (zs : List Extent) (a b : Int) (l : Loop) : Prop where
  cells : l.isBlock = false
  step : l.step = .lit 1
  bounds : ∃ z ∈ zs, Slice.Counted ν z l.start a ∧ Slice.Counted ν z l.stop b

namespace LoopNest

open Statement Machine Counter Elementary
open Slice (Counted)

variable {x : Extents} {ls : List Loop} {sizes : Exprs} {body : Body} {s : State V} {c : Int}
    {ν : Extent → Int} {zs : List Extent}

namespace Extents

/-- Where blocks start. -/
def starts (x : Extents) (c : Int) : Ints := range (x.lo c) (x.hi c) (x.size c)

/-- The cells of the block that starts at `y`. -/
def within (x : Extents) (c y : Int) : Ints := range y (min (x.hi c) (y + x.size c)) 1

theorem starts_flatMap_within (hc : 0 < x.size c) : (x.starts c).flatMap (x.within c) = range
    (x.lo c) (x.hi c) 1 := by
  have hup : ∀ {a b : Int}, (range a b 1).Pairwise (· < ·) := pairwise_range.imp fun h => by omega
  refine Pairwise.eq_of_mem_iff (pairwise_flatMap.2 ⟨fun y _ => hup,
    pairwise_range.imp fun {y z} hyz i hi j hj => ?_⟩) hup fun i => ?_
  · obtain ⟨-, hi⟩ := mem_range_one.1 hi
    obtain ⟨hj, -⟩ := mem_range_one.1 hj
    omega
  · rw [mem_flatMap]
    refine ⟨fun ⟨y, hy, hi⟩ => ?_, exists_block hc⟩
    obtain ⟨j, rfl, -⟩ := (mem_range hc).1 hy
    obtain ⟨hlow, hhigh⟩ := mem_range_one.1 hi
    have : 0 ≤ x.size c * j := mul_nonneg hc.le (Int.natCast_nonneg j)
    exact mem_range_one.2 ⟨by omega, by omega⟩

end Extents

section Spans

variable {l l' : Loop} {n : Expr} {a b k y : Int}

theorem counts_of_spans (h : l.Spans ν zs a b) (hs : s.Sized M ν zs) : l.Counts M s.view a b := by
  obtain ⟨z, hz, hstart, hstop⟩ := h.bounds
  exact ⟨hstart.eval hz hs, hstop.eval hz hs, by rw [h.step, M.eval_lit]⟩

theorem ofPosition_of_int? (h : n.int? = some k) : n.ofPosition = .int k := by
  unfold Expr.int? at h
  split at h
  · next q =>
    cases q with
    | rat q =>
      obtain ⟨hq, rfl⟩ : q.den = 1 ∧ q.num = k := by simpa [Number.int?] using h
      exact congrArg (fun r => Expr.num (.rat r)) (Rat.ext rfl hq)
    | _ => cases h
  · obtain rfl := Option.some.inj h
    rfl
  · cases h

theorem isEnd_of_counted {z : Extent} {e : Expr} (h : Counted ν z e a) : IsEnd e.ofPosition := by
  obtain rfl | ⟨y, m, hy, rfl, -⟩ := h
  · exact .inl ⟨a, rfl⟩
  · refine .inr ⟨y, m, ?_, ?_⟩
    · cases z with
      | known n => cases hy
      | shape fs i | stride f i =>
        obtain rfl := Option.some.inj hy
        rfl
    · unfold Expr.plus
      split <;> rfl

theorem difference_plus (y : Symbol) (m : Int) (e : Expr) :
    Loop.difference .standard (.plus y m) e = Algebra.standard.sub (.plus y m) e.ofPosition := by
  unfold Expr.plus
  split <;> rfl

theorem difference_lit_plus (r : Int) (y : Symbol) (m : Int) :
    Loop.difference .standard (.lit r) (.plus y m) = Algebra.standard.sub (.int r) (.plus y m) := by
  unfold Expr.plus
  split <;> rfl

/-- A number of cells that is known before the loops run is the right one. -/
theorem range_of_spans (h : l.Spans ν zs a b) {r : Int} (hr : (l.range .standard).int? = some r) :
    r = b - a := by
  have hplus : ∀ {y m}, ¬ (Expr.plus y m).int? = some r := by
    intro y m h
    unfold Expr.plus at h
    split at h <;> cases h
  have hminus : ∀ {y m}, ¬ (Expr.minus y m).int? = some r := by
    intro y m h
    unfold Expr.minus at h
    split at h <;> cases h
  obtain ⟨z, -, hstart, hstop⟩ := h.bounds
  rw [Loop.range] at hr
  obtain hstart | ⟨y, m, hy, hstart, rfl⟩ := hstart <;>
    obtain hstop | ⟨y', n, hy', hstop, rfl⟩ := hstop <;> rw [hstart, hstop] at hr
  · exact (Option.some.inj hr).symm
  · rw [difference_plus] at hr
    exact absurd hr (Algebra.standard_collects.plusSub y' n a ▸ hplus)
  · rw [difference_lit_plus] at hr
    exact absurd hr (Algebra.standard_collects.subPlus y b m ▸ hminus)
  · obtain rfl : y = y' := Option.some.inj (hy.symm.trans hy')
    have hplace : (Expr.plus y m).ofPosition = .plus y m := by
      unfold Expr.plus
      split <;> rfl
    rw [difference_plus, hplace, Algebra.standard_collects.plusPlus] at hr
    obtain rfl : n - m = r := Option.some.inj hr
    omega

section Within

variable (hM : ∀ a b, M.apply (.fn .min) [some (M.int a), some (M.int b)] = some (M.int (min a b)))

include hM

/-- The loop within the block that starts at `y` ends with the block or with the whole loop. -/
theorem counts_within (hspans : l.Spans ν zs a b) (hs : s.Sized M ν zs)
    (hn : extent sizes l.coord = .ok n) (hk : n.int? = some k) (hpos : 0 < k)
    (hl : withinBlock .standard sizes l = .ok l') (hy : y ∈ range a b k)
    (hblock : s.env (blockSymbol l.coord) = some (M.int y)) :
    l'.Counts M s.view y (min b (y + k)) ∧ l'.symbol = l.symbol := by
  have hc := counts_of_spans hspans hs
  have hadd : Algebra.standard.add2 (.sym (blockSymbol l.coord)) n.ofPosition =
      .plus (blockSymbol l.coord) k := by
    rw [ofPosition_of_int? hk]
    exact Algebra.standard_collects.add _ k
  have hnext : M.eval s.view (.plus (blockSymbol l.coord) k) = some (M.int (y + k)) :=
    M.eval_plus (w := s.view) hblock k
  obtain ⟨stop, rfl, hstop⟩ := withinBlock_eq_ok hn hl
  rw [hadd] at hstop
  refine ⟨⟨hblock, ?_, hc.step⟩, rfl⟩
  rcases hstop with ⟨rfl, r, k', hr, hk', hmod⟩ | hstop
  · -- the number of cells is a multiple of the block's size, so the block ends before the loop does
    obtain rfl : k = k' := Option.mem_unique hk hk'
    obtain rfl := range_of_spans hspans hr
    obtain ⟨i, rfl, hlt⟩ := (mem_range hpos).1 hy
    obtain ⟨q, hq⟩ := Int.dvd_of_emod_eq_zero hmod
    have hiq : i < q := by nlinarith
    have hle : k * (i + 1) ≤ k * q := mul_le_mul_of_nonneg_left (by omega) hpos.le
    rw [hnext, min_eq_right]
    linarith
  · obtain ⟨z, -, -, hend⟩ := hspans.bounds
    obtain ⟨us, hperm, hnode⟩ := Build.least_end (c := blockSymbol l.coord) rfl
      (isEnd_of_counted hend) k
    rw [hnode] at hstop
    obtain rfl := Except.ok.inj hstop
    have hvalue : M.eval s.view l.stop.ofPosition = some (M.int b) := by
      rw [Model.eval_ofPosition, hc.stop]
    have hvalues : us.map (M.eval s.view) = [some (M.int b), some (M.int (y + k))] ∨
        us.map (M.eval s.view) = [some (M.int (y + k)), some (M.int b)] := by
      rcases perm_pair.1 hperm with rfl | rfl <;> simp [hvalue, hnext]
    simp only [Model.eval, Model.evalList_eq_map]
    rcases hvalues with h | h
    · rw [h, hM]
    · rw [h, hM, min_comm]

end Within

end Spans

/-! ### Nests of loops -/

variable {f : Loop → Outcome Loop} {within : Loop → Loop} {step : Loop → Expr}

/-- Step-one loops along different coordinates, with blocks of a positive number of cells along each
of them. -/
structure Divides (ν : Extent → Int) (zs : List Extent) (x : Extents) (sizes : Exprs)
    (ls : List Loop) : Prop where
  coords : (ls.map (·.coord)).Nodup
  spans : ∀ l ∈ ls, l.Spans ν zs (x.lo l.coord) (x.hi l.coord)
  pos : ∀ l ∈ ls, 0 < x.size l.coord
  size : ∀ l ∈ ls, ∃ n, extent sizes l.coord = .ok n ∧ n.int? = some (x.size l.coord)

namespace Divides

variable (h : Divides ν zs x sizes ls) {l : Loop}

include h

theorem symbol (hl : l ∈ ls) : l.symbol = Counter.symbol l.coord := by
  rw [Loop.symbol, (h.spans l hl).cells]
  rfl

/-- The loop inside a block can be written down. -/
theorem exists_withinBlock (hl : l ∈ ls) : ∃ l', withinBlock .standard sizes l = .ok l' := by
  obtain ⟨n, hn, hk⟩ := h.size l hl
  obtain ⟨z, -, -, hend⟩ := (h.spans l hl).bounds
  obtain ⟨us, -, hmin⟩ := Build.least_end (c := blockSymbol l.coord) rfl (isEnd_of_counted hend)
    (x.size l.coord)
  have hadd := Algebra.standard_collects.add (blockSymbol l.coord) (x.size l.coord)
  rw [← hadd, ← ofPosition_of_int? hk] at hmin
  have hmin : Build.node .standard (.fn .min) [l.stop.ofPosition,
      Algebra.standard.add2 (.sym (blockSymbol l.coord)) n.ofPosition] = .ok (.fn .min us) := hmin
  simp only [withinBlock, bind_eq_ok, hn, hk, Except.ok.injEq, exists_eq_left']
  cases (l.range .standard).int? with
  | none => simp [hmin]
  | some r => by_cases hmod : r % x.size l.coord = 0 <;> simp [(h.pos l hl).ne', hmod, hmin]

/-- Other values of counters do not matter to the bounds. -/
theorem sized_set (hl : l ∈ ls) (s : State V) (m : Memory V) (v : Option V) (hs : s.Sized M ν zs) :
    ({ s with mem := m }.set l.symbol v).Sized M ν zs := by
  rw [h.symbol hl]
  exact hs.set_counter _ v m

end Divides

mutual

theorem mapHeads_of_loops : ∀ {st : Statement}, loops st = [] → mapHeads f st = .ok st
  | .loop l body, h => by cases h
  | .block p body, h => bind_eq_ok.2 ⟨body, mapHeadsList_of_loops h, rfl⟩
  | .branch c yes e no, h => by
    obtain ⟨hyes, hno⟩ := append_eq_nil_iff.1 h
    exact bind_eq_ok.2 ⟨yes, mapHeadsList_of_loops hyes,
      bind_eq_ok.2 ⟨no, mapHeadsList_of_loops hno, rfl⟩⟩
  | .assign .., _ | .skip, _ | .snippet _, _ | .random _, _ | .allocate _, _ | .release _, _ => rfl

theorem mapHeadsList_of_loops : ∀ {body : Body}, loopsList body =
    [] → mapHeadsList f body = .ok body
  | [], _ => rfl
  | s :: r, h => by
    obtain ⟨hs, hr⟩ := append_eq_nil_iff.1 h
    exact bind_eq_ok.2 ⟨s, mapHeads_of_loops hs, bind_eq_ok.2 ⟨r, mapHeadsList_of_loops hr, rfl⟩⟩

end

theorem mapHeadsList_nest {ls' : List Loop} (h : Forall₂ (fun l l' => f l = .ok l') ls ls')
    (hbody : loopsList body = []) : mapHeadsList f
    (nest (ls.map (·, [])) body) = .ok (nest (ls'.map (·, [])) body) := by
  induction h with
  | nil => exact mapHeadsList_of_loops hbody
  | cons hl _ ih => exact bind_eq_ok.2 ⟨_, bind_eq_ok.2 ⟨_, hl, bind_eq_ok.2 ⟨_, ih, rfl⟩⟩, rfl⟩

theorem loopsList_nest (hbody : loopsList body = []) : (loopsList (nest (ls.map (·, [])) body)).map
    (·.1) = ls := by
  induction ls with
  | nil => exact congrArg _ hbody
  | cons l ls ih => simpa [nest, loopsList, loops] using ih

theorem bounds_of_nodup (h : (ls.map (·.coord)).Nodup) : bounds ls = .ok ls := by
  induction ls using reverseRecOn with
  | nil => rfl
  | append_singleton ls l ih =>
    rw [map_append, nodup_append] at h
    have hnew : ls.find? (·.coord == l.coord) = none := by
      refine find?_eq_none.2 fun m hm heq => ?_
      exact h.2.2 _ (mem_map_of_mem hm) l.coord (by simp) (by simpa using heq)
    rw [bounds, foldlM_append]
    refine bind_eq_ok.2 ⟨ls, ih h.1, ?_⟩
    simp [hnew]

theorem nest_eq_foldr (ls : List Loop) : nest (ls.map (·, [])) body = ls.foldr
    (fun l body => [.loop l body]) body := by
  induction ls with
  | nil => rfl
  | cons l ls ih => exact congrArg (fun b => [loop l b]) ih

/-- The loop over the blocks of a loop. -/
def overBlocks (step : Loop → Expr) (l : Loop) : Loop where
  coord := l.coord
  start := l.start
  stop := l.stop
  step := step l
  isBlock := true

/-- The loops over blocks, around those within one. -/
theorem block_nest (hne : ls ≠ []) (hls : (ls.map (·.coord)).Nodup) (hbody : loopsList body = [])
    (hstep : ∀ l ∈ ls, extent sizes l.coord = .ok (step l))
    (hwithin : ∀ l ∈ ls, withinBlock A sizes l = .ok (within l)) :
    block A sizes (nest (ls.map (·, [])) body) = .ok (nest ((ls.map (overBlocks step)).map (·, []))
      (nest ((ls.map within).map (·, [])) body), ls.length) := by
  have hheads : (ls.mapM fun l => do
      return { coord := l.coord, start := l.start, stop := l.stop, step := ← extent sizes l.coord, isBlock := true : Loop }) =
      Except.ok (ls.map (overBlocks step)) :=
    mapM_eq_ok.2 (forall₂_map_right_iff.2 (forall₂_same.2 fun l hl => bind_eq_ok.2 ⟨_, hstep l hl,
      rfl⟩))
  have hinner := mapHeadsList_nest (forall₂_map_right_iff.2 (forall₂_same.2 hwithin)) hbody
  rw [block, loopsList_nest hbody, bounds_of_nodup hls]
  simp only [bind_eq_ok, Except.ok.injEq, exists_eq_left', isEmpty_eq_false_iff.2 hne,
    Bool.false_eq_true, if_false, hheads, hinner, pure_eq_ok]
  rw [foldl_reverse, nest_eq_foldr, nest_eq_foldr]

section Blocks

variable (h : Divides ν zs x sizes ls)

include h

theorem tours_cells :
    Tours M (State.Sized M ν zs) (ls.map Loop.symbol)
      (Tuples.product (ls.map fun l => range (x.lo l.coord) (x.hi l.coord) 1)) body
      (nest (ls.map (·, [])) body) :=
  tours_nest (fun _ hl => h.sized_set hl) (forall₂_map_right_iff.2 (forall₂_same.2 fun l hl _ hs =>
    (counts_of_spans (h.spans l hl) hs).rounds))

theorem tours_starts (hsize : ∀ l ∈ ls, (step l).int? = some (x.size l.coord)) {inner : Body} :
    Tours M (State.Sized M ν zs) (ls.map fun l => blockSymbol l.coord)
      (Tuples.product (ls.map fun l => x.starts l.coord)) inner
      (nest ((ls.map (overBlocks step)).map (·, [])) inner) := by
  have hsymbols : (ls.map (overBlocks step)).map Loop.symbol =
    ls.map fun l => blockSymbol l.coord :=
    map_map
  rw [← hsymbols]
  refine tours_nest (fun l' hl' s m v hs => ?_)
    (forall₂_map_left_iff.2 (forall₂_map_right_iff.2 (forall₂_same.2 fun l hl s hs => ?_)))
  · obtain ⟨l, -, rfl⟩ := mem_map.1 hl'
    exact hs.set (fun _ _ hy => blockSymbol_ne_extent hy l.coord) m v
  · have hc := counts_of_spans (h.spans l hl) hs
    simp [rounds, int?, hc.start, hc.stop, M.eval_of_int? _ (hsize l hl), M.toInt?_int, overBlocks,
      Extents.starts]

variable (hM : ∀ a b, M.apply (.fn .min) [some (M.int a), some (M.int b)] = some (M.int (min a b)))
  (hwithin : ∀ l ∈ ls, withinBlock .standard sizes l = .ok (within l))

include hM hwithin

/-- Inside the blocks that start at `ys`. -/
theorem tours_within {ys : Ints} (hys : Forall₂ (fun l y => y ∈ x.starts l.coord) ls ys) :
    Tours M (fun t => t.Sized M ν zs ∧
        Forall₂ (fun l y => t.env (blockSymbol l.coord) = some (M.int y)) ls ys)
          (ls.map Loop.symbol)
      (Tuples.product (zipWith (fun l y => x.within l.coord y) ls ys)) body
      (nest ((ls.map within).map (·, [])) body) := by
  have hsymbol : ∀ l ∈ ls, (within l).symbol = l.symbol := fun l hl => by
    obtain ⟨n, hn, -⟩ := h.size l hl
    obtain ⟨stop, heq, -⟩ := withinBlock_eq_ok hn (hwithin l hl)
    rw [heq]
    rfl
  have hsymbols : (ls.map within).map Loop.symbol = ls.map Loop.symbol := by
    rw [map_map]
    exact map_congr_left hsymbol
  rw [← hsymbols]
  refine tours_nest (fun l' hl' t m v ht => ?_)
    (forall₂_map_left_iff.2 (forall₂_iff_get.2 ⟨by simp [hys.length_eq], fun i hi hj t ht => ?_⟩))
  · obtain ⟨l, hl, rfl⟩ := mem_map.1 hl'
    rw [hsymbol l hl]
    refine ⟨h.sized_set hl t m v ht.1, ht.2.imp fun k y hy => ?_⟩
    rw [h.symbol hl]
    exact (State.set_env_of_ne _ _ (symbol_ne_blockSymbol _ _).symm).trans hy
  · have hl := ls.get_mem ⟨i, hi⟩
    have hi' : i < ys.length := hys.length_eq ▸ hi
    obtain ⟨n, hn, hk⟩ := h.size _ hl
    have hcounts := (counts_within hM (h.spans _ hl) ht.1 hn hk (h.pos _ hl) (hwithin _ hl)
      (hys.get hi hi') (ht.2.get hi hi')).1
    simp only [get_eq_getElem, getElem_zipWith]
    exact hcounts.rounds

/-- One block after the other. -/
theorem tours_blocks (hsize : ∀ l ∈ ls, (step l).int? = some (x.size l.coord))
    (hown : ∀ c, ¬ MentionsList (blockSymbol c) body) :
    Tours M (State.Sized M ν zs) (ls.map Loop.symbol)
      ((Tuples.product (ls.map fun l => x.starts l.coord)).flatMap fun ys =>
        Tuples.product (zipWith (fun l y => x.within l.coord y) ls ys)) body
      (nest ((ls.map (overBlocks step)).map (·, []))
        (nest ((ls.map within).map (·, [])) body)) := by
  intro s hs
  rw [tours_starts h hsize s hs, tour, tour, foldl_flatMap]
  refine foldl_ext _ _ _ fun m ys hys => ?_
  have hys : Forall₂ (fun l y => y ∈ x.starts l.coord) ls ys :=
    (forall₂_map_right_iff.1 (Tuples.mem_product.1 hys)).flip
  let t := ({ s with mem := m } : State V).counting M (ls.map fun l => blockSymbol l.coord) ys
  have hkeep : ∀ y, NotBlock y → t.env y = s.env y := by
    intro y hy
    refine State.counting_env_of_notMem _ fun hmem => ?_
    obtain ⟨l, -, rfl⟩ := mem_map.1 hmem
    exact hy l.coord rfl
  have hstarts : (ls.map fun l => blockSymbol l.coord).Nodup := by
    have := h.coords.map fun _ _ => blockSymbol_injective
    rwa [map_map] at this
  have hsized : t.Sized M ν zs := fun z hz y hy =>
    (hkeep y (blockSymbol_ne_extent hy)).trans (hs z hz y hy)
  have hcounting := State.counting_env (M := M) { s with mem := m } hstarts
    ((length_map _).trans hys.length_eq)
  rw [oneRound, tours_within h hM hwithin hys _ ⟨hsized, forall₂_map_left_iff.1 hcounting⟩, tour,
    State.counting_mem]
  refine foldl_ext _ _ _ fun m' is _ => ?_
  refine congrFun (oneRound_congr (D := fun y => ∃ c, y = blockSymbol c)
    (fun y hy => hkeep y fun c hc => hy ⟨c, hc⟩) ?_ m') is
  rintro y ⟨c, rfl⟩
  exact hown c

end Blocks

/-- Loops over blocks run the statements inside of a nest of loops for the same cells, each of them
once.  If these rounds can be exchanged, the memory is the same afterwards. -/
theorem tours_block
    (hM : ∀ a b, M.apply (.fn .min) [some (M.int a), some (M.int b)] = some (M.int (min a b)))
    (hne : ls ≠ []) (h : Divides ν zs x sizes ls) (hbody : loopsList body = [])
    (hown : ∀ c, ¬ MentionsList (blockSymbol c) body) :
    ∃ blocked cells cells',
      block .standard sizes (nest (ls.map (·, [])) body) = .ok (blocked, ls.length) ∧
      (∀ is, is ∈ cells ↔ Forall₂ (fun i l => x.lo l.coord ≤ i ∧ i < x.hi l.coord) is ls) ∧
      cells.Nodup ∧ cells'.Perm cells ∧
      Tours M (State.Sized M ν zs) (ls.map Loop.symbol) cells body (nest (ls.map (·, [])) body) ∧
      Tours M (State.Sized M ν zs) (ls.map Loop.symbol) cells' body blocked ∧
      ∀ s, s.Sized M ν zs →
        (∀ is ∈ cells, ∀ js ∈ cells, ∀ m,
          oneRound M (ls.map Loop.symbol) body s (oneRound M (ls.map Loop.symbol) body s m is) js =
          oneRound M (ls.map Loop.symbol) body s (oneRound M (ls.map Loop.symbol) body s m js) is) →
        (execList M blocked s).mem = (execList M (nest (ls.map (·, [])) body) s).mem := by
  choose! within hwithin using fun l hl => h.exists_withinBlock (l := l) hl
  choose! step hstep hsize using h.size
  have hblock := block_nest hne h.coords hbody hstep hwithin
  have hcells : Tours M (State.Sized M ν zs) _ _ body _ := tours_cells h
  have hperm := Tuples.product_flatMap_perm ls (x.starts ·.coord) (x.within ·.coord)
  have hall : ls.map (fun l => (x.starts l.coord).flatMap (x.within l.coord)) =
      ls.map fun l => range (x.lo l.coord) (x.hi l.coord) 1 :=
    map_congr_left fun l hl => Extents.starts_flatMap_within (h.pos l hl)
  rw [hall] at hperm
  have hblocked : Tours M (State.Sized M ν zs) _ _ body _ := tours_blocks h hM hwithin hsize hown
  have hup : ∀ is ∈ ls.map fun l => range (x.lo l.coord) (x.hi l.coord) 1, is.Pairwise (· < ·) := by
    intro is his
    obtain ⟨l, -, rfl⟩ := mem_map.1 his
    exact pairwise_range.imp fun h => by omega
  refine ⟨_, _, _, hblock, fun is => ?_, (Tuples.pairwise_product hup).nodup, hperm, hcells,
    hblocked,
    fun s hs hswap => ?_⟩
  · simp only [Tuples.mem_product, forall₂_map_right_iff, mem_range_one]
  · rw [hblocked s hs, hcells s hs]
    exact hperm.foldl_eq'
      (fun is his js hjs m => hswap is (hperm.mem_iff.1 his) js (hperm.mem_iff.1 hjs) m) s.mem

/-- Blocks of two by two cells on a plane, the height of which is given when the loops run. -/
theorem tours_block_plane :
    let height : Symbol := ⟨"_size_g_0", .shape ["g"] 0⟩
    let ls : List Loop := [{ coord := 0, start := .lit 1, stop := .plus height (-1) },
      { coord := 1, start := .lit (-2), stop := .lit 3 }]
    let body : List Statement := [.set (.onLine "g" (.sym (Counter.symbol 0))) (.int 7)]
    let s := (State.ones ["g"]).set height (some (.int 6))
    ∃ blocked, block .standard [.lit 2, .lit 2] (nest (ls.map (·, [])) body) = .ok (blocked, 2) ∧
      (execList Whole.model blocked s).mem =
        (execList Whole.model (nest (ls.map (·, [])) body) s).mem := by
  intro height ls body s
  let x : Extents := ⟨fun c => if c = 0 then 1 else -2, fun c => if c = 0 then 5 else 3, fun _ => 2⟩
  have hls : Divides (fun _ => 6) [.shape ["g"] 0] x [.lit 2, .lit 2] ls := by
    refine ⟨by decide, fun l hl => ?_, fun _ _ => two_pos, fun l hl => ?_⟩
    · rcases mem_pair.1 hl with rfl | rfl
      · exact ⟨rfl, rfl, _, mem_singleton_self _, .inl rfl, .inr ⟨height, -1, rfl, rfl, rfl⟩⟩
      · exact ⟨rfl, rfl, _, mem_singleton_self _, .inl rfl, .inl rfl⟩
    · rcases mem_pair.1 hl with rfl | rfl <;> exact ⟨.lit 2, rfl, rfl⟩
  have hown : ∀ c, ¬ MentionsList (blockSymbol c) body := by
    rintro c ((h | h) | h)
    · exact uses_onLine (.inr rfl) (uses_sym (symbol_ne_blockSymbol 0)) _ h c rfl
    · exact uses_int (U := NotBlock) rfl _ h c rfl
    · exact h
  obtain ⟨blocked, cells, cells', hblock, hmem, -, -, -, -, hsame⟩ :=
    tours_block (M := Whole.model) (fun _ _ => rfl) (by simp [ls]) hls rfl hown
  refine ⟨blocked, hblock, hsame _ (fun z hz y hy => ?_) fun is his js hjs m => ?_⟩
  · obtain rfl := mem_singleton.1 hz
    obtain rfl := Option.some.inj hy
    rfl
  · have hwrites : ∀ is ∈ cells, ∃ k, ∀ m, oneRound Whole.model (ls.map Loop.symbol) body s m is =
        Function.update m ("g", k) (some (.int 7)) := by
      intro is his
      obtain ⟨i, j, rfl⟩ := length_eq_two.1 ((hmem is).1 his).length_eq
      exact ⟨_, fun m => rfl⟩
    obtain ⟨i, hi⟩ := hwrites is his
    obtain ⟨j, hj⟩ := hwrites js hjs
    rw [hi, hj, hi, hj]
    by_cases hij : i = j
    · rw [hij]
    · exact Function.update_comm (by simpa using hij) ..

end LoopNest

end StencilForge
