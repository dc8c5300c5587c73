import StencilForge.Proofs.Checking
import StencilForge.Proofs.Sweep
import StencilForge.Proofs.Whole

/-!
# Proofs — cells in any order

The order of the cells does not matter if every access of a field that is written is at the offsets
of the write, unless its index tells it apart (`Aligned`).  A check that succeeds shows this for a
read and the writes before it, and for writes (`Constraint.offsets_of_compared`); it does not
compare a read with a write that comes later or in the same statement.
-/

open List

namespace StencilForge

open Model Statement Option

variable {a w : Expr} {as : Exprs} {st : Statement} {f : GridField} {n : Nat} {b : Bool}

/-- An element of a field along a line. -/
def Access.onLine (name : String) (offset : Int) :
    Expr := .node (.access (.line name) 1 false) [.lit offset]

/-! ### Accesses of statements -/

namespace Expr

mutual

/-- Also those inside the positions of others. -/
def accesses : Expr → Exprs
  | .atom _ => []
  | .node h as => match h with
    | .access .. => .node h as :: accessesList as
    | _ => accessesList as

def accessesList : Exprs → Exprs
  | [] => []
  | a :: as => accesses a ++ accessesList as

end

theorem mem_accessesList : a ∈ accessesList as ↔ ∃ b ∈ as, a ∈ accesses b := by
  induction as with
  | nil => simp [accessesList]
  | cons b bs ih => simp [accessesList, ih]

theorem mem_accesses_of_mem {h : Head} {b : Expr} (hb : b ∈ as) (ha : a ∈ accesses b) :
    a ∈ accesses (.node h as) := by
  have hl : a ∈ accessesList as := mem_accessesList.2 ⟨b, hb, ha⟩
  cases h with
  | access f n k => exact mem_cons_of_mem _ hl
  | _ => exact hl

end Expr

namespace Statement

def writes : Statement → Exprs
  | .assign (.node (.access f n k) as) _ _ => [.node (.access f n k) as]
  | _ => []

def reads : Statement → Exprs
  | .assign lhs rhs _ => Expr.accessesList lhs.hiddenArgs ++ rhs.accesses
  | _ => []

end Statement

namespace Constraint

variable {A : Algebra}
variable {s s' : State}

/-- The statement reads or writes the access, and both have the same slot. -/
def Compared (body : Body) (w a : Expr) : Prop :=
  ∃ before lhs rhs k after, body = before ++ .assign lhs rhs k :: after ∧
    w ∈ before.flatMap writes ∧
    (a ∈ seen rhs ∨ a = lhs) ∧ (slot? w).map Slot.canonical = (slot? a).map Slot.canonical

theorem statement_recorded {st' : Statement} (hst : ∃ lhs rhs k, st = .assign lhs rhs k)
    (h : (statement A st).run s = .ok (st', s')) :
    s'.strict = s.strict ∧ (∀ a, ∀ o ∈ s.writes.get? a, o ∈ s'.writes.get? a) ∧ ∀ w ∈ st.writes,
      Recorded s' w := by
  obtain ⟨lhs, rhs, k, rfl⟩ := hst
  obtain ⟨rhs', t, lhs', hr, hl, rfl⟩ := statement_assign_run h
  have hn := expression_run hr
  rw [← hn.keeps.1, ← hn.keeps.2]
  cases lhs with
  | atom a =>
    cases a with
    | sym x =>
      obtain ⟨c, r, -, -, -, rfl, -⟩ := target_sym_run hl
      exact ⟨rfl, fun _ _ ho => ho, nofun⟩
    | _ => simp [target] at hl
  | node hd as =>
    cases hd with
    | access f n b =>
      obtain ⟨rfl, hrec, ⟨writes, rfl⟩, hkeep, -⟩ := target_access_run hl
      refine ⟨rfl, hkeep, fun w hw => ?_⟩
      obtain rfl := mem_singleton.1 hw
      exact hrec
    | _ => simp [target] at hl

theorem statements_recorded {body out : Body} (hbody : Assignments body)
    (h : (statements A body).run s = .ok (out, s')) :
    s'.strict = s.strict ∧ (∀ a, ∀ o ∈ s.writes.get? a, o ∈ s'.writes.get? a) ∧
      ∀ w ∈ body.flatMap writes, Recorded s' w := by
  induction body generalizing s out with
  | nil =>
    obtain ⟨-, rfl⟩ := Outcome.run_pure_eq_ok.1 h
    exact ⟨rfl, fun _ _ ho => ho, nofun⟩
  | cons st body ih =>
    obtain ⟨st', t, rest, hs, hr, rfl⟩ := statements_cons_run h
    obtain ⟨hstrict, hkeep, hrec⟩ := statement_recorded (hbody st mem_cons_self) hs
    obtain ⟨hstrict', hkeep', hrec'⟩ := ih (forall_mem_cons.1 hbody).2 hr
    refine ⟨hstrict'.trans hstrict, fun a o ho => hkeep' a o (hkeep a o ho), fun w hw => ?_⟩
    rw [flatMap_cons, mem_append] at hw
    rcases hw with hw | hw
    · obtain ⟨a, ha, o, ho, hoff⟩ := hrec w hw
      exact ⟨a, ha, o, hkeep' a o ho, hoff⟩
    · exact hrec' w hw

theorem target_agrees {lhs lhs' : Expr} (h : (target lhs).run s = .ok (lhs', s')) :
    Agrees s lhs := by
  cases lhs with
  | atom a => exact nofun
  | node hd as =>
    cases hd with
    | access f n b =>
      obtain ⟨rfl, -, -, -, hag⟩ := target_access_run h
      exact hag
    | _ => exact nofun

theorem offsets_of_compared {types : SymbolTypes} {body : Body} {out : Typed}
    (hbody : Assignments body)
    (h : run A types true body = .ok out) (hc : Compared body w a) :
    w.offsets.map Expr.canonical = a.offsets.map Expr.canonical := by
  obtain ⟨before, lhs, rhs, k, after, rfl, hw, ha, hslot⟩ := hc
  obtain ⟨p, hp, -⟩ := Outcome.bind_eq_ok.1 h
  obtain ⟨b, s, c, hb, hrest, -⟩ := statements_append_run hp
  obtain ⟨st', t, rest, hst, -, -⟩ := statements_cons_run hrest
  obtain ⟨hstrict, -, hrec⟩ := statements_recorded (fun x hx => hbody x (mem_append_left _ hx)) hb
  obtain ⟨slot, hslotw, o, ho, hoff⟩ := hrec w hw
  obtain ⟨rhs', u, lhs', hr, hl, rfl⟩ := statement_assign_run hst
  have hn := expression_run hr
  -- whichever way the statement uses the access, it was compared with the recorded write
  have hag : Agrees s a := by
    rcases ha with ha | rfl
    · exact hn.agrees hstrict a ha
    · have := target_agrees hl
      rwa [Agrees, hn.keeps.2] at this
  rw [mem_def.1 hslotw] at hslot
  obtain ⟨slot', hslota, hsame⟩ := map_eq_some_iff.1 hslot.symm
  rw [Slot.get?_congr hsame.symm] at ho
  exact (Expr.beq_list_iff.1 hoff).symm.trans (Expr.beq_list_iff.1 (hag slot' hslota o ho))

end Constraint

/-! ### Elements that a cell touches -/

namespace Sweep

variable {V : Type} {M : Model V} {c : Ints}
variable {k : Place} {body : Body}
variable {σ : Symbol → Option V} {s s' : State V Place}

/-- The field, the cell and the index. -/
abbrev Place := GridField × Ints × Ints

/-- Elements are placed by the cell plus the offsets. -/
def atCell : Placement Place := fun c f os is =>
  if os.length = c.length then some (f, zipWith (· + ·) c os, is) else none

/-- The element may be meant by an access seen from a cell. -/
def Touches (c : Ints) (e : Expr) (k : Place) : Prop :=
  ∃ f os is, e.field? = some f ∧ positions? e.offsets = some os ∧ atCell c f os is = some k ∧
    ∀ js, positions? e.index = some js → is = js

theorem index?_of_positions {w : View V} {es : Exprs} {js : Ints} (h : positions? es = some js) :
    index? M (es.map (M.eval w)) = some js := by
  refine Outcome.mapM_eq_some.2 (forall₂_map_left_iff.2
    ((Outcome.mapM_eq_some.1 h).imp fun e j hj => ?_))
  rw [M.eval_of_int? w hj]
  exact M.toInt?_int j

theorem touches_of_index {os is : Ints} {w : View V}
    (hos : positions? (as.take n) = some os) (his : index? M ((as.drop n).map (M.eval w)) = some is)
    (hk : atCell c f os is = some k) : Touches c (.node (.access f n b) as) k := by
  refine ⟨f, os, is, rfl, hos, hk, fun js hjs => ?_⟩
  exact some.inj (his.symm.trans (index?_of_positions hjs))

theorem keeps_of_touches {e : Expr} (henv : s.env = s'.env)
    (hmem : ∀ a ∈ e.accesses, ∀ k, Touches c a k → s.mem k = s'.mem k) :
    M.Keeps (view M atCell c s) (view M atCell c s') e e := by
  induction e using Expr.sizeInduction generalizing s s' with
  | step e ih =>
    cases e with
    | atom a =>
      refine .of_value (fun _ => nofun) (.of_eq ?_)
      cases a with
      | sym x => exact congrFun henv x
      | _ => rfl
    | node h as =>
      have each : ∀ a ∈ as, M.Keeps (view M atCell c s) (view M atCell c s') a a := fun a ha =>
        ih a (Expr.size_lt_of_mem ha) henv fun x hx => hmem x (Expr.mem_accesses_of_mem ha hx)
      by_cases hh : ∃ f n b, h = .access f n b
      · obtain ⟨f, n, b, rfl⟩ := hh
        refine .of_value (fun _ => nofun) (.of_eq ?_)
        have back : ∀ a ∈ as, M.Keeps (view M atCell c s') (view M atCell c s) a a := fun a ha =>
          ih a (Expr.size_lt_of_mem ha) henv.symm fun x hx k hk =>
            (hmem x (Expr.mem_accesses_of_mem ha hx) k hk).symm
        have hvals : as.map (M.eval (view M atCell c s)) = as.map (M.eval (view M atCell c s')) :=
          map_congr_left fun a ha => (each a ha).value.antisymm (back a ha).value
        cases b with
        | true => rfl
        | false =>
          simp only [eval, evalList_eq_map, hvals]
          refine bind_congr fun os hos => bind_congr fun is his => bind_congr fun k hk => ?_
          rw [← map_drop] at his
          exact hmem _ mem_cons_self k (touches_of_index hos his hk)
      · have hk := forall₂_same.2 each
        exact .node (fun f n b he => hh ⟨f, n, b, he⟩) (fun _ _ _ _ => .refl _) rfl
          (forall₂_operands h hk) (forall₂_operands h hk)

def accesses (body : Body) : Exprs := body.flatMap fun s => s.reads ++ s.writes

/-- Two states agree on what a cell touches. -/
def Agree (body : Body) (c : Ints) (m m' : Place → Option V) : Prop :=
  ∀ a ∈ accesses body, ∀ k, Touches c a k → m k = m' k

theorem touches_of_key?
    (h : key? M atCell c s (.node (.access f n b) as) = some k) :
    Touches c (.node (.access f n b) as) k := by
  simp only [key?, bind_eq_some_iff] at h
  obtain ⟨_, ⟨⟩, os, hos, is, his, hk⟩ := h
  exact touches_of_index hos his hk

theorem step_frame (h : ∀ w ∈ st.writes, ¬ Touches c w k) :
    (step M atCell c s st).mem k = s.mem k := by
  unfold step
  split
  · next lhs rhs isConst =>
    unfold store
    split
    · rfl
    · next f n as =>
      split
      · next k' hk' =>
        have hne : k ≠ k' := fun he => h _ mem_cons_self (he ▸ touches_of_key? hk')
        exact Function.update_of_ne hne _ _
      · rfl
    · rfl
  · rfl

theorem step_agree (hst : st ∈ body)
    (henv : s.env = s'.env) (hmem : Agree body c s.mem s'.mem) :
    (step M atCell c s st).env = (step M atCell c s' st).env ∧
      Agree body c (step M atCell c s st).mem (step M atCell c s' st).mem := by
  have hacc : ∀ a, a ∈ st.reads ++ st.writes → ∀ k, Touches c a k → s.mem k = s'.mem k :=
    fun a ha =>
    hmem a (mem_flatMap.2 ⟨st, hst, ha⟩)
  have heval : ∀ e, (∀ a ∈ e.accesses, a ∈ st.reads ++ st.writes) →
      M.eval (view M atCell c s) e = M.eval (view M atCell c s') e := by
    intro e he
    refine Refines.antisymm (keeps_of_touches henv fun a ha => hacc a (he a ha)).value
      (keeps_of_touches henv.symm fun a ha k hk => (hacc a (he a ha) k hk).symm).value
  unfold step
  split
  · next lhs rhs isConst =>
    have hrhs := heval rhs fun a ha => by simp [reads, ha]
    rw [hrhs]
    unfold store
    split
    · exact ⟨by rw [henv], hmem⟩
    · next f n as =>
      have hkey : key? M atCell c s (.node (.access f n false) as) =
          key? M atCell c s' (.node (.access f n false) as) := by
        unfold key?
        have hindex : ∀ i ∈ (Expr.node (.access f n false) as).index,
            M.eval (view M atCell c s) i = M.eval (view M atCell c s') i := by
          intro i hi
          refine heval i fun a ha => ?_
          have : a ∈ Expr.accessesList as := Expr.mem_accessesList.2 ⟨i, mem_of_mem_drop hi, ha⟩
          simp [reads, Expr.hiddenArgs, this]
        rw [map_congr_left hindex]
      rw [hkey]
      split
      · next k hk =>
        refine ⟨henv, fun a ha k' hk' => ?_⟩
        by_cases hkk : k' = k
        · subst hkk
          simp
        · simp only [Function.update_of_ne hkk]
          exact hmem a ha k' hk'
      · exact ⟨henv, hmem⟩
    · exact ⟨henv, hmem⟩
  · exact ⟨henv, hmem⟩

theorem cell_frame {m : Place → Option V}
    (h : ∀ w ∈ body.flatMap writes, ¬ Touches c w k) : cell M atCell σ body c m k = m k := by
  refine foldlRecOn (motive := fun s : State V Place => s.mem k = m k) body
    (step M atCell c) rfl fun s hs st hst => ?_
  exact (step_frame fun w hw => h w (mem_flatMap.2 ⟨st, hst, hw⟩)).trans hs

theorem cell_agree {m m' : Place → Option V} (h : Agree body c m m') :
    Agree body c (cell M atCell σ body c m) (cell M atCell σ body c m') := by
  refine (foldl_rel (r := fun s s' : State V Place => s.env = s'.env ∧ Agree body c s.mem s'.mem)
    (a := ⟨σ, m⟩) (b := ⟨σ, m'⟩)
    ⟨rfl, h⟩ fun _ hst _ _ hs => ?_).2
  exact step_agree hst hs.1 hs.2

/-! ### Order of cells -/

/-- Accesses of one field whose indices may be equal are at the same offsets. -/
def Aligned (w a : Expr) : Prop :=
  w.field? = a.field? → (∀ is js, positions? w.index = some is → positions? a.index = some js →
    is = js) →
    positions? w.offsets = positions? a.offsets

/-- Aligned accesses touch no common element from two cells. -/
theorem eq_of_touches {d : Ints} (h : Aligned w a) (hw : Touches c w k)
    (ha : Touches d a k) : c = d := by
  obtain ⟨f, os, is, hf, hos, hk, his⟩ := hw
  obtain ⟨g, ps, js, hg, hps, hk', hjs⟩ := ha
  unfold atCell at hk hk'
  split at hk
  · next hc =>
    split at hk'
    · next hd =>
      obtain rfl := some.inj hk
      obtain ⟨rfl, hcd, rfl⟩ : g = f ∧ zipWith (· + ·) d ps = zipWith (· + ·) c os ∧ js = is :=
        by simpa using hk'
      have hpos : os = ps := by
        have := h (hf.trans hg.symm) fun x y hx hy => (his x hx).symm.trans (hjs y hy)
        exact some.inj (hos.symm.trans (this.trans hps))
      subst hpos
      refine ext_getElem (hc.symm.trans hd) fun i hi hi' => ?_
      have := getElem_of_eq hcd (i := i) (by rw [length_zipWith]; omega)
      simp only [getElem_zipWith] at this
      omega
    · cases hk'
  · cases hk

/-- Cells commute if the accesses of what is written are aligned with the writes. -/
theorem cell_comm
    (h : ∀ w ∈ body.flatMap writes, ∀ a ∈ accesses body, Aligned w a) (c d : Ints)
    (m : Place → Option V) :
    cell M atCell σ body d (cell M atCell σ body c m) =
      cell M atCell σ body c (cell M atCell σ body d m) := by
  by_cases hcd : c = d
  · rw [hcd]
  have apart : ∀ {c d : Ints}, c ≠ d → ∀ {k}, (∃ w ∈ body.flatMap writes, Touches c w k) →
      ∀ a ∈ accesses body, ¬ Touches d a k := by
    rintro c d hne k ⟨w, hw, htw⟩ a ha hta
    exact hne (eq_of_touches (h w hw a ha) htw hta)
  have written : ∀ {w}, w ∈ body.flatMap writes → w ∈ accesses body := by
    intro w hw
    obtain ⟨st, hst, hw⟩ := mem_flatMap.1 hw
    exact mem_flatMap.2 ⟨st, hst, mem_append_right _ hw⟩
  -- where the first cell writes, the second one neither reads nor writes
  have first : ∀ {c d : Ints}, c ≠ d → ∀ {k}, (∃ w ∈ body.flatMap writes, Touches c w k) →
      cell M atCell σ body d (cell M atCell σ body c m) k =
        cell M atCell σ body c (cell M atCell σ body d m) k := by
    intro c d hne k hk
    have hd : cell M atCell σ body d (cell M atCell σ body c m) k = cell M atCell σ body c m k :=
      cell_frame fun w hw => apart hne hk w (written hw)
    have hagree : Agree body c (cell M atCell σ body d m) m := fun a ha k' hk' =>
      cell_frame fun w hw hw' => apart (symm hne) ⟨w, hw, hw'⟩ a ha hk'
    obtain ⟨w, hw, htw⟩ := hk
    exact hd.trans (cell_agree hagree w (written hw) k htw).symm
  funext k
  by_cases hc : ∃ w ∈ body.flatMap writes, Touches c w k
  · exact first hcd hc
  by_cases hd : ∃ w ∈ body.flatMap writes, Touches d w k
  · exact (first (symm hcd) hd).symm
  have hc' := fun w hw hk => hc ⟨w, hw, hk⟩
  have hd' := fun w hw hk => hd ⟨w, hw, hk⟩
  rw [cell_frame hd', cell_frame hc', cell_frame hc', cell_frame hd']

theorem aligned_of_offsets (h : w.offsets.map Expr.canonical = a.offsets.map Expr.canonical) :
    Aligned w a := by
  intro _ _
  have : ∀ es : Exprs, positions? es = positions? (es.map Expr.canonical) := by
    intro es
    simp only [positions?, mapM_map, Function.comp_def, Expr.int?_canonical]
  rw [this, this a.offsets, h]

/-- Each access of a field that is written is compared with the write or is aligned with it. -/
theorem run_eq_of_perm {A : Algebra} {types : SymbolTypes} {body : List Statement}
    {out : Constraint.Typed}
    (hbody : Constraint.Assignments body) (hcheck : Constraint.run A types true body = .ok out)
    (hrest : ∀ w ∈ body.flatMap Statement.writes, ∀ a ∈ accesses body,
      Constraint.Compared body w a ∨ Constraint.Compared body a w ∨ Aligned w a) :
    (∀ w a, Constraint.Compared body w a → (w.offsets == a.offsets) = true) ∧
      ∀ (M : Model V) (σ : Symbol → Option V) (m : Place → Option V)
        {cells cells' : List (List Int)},
        cells.Perm cells' → run M atCell σ body cells m = run M atCell σ body cells' m := by
  have hoff : ∀ {w a}, Constraint.Compared body w a → w.offsets.map Expr.canonical =
    a.offsets.map Expr.canonical :=
    Constraint.offsets_of_compared hbody hcheck
  refine ⟨fun w a hc => Expr.beq_list_iff.2 (hoff hc), fun M σ m cells cells' hp => ?_⟩
  have haligned : ∀ w ∈ body.flatMap writes, ∀ a ∈ accesses body, Aligned w a := by
    intro w hw a ha
    rcases hrest w hw a ha with hc | hc | hal
    · exact aligned_of_offsets (hoff hc)
    · exact aligned_of_offsets (hoff hc).symm
    · exact hal
  exact hp.foldl_eq' (fun c _ d _ m => cell_comm haligned c d m) m

open Access in
/-- The order of two cells does not matter where the second field is read after it was written. -/
theorem run_eq_of_perm_copy :
    let body : List Statement := [.set (onLine "g" 0) (onLine "f" 1),
      .set (onLine "h" 0) (onLine "g" 0)]
    (∃ out, Constraint.run Algebra.bare {} true body = .ok out) ∧
      run Whole.model atCell (fun _ => none) body [[1], [2]] (fun k => k.2.1.head?.map .int) =
        run Whole.model atCell (fun _ => none) body [[2], [1]] (fun k => k.2.1.head?.map .int) := by
  intro body
  have hbody : Constraint.Assignments body := by
    intro s hs
    rcases mem_pair.1 hs with rfl | rfl <;> exact ⟨_, _, _, rfl⟩
  have hcheck : ∃ out, Constraint.run Algebra.bare {} true body = .ok out := ⟨_, rfl⟩
  refine ⟨hcheck, ?_⟩
  obtain ⟨out, hcheck⟩ := hcheck
  have hcompared : Constraint.Compared body (onLine "g" 0) (onLine "g" 0) :=
    ⟨[.set (onLine "g" 0) (onLine "f" 1)], onLine "h" 0, onLine "g" 0, true, [], rfl,
      mem_singleton_self _,
      .inl (mem_singleton_self _), rfl⟩
  refine (run_eq_of_perm hbody hcheck fun w hw a ha => ?_).2 Whole.model _ _ (.swap _ _ _)
  have hw : w = onLine "g" 0 ∨ w = onLine "h" 0 :=
    by simpa [body, Statement.writes, Statement.set, onLine] using hw
  have ha : a = onLine "f" 1 ∨ a = onLine "g" 0 ∨ a = onLine "h" 0 := by
    simp [body, accesses, Statement.reads, Statement.writes, Statement.set, onLine, Expr.accesses,
      Expr.accessesList,
      Expr.hiddenArgs] at ha
    simp only [onLine]
    tauto
  rcases hw with rfl | rfl <;> rcases ha with rfl | rfl | rfl
  · exact .inr (.inr fun hf => absurd hf (by decide))
  · exact .inl hcompared
  · exact .inr (.inr fun hf => absurd hf (by decide))
  · exact .inr (.inr fun hf => absurd hf (by decide))
  · exact .inr (.inr fun hf => absurd hf (by decide))
  · exact .inr (.inr fun _ _ => rfl)

open Access in
/-- The field is read beside the element it is written at, and the order of the cells matters. -/
theorem run_ne_of_shifted_read :
    let body : List Statement := [.set (onLine "f" 0) (onLine "f" 1)]
    (∃ out, Constraint.run Algebra.bare {} true body = .ok out) ∧
      run Whole.model atCell (fun _ => none) body [[1], [2]] (fun k => k.2.1.head?.map .int) ≠
        run Whole.model atCell (fun _ => none) body [[2], [1]] (fun k => k.2.1.head?.map .int) := by
  intro body
  refine ⟨⟨_, rfl⟩, fun h => ?_⟩
  have : some (Whole.int 2) = some (Whole.int 3) := congrFun h (.line "f", [1], [])
  exact absurd this (by decide)

end Sweep

end StencilForge
