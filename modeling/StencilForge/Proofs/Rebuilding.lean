import StencilForge.Proofs.Faithful
import StencilForge.Proofs.Outcome

/-!
# Proofs — expressions that are built anew

`Rebuilt` says once what passes over expressions may do: leave nodes, let the algebra build them,
put changes of type around them, and skip branches that cannot run.  So values are kept
(`Rebuilt.keeps`) and no new symbols and elements appear (`Rebuilt.isOver`).
-/

open List StencilForge.Outcome

namespace StencilForge

open Expr Build Visit Expr

variable {A : Algebra} {H : Head → Prop} {R : Expr → Expr → Prop}
variable {b y : Expr} {h : Head} {Q : Expr → Prop} {ps : List (Expr × Expr)}

/-- A change of type that keeps the value. -/
def CastKind.IsValue (k : CastKind) : Prop := k = .plain ∨ k = .boolean

/-- The value of a branch that cannot run stays, and so do the branches behind one that runs. -/
structure Choices (S : Expr → Expr → Prop) (as bs rest : Exprs) : Prop where
  length : as.length = bs.length
  form : ∀ p ∈ as.zip bs, (∃ v c v' c', p = (branch v c, branch v' c')) ∨ p.1 = p.2 ∧ ∀ v c,
    p.1 ≠ branch v c
  cond : ∀ v c v' c', (branch v c, branch v' c') ∈ as.zip bs → S c c'
  value : ∀ v c v' c', (branch v c, branch v' c') ∈ as.zip bs → (c' == .bool false) = false → S v v'
  skip : ∀ v c v' c', (branch v c, branch v' c') ∈ as.zip bs → (c' == .bool false) = true → v' = v
  rest : rest ≠ [] → ∃ v c, branch v c ∈ bs ∧ (c == .bool true) = true

variable (A H R) in
/-- `e'` is built from `e` by replacing symbols and elements as `R` says. -/
inductive Rebuilt : Expr → Expr → Prop where
  | leaf {e e' : Expr} (he : e.isPlace = true) (hr : R e e') : Rebuilt e e'
  | atom {a : Atom} (ha : ∀ s, a ≠ .sym s) : Rebuilt (.atom a) (.atom a)
  | number {n : Number} {t : DataType} {k : CastKind} (hk : k.IsValue) :
      Rebuilt (.num n) (.node (.cast k) [.num n, .type t])
  | cast {k k' : CastKind} {a b t : Expr} {rest : Exprs} (hk : k.IsValue) (hk' : k'.IsValue)
    (hab : Rebuilt a b) :
      Rebuilt (.node (.cast k) (a :: t :: rest)) (.node (.cast k') [b, t])
  | keep {h : Head} {as bs : Exprs} (hh : H h) (hlen : as.length = bs.length)
      (has : ∀ p ∈ as.zip bs, Rebuilt p.1 p.2) : Rebuilt (.node h as) (.node h (withHidden h as bs))
  | build {h : Head} {as bs : Exprs} {e : Expr} (hh : H h) (hlen : as.length = bs.length)
      (has : ∀ p ∈ as.zip bs, Rebuilt p.1 p.2) (hb : node A h (withHidden h as bs) = .ok e) :
        Rebuilt (.node h as) e
  | same {e b : Expr} (hsym : Over H (fun x => ∃ s, x = .sym s) e) (he : Rebuilt e b)
    (hs : same b e = true) :
      Rebuilt e e
  | choice {as bs rest : Exprs} {e : Expr} (hh : H .piecewise)
    (hform : Choices (fun _ _ => True) as bs rest)
      (hcond : ∀ v c v' c', (.branch v c, .branch v' c') ∈ as.zip bs → Rebuilt c c')
      (hvalue : ∀ v c v' c', (.branch v c, .branch v' c') ∈ as.zip bs →
        (c' == .bool false) = false → Rebuilt v v')
      (hb : node A .piecewise (bs ++ rest) = .ok e) : Rebuilt (.node .piecewise (as ++ rest)) e

/-- All arguments of an operation are visited. -/
theorem Visit.withHidden_of_operation (hH : Operations H) (hh : H h) (as bs : Exprs) :
    withHidden h as bs = bs := by
  have hop := hH.operation hh
  have hvis := hH.visible hh
  cases h with
  | access f n b | resolved f n => cases hop
  | placeholder name id => exact absurd (hvis [.zero]) (by simp [Model.operands])
  | _ => rfl

variable {V : Type} {M : Model V} {w w' : View V} {e e' : Expr} {as bs rest : Exprs}
    {P : Expr → Prop} {S : Expr → Expr → Prop}
  {t : Table Expr Expr}

namespace Rebuilt

theorem forall₂_of_zip (hlen : as.length = bs.length)
    (h : ∀ p ∈ as.zip bs, S p.1 p.2) : Forall₂ S as bs :=
  forall₂_iff_zip.2 ⟨hlen, h _⟩

theorem keeps_of_same_symbols (hH : Operations H) (he : Over H (fun x => ∃ s, x = .sym s) e)
    (hs : Expr.same b e = true) : M.Keeps w w b e := by
  induction he generalizing b with
  | leaf hplace hp =>
    obtain ⟨s, rfl⟩ := hp
    rw [eq_sym_of_same hs]
    exact .refl _
  | @atom a ha =>
    cases b with
    | node k bs => simp [same_node_atom] at hs
    | atom y =>
      refine .of_value (fun _ => nofun) (.of_eq ?_)
      cases a <;> cases y <;> simp_all [Expr.same, Model.eval, M.atom_lit, M.atom_int]
  | @node h as hh has ih =>
    cases b with
    | atom y => simp [same_atom_node] at hs
    | node k bs =>
      obtain ⟨hhead, hargs⟩ := same_node_iff.1 hs
      have hop := hH.operation hh
      have hk : k = h := by
        cases h with
        | access f n b => cases hop
        | _ => cases k <;> simp_all [sameHead]
      subst hk
      have hargs : Forall₂ (fun a b => Expr.same b a = true) as bs :=
        (sameList_iff_forall₂.1 hargs).flip
      have each : Forall₂ (fun a b => M.Keeps w w b a) as bs :=
        forall₂_imp_of_mem hargs fun ha hs => ih _ ha hs
      exact .operation hop (Model.forall₂_operands k each.flip)

theorem selects_of_choices (h : Choices (M.Keeps w w') as bs rest) :
    Selects M.toBool? ((as ++ rest).map (M.branch w)) ((bs ++ rest).map (M.branch w')) := by
  obtain ⟨hlen, hform, hcond, hvalue, -, hrest⟩ := h
  have truth : ∀ {c : Expr} {b : Bool}, (c == .bool b) = true →
    (M.eval w' c).bind M.toBool? = some b := by
    intro c b hc
    have hc : c = .bool b := by
      have hs : Expr.same c (.bool b) = true := hc
      cases c with
      | node h as => simp [same_node_atom] at hs
      | atom a => cases a <;> simp_all [Expr.same]
    subst hc
    exact M.atom_bool b
  induction as generalizing bs with
  | nil =>
    obtain rfl : bs = [] := length_eq_zero_iff.1 hlen.symm
    have : rest = [] := by
      by_contra hne
      obtain ⟨v, c, hmem, -⟩ := hrest hne
      cases hmem
    subst this
    exact .nil
  | cons a as ih =>
    cases bs with
    | nil => cases hlen
    | cons b bs =>
      have hlen : as.length = bs.length := Nat.succ.inj hlen
      have tail : (rest ≠ [] → ∃ v c, Expr.branch v c ∈ bs ∧ (c == .bool true) = true) →
          Selects M.toBool? ((as ++ rest).map (M.branch w)) ((bs ++ rest).map (M.branch w')) :=
            fun hrest =>
        ih hlen (forall_mem_cons.1 hform).2
          (fun v c v' c' hp => hcond v c v' c' (mem_cons_of_mem _ hp))
          (fun v c v' c' hp => hvalue v c v' c' (mem_cons_of_mem _ hp)) hrest
      rcases hform (a, b) mem_cons_self with ⟨v, c, v', c', hp⟩ | ⟨hab, hne⟩
      · obtain ⟨rfl, rfl⟩ := Prod.mk.inj hp
        refine .cons (hcond v c v' c' mem_cons_self).value (fun hfalse => ?_) fun htrue =>
          tail fun hne => ?_
        · refine (hvalue v c v' c' mem_cons_self ?_).value
          by_contra hc
          exact hfalse (truth (by simpa using hc))
        · obtain ⟨u, d, hmem, hd⟩ := hrest hne
          rcases mem_cons.1 hmem with heq | hmem
          · obtain ⟨rfl, rfl⟩ : u = v' ∧ d = c' := by simpa using heq
            exact absurd (truth hd) htrue
          · exact ⟨u, d, hmem, hd⟩
      · obtain rfl : a = b := hab
        have hnone : ∀ u : View V, M.branch u a = (none, none) := by
          intro u
          unfold Model.branch
          split
          · next xs =>
            unfold Model.pair
            split
            · next v c hxs =>
              rcases xs with _ | ⟨x, _ | ⟨y, _ | ⟨z, r⟩⟩⟩ <;> simp at hxs
              exact absurd rfl (hne x y)
            · rfl
          · rfl
        rw [cons_append, cons_append, map_cons, map_cons, hnone, hnone]
        refine .cons (.none _) (fun _ => .none _) fun _ => tail fun hne' => ?_
        obtain ⟨u, d, hmem, hd⟩ := hrest hne'
        rcases mem_cons.1 hmem with heq | hmem
        · exact absurd heq.symm (hne u d)
        · exact ⟨u, d, hmem, hd⟩

/-- What is built anew keeps the value, if the replacements do. -/
theorem keeps (h : Rebuilt A H R e e') (hH : Operations H) (hS : A.Sound M H)
    (hleaf : ∀ x y, x.isPlace = true → R x y → M.Keeps w w' x y) : M.Keeps w w' e e' := by
  have operation : ∀ {h : Head} {as bs : Exprs}, H h → as.length = bs.length →
    (∀ p ∈ as.zip bs, M.Keeps w w' p.1 p.2) →
      M.Keeps w w' (.node h as) (.node h (withHidden h as bs)) := fun {h as bs} hh hlen hk => by
    rw [withHidden_of_operation hH hh]
    exact .operation (hH.operation hh) (Model.forall₂_operands h (forall₂_of_zip hlen hk))
  induction h with
  | leaf he hr => exact hleaf _ _ he hr
  | @atom a ha =>
    refine .of_value (by simp) (.of_eq ?_)
    cases a with
    | sym s => exact absurd rfl (ha s)
    | _ => rfl
  | number hk =>
    refine .of_value (by simp) (.of_eq ?_)
    rw [Algebra.eval_cast M hk]
    rfl
  | cast hk hk' _ ih =>
    refine .of_value (by simp) ?_
    rw [Algebra.eval_cast M hk, Algebra.eval_cast M hk']
    exact ih.value
  | keep hh hlen _ ih => exact operation hh hlen ih
  | build hh hlen _ hb ih => exact hS.keeps hh (operation hh hlen ih) hb
  | same hsym _ hs ih => exact ih.trans (keeps_of_same_symbols hH hsym hs)
  | choice hh hform _ _ hb ihcond ihvalue =>
    refine hS.keeps hh (.of_value (by simp) ?_) hb
    simp only [Model.eval, Model.evalBranches_eq_map]
    exact M.choose_mono (selects_of_choices { hform with cond := ihcond, value := ihvalue })

theorem exists_mem_zip (hlen : as.length = bs.length) (hb : b ∈ bs) :
    ∃ a ∈ as, (a, b) ∈ as.zip bs :=
  exists_of_forall₂ (forall₂_of_zip (S := fun a b => (a, b) ∈ as.zip bs) hlen fun _ hp => hp) hb

theorem isOver (h : Rebuilt A H R e e') (hH : Operations H) (hC : A.Closed H)
    (hPQ : ∀ x, x.isPlace = true → P x → Q x) (hleaf : ∀ x y, x.isPlace = true → P x → R x y → Over H Q y)
    (he : Over H P e) : Over H Q e' := by
  have args : ∀ {h : Head} {as bs : Exprs}, H h → as.length = bs.length →
      (∀ p ∈ as.zip bs, Over H P p.1 → Over H Q p.2) → Over H P (.node h as) →
      ∀ x ∈ withHidden h as bs, Over H Q x := by
    intro h as bs hh hlen ih he x hx
    rw [withHidden_of_operation hH hh] at hx
    obtain ⟨a, ha, hz⟩ := exists_mem_zip hlen hx
    exact ih _ hz ((he.of_node (hH.not_place hh as)).2 a ha)
  induction h with
  | leaf hplace hr => exact hleaf _ _ hplace (he.of_place hH hplace) hr
  | atom ha => exact .atom ha
  | number hk => exact .node ((hH.cast _).2 hk) (forall_mem_cons.2 ⟨.atom nofun, forall_mem_singleton.2 (.atom nofun)⟩)
  | cast hk hk' _ ih =>
    obtain ⟨-, has⟩ := he.of_node rfl
    obtain ⟨ha, has⟩ := forall_mem_cons.1 has
    exact .node ((hH.cast _).2 hk') (forall_mem_cons.2 ⟨ih ha,
      forall_mem_singleton.2 ((has _ mem_cons_self).imp hPQ)⟩)
  | keep hh hlen _ ih => exact .node hh (args hh hlen ih he)
  | build hh hlen _ hb ih => exact hC hh (args hh hlen ih he) hb
  | same _ _ _ _ => exact he.imp hPQ
  | @choice as bs rest e hh hform _ _ hb ihcond ihvalue =>
    have has := (he.of_node rfl).2
    refine hC hh (fun x hx => ?_) hb
    rcases mem_append.1 hx with hx | hx
    · obtain ⟨a, ha, hz⟩ := exists_mem_zip hform.length hx
      have ha := has a (mem_append_left _ ha)
      rcases hform.form _ hz with ⟨v, c, v', c', hp⟩ | ⟨heq, -⟩
      · obtain ⟨rfl, rfl⟩ := Prod.mk.inj hp
        obtain ⟨hbranch, hargs⟩ := ha.of_node rfl
        have hv := hargs v mem_cons_self
        have hc := hargs c (mem_cons_of_mem _ mem_cons_self)
        refine .node hbranch fun x hx => ?_
        rcases mem_pair.1 hx with rfl | rfl
        · by_cases hfalse : (c' == .bool false) = true
          · rw [hform.skip v c _ c' hz hfalse]
            exact hv.imp hPQ
          · exact ihvalue v c _ c' hz (by simpa using hfalse) hv
        · exact ihcond v c v' _ hz hc
      · obtain rfl : a = x := heq
        exact ha.imp hPQ
    · exact (has x (mem_append_right _ hx)).imp hPQ

/-- An expression is built from itself if its symbols and elements may stay. -/
theorem refl (hH : Operations H) (he : Over H P e) (hleaf : ∀ x, x.isPlace = true → P x → R x x) :
    Rebuilt A H R e e := by
  induction he with
  | leaf hplace hp => exact .leaf hplace (hleaf _ hplace hp)
  | atom ha => exact .atom ha
  | @node h as hh _ ih =>
    have hk : Rebuilt A H R (.node h as) (.node h (withHidden h as as)) := by
      refine .keep hh rfl fun p hp => ?_
      have hz : as.zip as = as.map fun a => (a, a) :=
        by simpa using (zip_map' : (as.map id).zip (as.map id) = _)
      rw [hz] at hp
      obtain ⟨a, ha, rfl⟩ := mem_map.1 hp
      exact ih a ha
    rwa [withHidden_of_operation hH hh] at hk

theorem of_place (hH : Operations H) (he : e.isPlace = true) (h : Rebuilt A H R e e') : R e e' := by
  induction h with
  | leaf _ hr => exact hr
  | @atom a ha =>
    cases a with
    | sym s => exact absurd rfl (ha s)
    | _ => cases he
  | number | cast => cases he
  | keep hh | build hh => simp [hH.not_place hh] at he
  | same hsym _ hs ih =>
    obtain ⟨s, rfl⟩ := hsym.of_place hH he
    obtain rfl := eq_sym_of_same hs
    exact ih he
  | choice => cases he

end Rebuilt

/-! ### Replacing a symbol in sums and products -/

namespace Substitute

variable {fuel : Nat}

/-- A symbol is replaced, all others stay. -/
def Swaps (x : Symbol) (new : Expr) (e e' : Expr) :
    Prop := ∃ s, e = .sym s ∧ e' = if s = x then new else .sym s

def IsSymbol (e : Expr) : Prop := ∃ s, e = .sym s

variable {x : Symbol} {new : Expr}

theorem algebraicList_zip (hfuel : 2 * sizeList as + 1 ≤ fuel)
    (hdeep : ∀ a ∈ as, ∀ b k, k < fuel → 2 * a.size ≤ k → algebraicDeep A k (.sym x) new a = .ok b →
      S a b)
    (h : algebraicList A fuel (.sym x) new as = .ok bs) :
    as.length = bs.length ∧ ∀ p ∈ as.zip bs, S p.1 p.2 := by
  induction as generalizing fuel bs with
  | nil =>
    cases fuel with
    | zero => omega
    | succ fuel =>
      obtain rfl := Except.ok.inj h
      exact ⟨rfl, nofun⟩
  | cons a as ih =>
    cases fuel with
    | zero => omega
    | succ fuel =>
      simp only [algebraicList, bind_eq_ok, pure_eq_ok] at h
      obtain ⟨b, hb, cs, hcs, rfl⟩ := h
      have hpos : 0 < a.size := by cases a <;> simp [size]
      simp only [sizeList] at hfuel
      obtain ⟨hlen, hzip⟩ := ih (by omega) (fun y hy c k hk => hdeep y (mem_cons_of_mem _ hy) c k
        (by omega)) hcs
      exact ⟨by simp [hlen], forall_mem_cons.2 ⟨hdeep a mem_cons_self b fuel (by omega) (by omega) hb, hzip⟩⟩

theorem cons_choices {a : Expr} (h : Choices S as bs rest)
    (hform : (∃ v c v' c', (a, b) = (.branch v c, .branch v' c')) ∨ a = b ∧ ∀ v c, a ≠ .branch v c)
    (hpair : ∀ v c v' c', (.branch v c, .branch v' c') = (a, b) → S c c' ∧
      ((c' == .bool false) = false → S v v') ∧ ((c' == .bool false) = true → v' = v)) :
        Choices S (a :: as) (b :: bs) rest where
  length := congrArg (· + 1) h.length
  form := forall_mem_cons.2 ⟨hform, h.form⟩
  cond := fun v c v' c' hp => (mem_cons.1 hp).elim (fun heq => (hpair v c v' c' heq).1)
    (h.cond v c v' c')
  value := fun v c v' c' hp => (mem_cons.1 hp).elim (fun heq => (hpair v c v' c' heq).2.1)
    (h.value v c v' c')
  skip := fun v c v' c' hp => (mem_cons.1 hp).elim (fun heq => (hpair v c v' c' heq).2.2)
    (h.skip v c v' c')
  rest := fun hne => by
    obtain ⟨u, d, hm, hd⟩ := h.rest hne
    exact ⟨u, d, mem_cons_of_mem _ hm, hd⟩

theorem cons_branches {v c v' c' : Expr} (hc : S c c')
    (hv : if (c' == .bool false) = true then v' = v else S v v') (h : Choices S as bs rest) :
    Choices S (.branch v c :: as) (.branch v' c' :: bs) rest := by
  refine cons_choices h (.inl ⟨v, c, v', c', rfl⟩) fun u d u' d' heq => ?_
  obtain ⟨⟨rfl, rfl⟩, rfl, rfl⟩ : (u = v ∧ d = c) ∧ u' = v' ∧ d' = c' := by simpa using heq
  exact ⟨hc, fun hfalse => by rwa [if_neg (by simp [hfalse])] at hv, fun hfalse => by rwa [if_pos hfalse] at hv⟩

theorem branchesDeep_choices {out : Exprs}
    (hfuel : 2 * sizeList as + 1 ≤ fuel)
    (hdeep : ∀ v c, .branch v c ∈ as → ∀ a b k, (a = v ∨ a = c) → k < fuel → 2 * a.size ≤ k →
      algebraicDeep A k (.sym x) new a = .ok b → S a b)
    (h : branchesDeep A fuel (.sym x) new as = .ok out) :
    ∃ pre bs rest, as = pre ++ rest ∧ out = bs ++ rest ∧ Choices S pre bs rest := by
  have none : Choices S [] [] [] := ⟨rfl, nofun, nofun, nofun, nofun, absurd rfl⟩
  induction as generalizing fuel out with
  | nil =>
    cases fuel with
    | zero => omega
    | succ fuel =>
      obtain rfl := Except.ok.inj h
      exact ⟨[], [], [], rfl, rfl, none⟩
  | cons a as ih =>
    cases fuel with
    | zero => omega
    | succ fuel =>
      have hpos : 0 < a.size := by cases a <;> simp [size]
      simp only [sizeList] at hfuel
      have tail : ∀ {out}, branchesDeep A fuel (.sym x) new as = .ok out → _ :=
        ih (by omega) (fun v c hm a b k hak hk =>
          hdeep v c (mem_cons_of_mem _ hm) a b k hak (Nat.lt_succ_of_lt hk))
      by_cases hbr : ∃ v c, a = .branch v c
      · obtain ⟨v, c, rfl⟩ := hbr
        simp only [size, sizeList] at hfuel
        have hdeep := hdeep v c mem_cons_self
        simp only [branchesDeep, bind_eq_ok] at h
        obtain ⟨c', hc', h⟩ := h
        have hc := hdeep c c' fuel (.inr rfl) (Nat.lt_succ_self _) (by omega) hc'
        obtain ⟨v', hv, h⟩ : ∃ v', (if (c' == .bool false) = true then v' = v else S v v') ∧
            (if (c' == .bool true) = true then pure (.branch v' c' :: as) else do
              return .branch v' c' :: (← branchesDeep A fuel (.sym x) new as)) = .ok out := by
          split at h
          · next hf =>
            obtain ⟨v', hv', h⟩ := bind_eq_ok.1 h
            exact ⟨v', by rw [if_pos hf]; exact (pure_eq_ok.1 hv').symm, h⟩
          · next hf =>
            obtain ⟨v', hv', h⟩ := bind_eq_ok.1 h
            have hv := hdeep v v' fuel (.inl rfl) (Nat.lt_succ_self _) (by omega) hv'
            exact ⟨v', by rwa [if_neg hf], h⟩
        split at h
        · next htrue =>
          obtain rfl := pure_eq_ok.1 h
          have hch := cons_branches hc hv none
          exact ⟨[.branch v c], [.branch v' c'], as, rfl, rfl,
            { hch with rest := fun _ => ⟨v', c', mem_cons_self, htrue⟩ }⟩
        · obtain ⟨r, hr, h⟩ := bind_eq_ok.1 h
          obtain rfl := pure_eq_ok.1 h
          obtain ⟨pre, bs, rest, rfl, rfl, hch⟩ := tail hr
          exact ⟨.branch v c :: pre, .branch v' c' :: bs, rest, rfl, rfl, cons_branches hc hv hch⟩
      · have heq : branchesDeep A (fuel + 1) (.sym x) new (a :: as) =
            (branchesDeep A fuel (.sym x) new as).bind fun r => .ok (a :: r) := by
          rw [branchesDeep]
          · rfl
          · exact fun v c hvc => hbr ⟨v, c, hvc⟩
        rw [heq] at h
        obtain ⟨r, hr, h⟩ := bind_eq_ok.1 h
        obtain rfl := Except.ok.inj h
        obtain ⟨pre, bs, rest, rfl, rfl, hch⟩ := tail hr
        exact ⟨a :: pre, a :: bs, rest, rfl, rfl,
          cons_choices hch (.inr ⟨rfl, fun v c hvc => hbr ⟨v, c, hvc⟩⟩)
          fun v c v' c' heq => absurd ⟨v, c, (Prod.mk.inj heq).1.symm⟩ hbr⟩

theorem inPower_sym {sub : Expr → Outcome Expr} {r : Option Expr}
    (h : inPower A sub b y (.sym x) new = .ok r) :
    (b = .sym x ∧ ∃ y', sub y = .ok y' ∧ r = some (A.pow new y')) ∨ (b ≠ .sym x ∧ r = none) := by
  unfold inPower at h
  split at h
  · next hb =>
    rw [sym_beq_iff] at hb
    obtain ⟨y', hy, h⟩ := bind_eq_ok.1 h
    exact .inl ⟨hb, y', hy, (pure_eq_ok.1 h).symm⟩
  · next hb =>
    rw [sym_beq_iff] at hb
    exact .inr ⟨hb, (pure_eq_ok.1 h).symm⟩

theorem algebraicDeep_node {old : Expr}
    (hop : Model.isOperation h = true) (hne : (.node h as == old) = false)
    (hsum : ∀ os, old ≠ .node .add os)
    (hprod : ∀ os, old ≠ .node .mul os)
    (hpow : ∀ b y r, .node h as = pow b y →
      inPower A (algebraicDeep A fuel old new) b y old new = .ok r → r = none)
    (hpiece : h ≠ .piecewise) (hr : algebraicDeep A (fuel + 1) old new (.node h as) = .ok e') :
    ∃ bs, algebraicList A fuel old new as = .ok bs ∧
      if sameList as bs = true then e' = .node h as else node A h
        (withHidden h as bs) = .ok e' := by
  unfold algebraicDeep at hr
  rw [if_neg (by simp [hne])] at hr
  -- the operation is neither an atom nor an access
  split at hr
  · next h1 => cases h1
  · next h1 =>
    obtain ⟨rfl, -⟩ := node.inj h1
    cases hop
  · next h' as' _ h1 =>
    obtain ⟨rfl, rfl⟩ := node.inj h1
    -- what is left to do when nothing is found in it
    suffices hrest : (do
        let bs ← algebraicList A fuel old new as
        if sameList as bs then return .node h as else node A h (withHidden h as bs) :
          Outcome Expr) = .ok e' by
      obtain ⟨bs, hbs, hr⟩ := bind_eq_ok.1 hrest
      refine ⟨bs, hbs, ?_⟩
      split at hr
      · next hs => rw [if_pos hs]; exact (pure_eq_ok.1 hr).symm
      · next hs => rwa [if_neg hs]
    split at hr
    · exact absurd rfl (hsum _)
    · exact absurd rfl (hprod _)
    · next b y h1 =>
      obtain ⟨found, hf, hr⟩ := bind_eq_ok.1 hr
      obtain rfl := hpow b y found h1 hf
      exact hr
    · next bs h1 => exact absurd (node.inj h1).1 hpiece
    · next f n p i r h1 =>
      obtain ⟨rfl, -⟩ := node.inj h1
      cases hop
    · obtain ⟨_, hn, hr⟩ := bind_eq_ok.1 hr
      obtain rfl := pure_eq_ok.1 hn
      exact hr

theorem algebraicDeep_pow
    (hr : algebraicDeep A (fuel + 1) (.sym x) new (.pow (.sym x) y) = .ok e') :
    ∃ y', algebraicDeep A fuel (.sym x) new y = .ok y' ∧ e' = A.pow new y' := by
  obtain ⟨found, hf, hr⟩ := bind_eq_ok.1 hr
  rcases inPower_sym hf with ⟨-, y', hy, rfl⟩ | ⟨hne, -⟩
  · exact ⟨y', hy, (pure_eq_ok.1 hr).symm⟩
  · exact absurd rfl hne

theorem algebraicDeep_piecewise
    (hr : algebraicDeep A (fuel + 1) (.sym x) new (.node .piecewise as) = .ok e') :
    ∃ bs, branchesDeep A fuel (.sym x) new as = .ok bs ∧ node A .piecewise bs = .ok e' := by
  obtain ⟨bs, hbs, hr⟩ := bind_eq_ok.1 hr
  obtain ⟨r, hb, hr⟩ := bind_eq_ok.1 hr
  obtain ⟨found, hf, hr⟩ := bind_eq_ok.1 hr
  obtain rfl := pure_eq_ok.1 hf
  obtain rfl := pure_eq_ok.1 hr
  exact ⟨bs, hbs, hb⟩

/-- Replacing a symbol builds an expression over symbols anew. -/
theorem algebraicDeep_rebuilt (hH : Operations H) (hfuel : 2 * e.size ≤ fuel)
    (he : Over H IsSymbol e) (hr : algebraicDeep A fuel (.sym x) new e = .ok e') :
    Rebuilt A H (Swaps x new) e e' := by
  induction fuel using Nat.strongRecOn generalizing e e' with
  | _ fuel ih =>
  have hpos : 0 < e.size := by cases e <;> simp [size]
  obtain _ | fuel := fuel
  · omega
  cases he with
  | leaf hplace hp =>
    obtain ⟨s, rfl⟩ := hp
    refine .leaf rfl ⟨s, rfl, ?_⟩
    unfold algebraicDeep at hr
    split at hr
    · next hs =>
      obtain rfl : s = x := by simpa using hs
      rw [if_pos rfl]
      exact (Except.ok.inj hr).symm
    · next hs =>
      rw [if_neg fun h => hs (by simp [h])]
      exact (pure_eq_ok.1 hr).symm
  | @atom a ha =>
    unfold algebraicDeep at hr
    split at hr
    · next hs => exact absurd (atom.inj (beq_sym_iff.1 hs)) (ha x)
    · obtain rfl := pure_eq_ok.1 hr
      exact .atom ha
  | @node h as hh has =>
    have hop := hH.operation hh
    have hsize : 2 * sizeList as + 1 ≤ fuel := by simp only [size] at hfuel; omega
    by_cases hpiece : h = .piecewise
    · subst hpiece
      obtain ⟨bs, hbs, hb⟩ := algebraicDeep_piecewise hr
      obtain ⟨pre, cs, rest, rfl, rfl, hch⟩ :=
        branchesDeep_choices hsize (fun v c hm a b k hac hlt hk hr => by
        obtain ⟨-, hargs⟩ := (has _ hm).of_node rfl
        exact ih k (by omega) hk (hargs a (by simpa using hac)) hr) hbs
      exact .choice hh { hch with cond := fun _ _ _ _ _ => trivial, value := fun _ _ _ _ _ _ => trivial }
        hch.cond hch.value hb
    · by_cases hpow : ∃ y, .node h as = pow (.sym x) y
      · obtain ⟨y, hy⟩ := hpow
        obtain ⟨rfl, rfl⟩ := node.inj hy
        obtain ⟨y', hy', rfl⟩ := algebraicDeep_pow hr
        simp only [sizeList] at hsize
        have hlen : [.sym x, y].length = [new, y'].length := rfl
        refine .build hh hlen (fun p hp => ?_) rfl
        rcases mem_pair.1 hp with rfl | rfl
        · exact .leaf rfl ⟨x, rfl, (if_pos rfl).symm⟩
        · exact ih fuel (by omega) (by simp only; omega) (has y (by simp)) hy'
      · have hnone : ∀ b y r, .node h as = pow b y →
            inPower A (algebraicDeep A fuel (.sym x) new) b y (.sym x) new = .ok r → r = none := by
          intro b y r hby hin
          rcases inPower_sym hin with ⟨rfl, -⟩ | ⟨-, rfl⟩
          · exact absurd ⟨y, hby⟩ hpow
          · rfl
        have hne : (node h as == .sym x) = false := same_node_atom ..
        obtain ⟨bs, hbs, hb⟩ := algebraicDeep_node hop hne (by simp) (by simp) hnone hpiece hr
        obtain ⟨hlen, hzip⟩ := algebraicList_zip hsize
          (fun a ha b k hlt hk hr => ih k (by omega) hk (has a ha) hr) hbs
        split at hb
        · next hs =>
          subst hb
          refine .same (.node hh has) (.keep hh hlen hzip)
            (same_node_iff.2 ⟨sameHead_iff.2 rfl, ?_⟩)
          have hsym : Forall₂ (fun a b => same b a = true) as bs :=
            (sameList_iff_forall₂.1 hs).imp fun a b => same_symm
          rw [withHidden_of_operation hH hh]
          exact sameList_iff_forall₂.2 hsym.flip
        · exact .build hh hlen hzip hb

theorem algebraic_rebuilt (hH : Operations H) (he : Over H IsSymbol e)
    (hr : algebraic A (.sym x) new e = .ok e') : Rebuilt A H (Swaps x new) e e' := by
  unfold algebraic at hr
  split at hr
  · next hs =>
    obtain rfl : new = .sym x := by simpa using hs
    obtain rfl := Except.ok.inj hr
    refine .refl hH he fun y hy hp => ?_
    obtain ⟨s, rfl⟩ := hp
    refine ⟨s, rfl, ?_⟩
    split
    · next hsx => rw [hsx]
    · rfl
  · exact algebraicDeep_rebuilt hH (by omega) he hr

theorem algebraic_over (hH : Operations H) (hC : A.Closed H) (hP : ∀ x, P x → IsSymbol x)
    (hnew : Over H P new) (he : Over H P e) (hr : algebraic A (.sym x) new e = .ok e') :
    Over H P e' := by
  refine (algebraic_rebuilt hH (he.imp fun y _ hy => hP y hy) hr).isOver hH hC (fun _ _ h => h)
    (fun a b _ ha hab => ?_) he
  obtain ⟨s, rfl, rfl⟩ := hab
  split
  · exact hnew
  · exact .sym ha

/-! ### Replacing several symbols -/

/-- Symbols stand for symbols, and none of those is replaced itself. -/
def Renames (t : Table Expr Expr) : Prop := ∀ p ∈ t, ∃ x y, p =
    (.sym x, .sym y) ∧ ∀ q ∈ t, q.1 ≠ .sym y

theorem algebraicSeq_keeps (hH : Operations H) (hS : A.Sound M H) (hC : A.Closed H)
    (hps : Renames ps) (hother : ∀ s, (∀ p ∈ ps, p.1 ≠ .sym s) → Refines (w.symbol s) (w'.symbol s))
    (hnew : ∀ x y, (.sym x, .sym y) ∈ ps → Refines (w.symbol x) (w'.symbol y))
    (he : Over H IsSymbol e) (hr : algebraicSeq A ps e = .ok e') : M.Keeps w w' e e' := by
  induction ps generalizing w e with
  | nil =>
    obtain rfl := pure_eq_ok.1 hr
    refine (Rebuilt.refl (R := fun x y => x = y ∧ IsSymbol x) hH he fun x _ hx => ⟨rfl, hx⟩).keeps hH hS ?_
    rintro _ _ - ⟨rfl, s, rfl⟩
    exact .of_value (fun _ => nofun) (hother s nofun)
  | cons p ps ih =>
    obtain ⟨x, y, rfl, hy⟩ := hps p mem_cons_self
    obtain ⟨e₁, h₁, hr⟩ := bind_eq_ok.1 hr
    have hb := algebraic_rebuilt hH he h₁
    have hsym : Over H IsSymbol e₁ := algebraic_over hH hC (fun _ h => h) (.sym ⟨y, rfl⟩) he h₁
    -- symbols that are still to be replaced are read as before, all others as afterwards
    let u : View V := { w with symbol := fun s => if ps.any (·.1 == .sym s) then w.symbol s else w'.symbol s }
    have hany : ∀ s, ps.any (·.1 == .sym s) = true ↔ ¬ ∀ p ∈ ps, p.1 ≠ .sym s := fun s => by
      simp only [any_eq_true, beq_sym_iff, not_forall, not_not, exists_prop]
    have hu : ∀ s, (∀ p ∈ ps, p.1 ≠ .sym s) → u.symbol s = w'.symbol s :=
      fun s hs => if_neg fun h => (hany s).1 h hs
    have hold : ∀ s, ¬ (∀ p ∈ ps, p.1 ≠ .sym s) → u.symbol s = w.symbol s :=
      fun s hs => if_pos ((hany s).2 hs)
    have first : M.Keeps w u e e₁ := by
      refine hb.keeps hH hS ?_
      rintro _ _ - ⟨s, rfl, rfl⟩
      split
      · next hsx =>
        subst hsx
        refine .of_value (fun _ => nofun) ?_
        rw [M.eval_sym, M.eval_sym, hu y (forall_mem_cons.1 hy).2]
        exact hnew s y mem_cons_self
      · next hsx =>
        refine .of_value (fun _ => nofun) ?_
        rw [M.eval_sym, M.eval_sym]
        by_cases hs : ∀ p ∈ ps, p.1 ≠ .sym s
        · rw [hu s hs]
          exact hother s (forall_mem_cons.2 ⟨fun h => hsx (by simpa using h.symm), hs⟩)
        · exact .of_eq (hold s hs).symm
    have hps' : Renames ps := fun p hp => by
      obtain ⟨a, b, hab, hb⟩ := hps p (mem_cons_of_mem _ hp)
      exact ⟨a, b, hab, (forall_mem_cons.1 hb).2⟩
    refine first.trans (ih hps' (fun s hs => .of_eq (hu s hs)) (fun a b hab => ?_) hsym hr)
    rw [hold a fun h => h _ hab rfl]
    exact hnew a b (mem_cons_of_mem _ hab)

theorem mem_arrange {p : Expr × Expr} : p ∈ arrange A t ↔ p ∈ t ∧ (p.1 == p.2) = false := by
  simp only [arrange, mem_map, mem_mergeSort]
  constructor
  · simp
  · rintro ⟨hp, hne⟩
    exact ⟨_, ⟨p, mem_filter.2 ⟨hp, by simp [hne]⟩, rfl⟩, rfl⟩

theorem algebraicTable_over (hH : Operations H) (hC : A.Closed H)
    (hP : ∀ x, P x → IsSymbol x) (ht : ∀ p ∈ t, IsSymbol p.1 ∧ P p.2) (he : Over H P e)
    (hr : algebraicTable A t e = .ok e') : Over H P e' := by
  refine foldlM_induction (P := fun _ e => Over H P e) hr he ?_
  rintro _ ⟨old, new⟩ x y hx hxy hp
  obtain ⟨⟨s, rfl⟩, hnew⟩ := ht _ (mem_arrange.1 hp).1
  obtain ⟨s', rfl⟩ := hP _ hnew
  exact algebraic_over hH hC hP (.sym hnew) hx hxy

theorem algebraicTable_keeps (hH : Operations H) (hS : A.Sound M H) (hC : A.Closed H)
    (ht : Renames t) (hother : ∀ s, (∀ p ∈ t, p.1 ≠ .sym s) → Refines (w.symbol s) (w'.symbol s))
    (hnew : ∀ x y, (.sym x, .sym y) ∈ t → Refines (w.symbol x) (w'.symbol y))
    (he : Over H IsSymbol e) (hr : algebraicTable A t e = .ok e') : M.Keeps w w' e e' := by
  have hmem : ∀ p, p ∈ arrange A t ↔ p ∈ t := by
    refine fun p => mem_arrange.trans ⟨And.left, fun hp => ⟨hp, ?_⟩⟩
    obtain ⟨x, y, rfl, hy⟩ := ht p hp
    exact Bool.eq_false_iff.2 fun h => hy _ hp (beq_sym_iff.1 h)
  refine algebraicSeq_keeps hH hS hC ?_ (fun s hs => hother s fun p hp => hs p ((hmem p).2 hp))
    (fun x y hxy => hnew x y ((hmem _).1 hxy)) he hr
  intro p hp
  obtain ⟨x, y, hxy, hy⟩ := ht p ((hmem p).1 hp)
  exact ⟨x, y, hxy, fun q hq => hy q ((hmem q).1 hq)⟩

/-- What a table makes of a symbol or an element. -/
inductive Replaced (A : Algebra) (t : Table Expr Expr) : Expr → Expr → Prop where
  | sym (s : Symbol) : Replaced A t (.sym s) ((Table.get? t (.sym s)).getD (.sym s))
  | access (f : GridField) (n : Nat) (b : Bool) (as : Exprs) :
      Replaced A t (.node (.access f n b) as) (.node (.access f n b) as)
  | resolved (f : GridField) (n : Nat) {p i p' i' : Expr} (r : Exprs)
    (hp : algebraicTable A t p = .ok p')
      (hi : algebraicTable A t i = .ok i') :
      Replaced A t (.node (.resolved f n) (p :: i :: r)) (.node (.resolved f n) (p' :: i' :: r))

theorem get?_eq_none (ht : ∀ p ∈ t, ∃ x, p.1 = .sym x) (he : ∀ s, e ≠ .sym s) :
    Table.get? t e = none := by
  simp only [Table.get?, Option.map_eq_none_iff, find?_eq_none]
  intro p hp
  obtain ⟨x, hx⟩ := ht p hp
  simpa [hx] using he x

end Substitute

variable {at? : Expr → Option (Outcome Expr)}

theorem Visit.replaceList_zip
    (hr : replaceList A at? as = .ok bs) :
    as.length = bs.length ∧ ∀ p ∈ as.zip bs, replace A at? p.1 = .ok p.2 := by
  have hmap : ∀ as, replaceList A at? as = as.mapM (replace A at?) := fun as => by
    induction as with
    | nil => rfl
    | cons a as ih => rw [replaceList, mapM_cons, ih]
  have hzip := forall₂_iff_zip.1 (mapM_eq_ok.1 (hmap as ▸ hr))
  exact ⟨hzip.1, fun p hp => hzip.2 hp⟩

theorem Visit.replace_node_eq_ok
    (hH : Operations H) (hh : H h) (hnode : at? (.node h as) = none)
    (hr : replace A at? (.node h as) = .ok e') :
    ∃ bs, replaceList A at? as = .ok bs ∧ node A h (withHidden h as bs) = .ok e' := by
  have hbuild : (replaceList A at? as >>= fun bs => node A h (withHidden h as bs)) = .ok e' := by
    unfold replace at hr
    rw [hnode] at hr
    cases h with
    | access f n b => exact nomatch hH.operation hh
    | _ => exact hr
  exact bind_eq_ok.1 hbuild

section Visit

variable (hH : Operations H) (he : Over H P e)
    (hatom : ∀ a, (∀ s, a ≠ .sym s) → at? (.atom a) = none)
  (hnode : ∀ h as, H h → at? (.node h as) = none)

include hH he hatom hnode

theorem Visit.replace_forall (hleaf : ∀ x y, x.isPlace = true → P x → replace A at? x = .ok y →
      S x y)
    (hkeep : ∀ a, (∀ s, a ≠ .sym s) → S (.atom a) (.atom a))
    (hbuild : ∀ {h as bs e'}, H h → as.length = bs.length → (∀ p ∈ as.zip bs, S p.1 p.2) →
      node A h (withHidden h as bs) = .ok e' → S (.node h as) e') (hr : replace A at? e = .ok e') :
        S e e' := by
  induction he generalizing e' with
  | leaf hplace hp => exact hleaf _ _ hplace hp hr
  | @atom a ha =>
    rw [replace, hatom a ha] at hr
    obtain rfl := Except.ok.inj hr
    exact hkeep a ha
  | @node h as hh _ ih =>
    obtain ⟨bs, hbs, hb⟩ := replace_node_eq_ok hH hh (hnode h as hh) hr
    obtain ⟨hlen, hzip⟩ := replaceList_zip hbs
    exact hbuild hh hlen (fun p hp => ih p.1 (of_mem_zip hp).1 (hzip p hp)) hb

end Visit

namespace Substitute

@[simp] theorem algebraicTable_nil (e : Expr) : algebraicTable A [] e = .ok e := by
  simp [algebraicTable, arrange, algebraicSeq]

section Table

variable (hH : Operations H) (ht : ∀ p ∈ t, ∃ x, p.1 = .sym x)
  (hP : ∀ f n as, P (.node (.resolved f n) as) → ∃ p i r, as = p :: i :: r)

include hP

theorem replaced_nil {x : Expr} (hx : x.isPlace = true) (hp : P x) : Replaced A [] x x := by
  unfold isPlace at hx
  split at hx
  · exact .sym _
  · exact .access ..
  · obtain ⟨p, i, r, rfl⟩ := hP _ _ _ hp
    exact .resolved _ _ r (algebraicTable_nil p) (algebraicTable_nil i)
  · cases hx

include hH ht

theorem table_eq_ok (hr : table A t e = .ok e') :
    t = [] ∧ e = e' ∨ ∃ at?, replace A at? e = .ok e' ∧
      (∀ a, (∀ s, a ≠ .sym s) → at? (.atom a) = none) ∧ (∀ h as, H h → at? (.node h as) = none) ∧
      ∀ x y, x.isPlace = true → P x → replace A at? x = .ok y → Replaced A t x y := by
  have hnone : ∀ h as, Table.get? t (.node h as) = none := fun h as => get?_eq_none ht nofun
  unfold table at hr
  split at hr
  · next hempty => exact .inl ⟨isEmpty_iff.1 hempty, Except.ok.inj hr⟩
  · refine .inr ⟨_, hr, fun a ha => ?_, fun h as hh => ?_, fun x y hx hp hr => ?_⟩
    · simp [get?_eq_none ht fun s h => ha s (atom.inj h)]
    · simp only [Bool.false_eq_true, if_false, hnone]
      split
      · next h1 =>
        obtain ⟨rfl, -⟩ := node.inj h1
        exact nomatch hH.operation hh
      · rfl
    · unfold isPlace at hx
      split at hx
      · next s =>
        have hy : y = (Table.get? t (.sym s)).getD (.sym s) := by
          cases hg : Table.get? t (.sym s) <;> simp [Visit.replace, hg] at hr <;> simp [hr]
        exact hy ▸ .sym s
      · next f n b as =>
        obtain rfl : y = .node (.access f n b) as := by simpa [Visit.replace, hnone] using hr.symm
        exact .access ..
      · next f n as =>
        obtain ⟨p, i, r, rfl⟩ := hP _ _ _ hp
        simp [Visit.replace, hnone] at hr
        obtain ⟨p', hp', i', hi', rfl⟩ := hr
        exact .resolved f n r hp' hi'
      · cases hx

theorem table_rebuilt (he : Over H P e) (hr : table A t e = .ok e') :
    Rebuilt A H (fun x y => P x ∧ Replaced A t x y) e e' := by
  rcases table_eq_ok hH ht hP hr with ⟨rfl, rfl⟩ | ⟨at?, hr, hatom, hnode, hleaf⟩
  · exact .refl hH he fun x hx hp => ⟨hp, replaced_nil hP hx hp⟩
  · exact replace_forall hH he hatom hnode (fun x y hx hp hr => .leaf hx ⟨hp, hleaf x y hx hp hr⟩)
      (fun _ => .atom) .build hr

theorem table_over (hC : A.Closed H)
    (hleaf : ∀ x y, x.isPlace = true → P x → Replaced A t x y → Over H Q y) (he : Over H P e)
    (hr : table A t e = .ok e') : Over H Q e' := by
  rcases table_eq_ok hH ht hP hr with ⟨rfl, rfl⟩ | ⟨at?, hr, hatom, hnode, hrep⟩
  · refine he.imp fun x hx hp => ?_
    exact (hleaf x x hx hp (replaced_nil hP hx hp)).of_place hH hx
  · refine replace_forall hH he hatom hnode
      (fun x y hx hp hr => hleaf x y hx hp (hrep x y hx hp hr)) (fun _ => .atom)
      (fun hh hlen hs hb => hC hh (fun b hmem => ?_) hb) hr
    rw [withHidden_of_operation hH hh] at hmem
    obtain ⟨a, -, hz⟩ := Rebuilt.exists_mem_zip hlen hmem
    exact hs _ hz

end Table

end Substitute

end StencilForge
