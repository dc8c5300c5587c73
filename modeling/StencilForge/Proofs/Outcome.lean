import StencilForge.Field.Basic
import Mathlib

/-!
# Proofs — computations that may fail

Computations that give a result are taken apart here once.
-/

namespace StencilForge

open Failure

variable {α β σ : Type}
variable {f : α → Outcome β} {a : α} {m : String} {u : PUnit}

namespace Outcome

variable {k : Kind} {s s' : σ} {x : Outcome α} {as : List α} {b : β}

@[simp] theorem bind_eq_ok : (x >>= f) = .ok b ↔ ∃ a, x = .ok a ∧ f a = .ok b := by
  cases x with
  | error e => simp [bind, Except.bind]
  | ok a => simp [bind, Except.bind]

@[simp] theorem pure_eq_ok {b : α} : (pure a : Outcome α) = .ok b ↔ a = b :=
    by simp [pure, Except.pure]

@[simp] theorem map_eq_ok {f : α → β} : (f <$> x) = .ok b ↔ ∃ a, x = .ok a ∧ f a = b :=
    by cases x <;> simp

@[simp] theorem raise_ne_ok : (raise k : Outcome α) ≠ .ok a := nofun

@[simp] theorem raiseWith_ne_ok : (raiseWith k m : Outcome α) ≠ .ok a := nofun

@[simp] theorem require_eq_ok {b : Bool} {u : Unit} : require b k = .ok u ↔ b = true := by
  cases b <;> simp [require]

@[simp] theorem requireWith_eq_ok {b : Bool} {u : Unit} : requireWith b k m = .ok u ↔ b = true := by
  cases b <;> simp [requireWith]

/-- The same step for all elements gives the results one by one. -/
theorem mapM_eq_ok {bs : List β} : as.mapM f = .ok bs ↔ List.Forall₂
    (fun a b => f a = .ok b) as bs := by
  induction as generalizing bs with
  | nil => simp [pure, Except.pure]
  | cons a as ih =>
    rw [List.mapM_cons]
    simp only [bind_eq_ok, pure_eq_ok, ih, List.forall₂_cons_left_iff]
    constructor
    · rintro ⟨b, hb, bs, hbs, rfl⟩
      exact ⟨b, bs, hb, hbs, rfl⟩
    · rintro ⟨b, bs, hb, hbs, rfl⟩
      exact ⟨b, hb, bs, hbs, rfl⟩

theorem mapM_eq_some {f : α → Option β} {bs : List β} :
    as.mapM f = some bs ↔ List.Forall₂ (fun a b => f a = some b) as bs := by
  induction as generalizing bs with
  | nil => simp [eq_comm]
  | cons a as ih => simp [Option.bind_eq_some_iff, List.forall₂_cons_left_iff, ih, @eq_comm _ bs]

theorem mapM_map_eq_some {f : α → Option β} {g : β → α} (h : ∀ b, f (g b) = some b) {bs : List β} :
    (bs.map g).mapM f = some bs :=
  mapM_eq_some.2 (List.forall₂_map_left_iff.2 (List.forall₂_same.2 fun b _ => h b))

theorem forM_eq_ok {f : α → Outcome Unit} : as.forM f = .ok () ↔ ∀ a ∈ as, f a = .ok () := by
  induction as with
  | nil => simp
  | cons a as ih =>
    rw [List.forall_mem_cons, ← ih]
    exact bind_eq_ok.trans ⟨fun ⟨_, h⟩ => h, fun h => ⟨(), h⟩⟩

theorem foldlM_induction {f : β → α → Outcome β} {P : List α → β → Prop} {b' : β}
    (h : as.foldlM f b = .ok b') (start : P [] b)
    (step : ∀ done a x y, P done x → f x a = .ok y → a ∈ as → P (done ++ [a]) y) : P as b' := by
  suffices ∀ done rest x, done ++ rest = as → P done x → rest.foldlM f x = .ok b' → P as b' from
    this [] as b rfl start h
  intro done rest
  induction rest generalizing done with
  | nil =>
    intro x hd hx hr
    obtain rfl : x = b' := by simpa using hr
    rwa [← hd, List.append_nil]
  | cons a rest ih =>
    intro x hd hx hr
    obtain ⟨y, hy, hr⟩ : ∃ y, f x a = .ok y ∧ rest.foldlM f y = .ok b' := by simpa using hr
    have ha : a ∈ as := hd ▸ List.mem_append_right _ List.mem_cons_self
    exact ih (done ++ [a]) y (by simpa using hd) (step done a x y hx hy ha) hr

/-! ### Steps with a state -/

@[simp] theorem run_bind_eq_ok {x : StateT σ Outcome α} {f : α → StateT σ Outcome β} :
    (x >>= f).run s = .ok (b, s') ↔ ∃ a t, x.run s = .ok (a, t) ∧ (f a).run t = .ok (b, s') := by
  simp only [StateT.run_bind, bind_eq_ok, Prod.exists]

@[simp] theorem run_pure_eq_ok {b : α} : (pure a : StateT σ Outcome α).run s = .ok (b, s') ↔
    a = b ∧ s = s' := by
  rw [StateT.run_pure, pure_eq_ok, Prod.mk.injEq]

@[simp] theorem run_lift_eq_ok {b : α} : (liftM x : StateT σ Outcome α).run s = .ok (b, s') ↔
    x = .ok b ∧ s = s' := by
  cases x <;> simp

@[simp] theorem run_get_eq_ok {t : σ} : (get : StateT σ Outcome σ).run s = .ok (t, s') ↔
    s = t ∧ s = s' := by
  rw [StateT.run_get, pure_eq_ok, Prod.mk.injEq]

@[simp] theorem run_modify_eq_ok {f : σ → σ} :
    (modify f : StateT σ Outcome PUnit).run s = .ok (u, s') ↔ f s = s' := by
  rw [StateT.run_modify, pure_eq_ok, Prod.mk.injEq, and_iff_right rfl]

@[simp] theorem run_set_eq_ok {t : σ} : (set t : StateT σ Outcome PUnit).run s = .ok (u, s') ↔
    t = s' := by
  rw [StateT.run_set, pure_eq_ok, Prod.mk.injEq, and_iff_right rfl]

end Outcome

/-! ### Steps whose state outlives a failure -/

namespace Action

@[simp] theorem perform_pure (a : α) (s : σ) : (pure a : Action σ α).perform s = (s, .ok a) := rfl

@[simp] theorem perform_get (s : σ) : (get : Action σ σ).perform s = (s, .ok s) := rfl

@[simp] theorem perform_set (s t : σ) : (set t : Action σ PUnit).perform s = (t, .ok ⟨⟩) := rfl

@[simp] theorem perform_modify (f : σ → σ) (s : σ) : (modify f : Action σ PUnit).perform s =
    (f s, .ok ⟨⟩) := rfl

@[simp] theorem perform_lift (x : Outcome α) (s : σ) : (liftM x : Action σ α).perform s =
    (s, x) := rfl

/-- What comes behind a failure is not carried out. -/
theorem perform_bind (x : Action σ α) (f : α → Action σ β) (s : σ) :
    (x >>= f).perform s = match x.perform s with
      | (t, .ok a) => (f a).perform t
      | (t, .error e) => (t, .error e) := by
  unfold perform
  rw [ExceptT.run_bind, StateT.run_bind]
  rcases h : x.run.run s with ⟨a | a, t⟩ <;> rfl

end Action

/-! ### Places of coordinates -/

namespace Layout

variable {dim n : Nat} {j : Int}

theorem place_lt (h : place dim j = .ok n) : n < dim := by
  unfold place at h
  dsimp only at h
  generalize (if j < 0 then j + dim else j) = k at h
  split at h
  · next hk =>
    obtain rfl := Except.ok.inj h
    simp at hk
    omega
  · simp at h

theorem place_eq_ok_iff (hj : 0 ≤ j) : place dim j = .ok n ↔ j.toNat = n ∧ n < dim := by
  refine ⟨fun h => ⟨?_, place_lt h⟩, ?_⟩
  · simp only [place, if_neg (not_lt.2 hj)] at h
    split at h
    · exact Except.ok.inj h
    · simp at h
  · rintro ⟨rfl, h⟩
    simp [place, not_lt.2 hj]
    omega

end Layout

end StencilForge
