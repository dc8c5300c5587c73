import StencilForge.Proofs.Draws

/-!
# Proofs — conditions on lanes

The bits of all lanes are read as one number.  It is positive if some lane passes a test, but what
it is compared with to see whether all of them do is right for four lanes only, or for the widest
vectors (`lanes_test`).
-/

open List StencilForge.Outcome

namespace StencilForge.Execution

open Value Meaning

variable {ρ : Type} {R : Arithmetic ρ} {m : Memory ρ} {vs : Variables ρ} {a b c : Typed}
    {bs ds : List Bool}
  {A : Algebra} {v : InstructionSet} {scope : Scope} {e : Expr} {fuel : Nat}

/-- A comparison of vectors, or a conjunction of such, and in which lanes it holds. -/
inductive Test (R : Arithmetic ρ) (m : Memory ρ) (vs : Variables ρ) : Typed → List Bool → Prop where
  | compare {r : Rel} {a b c : Typed} {xs ys : List (Value ρ)} {bs : List Bool}
    (ha : a.term.value R m vs = .ok (.lanes xs))
      (hb : b.term.value R m vs = .ok (.lanes ys)) (hc : Typed.vectorCompare r a b = .ok c)
      (h : Forall₂ (fun p t => Value.compare R r p.1 p.2 = .ok (ofBool t)) (xs.zip ys) bs) :
        Test R m vs c bs
  | and {a b c : Typed} {bs ds : List Bool} (ha : Test R m vs a bs) (hb : Test R m vs b ds)
      (hc : Typed.vectorArith .bitAnd a b = .ok c) :
        Test R m vs c ((bs.zip ds).map fun p => p.1 && p.2)

theorem Test.spec (h : Test R m vs c bs) :
    (∃ w, c.type = .vector .boolean w) ∧ c.term.value R m vs = .ok (.lanes (bs.map ofBool)) := by
  induction h with
  | compare ha hb hc h =>
    simp only [Typed.vectorCompare, bind_eq_ok] at hc
    obtain ⟨⟨_, _⟩, -, ⟨_, _⟩, -, hc⟩ := hc
    split at hc
    · simp [refused] at hc
    · obtain rfl := pure_eq_ok.1 hc
      exact ⟨⟨_, rfl⟩, bind_eq_ok.2 ⟨_, ha,
        bind_eq_ok.2 ⟨_, hb, bind_eq_ok.2 ⟨_, mapM_eq_ok.2 (forall₂_map_right_iff.2 h), rfl⟩⟩⟩⟩
  | @and a b c bs ds _ _ hc iha ihb =>
    obtain ⟨⟨w, hw⟩, ha⟩ := iha
    simp only [Typed.vectorArith, Typed.lanes, hw, DataType.boolean, bind_eq_ok] at hc
    obtain ⟨_, hs, ⟨_, _⟩, -, hc⟩ := hc
    obtain rfl := Except.ok.inj hs
    split at hc
    · simp [refused] at hc
    · obtain rfl := pure_eq_ok.1 hc
      refine ⟨⟨w, rfl⟩, bind_eq_ok.2 ⟨_, ha,
        bind_eq_ok.2 ⟨_, ihb.2, bind_eq_ok.2 ⟨_, mapM_eq_ok.2 ?_, rfl⟩⟩⟩⟩
      rw [zip_map, forall₂_map_left_iff, forall₂_map_right_iff, forall₂_map_right_iff]
      refine forall₂_same.2 fun p _ => ?_
      obtain ⟨_ | _, _ | _⟩ := p <;> rfl

/-- The bits as a number, that of the first lane in the lowest place. -/
def mask (bs : List Bool) : Nat := Nat.ofDigits 2 (bs.map Bool.toNat)

theorem bitsOf_lanes (bs : List Bool) : Term.bitsOf
    (.lanes (bs.map ofBool) : Value ρ) = mask bs := by
  rw [Term.bitsOf, toLanes, foldl_reverse]
  induction bs with
  | nil => rfl
  | cons b bs ih => cases b <;> simp_all [mask, ofBool, Value.isTrue, Nat.ofDigits_cons, add_comm]

theorem mask_eq_iff (hlen : bs.length = ds.length) : mask bs = mask ds ↔ bs = ds := by
  have hlt : ∀ bs : List Bool, ∀ n ∈ bs.map Bool.toNat, n < 2 := by
    intro bs n hn
    obtain ⟨b, -, rfl⟩ := mem_map.1 hn
    exact b.toNat_lt
  refine ⟨fun h => ?_, congrArg mask⟩
  exact map_injective_iff.2 (by decide) (Nat.ofDigits_inj_of_len_eq (by decide)
    (by simpa using hlen) (hlt bs) (hlt ds) h)

theorem mask_pos (bs : List Bool) : 0 < mask bs ↔ bs.any id := by
  induction bs with
  | nil => simp [mask]
  | cons b bs ih => cases b <;> simp_all [mask, Nat.ofDigits_cons]

/-- Of two lanes 15 never comes out, and of eight only if the last four fail. -/
theorem mask_all (hlen : bs.length = v.width) :
    Rel.eq.holds (compare (mask bs : Int) (if v.isa == .avx512 then 2 ^ v.width - 1 else 15)) =
      if v.isa = .avx512 then bs.all id else decide
        (bs = replicate 4 true ++ replicate (v.width - 4) false) := by
  have heq : ∀ (k : Nat) (ds : List Bool), bs.length = ds.length → k = mask ds →
      Rel.eq.holds (compare (mask bs : Int) k) = decide (bs = ds) := by
    rintro _ ds hds rfl
    rw [Bool.eq_iff_iff, decide_eq_true_iff, ← mask_eq_iff hds]
    simp [Rel.holds]
  have hall : bs.all id = decide (bs = replicate v.width true) := by
    rw [Bool.eq_iff_iff]
    simp [eq_replicate_iff, hlen]
  obtain ⟨_ | _ | _, _ | _⟩ := v
  · obtain ⟨a, b, rfl⟩ := length_eq_two.1 hlen
    clear heq hall hlen
    revert a b
    decide
  · exact heq 15 _ hlen rfl
  · exact heq 15 _ hlen rfl
  · exact heq 15 _ hlen rfl
  · exact (heq 255 (replicate 8 true) hlen rfl).trans hall.symm
  · exact (heq 65535 (replicate 16 true) hlen rfl).trans hall.symm

/-- `vecAny` holds if some lane passes the test.  `vecAll` holds for the widest vectors if all lanes
pass; for others it is compared with four bits, and holds if the first four lanes pass and no other
does. -/
theorem lanes_test (hc : term A (some v) scope fuel e = .ok c) (h : Test R m vs c bs)
    (hlen : bs.length = v.width) :
    ∃ any all, term A (some v) scope (fuel + 3) (.fn .vecAny [e]) = .ok any ∧
      term A (some v) scope (fuel + 3) (.fn .vecAll [e]) = .ok all ∧
      any.term.value R m vs = .ok (ofBool (bs.any id)) ∧
      all.term.value R m vs = .ok (ofBool (if v.isa = .avx512 then bs.all id else
        bs = replicate 4 true ++ replicate (v.width - 4) false)) := by
  obtain ⟨⟨w, hw⟩, hval⟩ := h.spec
  obtain ⟨t, _⟩ := c
  obtain rfl := hw
  have hbits : (Term.maskBits t).value R m vs = .ok (.whole (mask bs)) :=
    bind_eq_ok.2 ⟨_, hval, by rw [bitsOf_lanes]; rfl⟩
  refine ⟨.ofScalar .bool (.compare .gt (.maskBits t) (.whole 0)),
    .ofScalar .bool (.compare .eq (.maskBits t)
    (.whole (if v.isa == .avx512 then 2 ^ v.width - 1 else 15))), ?_, ?_, ?_, ?_⟩
  · simp [term, Option.bindM, Code.instructions?, scalarTerm, function, hc]
    rfl
  · simp [term, Option.bindM, Code.instructions?, scalarTerm, function, hc]
    obtain ⟨_ | _ | _, _ | _⟩ := v <;> rfl
  · refine bind_eq_ok.2 ⟨_, hbits, congrArg (Except.ok ∘ ofBool) ?_⟩
    rw [Bool.eq_iff_iff, ← mask_pos]
    simp [Rel.holds, Int.compare_eq_gt]
  · exact bind_eq_ok.2 ⟨_, hbits, congrArg (Except.ok ∘ ofBool) (mask_all hlen)⟩

def twoLanes : Scope := [("a", .vector .double 2), ("b", .vector .double 2)]

def less : Expr := .rel .lt (.typedSymbol "a" (.vector .double 2))
    (.typedSymbol "b" (.vector .double 2))

def lanesOfTwo : Variables ℚ := [("a", .lanes [.real 1, .real 2]), ("b", .lanes [.real 3, .real 5])]

/-- Both lanes pass, and yet not all. -/
theorem lanes_test_two : ∃ any all, term .bare (some ⟨.sse, false⟩) twoLanes 7
    (.fn .vecAny [less]) = .ok any ∧
    term .bare (some ⟨.sse, false⟩) twoLanes 7 (.fn .vecAll [less]) = .ok all ∧
    any.term.value Philox.rational [] lanesOfTwo = .ok (ofBool true) ∧
    all.term.value Philox.rational [] lanesOfTwo = .ok (ofBool false) := by
  have htest : Test Philox.rational [] lanesOfTwo _ [true, true] :=
    .compare (r := .lt) (a := ⟨.var "a", .vector .double 2⟩)
    (b := ⟨.var "b", .vector .double 2⟩) rfl rfl rfl (.cons ?_ (.cons ?_ .nil))
  · exact lanes_test rfl htest rfl
  · norm_num [Value.compare, Philox.rational]
  · norm_num [Value.compare, Philox.rational]

end StencilForge.Execution
