import StencilForge.Kernel.Address
import Mathlib

/-!
# Proofs — names of pointers

A pointer is named after its field and the positions it was moved to.  Equal names of pointers into
a field mean the same coordinates and positions (`Address.suffix_injective`); pointers into
different fields have different names unless one field's name continues another's
(`Address.IsPointer.eq_field`).
-/

open List

namespace StencilForge

variable {js ks xs ys : Ints} {readOnly : Strings}

namespace Address

/-! ### Names of pointers -/

theorem underscore_notMem_signed (n : Int) : '_' ∉ (signed n).toList := by
  unfold signed
  split <;> simp [Nat.underscore_not_in_toDigits]

theorem signed_injective {a b : Int} (h : (signed a).toList = (signed b).toList) : a = b := by
  have mixed : ∀ {m n : Nat}, "m" ++ toString m ≠ toString n := fun {m n} h => by
    have hmem : 'm' ∈ (toString n).toList := by simp [← h]
    rw [Nat.toString_eq_ofList_toDigits, String.toList_ofList] at hmem
    exact absurd (Nat.isDigit_of_mem_toDigits (by decide) (by decide) hmem) (by decide)
  have h := String.toList_inj.1 h
  unfold signed at h
  split at h <;> split at h
  · have := Nat.repr_injective ((String.append_right_inj _).1 h)
    omega
  · exact absurd h mixed
  · exact absurd h.symm mixed
  · have := Nat.repr_injective h
    omega

def suffix (xs : Ints) (ks : Ints) : Chars := ks.flatMap fun k =>
    (namePart k (xs.getD k.toNat 0)).toList

theorem suffix_cons (xs : Ints) (k : Int) (ks : Ints) :
    suffix xs (k :: ks) = '_' :: ((signed k).toList ++ (signed (xs.getD k.toNat 0)).toList ++
      suffix xs ks) := by
  simp [suffix, namePart]

theorem suffix_eq_nil_or (xs ks : Ints) : suffix xs ks = [] ∨ ∃ r, suffix xs ks = '_' :: r := by
  cases ks with
  | nil => exact .inl rfl
  | cons k ks => exact .inr ⟨_, suffix_cons xs k ks⟩

theorem append_inj_of_notMem {c : Char} {as bs xs ys : Chars} (has : c ∉ as) (hbs : c ∉ bs)
    (hxs : xs = [] ∨ ∃ r, xs = c :: r) (hys : ys = [] ∨ ∃ r, ys = c :: r)
    (h : as ++ xs = bs ++ ys) : as = bs ∧ xs = ys := by
  have hnil : ∀ {as cs ys : Chars}, c ∉ as ++ cs → cs ++ ys = [] ∨ (∃ r, cs ++ ys = c :: r) →
    cs = [] := fun {as cs ys} hc h => by
    cases cs with
    | nil => rfl
    | cons d cs =>
      obtain ⟨r, hr⟩ := h.resolve_left (by simp)
      simp [(cons.inj hr).1] at hc
  rcases append_eq_append_iff.1 h with ⟨cs, rfl, rfl⟩ | ⟨cs, rfl, rfl⟩
  · simp [hnil hbs hxs]
  · simp [hnil has hys]

theorem suffix_injective {all : Ints} (hks : ks <+: all) (hjs : js <+: all)
    (h : suffix xs ks = suffix ys js) : ks = js ∧ ∀ k ∈ ks,
    xs.getD k.toNat 0 = ys.getD k.toNat 0 := by
  induction ks generalizing all js with
  | nil =>
    cases js with
    | nil => simp
    | cons j js => rw [suffix_cons] at h; cases h
  | cons k ks ih =>
    cases js with
    | nil => rw [suffix_cons] at h; cases h
    | cons j js =>
      obtain ⟨a, rfl⟩ := hks
      obtain ⟨rfl, hrest⟩ := cons_prefix_cons.1 hjs
      rw [suffix_cons, suffix_cons] at h
      have hno : ∀ zs : Ints, '_' ∉ (signed j).toList ++ (signed (zs.getD j.toNat 0)).toList :=
        fun zs => by
        simp [underscore_notMem_signed]
      obtain ⟨hpart, hsuffix⟩ := append_inj_of_notMem (hno xs) (hno ys) (suffix_eq_nil_or xs ks)
        (suffix_eq_nil_or ys js) (cons.inj h).2
      obtain ⟨rfl, hsame⟩ := ih (prefix_append ks a) hrest hsuffix
      exact ⟨rfl, forall_mem_cons.2 ⟨signed_injective (append_cancel_left hpart), hsame⟩⟩

/-- The pointer into a field that has been moved along some coordinates. -/
def IsPointer (readOnly : Strings) (f : GridField) (xs ks : Ints) (q : Symbol) : Prop :=
  q.name.toList = ("_data_" ++ f.name).toList ++ suffix xs ks ∧
    q.kind = if ks = [] then (fieldPointer readOnly f).kind else .typed
      ((fieldPointer readOnly f).dtype?.getD .double)

end Address

/-- Fields that are told apart by the names of their pointers. -/
def GridField.Distinct (fields : Fields) : Prop :=
  ∀ f ∈ fields, ∀ g ∈ fields, (f.name = g.name → f = g) ∧ ¬ (f.name ++ "_").toList <+: g.name.toList

namespace Address

theorem IsPointer.eq_field {fields : Fields} (hd : GridField.Distinct fields) {f g : GridField}
    (hf : f ∈ fields) (hg : g ∈ fields) {q : Symbol} (hq : IsPointer readOnly f xs ks q)
    (hq' : IsPointer readOnly g ys js q) : f = g ∧ suffix xs ks = suffix ys js := by
  have h := hq.1.symm.trans hq'.1
  simp only [String.toList_append, append_assoc, append_cancel_left_eq] at h
  have apart : ∀ {f g : GridField} {cs r : Chars}, f ∈ fields → g ∈ fields →
    g.name.toList = f.name.toList ++ cs →
      cs ++ r = [] ∨ (∃ t, cs ++ r = '_' :: t) → cs = [] := by
    intro f g cs r hf hg hname hcs
    cases cs with
    | nil => rfl
    | cons c cs =>
      obtain ⟨t, ht⟩ := hcs.resolve_left (by simp)
      obtain ⟨rfl, -⟩ := cons.inj ht
      exact absurd ⟨cs, by simp [hname]⟩ (hd f hf g hg).2
  rcases append_eq_append_iff.1 h with ⟨cs, hname, hs⟩ | ⟨cs, hname, hs⟩
  · obtain rfl := apart hf hg hname (hs ▸ suffix_eq_nil_or xs ks)
    exact ⟨(hd f hf g hg).1 (String.toList_inj.1 (by simpa using hname.symm)), by simpa using hs⟩
  · obtain rfl := apart hg hf hname (hs ▸ suffix_eq_nil_or ys js)
    exact ⟨(hd f hf g hg).1 (String.toList_inj.1 (by simpa using hname)), by simpa using hs.symm⟩

theorem IsPointer.unique {f : GridField} {p q : Symbol}
    (hp : IsPointer readOnly f xs ks p) (hq : IsPointer readOnly f xs ks q) : p = q := by
  obtain ⟨n, k⟩ := p
  obtain ⟨m, j⟩ := q
  obtain rfl : n = m := String.toList_inj.1 (hp.1.trans hq.1.symm)
  obtain rfl : k = j := hp.2.trans hq.2.symm
  rfl

end Address

end StencilForge
