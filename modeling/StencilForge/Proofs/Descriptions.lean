import StencilForge.Field.Description
import StencilForge.Proofs.Outcome

/-!
# Proofs — descriptions of fields

A description is a list of tokens with blanks around them (`FieldDescription.Spaced`): names with
their indices in brackets, a colon, and the type with the extents in brackets.  However the tokens
are spaced, what was described is read back (`FieldDescription.parse_of_spaced`).
-/

open List

namespace StencilForge

open Decimal

variable {c : Char} {cs l r t w : Chars} {ts us : List Chars} {k n : Nat} {i : Int} {is js : Ints}
    {s : String}

/-! ### Digits -/

theorem isDigit_of_mem_toDigits : ∀ c ∈ Nat.toDigits 10 n, c.isDigit = true :=
  fun _ => Nat.isDigit_of_mem_toDigits (by decide) (by decide)

/-- An integer is a sign and digits. -/
theorem notMem_repr (hc : c.isDigit = false) (hsign : c ≠ '-') (m : Int) : c ∉ m.repr.toList := by
  have hdigits : ∀ n, c ∉ Nat.toDigits 10 n :=
    fun _ h => by simp [isDigit_of_mem_toDigits c h] at hc
  rw [Int.repr_eq_if]
  split <;> simp [hdigits, hsign]

theorem repr_ne_empty : i.repr ≠ "" := by
  rw [Int.repr_eq_if]
  split <;> simp

theorem readDigits_eq {fresh : Bool} (hcs : ∀ c ∈ cs, c.isDigit = true)
    (hne : cs ≠ [] ∨ fresh = false) (n : Nat) :
    readDigits cs fresh n = some (Nat.ofDigitChars 10 cs n) := by
  induction cs generalizing n fresh with
  | nil => simp_all [readDigits]
  | cons c cs ih => simp_all [readDigits, Nat.ofDigitChars_cons]

namespace FieldDescription

/-! ### Tokens -/

def Blank (cs : Chars) : Prop := ∀ c ∈ cs, c.isWhitespace = true

/-- A text of some tokens, with blanks around them. -/
def Spaced : List Chars → Chars → Prop
  | [], cs => Blank cs
  | t :: ts, cs => ∃ l r, Blank l ∧ cs = l ++ (t ++ r) ∧ Spaced ts r

/-- With commas between them. -/
def listed {α : Type} (tokens : α → List Chars) : List α → List Chars
  | [] => []
  | a :: as => tokens a ++ as.flatMap fun a => [','] :: tokens a

def numbers (ns : Ints) : List Chars := listed (fun n => [n.repr.toList]) ns

/-- Without an index there are no brackets. -/
def fieldTokens (f : String × Ints) : List Chars :=
  f.1.toList :: if f.2 = [] then [] else ['('] :: numbers f.2 ++ [[')']]

def Grid.tokens : Grid → List Chars
  | .dimensions n => [n.repr.toList, ['D']]
  | .extents ns => numbers ns

def Parsed.tokens (p : Parsed) : List Chars :=
  listed fieldTokens p.fields ++ [':'] :: p.dtype.toList :: ['['] :: (p.grid.tokens ++ [[']']])

theorem span_append {p : Char → Bool} (hw : ∀ c ∈ w, p c = true) (hr : ∀ c ∈ r.head?, p c = false) :
    (w ++ r).takeWhile p = w ∧ (w ++ r).dropWhile p = r := by
  rw [takeWhile_append_of_pos hw, dropWhile_append_of_pos hw]
  cases r <;> simp_all

theorem Blank.skipBlanks_eq (h : Blank cs) :
    skipBlanks cs = [] := by simpa [skipBlanks, Blank] using h

namespace Spaced

theorem split (h : Spaced (ts ++ t :: us) cs) :
    ∃ a b, cs = a ++ (t ++ b) ∧ Spaced ts a ∧ Spaced us b := by
  induction ts generalizing cs with
  | nil =>
    obtain ⟨l, r, hl, rfl, h⟩ := h
    exact ⟨l, r, rfl, hl, h⟩
  | cons u ts ih =>
    obtain ⟨l, r, hl, rfl, h⟩ := h
    obtain ⟨a, b, rfl, ha, hb⟩ := ih h
    exact ⟨l ++ (u ++ a), b, by simp, ⟨l, a, hl, rfl, ha⟩, hb⟩

theorem notMem (h : Spaced ts cs) (hc : c.isWhitespace = false) (hts : ∀ t ∈ ts, c ∉ t) :
    c ∉ cs := by
  have hblank : ∀ {l}, Blank l → c ∉ l := fun hl h => by simp [hl c h] at hc
  induction ts generalizing cs with
  | nil => exact hblank h
  | cons t ts ih =>
    obtain ⟨l, r, hl, rfl, h⟩ := h
    simp_all

theorem skip (h : Spaced ((c :: t) :: ts) cs) (hc : c.isWhitespace = false) :
    ∃ r, Spaced ts r ∧ skipBlanks cs = c :: (t ++ r) := by
  obtain ⟨l, r, hl, rfl, h⟩ := h
  exact ⟨r, h, (span_append hl (by simpa using hc)).2⟩

theorem splitOn (h : Spaced (ts ++ [c] :: us) cs) (hc : c.isWhitespace = false)
    (hts : ∀ t ∈ ts, c ∉ t) :
    ∃ a b, Spaced ts a ∧ Spaced us b ∧ cs.splitOn c = a :: b.splitOn c := by
  obtain ⟨a, b, rfl, ha, hb⟩ := h.split
  exact ⟨a, b, ha, hb, splitOn_append_cons_self_of_not_mem (ha.notMem hc hts) b⟩

theorem blank_append (hl : Blank l) (h : Spaced ts cs) : Spaced ts (l ++ cs) := by
  cases ts with
  | nil => exact forall_mem_append.2 ⟨hl, h⟩
  | cons t ts =>
    obtain ⟨a, r, ha, rfl, h⟩ := h
    exact ⟨l ++ a, r, forall_mem_append.2 ⟨hl, ha⟩, by simp, h⟩

end Spaced

theorem notMem_listed {α : Type} {tokens : α → List Chars} {as : List α} (hc : c ≠ ',')
    (has : ∀ a ∈ as, ∀ t ∈ tokens a, c ∉ t) : ∀ t ∈ listed tokens as, c ∉ t := by
  cases as <;> grind [listed]

theorem notMem_numbers (hc : (c.isDigit || c == '-' || c == ',') = false) (ns : Ints) :
    ∀ t ∈ numbers ns, c ∉ t := by
  simp at hc
  exact notMem_listed hc.2 (by simp [notMem_repr hc.1.1 hc.1.2])

/-! ### Integers -/

theorem isWord_of_isWhitespace (hc : c.isWhitespace = true) : isWord c = false := by
  simp only [Char.isWhitespace, Bool.or_eq_true, decide_eq_true_eq] at hc
  obtain ((rfl | rfl) | rfl) | rfl := hc <;> rfl

theorem isWhitespace_of_mem_repr (hc : c ∈ i.repr.toList) : c.isWhitespace = false := by
  by_contra h
  have hword := isWord_of_isWhitespace (by simpa using h)
  have hsign : c ≠ '-' := by
    rintro rfl
    simp at h
  exact notMem_repr (by simp_all [isWord, Char.isAlphanum]) hsign i hc

theorem Spaced.readChars_eq (h : Spaced [i.repr.toList] cs) : readChars cs = some i := by
  obtain ⟨l, r, hl, rfl, hr⟩ := h
  have hne := repr_ne_empty (i := i)
  have htrim : trim (l ++ (i.repr.toList ++ r)) = i.repr.toList := by
    have hend : ∀ c ∈ i.repr.toList.reverse.head?, c.isWhitespace = false :=
      fun c hc => isWhitespace_of_mem_repr (mem_reverse.1 (mem_of_mem_head? hc))
    have hstart : ∀ c ∈ (i.repr.toList ++ r).head?, c.isWhitespace = false :=
      fun c hc => isWhitespace_of_mem_repr (i := i) (mem_of_mem_head? (by simp_all))
    have hblank : ∀ c ∈ r.reverse, c.isWhitespace = true := fun c hc => hr c (mem_reverse.1 hc)
    rw [trim, (span_append hl hstart).2, reverse_append, (span_append hblank hend).2,
      reverse_reverse]
  have hdigits : ∀ k, readDigits (Nat.toDigits 10 k) true 0 = some k := fun k => by
    rw [readDigits_eq isDigit_of_mem_toDigits (.inl Nat.toDigits_ne_nil),
      Nat.ofDigitChars_ten_toDigits]
  rw [readChars, htrim, Int.repr_eq_if]
  by_cases hi : 0 ≤ i
  · have hsign := isDigit_of_mem_toDigits (n := i.toNat)
    simp only [if_pos hi, Nat.toList_repr]
    split <;> simp_all
  · simp [if_neg hi, hdigits]
    omega

theorem Spaced.integers_eq (h : Spaced (numbers (i :: is)) cs) : integers cs = .ok (i :: is) := by
  have hcomma : ∀ i : Int, ∀ t ∈ [i.repr.toList], ',' ∉ t := fun i => by simp [notMem_repr]
  rw [integers, Outcome.mapM_eq_ok]
  induction is generalizing cs i with
  | nil =>
    rw [splitOn_eq_singleton (h.notMem rfl (hcomma i))]
    exact .cons (by rw [h.readChars_eq]) .nil
  | cons j is ih =>
    have h : Spaced ([i.repr.toList] ++ [','] :: numbers (j :: is)) cs := h
    obtain ⟨a, b, ha, hb, hsplit⟩ := h.splitOn rfl (hcomma i)
    rw [hsplit]
    exact .cons (by rw [ha.readChars_eq]) (ih hb)

theorem spaced_intercalate (hl : Blank l) (is : Ints) :
    Spaced (numbers is) ((',' :: l).intercalate (is.map (·.repr.toList))) := by
  have hnil : Blank [] := by simp [Blank]
  rcases is with _ | ⟨i, is⟩
  · exact hnil
  induction is generalizing i with
  | nil => exact ⟨[], [], hnil, by simp, hnil⟩
  | cons j is ih => exact ⟨[], _, hnil, by simp, [], _, hnil, rfl, (ih j).blank_append hl⟩

/-- A list of integers can be read back. -/
theorem intercalate_repr_injective (hl : Blank l) (hlen : is.length = js.length)
    (h : (',' :: l).intercalate (is.map (·.repr.toList)) =
      (',' :: l).intercalate (js.map (·.repr.toList))) : is = js := by
  have hread : ∀ {is}, is ≠ [] → integers ((',' :: l).intercalate (is.map (·.repr.toList))) =
    .ok is := fun {is} his => by
    obtain ⟨i, is, rfl⟩ := exists_cons_of_ne_nil his
    exact (spaced_intercalate hl (i :: is)).integers_eq
  rcases eq_or_ne is [] with rfl | his
  · simpa using hlen.symm
  · have hjs := hread (length_pos_iff.1 (hlen ▸ length_pos_iff.2 his))
    rw [← h, hread his] at hjs
    exact Except.ok.inj hjs

/-! ### Words and brackets -/

def IsName (s : String) : Prop := s ≠ "" ∧ ∀ c ∈ s.toList, isWord c = true

/-- A word is read up to the next token. -/
theorem Spaced.word (hs : IsName s) (h : Spaced (s.toList :: ts) cs)
    (hts : ∀ t ∈ ts.head?, ∃ d, t = [d] ∧ isWord d = false) :
    (skipBlanks cs).takeWhile isWord = s.toList ∧ Spaced ts ((skipBlanks cs).dropWhile isWord) := by
  obtain ⟨c, t, hword⟩ := exists_cons_of_ne_nil (mt String.toList_eq_nil_iff.1 hs.1)
  have hc : c.isWhitespace = false := by
    by_contra h
    have := hs.2 c (by simp [hword])
    simp [isWord_of_isWhitespace (by simpa using h)] at this
  rw [hword] at h
  obtain ⟨r, hr, hskip⟩ := h.skip hc
  have hhead : ∀ c ∈ r.head?, isWord c = false := fun c hc => by
    cases ts with
    | nil => exact isWord_of_isWhitespace (hr c (mem_of_mem_head? hc))
    | cons t ts =>
      obtain ⟨l, r, hl, rfl, -⟩ := hr
      obtain ⟨d, rfl, hd⟩ := hts t rfl
      cases l <;> simp_all [Blank, isWord_of_isWhitespace]
  obtain ⟨htake, hdrop⟩ := span_append hs.2 hhead
  rw [hskip, ← cons_append, ← hword, hdrop]
  exact ⟨htake, hr⟩

/-- What stands in brackets starts with a number. -/
theorem Spaced.bracketed_eq {a b : Char} (ha : a.isWhitespace = false) (hb : b.isWhitespace = false)
    (hus : ∀ t ∈ i.repr.toList :: us, b ∉ t)
    (h : Spaced ([a] :: (i.repr.toList :: us ++ [b] :: ts)) cs) :
    ∃ body r, Spaced (i.repr.toList :: us) body ∧ Spaced ts r ∧
      bracketed a b (skipBlanks cs) = some (body, r) := by
  obtain ⟨r, h, hskip⟩ := h.skip ha
  obtain ⟨body, r, rfl, hbody, hr⟩ := h.split
  have hclose : ∀ c ∈ body, (c != b) = true :=
    fun c hc => by simpa using ne_of_mem_of_not_mem hc (hbody.notMem hb hus)
  obtain ⟨htake, hdrop⟩ := span_append (r := b :: r) hclose (by simp)
  have hne : body ≠ [] := by
    obtain ⟨_, _, -, rfl, -⟩ := hbody
    simp [repr_ne_empty]
  exact ⟨body, r, hbody, hr, by simp [hskip, bracketed, htake, hdrop, hne]⟩

/-! ### Declarations -/

variable {f : String × Ints} {fs : List (String × Ints)} {g : Grid} {p : Parsed}

/-- One declaration is read, up to the comma behind it. -/
theorem names_field (hf : IsName f.1) (hts : ts = [] ∨ ∃ us, ts = [','] :: us)
    (h : Spaced (fieldTokens f ++ ts) cs) :
    ∃ r, Spaced ts r ∧ names (k + 1) cs = do return f :: (← names k (skipComma r)) := by
  obtain ⟨name, _ | ⟨i, is⟩⟩ := f
  · obtain ⟨htake, hr⟩ := Spaced.word hf h (by obtain rfl | ⟨us, rfl⟩ := hts <;> simp; rfl)
    have hnone : bracketed '(' ')' (skipBlanks ((skipBlanks cs).dropWhile isWord)) = none := by
      obtain rfl | ⟨us, rfl⟩ := hts
      · rw [Blank.skipBlanks_eq hr]
        rfl
      · obtain ⟨r, -, hskip⟩ := hr.skip rfl
        rw [hskip]
        rfl
    refine ⟨_, hr, ?_⟩
    rw [names]
    simp only [htake, hnone]
    simp [hf.1]
  · have h : Spaced (name.toList :: ['('] :: (numbers (i :: is) ++ [')'] :: ts)) cs :=
      by simpa [fieldTokens] using h
    obtain ⟨htake, hr⟩ := h.word hf (by simp; rfl)
    obtain ⟨body, r, hbody, hr, hread⟩ :=
      Spaced.bracketed_eq rfl rfl (notMem_numbers rfl (i :: is)) hr
    refine ⟨r, hr, ?_⟩
    rw [names]
    simp only [htake, hread, hbody.integers_eq]
    simp [hf.1]
    rfl

theorem names_fields (hfs : ∀ g ∈ f :: fs, IsName g.1)
    (h : Spaced (listed fieldTokens (f :: fs)) cs) (hk : fs.length < k) :
    names k cs = .ok (f :: fs) := by
  obtain ⟨k, rfl⟩ := Nat.exists_eq_add_of_le' (Nat.one_le_of_lt hk)
  induction fs generalizing f cs k with
  | nil =>
    obtain ⟨r, hr, hread⟩ := names_field (k := k) (hfs f mem_cons_self) (.inl rfl) h
    have hdone : names k [] = .ok [] := by cases k <;> rfl
    simp [hread, skipComma, Blank.skipBlanks_eq hr, hdone]
  | cons g fs ih =>
    obtain ⟨hf, hfs⟩ := forall_mem_cons.1 hfs
    obtain ⟨r, hr, hread⟩ := names_field (k := k) hf (.inr ⟨_, rfl⟩) h
    obtain ⟨r, hr, hskip⟩ := hr.skip rfl
    obtain ⟨k, rfl⟩ := Nat.exists_eq_add_of_le' (Nat.one_le_of_lt (Nat.lt_of_succ_lt_succ hk))
    have hrest := ih hfs hr k (by simpa using hk)
    simp [hread, skipComma, hskip, hrest]

/-- The text is long enough to try every declaration in it. -/
theorem Spaced.length_le (h : Spaced (ts ++ fs.flatMap fun f => [','] :: fieldTokens f) cs) :
    fs.length ≤ cs.length := by
  induction fs generalizing ts cs with
  | nil => simp
  | cons f fs ih =>
    obtain ⟨a, b, rfl, -, hb⟩ := h.split
    have hb := ih hb
    simp
    omega

/-! ### Descriptions -/

theorem grid_eq (hs : IsName s) (hlower : s.toLower = s) (hg : g ≠ .extents [])
    (h : Spaced (s.toList :: ['['] :: (g.tokens ++ [[']']])) cs) : grid cs = .ok (s, g) := by
  obtain ⟨htake, hr⟩ := Spaced.word hs h (by simp; rfl)
  rw [grid]
  rcases g with n | _ | ⟨n, is⟩
  · obtain ⟨body, r, hbody, -, hread⟩ := Spaced.bracketed_eq rfl rfl (by simp [notMem_repr]) hr
    have hbody : Spaced ([n.repr.toList] ++ [['D']]) body := hbody
    obtain ⟨a, b, rfl, ha, hb⟩ := hbody.split
    have hblank : ∀ c ∈ b.reverse, c.isWhitespace = true := fun c hc => hb c (mem_reverse.1 hc)
    have hskip : skipBlanks (a ++ (['D'] ++ b)).reverse = 'D' :: a.reverse := by
      simpa [skipBlanks] using (span_append (r := 'D' :: a.reverse) hblank (by simp)).2
    simp only [htake, hread, hskip, reverse_reverse, ha.readChars_eq]
    simp [hlower, hs.1]
  · exact absurd rfl hg
  · obtain ⟨body, r, hbody, -, hread⟩ := Spaced.bracketed_eq rfl rfl
      (notMem_numbers rfl (n :: is)) hr
    -- extents do not end like a number of dimensions
    have hend : ∀ c ∈ ['d', 'D'], ∀ r, skipBlanks body.reverse ≠ c :: r := fun c hc r h => by
      have hmem : c ∈ body := mem_reverse.1 ((dropWhile_sublist _).mem (h ▸ mem_cons_self))
      revert hmem
      simp at hc
      obtain rfl | rfl := hc <;> exact hbody.notMem rfl (notMem_numbers rfl (n :: is))
    simp only [htake, hread]
    split <;> simp_all [hbody.integers_eq, hs.1]

/-- What a description can say. -/
structure Parsed.IsDescribed (p : Parsed) : Prop where
  fields_ne_nil : p.fields ≠ []
  isName : ∀ f ∈ p.fields, IsName f.1
  isName_dtype : IsName p.dtype
  toLower_dtype : p.dtype.toLower = p.dtype
  grid_ne : p.grid ≠ .extents []

/-- What is described is read back. -/
theorem parse_of_spaced (hp : p.IsDescribed) (h : Spaced p.tokens s.toList) : parse s = .ok p := by
  obtain ⟨fs, dtype, g⟩ := p
  obtain ⟨hne, hnames, hs, hlower, hg⟩ := hp
  have hname : ∀ {s}, IsName s → ':' ∉ s.toList := fun hs h => absurd (hs.2 _ h) (by decide)
  have hfields : ∀ t ∈ listed fieldTokens fs, ':' ∉ t := notMem_listed (by decide) fun f hf => by
    have hindex := notMem_numbers (c := ':') rfl f.2
    grind [fieldTokens]
  have hsizes : ∀ t ∈ g.tokens, ':' ∉ t := by
    cases g with
    | dimensions n => simp [Grid.tokens, notMem_repr]
    | extents ns => exact notMem_numbers rfl ns
  obtain ⟨a, b, ha, hb, hsplit⟩ := Spaced.splitOn h rfl hfields
  rw [splitOn_eq_singleton (hb.notMem rfl (by grind))] at hsplit
  have hgrid := grid_eq hs hlower hg hb
  have hright : b ≠ [] := by
    rintro rfl
    cases hgrid
  obtain ⟨f, fs, rfl⟩ := exists_cons_of_ne_nil hne
  have hread := names_fields hnames ha (Nat.lt_succ_of_le (Spaced.length_le ha))
  simp [parse, hsplit, hread, hgrid, hright]

/-- Two fields, one of them with an index. -/
theorem parse_of_spaced_two : parse "f( 3,2) ,g : double[2D]" =
    .ok ⟨[("f", [3, 2]), ("g", [])], "double", .dimensions 2⟩ := by
  have hnone : Blank [] := by simp [Blank]
  have hone : Blank [' '] := by simp [Blank]
  refine parse_of_spaced ⟨by simp, by simp [IsName]; decide, by simp [IsName]; decide, by simp [String.toLower, ← String.toList_inj], by simp⟩ ?_
  exact ⟨[], _, hnone, rfl, [], _, hnone, rfl, [' '], _, hone, rfl, [], _, hnone, rfl, [], _, hnone,
    rfl, [], _, hnone, rfl,
    [' '], _, hone, rfl, [], _, hnone, rfl, [' '], _, hone, rfl, [' '], _, hone, rfl,
    [], _, hnone, rfl, [], _, hnone, rfl,
    [], _, hnone, rfl, [], _, hnone, rfl, hnone⟩

end FieldDescription
end StencilForge
