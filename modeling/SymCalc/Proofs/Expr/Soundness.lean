import SymCalc.Proofs.Expr.Completeness

/-!
# What is read is derived

**Theorem (`parse_correct`).** Reading a text gives the expression that the grammar derives from
it, and fails if there is none within the nesting that is allowed.

* `Sound` — what a reader takes off the front of a text is derived as its part.
* `sound_signed`, `sound_chain` and `sound_atom` — readers are sound if those they are made of are.
  A chain is sound because each operation that is taken extends what has been derived
  (`sound_extend`); an atom uses up a level of nesting, so `sound_expression` is an induction over
  the levels.

The other direction is `Derives.reads`. That a text has only one meaning needs no argument of its
own: both meanings would be read, and reading gives one result (`Derives.unique`).
-/

namespace SymCalc

open Text SymCalc.Expr Reader

theorem BinaryOp.symbol_of_ofSymbol? {c : Char} {op : BinaryOp} (h : ofSymbol? c = some op) :
    op.symbol = c := by
  unfold ofSymbol? at h
  split at h <;> cases h <;> rfl

/-- What stands in `s` before `rest` is derived as `e`, within `L` levels of parentheses. -/
def DerivedFrom (s rest : List Char) (L : ℕ) (p : Part) (e : Expr) : Prop :=
  ∃ w n, s = w ++ rest ∧ n ≤ L ∧ Derives Unsigned p n w e

/-- What the reader takes off a text is derived. -/
def Sound (L : ℕ) (p : Part) (reader : Reader Expr) : Prop :=
  ∀ s r, reader s = .ok r → DerivedFrom s r.rest L p r.value

section

variable {L : ℕ} {p : Part} {c : Level} {lead operand : Reader Expr} {s t rest : List Char}
  {e l r : Expr}

/-! ## Chains and signs -/

theorem DerivedFrom.first (h : DerivedFrom s rest L c.first e) :
    DerivedFrom s rest L (.chain c) e := by
  obtain ⟨w, n, hs, hn, hd⟩ := h
  exact ⟨w, n, hs, hn, .first hd⟩

theorem DerivedFrom.next {op : BinaryOp} (hop : op.precedence = c.precedence)
    (hl : DerivedFrom s (op.symbol :: t) L (.chain c) l) (hr : DerivedFrom t rest L c.operand r) :
    DerivedFrom s rest L (.chain c) (binary op l r) := by
  obtain ⟨w, m, rfl, hm, hdl⟩ := hl
  obtain ⟨v, n, rfl, hn, hdr⟩ := hr
  exact ⟨w ++ op.symbol :: v, max m n, by simp, max_le hm hn, .next hop hdl hdr⟩

theorem DerivedFrom.bare (hs : Unsigned s) (h : DerivedFrom s rest L p e) :
    DerivedFrom s rest L (.signed p) e := by
  obtain ⟨w, n, rfl, hn, hd⟩ := h
  refine ⟨w, n, rfl, hn, .bare ?_ hd⟩
  obtain ⟨a, t, rfl⟩ := List.exists_cons_of_ne_nil hd.ne_nil
  exact hs

theorem DerivedFrom.sign (op : UnaryOp) (h : DerivedFrom t rest L p e) :
    DerivedFrom (op.symbol :: t) rest L (.signed p) (unary op e) := by
  obtain ⟨w, n, rfl, hn, hd⟩ := h
  exact ⟨op.symbol :: w, n, rfl, hn, .sign op hd⟩

theorem sound_signed (h : Sound L p operand) : Sound L (.signed p) (Reader.signed operand) := by
  intro s r hr
  by_cases hs : Unsigned s
  · rw [signed_of_unsigned hs] at hr
    exact (h s r hr).bare hs
  · obtain ⟨op, t, rfl⟩ := exists_of_not_unsigned hs
    rw [signed_symbol] at hr
    obtain ⟨r', hr', heq⟩ := bind_eq_ok.mp hr
    cases heq
    exact (h t r' hr').sign op

/-- Every operation that is taken extends what is derived. -/
theorem sound_extend (hoperand : Sound L c.operand operand) (left : Reading Expr s)
    {r : Reading Expr s} (hr : extend c.precedence operand left = .ok r)
    (hleft : DerivedFrom s left.rest L (.chain c) left.value) :
    DerivedFrom s r.rest L (.chain c) r.value := by
  fun_induction Reader.extend c.precedence operand left with
  | case1 left h =>
    cases hr
    exact hleft
  | case2 left a t h hnone =>
    cases hr
    exact hleft
  | case3 left a t h op hop e he => cases hr
  | case4 left a t h op hop right hright ih =>
    apply ih hr
    obtain ⟨hop, hprec⟩ := Option.filter_eq_some_iff.mp hop
    rw [h, ← BinaryOp.symbol_of_ofSymbol? hop] at hleft
    exact hleft.next (of_decide_eq_true hprec) (hoperand t right hright)

theorem sound_chain (hlead : Sound L c.first lead) (hoperand : Sound L c.operand operand) :
    Sound L (.chain c) (Reader.chain c.precedence lead operand) := by
  intro s r hr
  obtain ⟨left, hleft, hr⟩ := bind_eq_ok.mp hr
  exact sound_extend hoperand left hr (hlead s left hleft).first

/-! ## Atoms -/

theorem DerivedFrom.group (h : DerivedFrom s (')' :: rest) L (.chain .sum) e) :
    DerivedFrom ('(' :: s) rest (L + 1) .atom e := by
  obtain ⟨w, n, rfl, hn, hd⟩ := h
  exact ⟨_, n + 1, by simp, Nat.succ_le_succ hn, .group hd⟩

theorem DerivedFrom.call {name : String} (hname : ProperName name) (hlog : name ≠ "log")
    (h : DerivedFrom s (')' :: rest) L (.chain .sum) e) :
    DerivedFrom (name.toList ++ '(' :: s) rest (L + 1) .atom (call name none e) := by
  obtain ⟨w, n, rfl, hn, hd⟩ := h
  exact ⟨_, n + 1, by simp, Nat.succ_le_succ hn, .call hname hlog hd⟩

theorem DerivedFrom.log {ds : List Char} (hds : ∀ c ∈ ds, isAsciiDigit c) (hne : ds ≠ [])
    (hlimit : ds.length ≤ digitLimit) (hs : s = ds ++ ',' :: t)
    (h : DerivedFrom t (')' :: rest) L (.chain .sum) e) :
    DerivedFrom ("log".toList ++ '(' :: s) rest (L + 1) .atom
      (Expr.call "log" (some (natOfDigits ds)) e) := by
  obtain ⟨w, n, rfl, hn, hd⟩ := h
  refine ⟨_, n + 1, ?_, Nat.succ_le_succ hn, .log hds hne hlimit hd⟩
  simp [hs]

theorem close_eq_ok {α : Type} {a b : Reading α s} {cause : ParseError.Cause}
    (h : a.close cause = .ok b) : a.rest = ')' :: b.rest ∧ a.value = b.value := by
  rw [Reading.close] at h
  split at h
  · rename_i t ht
    cases h
    exact ⟨ht, rfl⟩
  · cases h

theorem number_eq_ok {a : Char} {ha : isAsciiDigit a || a == '.'} {b : Reading Expr (a :: t)}
    (h : Reader.number a t ha = .ok b) : DerivedFrom (a :: t) b.rest L .atom b.value := by
  rw [Reader.number] at h
  split at h
  · rename_i d hd
    cases h
    exact ⟨_, 0, List.takeWhile_append_dropWhile.symm, Nat.zero_le L,
      .number (Numeral.literal?_eq_some_iff.mp hd)⟩
  · cases h

theorem logBase_eq_ok {b : Reading ℤ s} (h : logBase s = .ok b) :
    ∃ ds, (∀ c ∈ ds, isAsciiDigit c) ∧ ds ≠ [] ∧ ds.length ≤ digitLimit ∧
      s = ds ++ ',' :: b.rest ∧ b.value = natOfDigits ds := by
  have hds : ∀ c ∈ s.takeWhile isAsciiDigit, isAsciiDigit c := forall_mem_takeWhile s
  rw [logBase, Numeral.readDigits_eq hds] at h
  by_cases hne : s.takeWhile isAsciiDigit = []
  · rw [if_pos hne] at h
    cases h
  rw [if_neg hne] at h
  by_cases hlimit : digitLimit < (s.takeWhile isAsciiDigit).length
  · rw [if_pos hlimit] at h
    cases h
  rw [if_neg hlimit] at h
  dsimp only at h
  split at h
  · rename_i u hu
    cases h
    refine ⟨_, hds, hne, not_lt.mp hlimit, ?_, rfl⟩
    rw [← hu, List.takeWhile_append_dropWhile]
  · cases h

theorem enter_eq_ok {nested : Nested} {read : Reader Expr → Reader Expr} {b : Reading Expr s}
    (h : enter nested read s = .ok b) : ∃ inside, nested = .ok inside ∧ read inside s = .ok b := by
  cases nested with
  | ok inside => exact ⟨inside, rfl, h⟩
  | error cause => cases h

theorem sound_arguments {inside : Reader Expr} (hinside : Sound L (.chain .sum) inside)
    {name : String} (hname : ProperName name) {b : Reading Expr s}
    (h : arguments name inside s = .ok b) :
    DerivedFrom (name.toList ++ '(' :: s) b.rest (L + 1) .atom b.value := by
  rw [arguments] at h
  by_cases hlog : name = "log"
  · subst hlog
    rw [if_pos rfl] at h
    obtain ⟨base, hbase, h⟩ := bind_eq_ok.mp h
    obtain ⟨argument, hargument, h⟩ := bind_eq_ok.mp h
    obtain ⟨ds, hds, hne, hlimit, hs, hvalue⟩ := logBase_eq_ok hbase
    obtain ⟨hrest, hclose⟩ := close_eq_ok h
    have hd := hinside _ _ hargument
    rw [show argument.rest = _ from hrest] at hd
    rw [← hclose]
    show DerivedFrom _ _ _ _ (Expr.call "log" (some base.value) argument.value)
    rw [hvalue]
    exact hd.log hds hne hlimit hs
  · rw [if_neg hlog] at h
    obtain ⟨argument, hargument, h⟩ := bind_eq_ok.mp h
    obtain ⟨hrest, hclose⟩ := close_eq_ok h
    have hd := hinside _ _ hargument
    rw [show argument.rest = _ from hrest] at hd
    rw [← hclose]
    exact hd.call hname hlog

/-- What is read inside parentheses is derived, with one level less. -/
def SoundInside (L : ℕ) (nested : Nested) : Prop :=
  ∀ inside, nested = .ok inside → ∃ M, L = M + 1 ∧ Sound M (.chain .sum) inside

theorem sound_group {nested : Nested} (hnested : SoundInside L nested) {b : Reading Expr s}
    (h : enter nested (fun inside s => do (← inside s).close .unclosedGroup) s = .ok b) :
    DerivedFrom ('(' :: s) b.rest L .atom b.value := by
  obtain ⟨inside, hinside, h⟩ := enter_eq_ok h
  obtain ⟨M, rfl, hsound⟩ := hnested inside hinside
  obtain ⟨a, ha, hclose⟩ := bind_eq_ok.mp h
  obtain ⟨hrest, hvalue⟩ := close_eq_ok hclose
  have hd := hsound s a ha
  rw [hrest, hvalue] at hd
  exact hd.group

theorem sound_named {nested : Nested} (hnested : SoundInside L nested) {name : String}
    (hname : ProperName name) {b : Reading Expr s} (h : enter nested (arguments name) s = .ok b) :
    DerivedFrom (name.toList ++ '(' :: s) b.rest L .atom b.value := by
  obtain ⟨inside, hinside, h⟩ := enter_eq_ok h
  obtain ⟨M, rfl, hsound⟩ := hnested inside hinside
  exact sound_arguments hsound hname h

theorem properName_takeWhile {a : Char} (ha : isAsciiLetter a) (hx : a ≠ 'x') :
    ProperName (String.ofList ((a :: t).takeWhile isAsciiLetter)) where
  ne_nil := by simp [ha]
  letters := by simpa using forall_mem_takeWhile (a :: t)
  head_ne := by simp [ha, hx]

theorem sound_atom {nested : Nested} (hnested : SoundInside L nested) :
    Sound L .atom (Reader.atom nested) := by
  intro s r hr
  cases s with
  | nil => cases hr
  | cons a t =>
    rw [Reader.atom] at hr
    by_cases hnumeral : isAsciiDigit a || a == '.'
    · rw [dif_pos hnumeral] at hr
      exact number_eq_ok hr
    rw [dif_neg hnumeral] at hr
    by_cases hx : a = 'x'
    · rw [if_pos hx] at hr
      cases hr
      exact ⟨['x'], 0, by rw [hx]; rfl, Nat.zero_le L, .var⟩
    rw [if_neg hx] at hr
    by_cases hopen : a = '('
    · rw [if_pos hopen] at hr
      obtain ⟨b, hb, heq⟩ := bind_eq_ok.mp hr
      cases heq
      rw [hopen]
      exact sound_group hnested hb
    rw [if_neg hopen] at hr
    by_cases hletter : isAsciiLetter a
    · rw [dif_pos hletter] at hr
      split at hr
      · rename_i u after
        obtain ⟨b, hb, heq⟩ := bind_eq_ok.mp hr
        cases heq
        have hd := sound_named hnested (properName_takeWhile hletter hx) hb
        rw [String.toList_ofList, ← after, List.takeWhile_append_dropWhile] at hd
        exact hd
      · cases hr
    · rw [dif_neg hletter] at hr
      cases hr

/-! ## All parts -/

theorem sound_reader {nested : Nested} (hatom : Sound L .atom (Reader.atom nested)) (p : Part) :
    Sound L p (p.reader nested) := by
  have hprimary (sign : Bool) : Sound L (.primary sign) ((Part.primary sign).reader nested) := by
    cases sign with
    | true => exact sound_signed hatom
    | false => exact hatom
  have hpower (sign : Bool) : Sound L (.chain (.power sign)) (Reader.power nested sign) := by
    have := sound_chain (c := .power sign) (hprimary sign) (sound_signed (hprimary true))
    rwa [reader_primary, reader_primary] at this
  have hterm (sign : Bool) : Sound L (.chain (.term sign)) (Reader.term nested sign) :=
    sound_chain (c := .term sign) (hpower sign) (sound_signed (hpower true))
  induction p with
  | chain c =>
    cases c with
    | sum => exact sound_chain (c := .sum) (sound_signed (hterm true)) (sound_signed (hterm false))
    | term sign => exact hterm sign
    | power sign => exact hpower sign
  | signed p ih => exact sound_signed ih
  | atom => exact hatom

theorem sound_expression (limit : ℤ) (L : ℕ) :
    Sound L (.chain .sum) (expression limit L) := by
  induction L with
  | zero =>
    have hnested : SoundInside 0 (nested limit 0) := by
      intro inside hinside
      cases hinside
    rw [expression_eq]
    exact sound_reader (sound_atom hnested) _
  | succ L ih =>
    have hnested : SoundInside (L + 1) (nested limit (L + 1)) := by
      intro inside hinside
      cases hinside
      exact ⟨L, rfl, ih⟩
    rw [expression_eq]
    exact sound_reader (sound_atom hnested) _

end

/-! ## Whole texts -/

theorem Derives.unique {p : Part} {m n : ℕ} {w : List Char} {e e' : Expr}
    (h : Derives Unsigned p m w e) (h' : Derives Unsigned p n w e') : e = e' := by
  obtain ⟨_, heq⟩ := (h.reads 0 (max m n) [] trivial).1 (le_max_left m n)
  obtain ⟨_, heq'⟩ := (h'.reads 0 (max m n) [] trivial).1 (le_max_right m n)
  cases heq.symm.trans heq'
  rfl

theorem parseChars_of_derives {L n : ℕ} {w : List Char} {e : Expr}
    (h : Derives Unsigned (.chain .sum) n w e) (hn : n ≤ L) : parseChars L w = .ok e := by
  have hread := h.reads L L [] trivial
  rw [← expression_eq, List.append_nil] at hread
  obtain ⟨hlt, heq⟩ := hread.1 hn
  rw [parseChars, Int.toNat_natCast, heq]
  rfl

/-- **Text that nests too deep is refused for that reason.** -/
theorem parseChars_of_nestedTooDeep {L n : ℕ} {w : List Char} {e : Expr}
    (h : Derives Unsigned (.chain .sum) n w e) (hn : L < n) :
    ∃ position, parseChars L w = .error (.parse ⟨.nestedTooDeep L, position, none⟩) := by
  have hread := h.reads L L [] trivial
  rw [← expression_eq, List.append_nil] at hread
  obtain ⟨t, heq⟩ := hread.2 hn
  rw [parseChars, Int.toNat_natCast, heq]
  exact ⟨_, rfl⟩

theorem derives_of_parseChars {limit : ℤ} {w : List Char} {e : Expr}
    (h : parseChars limit w = .ok e) :
    ∃ n ≤ limit.toNat, Derives Unsigned (.chain .sum) n w e := by
  rw [parseChars] at h
  cases hr : expression limit limit.toNat w with
  | error stop =>
    rw [hr] at h
    cases h
  | ok r =>
    rw [hr] at h
    dsimp only at h
    split_ifs at h with hrest
    cases h
    obtain ⟨v, n, hw, hn, hd⟩ := sound_expression limit limit.toNat w r hr
    rw [hrest, List.append_nil] at hw
    exact ⟨n, hn, hw ▸ hd⟩

theorem parse_eq_ok_iff {L : ℕ} {text : String} {e : Expr} :
    Expr.parse L text = .ok e ↔
      ∃ n ≤ L, Derives Unsigned (.chain .sum) n (withoutBlanks text) e :=
  ⟨derives_of_parseChars, fun ⟨_, hn, h⟩ => parseChars_of_derives h hn⟩

/-- **Reading an expression is deriving it.** What is read is the one expression that the text
derives when signs are taken wherever they stand; the texts that are read are those of the plain
grammar; and no constant in what is read is negative, and every call has a base exactly if it is a
logarithm. -/
theorem parse_correct (L : ℕ) (text : String) :
    (∀ e, Expr.parse L text = .ok e ↔
      ∃ n ≤ L, Derives Unsigned (.chain .sum) n (withoutBlanks text) e) ∧
    (∀ e e' m n, Derives Unsigned (.chain .sum) m (withoutBlanks text) e →
      Derives Unsigned (.chain .sum) n (withoutBlanks text) e' → e = e') ∧
    ((∃ e, Expr.parse L text = .ok e) ↔
      ∃ e, ∃ n ≤ L, Derives Anywhere (.chain .sum) n (withoutBlanks text) e) ∧
    (∀ e, Expr.parse L text = .ok e → e.Everywhere HasMagnitude ∧ e.Everywhere IsProperCall) := by
  refine ⟨?_, ?_, ⟨?_, ?_⟩, ?_⟩
  · intro e
    exact parse_eq_ok_iff
  · intro e e' m n h h'
    exact h.unique h'
  · rintro ⟨e, he⟩
    obtain ⟨n, hn, h⟩ := parse_eq_ok_iff.mp he
    exact ⟨e, n, hn, h.mono fun _ _ => trivial⟩
  · rintro ⟨e, n, hn, h⟩
    obtain ⟨e', h'⟩ := h.exists_unsigned
    exact ⟨e', parse_eq_ok_iff.mpr ⟨n, hn, h'⟩⟩
  · intro e he
    obtain ⟨n, hn, h⟩ := parse_eq_ok_iff.mp he
    exact ⟨h.hasMagnitude, h.isProperCall⟩

theorem derives_two : Derives Unsigned (.ofPrecedence 4) 0 ['2'] (number 2.0) := by
  have hdigit : ∀ c ∈ ['2'], isAsciiDigit c := List.forall_mem_singleton.mpr (by decide)
  have hvalue : Decimal.toFloat ⟨natOfDigits ['2'], 0⟩ = 2.0 := by
    rw [Decimal.toFloat, Decimal.trimZeros_of_not_dvd (by decide) (by decide)]
    rfl
  rw [← hvalue]
  exact .number (.whole hdigit (by decide))

theorem derives_negated_product :
    Derives Unsigned (.chain .sum) 0 ['-', 'x', '*', '2']
      (unary .negate (binary .mul var (number 2.0))) := by
  have hmul : BinaryOp.mul.precedence = (Level.term false).precedence := rfl
  have hx : Derives Unsigned (.chain (.term false)) 0 ['x'] var := .first (.first .var)
  have h2 : Derives Unsigned (Level.term false).operand 0 ['2'] (number 2.0) :=
    derives_two.operand (by decide)
  have h := Derives.next hmul hx h2
  exact .first (.sign .negate h.withSign)

/-- The sign before a product is read as the sign of the product. -/
theorem parse_negated_product :
    Expr.parse 0 "-x*2" = .ok (unary .negate (binary .mul var (number 2.0))) :=
  ((parse_correct 0 "-x*2").1 _).mpr ⟨0, le_rfl, derives_negated_product⟩

/-- **The plain grammar is ambiguous**, and only one of two meanings is read. -/
theorem anywhere_ambiguous :
    Derives Anywhere (.chain .sum) 0 (withoutBlanks "-x*2")
      (unary .negate (binary .mul var (number 2.0))) ∧
    Derives Anywhere (.chain .sum) 0 (withoutBlanks "-x*2")
      (binary .mul (unary .negate var) (number 2.0)) ∧
    Expr.parse 0 "-x*2" ≠ .ok (binary .mul (unary .negate var) (number 2.0)) := by
  refine ⟨derives_negated_product.mono fun _ _ => trivial, ?_, ?_⟩
  · have hmul : BinaryOp.mul.precedence = (Level.term true).precedence := rfl
    have hx : Derives Anywhere (.chain (.term true)) 0 ['-', 'x'] (unary .negate var) :=
      .first (.first (.sign .negate .var))
    have h2 : Derives Unsigned (Level.term true).operand 0 ['2'] (number 2.0) :=
      derives_two.operand (by decide)
    have h := Derives.next hmul hx (h2.mono fun _ _ => trivial)
    exact .first (.bare trivial h)
  · have h : Expr.parse 0 "-x*2" = .ok (unary .negate (binary .mul var (number 2.0))) :=
      parse_eq_ok_iff.mpr ⟨0, le_rfl, derives_negated_product⟩
    rw [h]
    nofun

end SymCalc
