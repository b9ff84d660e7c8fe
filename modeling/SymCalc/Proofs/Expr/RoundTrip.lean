import SymCalc.Proofs.Expr.Soundness

/-!
# Written expressions read back

**Theorem (`parse_render`).** What is written for a well-formed expression is read as the same
expression, with a sign before the magnitude of each negative constant. If its parentheses nest
deeper than allowed, reading fails for that reason and no other.

The proof is an induction over the expression. Its text is derived as the part that belongs to
its precedence (`WrittenAs`); an operand that does not hold together tightly enough is in
parentheses, and so an atom (`derives_grouped`).
-/

namespace SymCalc

open Double Text SymCalc.Expr

/-! ## Operands -/

/-- The level of an operation, where no sign is allowed if that can be. -/
theorem exists_level (op : BinaryOp) :
    ∃ c : Level, c.precedence = op.precedence ∧ Part.ofPrecedence op.precedence = .chain c := by
  cases op with
  | add => exact ⟨.sum, rfl, rfl⟩
  | sub => exact ⟨.sum, rfl, rfl⟩
  | mul => exact ⟨.term false, rfl, rfl⟩
  | div => exact ⟨.term false, rfl, rfl⟩
  | pow => exact ⟨.power false, rfl, rfl⟩

namespace Expr

/-- The precedence at which an expression is written. A constant below zero begins with a sign. -/
def writtenPrecedence (e : Expr) : ℕ :=
  if e.isNegative then 1 else e.precedence

theorem writtenPrecedence_of_nonnegative {e : Expr} (h : e.isNegative = false) :
    e.writtenPrecedence = e.precedence := by
  simp [writtenPrecedence, h]

theorem two_le_of_not_groupedBySign {e : Expr} (h : e.groupedBySign = false) :
    2 ≤ e.writtenPrecedence := by
  simp only [groupedBySign, Bool.or_eq_false_iff, decide_eq_false_iff_not] at h
  rw [writtenPrecedence_of_nonnegative h.2]
  omega

theorem le_of_not_groupedOnLeft {op : BinaryOp} {e : Expr} (h : groupedOnLeft op e = false) :
    op.precedence ≤ e.writtenPrecedence := by
  simp only [groupedOnLeft, Bool.or_eq_false_iff, decide_eq_false_iff_not] at h
  rw [writtenPrecedence_of_nonnegative h.2]
  omega

theorem lt_of_not_groupedOnRight {op : BinaryOp} {e : Expr} (h : groupedOnRight op e = false) :
    op.precedence < e.writtenPrecedence := by
  simp only [groupedOnRight, Bool.or_eq_false_iff, decide_eq_false_iff_not] at h
  rw [writtenPrecedence_of_nonnegative h.2]
  omega

end Expr

/-- An operand, in parentheses unless it holds together tightly enough. -/
theorem derives_grouped {e e' : Expr} {n k : ℕ} {grouping : Bool}
    (h : Derives Unsigned (.ofPrecedence e.writtenPrecedence) n e.render.toList e') (hk : k ≤ 4)
    (hgrouping : grouping = false → k ≤ e.writtenPrecedence) :
    ∃ m ≤ n + 1, Derives Unsigned (.ofPrecedence k) m (grouped e.render grouping).toList e' := by
  cases grouping with
  | true =>
    have hatom : Derives Unsigned (.ofPrecedence 4) _ ('(' :: (e.render.toList ++ [')'])) e' :=
      .group (h.loosen (Nat.zero_le _))
    refine ⟨n + 1, le_rfl, ?_⟩
    simpa [grouped] using hatom.loosen hk
  | false => exact ⟨n, Nat.le_succ n, h.loosen (hgrouping rfl)⟩

/-! ## Constants -/

theorem derives_const {c : Constant} (hfin : c.value.isFinite) :
    Derives Unsigned (.ofPrecedence (const c).writtenPrecedence) 0 (numberText c.value).toList
      (const c).canonical := by
  rw [numberText, String.toList_ofList, canonical, writtenPrecedence, isNegative]
  by_cases hneg : c.value < 0.0
  · obtain ⟨d, hd, hread⟩ := exists_denotes_chars_neg hfin hneg
    have h : Derives Unsigned (.ofPrecedence 4) 0 _ (number d.toFloat) := .number hd
    have h2 : Derives Unsigned (.chain (.term false)) 0 _ _ := h.loosen (Nat.le_add_right 2 2)
    rw [hread] at h2
    rw [chars_of_negative hfin hneg, if_pos (by simpa using hneg), if_pos hneg]
    exact .first (.sign .negate h2.withSign)
  · obtain ⟨d, hd, hread⟩ := exists_denotes_chars hfin hneg c.ne_negZero
    have h : Derives Unsigned .atom 0 _ (number d.toFloat) := .number hd
    rw [hread, number, Constant.ofFloat_value] at h
    rw [if_neg (by simpa using hneg), if_neg hneg]
    exact h

/-! ## Expressions -/

/-- What is written for `t` is derived as `e`, with less nesting than the depth of `t`. -/
def WrittenAs (t e : Expr) : Prop :=
  ∃ n < t.depth, Derives Unsigned (.ofPrecedence t.writtenPrecedence) n t.render.toList e

section

variable {e e' l l' r r' : Expr}

theorem writtenAs_unary (op : UnaryOp) (h : WrittenAs e e') :
    WrittenAs (unary op e) (unary op e') := by
  obtain ⟨n, hn, h⟩ := h
  obtain ⟨m, hm, h⟩ := derives_grouped h (Nat.le_add_right 2 2) two_le_of_not_groupedBySign
  refine ⟨m, by rw [depth]; omega, ?_⟩
  have htext : (unary op e).render.toList =
      op.symbol :: (grouped e.render e.groupedBySign).toList := by simp [render]
  rw [htext]
  exact .first (.sign op (Derives.withSign (c := .term false) h))

theorem writtenAs_binary (op : BinaryOp) (hl : WrittenAs l l') (hr : WrittenAs r r') :
    WrittenAs (binary op l r) (binary op l' r') := by
  obtain ⟨c, hc, hpart⟩ := exists_level op
  have hop : op.precedence ≤ 3 := by cases op <;> simp [BinaryOp.precedence]
  have hleft : groupedOnLeft op l = false → op.precedence ≤ l.writtenPrecedence :=
    le_of_not_groupedOnLeft
  have hright : groupedOnRight op r = false → op.precedence + 1 ≤ r.writtenPrecedence :=
    lt_of_not_groupedOnRight
  obtain ⟨n, hn, hl⟩ := hl
  obtain ⟨n', hn', hr⟩ := hr
  obtain ⟨m, hm, hl⟩ := derives_grouped hl (by omega) hleft
  obtain ⟨m', hm', hr⟩ := derives_grouped hr (by omega) hright
  refine ⟨max m m', by rw [depth]; omega, ?_⟩
  have htext : (binary op l r).render.toList = (grouped l.render (groupedOnLeft op l)).toList ++
      op.symbol :: (grouped r.render (groupedOnRight op r)).toList := by simp [render]
  show Derives _ (.ofPrecedence op.precedence) _ _ _
  rw [htext]
  rw [hpart] at hl ⊢
  exact .next hc.symm hl (hr.operand (by omega))

theorem writtenAs_call {name : String} {base : Option ℤ} (hname : ProperName name)
    (hbase : ProperBase name base) (h : WrittenAs e e') :
    WrittenAs (call name base e) (call name base e') := by
  obtain ⟨n, hn, h⟩ := h
  have h : Derives Unsigned (.chain .sum) _ _ _ := h.loosen (Nat.zero_le _)
  refine ⟨n + 1, by rw [depth]; omega, ?_⟩
  cases base with
  | none =>
    have htext : (call name none e).render.toList =
        name.toList ++ '(' :: (e.render.toList ++ [')']) := by simp [render, callHead]
    rw [htext]
    exact .call hname hbase h
  | some b =>
    obtain ⟨rfl, hb, hlimit⟩ := hbase
    obtain ⟨k, rfl⟩ := Int.eq_ofNat_of_zero_le hb
    have htext : (call "log" (some (k : ℤ)) e).render.toList =
        'l' :: 'o' :: 'g' :: '(' :: (decimalDigits k ++ ',' :: (e.render.toList ++ [')'])) := by
      simp [render, callHead, intText, natText]
    have hlog := Derives.log (forall_isAsciiDigit_decimalDigits k) (decimalDigits_ne_nil k)
      (length_decimalDigits_le (by exact_mod_cast hlimit)) h
    rw [natOfDigits_decimalDigits] at hlog
    rw [htext]
    exact hlog

end

/-- **The text of an expression is derived**, with less nesting than its depth. -/
theorem writtenAs_canonical {t : Expr} (ht : t.WellFormed) : WrittenAs t t.canonical := by
  obtain ⟨hfin, hproper⟩ := ht
  induction t with
  | const c => exact ⟨0, Nat.one_pos, derives_const (everywhere_const.mp hfin)⟩
  | var => exact ⟨0, Nat.one_pos, .var⟩
  | unary op e ih =>
    obtain ⟨-, hfin⟩ := everywhere_unary.mp hfin
    obtain ⟨-, hproper⟩ := everywhere_unary.mp hproper
    exact writtenAs_unary op (ih hfin hproper)
  | binary op l r ihl ihr =>
    obtain ⟨-, hfinl, hfinr⟩ := everywhere_binary.mp hfin
    obtain ⟨-, hproperl, hproperr⟩ := everywhere_binary.mp hproper
    exact writtenAs_binary op (ihl hfinl hproperl) (ihr hfinr hproperr)
  | call name base e ih =>
    obtain ⟨-, hfin⟩ := everywhere_call.mp hfin
    obtain ⟨⟨hname, hbase⟩, hproper⟩ := everywhere_call.mp hproper
    exact writtenAs_call hname hbase (ih hfin hproper)

/-! ## Reading back -/

/-- A text without blanks. -/
theorem withoutBlanks_of_derives {p : Part} {n : ℕ} {text : String} {e : Expr}
    (h : Derives Unsigned p n text.toList e) : withoutBlanks text = text.toList :=
  withoutBlanks_of_forall h.isBlank_eq_false

/-- The text of an expression stands for its canonical form. -/
theorem derives_canonical {t : Expr} (ht : t.WellFormed) :
    Derives Unsigned (.chain .sum) (nesting t.render.toList) t.render.toList t.canonical := by
  obtain ⟨n, -, h⟩ := writtenAs_canonical ht
  have hsum : Derives Unsigned (.chain .sum) n t.render.toList t.canonical :=
    h.loosen (Nat.zero_le _)
  rwa [hsum.nesting_eq]

/-- **Derived characters are read**, within the nesting that is allowed. -/
theorem parse_ofList {L n : ℕ} {w : List Char} {e : Expr}
    (h : Derives Unsigned (.chain .sum) n w e) (hn : n ≤ L) :
    Expr.parse L (String.ofList w) = .ok e := by
  rw [Expr.parse, withoutBlanks_ofList h.isBlank_eq_false]
  exact parseChars_of_derives h hn

/-- **Reading undoes writing.** The text of a well-formed expression reads as the expression with
a sign before the magnitude of each negative constant, or else its parentheses nest deeper than
allowed. They nest less deep than the expression. Without negative constants it is the expression
itself that is read. -/
theorem parse_render {t : Expr} (ht : t.WellFormed) (L : ℕ) :
    (nesting t.render.toList ≤ L → Expr.parse L t.render = .ok t.canonical) ∧
    (L < nesting t.render.toList →
      ∃ position, Expr.parse L t.render = .error (.parse ⟨.nestedTooDeep L, position, none⟩)) ∧
    nesting t.render.toList ≤ t.depth - 1 ∧
    (nesting t.render.toList ≤ L → t.Everywhere (isNegative · = false) →
      Expr.parse L t.render = .ok t ∧ (Expr.parse L t.render).map render = .ok t.render) := by
  obtain ⟨n, hn, h⟩ := writtenAs_canonical ht
  have h : Derives Unsigned (.chain .sum) _ _ _ := h.loosen (Nat.zero_le _)
  rw [Expr.parse, withoutBlanks_of_derives h, h.nesting_eq]
  refine ⟨?_, ?_, by omega, ?_⟩
  · intro hL
    exact parseChars_of_derives h hL
  · intro hL
    exact parseChars_of_nestedTooDeep h hL
  · intro hL hnonneg
    rw [parseChars_of_derives h hL, canonical_of_nonnegative hnonneg]
    exact ⟨rfl, rfl⟩

theorem wellFormed_log_of_negative :
    (call "log" (some 2) (binary .pow (number (-2.0)) var)).WellFormed where
  finite := by simp [HasFiniteValue, number]; decide
  proper := by
    have hbase : (2 : ℤ) < 10 ^ digitLimit :=
      calc (2 : ℤ) < 10 ^ 1 := by decide
        _ ≤ 10 ^ digitLimit := pow_le_pow_right₀ (by decide) (by decide)
    simp [IsProperCall, number, properName_log, ProperBase, hbase]

/-- A negative constant below a power, in a logarithm. -/
theorem parse_render_log_of_negative :
    Expr.parse 2 (call "log" (some 2) (binary .pow (number (-2.0)) var)).render =
      .ok (call "log" (some 2) (binary .pow (unary .negate (number 2.0)) var)) := by
  obtain ⟨hread, -, hnesting, -⟩ := parse_render wellFormed_log_of_negative 2
  exact hread hnesting

end SymCalc
