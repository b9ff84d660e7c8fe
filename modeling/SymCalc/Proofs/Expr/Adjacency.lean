import SymCalc.Proofs.Expr.Grammar

/-!
# What stands beside what

**Theorem (`Derives.joined`).** In a derived text no `x` stands directly after a digit or a point,
and no star stands at the beginning or directly after a sign.

The text does not end with a sign either, which is what the induction needs where an operation
follows an operand.
-/

namespace SymCalc

open Text Numeral

variable {c d : Char} {w v ds : List Char}

/-- `d` can stand directly after `c`: it is not an `x` after a numeral or a star after a sign. -/
def Joins (c d : Char) : Prop :=
  (isNumeralChar c → d ≠ 'x') ∧ ((UnaryOp.ofSymbol? c).isSome → d ≠ '*')

/-- The characters can stand beside each other, and the text between operations. -/
structure Joined (w : List Char) : Prop where
  chain : w.IsChain Joins
  head : ∀ c ∈ w.head?, c ≠ '*'
  last : ∀ c ∈ w.getLast?, UnaryOp.ofSymbol? c = none

/-! ## Pairs of characters -/

theorem joins_of_right (hx : d ≠ 'x') (hstar : d ≠ '*') : Joins c d :=
  ⟨fun _ => hx, fun _ => hstar⟩

theorem joins_of_left (hnumeral : isNumeralChar c = false) (hsign : UnaryOp.ofSymbol? c = none) :
    Joins c d := by
  constructor
  · intro h
    rw [hnumeral] at h
    cases h
  · intro h
    rw [hsign] at h
    cases h

theorem joins_binarySymbol (hc : UnaryOp.ofSymbol? c = none) (op : BinaryOp) :
    Joins c op.symbol := by
  constructor
  · intro _
    cases op <;> decide
  · intro h
    rw [hc] at h
    cases h

theorem binarySymbol_joins (hd : d ≠ '*') (op : BinaryOp) : Joins op.symbol d := by
  refine ⟨fun h => ?_, fun _ => hd⟩
  cases op <;> cases h

theorem unarySymbol_joins (hd : d ≠ '*') (op : UnaryOp) : Joins op.symbol d := by
  refine ⟨fun h => ?_, fun _ => hd⟩
  cases op <;> cases h

theorem ofSymbol?_of_isNumeralChar (h : isNumeralChar c) : UnaryOp.ofSymbol? c = none :=
  UnaryOp.ofSymbol?_of_class (fun op => by cases op <;> rfl) h

theorem ne_of_isNumeralChar (hc : isNumeralChar c) (hd : isNumeralChar d = false) : c ≠ d := by
  rintro rfl
  rw [hc] at hd
  cases hd

/-! ## Texts -/

/-- A character between two texts. -/
theorem isChain_between (hw : w.IsChain Joins) (hv : v.IsChain Joins)
    (hleft : ∀ a ∈ w.getLast?, Joins a c) (hright : ∀ a ∈ v.head?, Joins c a) :
    (w ++ c :: v).IsChain Joins := by
  refine hw.append (hv.cons hright) ?_
  rintro a ha _ ⟨⟩
  exact hleft a ha

theorem isChain_of_forall (h : ∀ a ∈ w, ∀ b ∈ w, Joins a b) : w.IsChain Joins :=
  (List.pairwise_of_forall_mem_list h).isChain

theorem isChain_numeral (hw : ∀ c ∈ w, isNumeralChar c) : w.IsChain Joins :=
  isChain_of_forall fun _ _ b hb =>
    joins_of_right (ne_of_isNumeralChar (hw b hb) rfl) (ne_of_isNumeralChar (hw b hb) rfl)

theorem isChain_parenthesized (hw : w.IsChain Joins) :
    ('(' :: (w ++ [')'])).IsChain Joins := by
  have hopen : ∀ a, Joins '(' a := fun a => joins_of_left rfl rfl
  have hclose : ∀ a, Joins a ')' := fun a => joins_of_right (by decide) (by decide)
  have h : (w ++ [')']).IsChain Joins :=
    isChain_between hw .nil (fun a _ => hclose a) nofun
  exact h.cons fun a _ => hopen a

theorem isNumeralChar_eq_false_of_isAsciiLetter (h : isAsciiLetter c) :
    isNumeralChar c = false := by
  rw [Bool.eq_false_iff]
  intro hc
  rw [isAsciiLetter_of_isNumeralChar hc] at h
  cases h

theorem isChain_name {name : String} (h : Expr.ProperName name) : name.toList.IsChain Joins := by
  refine isChain_of_forall fun a ha _ _ => joins_of_left ?_ ?_
  · exact isNumeralChar_eq_false_of_isAsciiLetter (h.letters a ha)
  · exact UnaryOp.ofSymbol?_of_class (fun op => by cases op <;> rfl) (h.letters a ha)

theorem isChain_call {name : String} (h : Expr.ProperName name) (hw : w.IsChain Joins) :
    (name.toList ++ '(' :: (w ++ [')'])).IsChain Joins := by
  refine (isChain_name h).append (isChain_parenthesized hw) ?_
  rintro a - _ ⟨⟩
  exact joins_of_right (by decide) (by decide)

theorem joined_of_closed (hchain : (w ++ [')']).IsChain Joins)
    (hhead : ∀ c ∈ w.head?, c ≠ '*') : Joined (w ++ [')']) where
  chain := hchain
  head := by
    cases w with
    | nil =>
      rintro _ ⟨⟩
      decide
    | cons c w => exact hhead
  last := by
    rw [List.getLast?_concat]
    rintro _ ⟨⟩
    rfl

theorem joined_parenthesized (hw : w.IsChain Joins) : Joined ('(' :: (w ++ [')'])) := by
  have hchain := isChain_parenthesized hw
  rw [← List.cons_append] at hchain ⊢
  refine joined_of_closed hchain ?_
  rintro _ ⟨⟩
  decide

theorem joined_call {name : String} (h : Expr.ProperName name) (hw : w.IsChain Joins) :
    Joined (name.toList ++ '(' :: (w ++ [')'])) := by
  have hchain := isChain_call h hw
  rw [← List.cons_append, ← List.append_assoc] at hchain ⊢
  refine joined_of_closed hchain ?_
  rw [List.head?_append_of_ne_nil _ h.ne_nil]
  rintro c hc rfl
  cases h.letters '*' (List.mem_of_mem_head? hc)

namespace Derives

variable {leaveOut : List Char → Prop} {p : Part} {n : ℕ} {e : Expr}

/-- **Characters of a derived text fit together.** -/
theorem joined (h : Derives leaveOut p n w e) : Joined w := by
  induction h with
  | first _ ih => exact ih
  | bare _ _ ih => exact ih
  | @next c m n w v l r op hop hl hr ihl ihr =>
    refine ⟨isChain_between ihl.chain ihr.chain ?_ ?_, ?_, ?_⟩
    · exact fun a ha => joins_binarySymbol (ihl.last a ha) op
    · exact fun a ha => binarySymbol_joins (ihr.head a ha) op
    · rw [List.head?_append_of_ne_nil _ hl.ne_nil]
      exact ihl.head
    · rw [List.getLast?_append_of_ne_nil _ (List.cons_ne_nil _ _),
        List.getLast?_cons_of_ne_nil hr.ne_nil]
      exact ihr.last
  | @sign p n w e op h ih =>
    refine ⟨ih.chain.cons fun a ha => unarySymbol_joins (ih.head a ha) op, ?_, ?_⟩
    · rintro _ ⟨⟩
      cases op <;> decide
    · rw [List.getLast?_cons_of_ne_nil h.ne_nil]
      exact ih.last
  | number h =>
    refine ⟨isChain_numeral h.isNumeralChar, ?_, ?_⟩
    · exact fun c hc => ne_of_isNumeralChar (h.isNumeralChar c (List.mem_of_mem_head? hc)) rfl
    · exact fun c hc => ofSymbol?_of_isNumeralChar (h.isNumeralChar c (List.mem_of_mem_getLast? hc))
  | var => exact ⟨.singleton 'x', by rintro _ ⟨⟩; decide, by rintro _ ⟨⟩; rfl⟩
  | group _ ih => exact joined_parenthesized ih.chain
  | call hname _ _ ih => exact joined_call hname ih.chain
  | @log n ds w e hds _ _ _ ih =>
    have hcomma : ∀ a, Joins ',' a := fun a => joins_of_left rfl rfl
    have hds : ds.IsChain Joins :=
      isChain_numeral fun c hc => isNumeralChar_of_isAsciiDigit (hds c hc)
    have hinside : (ds ++ ',' :: w).IsChain Joins :=
      isChain_between hds ih.chain (fun a _ => joins_of_right (by decide) (by decide))
        fun a _ => hcomma a
    have hlog := joined_call Expr.properName_log hinside
    rw [List.append_assoc] at hlog
    exact hlog

end Derives

end SymCalc
