import SymCalc.Proofs.Expr.RoundTrip

/-!
# What was read and written is read again

**Theorem (`reparse_iff`).** Write an expression that was read, and read that text. The result is
the same expression, exactly if all its constants are finite and the parentheses in the text nest
no deeper than allowed. Otherwise the text is refused.

Both exceptions occur. A numeral may be so long that its double is infinite, and infinity is
written as a word that is no expression: in a text that is read, a letter other than `x` belongs to
a name, so a letter or a parenthesis follows it (`LettersCalled`). And an operation that does not
associate is written with parentheses around a left operand of its kind, so that a long chain of
them, which needs no parentheses to be read, nests deep when it is written (`derives_leftmost`).
-/

namespace SymCalc

open Float.Model Double Text SymCalc.Expr

/-! ## Letters -/

/-- The text goes on as a name does: with a letter or an opening parenthesis. -/
def ContinuesName (w : List Char) : Prop :=
  ∃ c ∈ w.head?, c = '(' ∨ isAsciiLetter c

/-- Every letter but `x` belongs to the name of a call. -/
def LettersCalled : List Char → Prop
  | [] => True
  | c :: t => (isAsciiLetter c → c ≠ 'x' → ContinuesName t) ∧ LettersCalled t

section

variable {c : Char} {w v : List Char}

theorem ContinuesName.append (h : ContinuesName w) (v : List Char) : ContinuesName (w ++ v) := by
  cases w with
  | nil => simp [ContinuesName] at h
  | cons c t => exact h

theorem LettersCalled.append (hw : LettersCalled w) (hv : LettersCalled v) :
    LettersCalled (w ++ v) := by
  induction w with
  | nil => exact hv
  | cons c t ih =>
    obtain ⟨hc, ht⟩ := hw
    exact ⟨fun hletter hx => (hc hletter hx).append v, ih ht⟩

theorem lettersCalled_cons (hc : isAsciiLetter c = false) (hw : LettersCalled w) :
    LettersCalled (c :: w) :=
  ⟨fun hletter => by simp [hc] at hletter, hw⟩

theorem lettersCalled_of_forall (hw : ∀ c ∈ w, isAsciiLetter c = false) : LettersCalled w := by
  induction w with
  | nil => trivial
  | cons c t ih =>
    obtain ⟨hc, ht⟩ := List.forall_mem_cons.mp hw
    exact lettersCalled_cons hc (ih ht)

/-- A name before an opening parenthesis. -/
theorem lettersCalled_name {name : List Char} (hname : ∀ c ∈ name, isAsciiLetter c)
    (hw : LettersCalled w) : LettersCalled (name ++ '(' :: w) := by
  induction name with
  | nil => exact lettersCalled_cons (by decide) hw
  | cons c t ih =>
    obtain ⟨-, ht⟩ := List.forall_mem_cons.mp hname
    refine ⟨fun _ _ => ?_, ih ht⟩
    cases t with
    | nil => exact ⟨'(', rfl, Or.inl rfl⟩
    | cons d t => exact ⟨d, rfl, Or.inr (ht d List.mem_cons_self)⟩

theorem lettersCalled_parenthesized (h : LettersCalled w) : LettersCalled (w ++ [')']) :=
  h.append (lettersCalled_cons (by decide) trivial)

/-- **In a derived text a letter other than `x` belongs to a name.** -/
theorem Derives.lettersCalled {leaveOut : List Char → Prop} {p : Part} {n : ℕ} {e : Expr}
    (h : Derives leaveOut p n w e) : LettersCalled w := by
  induction h with
  | first _ ih => exact ih
  | bare _ _ ih => exact ih
  | @next _ _ _ _ _ _ _ op _ _ _ ihl ihr =>
    have hop : isAsciiLetter op.symbol = false := by cases op <;> decide
    exact ihl.append (lettersCalled_cons hop ihr)
  | sign op _ ih =>
    have hop : isAsciiLetter op.symbol = false := by cases op <;> decide
    exact lettersCalled_cons hop ih
  | number h =>
    exact lettersCalled_of_forall fun c hc => isAsciiLetter_of_isNumeralChar (h.isNumeralChar c hc)
  | var => exact ⟨fun _ hx => absurd rfl hx, trivial⟩
  | group _ ih => exact lettersCalled_cons (by decide) (lettersCalled_parenthesized ih)
  | call hname _ _ ih => exact lettersCalled_name hname.letters (lettersCalled_parenthesized ih)
  | log hds _ _ _ ih =>
    have hbase := lettersCalled_of_forall fun c hc => isAsciiLetter_of_isAsciiDigit (hds c hc)
    have hinside := hbase.append (lettersCalled_cons (c := ',') (by decide) ih)
    have h := lettersCalled_name properName_log.letters (lettersCalled_parenthesized hinside)
    rw [List.append_assoc] at h
    exact h

/-! ## Infinite constants -/

/-- The text does not go on as a name does. -/
def EndsName (w : List Char) : Prop :=
  ∀ c ∈ w.head?, isBlank c = false ∧ c ≠ '(' ∧ isAsciiLetter c = false

/-- An `f` stands in the text that belongs to no name. -/
def HasStrayLetter (w : List Char) : Prop :=
  ∃ u v, w = u ++ 'f' :: v ∧ EndsName v

theorem EndsName.not_continuesName (h : EndsName w) : ¬ContinuesName w := by
  rintro ⟨c, hc, hname⟩
  obtain ⟨-, hopen, hletter⟩ := h c hc
  rcases hname with hname | hname
  · exact hopen hname
  · rw [hletter] at hname
    cases hname

theorem endsName_nil : EndsName [] := nofun

theorem endsName_close (w : List Char) : EndsName (')' :: w) := by
  simp [EndsName]
  decide

theorem endsName_symbol (op : BinaryOp) (w : List Char) : EndsName (op.symbol :: w) := by
  cases op <;> simp [EndsName, BinaryOp.symbol] <;> decide

theorem HasStrayLetter.not_lettersCalled (h : HasStrayLetter w) : ¬LettersCalled w := by
  obtain ⟨u, v, rfl, hv⟩ := h
  induction u with
  | nil =>
    rintro ⟨hf, -⟩
    exact hv.not_continuesName (hf (by decide) (by decide))
  | cons c u ih =>
    rintro ⟨-, ht⟩
    exact ih ht

theorem HasStrayLetter.after (h : HasStrayLetter w) (u : List Char) : HasStrayLetter (u ++ w) := by
  obtain ⟨u', v, rfl, hv⟩ := h
  exact ⟨u ++ u', v, (List.append_assoc u u' _).symm, hv⟩

theorem HasStrayLetter.before (h : HasStrayLetter w) (hv : EndsName v) :
    HasStrayLetter (w ++ v) := by
  obtain ⟨u, t, rfl, ht⟩ := h
  refine ⟨u, t ++ v, List.append_assoc u _ v, ?_⟩
  cases t with
  | nil => exact hv
  | cons c t => exact ht

/-- What ends the name is no blank. -/
theorem HasStrayLetter.withoutBlanks {text : String} (h : HasStrayLetter text.toList) :
    HasStrayLetter (withoutBlanks text) := by
  obtain ⟨u, v, htext, hv⟩ := h
  have hf : isBlank 'f' = false := by decide
  refine ⟨u.filter (!isBlank ·), v.filter (!isBlank ·), ?_, ?_⟩
  · rw [Text.withoutBlanks, htext, List.filter_append, List.filter_cons_of_pos (by rw [hf]; rfl)]
  · cases v with
    | nil => exact hv
    | cons c t =>
      have hc : isBlank c = false := (hv c rfl).1
      rw [List.filter_cons_of_pos (by rw [hc]; rfl)]
      exact hv

theorem HasStrayLetter.grouped {text : String} (h : HasStrayLetter text.toList) (grouping : Bool) :
    HasStrayLetter (grouped text grouping).toList := by
  cases grouping with
  | true =>
    have h := (h.before (endsName_close [])).after ['(']
    simpa [Expr.grouped] using h
  | false => exact h

theorem numberText_of_infinite {x : Float} (hfin : ¬x.isFinite) (hle : ¬x < 0.0)
    (hnan : x.isNaN = false) : numberText x = "inf" := by
  have hfin' : ¬(parts x).isFinite := hfin
  have hnan' : (parts x).isNaN = false := hnan
  rw [lt_zero_iff] at hle
  have hparts : parts x = .infinity .positive := by
    cases hx : parts x with
    | notANumber => simp [hx, UnpackedFloat.isNaN] at hnan'
    | zero s => simp [hx, UnpackedFloat.isFinite] at hfin'
    | finite s m e h => simp [hx, UnpackedFloat.isFinite] at hfin'
    | infinity s =>
      cases s with
      | positive => rfl
      | negative => exact absurd (Or.inl hx) hle
  have hunpack : x.toModel.unpack = .infinity .positive := hparts
  rw [numberText, Layout.chars, hunpack]
  rfl

end

/-- **An infinite constant leaves a stray letter in the text.** -/
theorem hasStrayLetter_render {t : Expr} (hmagnitude : t.Everywhere HasMagnitude)
    (hfin : ¬t.Everywhere HasFiniteValue) : HasStrayLetter t.render.toList := by
  induction t with
  | const c =>
    rw [everywhere_const] at hfin hmagnitude
    rw [render, numberText_of_infinite hfin hmagnitude.1 hmagnitude.2]
    exact ⟨['i', 'n'], [], rfl, endsName_nil⟩
  | var => exact absurd (everywhere_var.mpr trivial) hfin
  | unary op e ih =>
    have he : ¬e.Everywhere HasFiniteValue := fun he => hfin (everywhere_unary.mpr ⟨trivial, he⟩)
    have h := ((ih (everywhere_unary.mp hmagnitude).2 he).grouped e.groupedBySign).after [op.symbol]
    simpa [render] using h
  | binary op l r ihl ihr =>
    obtain ⟨-, hl, hr⟩ := everywhere_binary.mp hmagnitude
    have htext : (binary op l r).render.toList = (grouped l.render (groupedOnLeft op l)).toList ++
        op.symbol :: (grouped r.render (groupedOnRight op r)).toList := by simp [render]
    rw [htext]
    by_cases hfinl : l.Everywhere HasFiniteValue
    · have hfinr : ¬r.Everywhere HasFiniteValue := fun hfinr =>
        hfin (everywhere_binary.mpr ⟨trivial, hfinl, hfinr⟩)
      exact (((ihr hr hfinr).grouped _).after [op.symbol]).after _
    · exact ((ihl hl hfinl).grouped _).before (endsName_symbol op _)
  | call name base e ih =>
    have he : ¬e.Everywhere HasFiniteValue := fun he => hfin (everywhere_call.mpr ⟨trivial, he⟩)
    have h := ih (everywhere_call.mp hmagnitude).2 he
    have h := (h.before (endsName_close [])).after (callHead name base).toList
    simpa [render] using h

/-! ## Reading again -/

theorem finite_of_parse_render {L : ℕ} {t t' : Expr} (hmagnitude : t.Everywhere HasMagnitude)
    (h : Expr.parse L t.render = .ok t') : t.Everywhere HasFiniteValue := by
  by_contra hfin
  obtain ⟨n, -, hd⟩ := parse_eq_ok_iff.mp h
  exact (hasStrayLetter_render hmagnitude hfin).withoutBlanks.not_lettersCalled hd.lettersCalled

theorem isNegative_of_hasMagnitude {t : Expr} (h : HasMagnitude t) : t.isNegative = false := by
  cases t with
  | const c => simpa [isNegative] using h.1
  | _ => rfl

/-- Without negative constants, what is written is derived as the expression itself. -/
theorem derives_render {t : Expr} (ht : t.WellFormed)
    (hnonneg : t.Everywhere (isNegative · = false)) :
    Derives Unsigned (.chain .sum) (nesting t.render.toList) t.render.toList t := by
  have h := derives_canonical ht
  rwa [canonical_of_nonnegative hnonneg] at h

/-- **What was read is read again from its text**, as the same expression, exactly if all constants
are finite and the text nests no deeper than allowed. -/
theorem reparse_iff {L : ℕ} {text : String} {t : Expr} (h : Expr.parse L text = .ok t) (t' : Expr) :
    Expr.parse L t.render = .ok t' ↔
      t' = t ∧ t.Everywhere HasFiniteValue ∧ nesting t.render.toList ≤ L := by
  obtain ⟨_, -, hd⟩ := parse_eq_ok_iff.mp h
  have hnonneg : t.Everywhere (isNegative · = false) :=
    fun node hnode => isNegative_of_hasMagnitude (hd.hasMagnitude node hnode)
  constructor
  · intro h'
    have hfin := finite_of_parse_render hd.hasMagnitude h'
    have hrender := derives_render ⟨hfin, hd.isProperCall⟩ hnonneg
    obtain ⟨n, hn, hd'⟩ := parse_eq_ok_iff.mp h'
    rw [withoutBlanks_of_derives hrender] at hd'
    exact ⟨hd'.unique hrender, hfin, hd'.nesting_eq.trans_le hn⟩
  · rintro ⟨rfl, hfin, hnesting⟩
    have hrender := derives_render ⟨hfin, hd.isProperCall⟩ hnonneg
    rw [parse_eq_ok_iff, withoutBlanks_of_derives hrender]
    exact ⟨_, hnesting, hrender⟩

/-! ## Texts that are not read again -/

/-- The operation repeated on `x`, with `n` operations to the left of each other. -/
def leftmost (op : BinaryOp) : ℕ → Expr
  | 0 => var
  | n + 1 => binary op (leftmost op n) var

/-- The operation repeated on `x`, without parentheses. -/
def flat (op : BinaryOp) : ℕ → List Char
  | 0 => ['x']
  | n + 1 => flat op n ++ [op.symbol, 'x']

section

variable {op : BinaryOp} {L n : ℕ} {w : List Char} {e : Expr}

/-- One more operation of the same precedence. -/
theorem derives_next_var (op : BinaryOp)
    (h : Derives Unsigned (.ofPrecedence op.precedence) n w e) :
    Derives Unsigned (.ofPrecedence op.precedence) n (w ++ [op.symbol, 'x'])
      (binary op e var) := by
  obtain ⟨c, hc, hpart⟩ := exists_level op
  have hop : op.precedence < 4 := by cases op <;> decide
  have hx : Derives Unsigned (.ofPrecedence 4) 0 ['x'] var := .var
  rw [hpart] at h ⊢
  have hnext := Derives.next hc.symm h (hx.operand (hc.trans_lt hop))
  rwa [Nat.max_zero] at hnext

theorem derives_flat (op : BinaryOp) (n : ℕ) :
    Derives Unsigned (.ofPrecedence op.precedence) 0 (flat op n) (leftmost op n) := by
  have hx : Derives Unsigned (.ofPrecedence 4) 0 ['x'] var := .var
  have hop : op.precedence ≤ 4 := by cases op <;> decide
  induction n with
  | zero => exact hx.loosen hop
  | succ n ih => exact derives_next_var op ih

theorem render_leftmost (hop : op.isAssociative = false) (n : ℕ) :
    (leftmost op (n + 2)).render.toList =
      '(' :: ((leftmost op (n + 1)).render.toList ++ [')']) ++ [op.symbol, 'x'] := by
  have hleft : groupedOnLeft op (leftmost op (n + 1)) = true := by
    simp [leftmost, groupedOnLeft, Expr.precedence, hop]
  have hright : groupedOnRight op var = false := by cases op <;> rfl
  rw [leftmost, render, hleft, hright]
  simp [render, grouped]

/-- Written with parentheses, the chain nests as deep as it has operations but one. -/
theorem derives_leftmost (hop : op.isAssociative = false) (n : ℕ) :
    Derives Unsigned (.ofPrecedence op.precedence) n (leftmost op (n + 1)).render.toList
      (leftmost op (n + 1)) := by
  induction n with
  | zero =>
    have hleft : groupedOnLeft op var = false := by cases op <;> rfl
    have hright : groupedOnRight op var = false := by cases op <;> rfl
    have htext : (leftmost op 1).render.toList = flat op 1 := by
      simp [leftmost, flat, render, grouped, hleft, hright]
    rw [htext]
    exact derives_flat op 1
  | succ n ih =>
    have hgroup : Derives Unsigned (.ofPrecedence 4) (n + 1)
        ('(' :: ((leftmost op (n + 1)).render.toList ++ [')'])) (leftmost op (n + 1)) :=
      .group (ih.loosen (Nat.zero_le _))
    have hprecedence : op.precedence ≤ 4 := by cases op <;> decide
    rw [render_leftmost hop]
    exact derives_next_var op (hgroup.loosen hprecedence)

theorem parse_flat (op : BinaryOp) (n L : ℕ) :
    Expr.parse L (String.ofList (flat op n)) = .ok (leftmost op n) :=
  parse_ofList ((derives_flat op n).loosen (Nat.zero_le _)) (Nat.zero_le L)

/-- **A long chain is not read again**, if the operation does not associate. -/
theorem parse_render_leftmost (hop : op.isAssociative = false) (hn : L < n) :
    ∃ position, Expr.parse L (leftmost op (n + 1)).render =
      .error (.parse ⟨.nestedTooDeep L, position, none⟩) := by
  have h := derives_leftmost hop n
  rw [Expr.parse, withoutBlanks_of_derives h]
  exact parseChars_of_nestedTooDeep (h.loosen (Nat.zero_le _)) hn

end

/-- A chain of three subtractions is read again. -/
theorem reparse_subtractions :
    Expr.parse 100 (leftmost .sub 3).render = .ok (leftmost .sub 3) := by
  have hfin : (leftmost .sub 3).Everywhere HasFiniteValue := by simp [leftmost, HasFiniteValue]
  have hnesting : nesting (leftmost .sub 3).render.toList = 2 := (derives_leftmost rfl 2).nesting_eq
  have hread : Expr.parse (100 : ℕ) (String.ofList (flat .sub 3)) = .ok (leftmost .sub 3) :=
    parse_flat .sub 3 100
  exact (reparse_iff hread _).mpr ⟨rfl, hfin, hnesting.trans_le (by decide)⟩

/-- The digits of a power of ten. -/
def powerOfTen (n : ℕ) : List Char :=
  '1' :: List.replicate n '0'

theorem isAsciiDigit_powerOfTen (n : ℕ) : ∀ c ∈ powerOfTen n, isAsciiDigit c := by
  intro c hc
  rcases List.mem_cons.mp hc with rfl | hc
  · decide
  · rw [List.eq_of_mem_replicate hc]
    decide

/-- **A numeral beyond the doubles is read but not read again.** -/
theorem reparse_digits {L : ℕ} {ds : List Char} (hds : ∀ c ∈ ds, isAsciiDigit c) (hne : ds ≠ [])
    (hlarge : ¬(number (Decimal.toFloat ⟨natOfDigits ds, 0⟩)).Everywhere HasFiniteValue) :
    Expr.parse L (String.ofList ds) = .ok (number (Decimal.toFloat ⟨natOfDigits ds, 0⟩)) ∧
    ∀ t, Expr.parse L (number (Decimal.toFloat ⟨natOfDigits ds, 0⟩)).render ≠ .ok t := by
  have hatom : Derives Unsigned (.ofPrecedence 4) 0 ds (number (Decimal.toFloat ⟨_, 0⟩)) :=
    .number (.whole hds hne)
  refine ⟨parse_ofList (hatom.loosen (Nat.zero_le 4)) (Nat.zero_le L), ?_⟩
  intro t ht
  exact hlarge (finite_of_parse_render hatom.hasMagnitude ht)

/-- Neither 102 subtractions nor a numeral of 310 digits, which is infinite, are read again. -/
theorem texts_not_reparsed :
    (Expr.parse 100 (String.ofList (flat .sub 102)) = .ok (leftmost .sub 102) ∧
      ∀ t, Expr.parse 100 (leftmost .sub 102).render ≠ .ok t) ∧
    ∃ x : Float, x.isInf ∧
      Expr.parse 100 (String.ofList (powerOfTen 309)) = .ok (number x) ∧
      ∀ t, Expr.parse 100 (number x).render ≠ .ok t := by
  have hop : BinaryOp.sub.isAssociative = false := rfl
  obtain ⟨position, hagain⟩ := parse_render_leftmost hop (Nat.lt_succ_self 100)
  have hinf : (Decimal.toFloat ⟨natOfDigits (powerOfTen 309), 0⟩).isInf := by decide +kernel
  have hlarge : ¬(number (Decimal.toFloat ⟨natOfDigits (powerOfTen 309), 0⟩)).Everywhere
      HasFiniteValue := by
    rw [number, everywhere_const, HasFiniteValue]
    decide +kernel
  refine ⟨⟨parse_flat .sub 102 100, ?_⟩, ?_⟩
  · intro t ht
    cases hagain.symm.trans ht
  · exact ⟨_, hinf, reparse_digits (isAsciiDigit_powerOfTen 309) (List.cons_ne_nil _ _) hlarge⟩

end SymCalc
