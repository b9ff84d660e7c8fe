import SymCalc.Proofs.Decimal.Numeral
import SymCalc.Proofs.Expr.Nodes

/-!
# The grammar of expressions

`Derives leaveOut p n w e`: as a part `p` of an expression, the characters `w` stand for `e`, with
parentheses nested exactly `n` deep.

Before many parts a sign is optional. A sign that is there can often belong to the part itself or
to what the part begins with: `-x*2` is the negated product if the sign goes with the term, and a
product of a negated factor if it goes with the primary. `leaveOut` tells before which texts the
optional sign may be left out:

* `Anywhere` — everywhere. This is the plain grammar, in which `-x*2` has both meanings.
* `Unsigned` — only where no sign stands. Signs then go with the largest part they can.

Both derive the same texts (`Derives.exists_unsigned`), and in the second each text has one
meaning. Numbers and names need not be maximal runs: nothing that may follow one continues it.
-/

namespace SymCalc

open Double Text SymCalc.Expr

/-- A level of operations. The flag tells whether the first operand may begin with a sign. -/
inductive Level where
  | sum
  | term (sign : Bool)
  | power (sign : Bool)

/-- What a text may stand for. -/
inductive Part where
  /-- Operands of a level, with its operations between them. -/
  | chain (c : Level)
  /-- A part with an optional sign before it. -/
  | signed (p : Part)
  | atom

/-- An atom, with an optional sign if the flag allows one. -/
def Part.primary : Bool → Part
  | true => signed atom
  | false => atom

namespace Level

/-- The precedence of the operations of a level. -/
def precedence : Level → ℕ
  | sum => 1
  | term _ => 2
  | power _ => 3

/-- What comes first at a level. -/
def first : Level → Part
  | sum => .signed (.chain (.term true))
  | term sign => .chain (.power sign)
  | power sign => .primary sign

/-- What follows each operation of a level. -/
def operand : Level → Part
  | sum => .signed (.chain (.term false))
  | term _ => .signed (.chain (.power true))
  | power _ => .signed (.primary true)

end Level

/-- Whether no sign is allowed at the beginning of the part. -/
def Part.isSignless : Part → Bool
  | chain (.term sign) | chain (.power sign) => !sign
  | atom => true
  | _ => false

/-- Every text. -/
def Anywhere (_ : List Char) : Prop := True

/-- The text does not begin with a sign. -/
def Unsigned (w : List Char) : Prop :=
  ∀ c ∈ w.head?, UnaryOp.ofSymbol? c = none

/-- The characters `w` stand for `e`, as a part `p`, with parentheses nested `n` deep. -/
inductive Derives (leaveOut : List Char → Prop) : Part → ℕ → List Char → Expr → Prop
  | first {c : Level} {n : ℕ} {w : List Char} {e : Expr}
      (h : Derives leaveOut c.first n w e) : Derives leaveOut (.chain c) n w e
  | next {c : Level} {m n : ℕ} {w v : List Char} {l r : Expr} {op : BinaryOp}
      (hop : op.precedence = c.precedence) (hl : Derives leaveOut (.chain c) m w l)
      (hr : Derives leaveOut c.operand n v r) :
      Derives leaveOut (.chain c) (max m n) (w ++ op.symbol :: v) (binary op l r)
  | bare {p : Part} {n : ℕ} {w : List Char} {e : Expr} (hw : leaveOut w)
      (h : Derives leaveOut p n w e) : Derives leaveOut (.signed p) n w e
  | sign {p : Part} {n : ℕ} {w : List Char} {e : Expr} (op : UnaryOp)
      (h : Derives leaveOut p n w e) :
      Derives leaveOut (.signed p) n (op.symbol :: w) (unary op e)
  | number {w : List Char} {d : Decimal} (h : Numeral.Denotes w d) :
      Derives leaveOut .atom 0 w (number d.toFloat)
  | var : Derives leaveOut .atom 0 ['x'] var
  | group {n : ℕ} {w : List Char} {e : Expr} (h : Derives leaveOut (.chain .sum) n w e) :
      Derives leaveOut .atom (n + 1) ('(' :: (w ++ [')'])) e
  | call {n : ℕ} {name : String} {w : List Char} {e : Expr} (hname : ProperName name)
      (hlog : name ≠ "log") (h : Derives leaveOut (.chain .sum) n w e) :
      Derives leaveOut .atom (n + 1) (name.toList ++ '(' :: (w ++ [')'])) (call name none e)
  | log {n : ℕ} {ds w : List Char} {e : Expr} (hds : ∀ c ∈ ds, isAsciiDigit c) (hne : ds ≠ [])
      (hlimit : ds.length ≤ digitLimit) (h : Derives leaveOut (.chain .sum) n w e) :
      Derives leaveOut .atom (n + 1) ('l' :: 'o' :: 'g' :: '(' :: (ds ++ ',' :: (w ++ [')'])))
        (call "log" (some (natOfDigits ds)) e)

/-! ## Characters -/

theorem isAsciiLetter_of_isAsciiDigit {c : Char} (h : isAsciiDigit c) :
    isAsciiLetter c = false := by
  simp [isAsciiDigit, isAsciiLetter, Char.le_def, UInt32.le_iff_toNat_le] at h ⊢
  omega

theorem isAsciiLetter_of_isNumeralChar {c : Char} (h : Numeral.isNumeralChar c) :
    isAsciiLetter c = false := by
  rcases Bool.or_eq_true_iff.mp h with h | h
  · exact isAsciiLetter_of_isAsciiDigit h
  · rw [beq_iff_eq] at h
    subst h
    decide

/-- A character of ASCII, from the opening parenthesis up to the tilde. -/
def Graphic (c : Char) : Prop :=
  0x28 ≤ c.toNat ∧ c.toNat < 0x7f

instance (c : Char) : Decidable (Graphic c) :=
  inferInstanceAs (Decidable (_ ∧ _))

theorem Graphic.isBlank_eq_false {c : Char} (h : Graphic c) : isBlank c = false := by
  obtain ⟨h₁, h₂⟩ := h
  simp [isBlank, within, blanks]
  omega

theorem graphic_of_isAsciiDigit {c : Char} (h : isAsciiDigit c) : Graphic c := by
  simp [isAsciiDigit, Char.le_def, UInt32.le_iff_toNat_le] at h
  exact ⟨by omega, by omega⟩

theorem graphic_of_isAsciiLetter {c : Char} (h : isAsciiLetter c) : Graphic c := by
  simp [isAsciiLetter, Char.le_def, UInt32.le_iff_toNat_le] at h
  exact ⟨by omega, by omega⟩

theorem graphic_of_isNumeralChar {c : Char} (h : Numeral.isNumeralChar c) : Graphic c := by
  rcases Bool.or_eq_true_iff.mp h with h | h
  · exact graphic_of_isAsciiDigit h
  · rw [beq_iff_eq] at h
    subst h
    decide

/-- A character of an expression: of a numeral, of a name, or a mark. -/
def IsTextChar (c : Char) : Prop :=
  Numeral.isNumeralChar c ∨ isAsciiLetter c ∨ c ∈ ['+', '-', '*', '/', '^', '(', ')', ',']

theorem IsTextChar.graphic {c : Char} (h : IsTextChar c) : Graphic c := by
  rcases h with h | h | h
  · exact graphic_of_isNumeralChar h
  · exact graphic_of_isAsciiLetter h
  · simp only [List.mem_cons, List.not_mem_nil, or_false] at h
    rcases h with rfl | rfl | rfl | rfl | rfl | rfl | rfl | rfl <;> decide

theorem isTextChar_binarySymbol (op : BinaryOp) : IsTextChar op.symbol := by
  cases op <;> simp [IsTextChar, BinaryOp.symbol]

theorem isTextChar_unarySymbol (op : UnaryOp) : IsTextChar op.symbol := by
  cases op <;> simp [IsTextChar, UnaryOp.symbol]

theorem isTextChar_parenthesized {w : List Char} (h : ∀ c ∈ w, IsTextChar c) :
    ∀ c ∈ '(' :: (w ++ [')']), IsTextChar c := by
  have hopen : IsTextChar '(' := by simp [IsTextChar]
  have hclose : IsTextChar ')' := by simp [IsTextChar]
  simpa [or_imp, forall_and, hopen, hclose] using h

/-- Neither a blank nor a parenthesis. -/
def Plain (c : Char) : Prop :=
  isBlank c = false ∧ c ≠ '(' ∧ c ≠ ')'

instance (c : Char) : Decidable (Plain c) :=
  inferInstanceAs (Decidable (_ ∧ _))

/-- A class of graphic characters without parentheses. -/
theorem plain_of_class {p : Char → Bool} (hp : ∀ c, p c → Graphic c) (hopen : p '(' = false)
    (hclose : p ')' = false) {c : Char} (h : p c) : Plain c := by
  refine ⟨(hp c h).isBlank_eq_false, ?_, ?_⟩
  · rintro rfl
    rw [hopen] at h
    cases h
  · rintro rfl
    rw [hclose] at h
    cases h

theorem plain_of_isAsciiDigit {c : Char} (h : isAsciiDigit c) : Plain c :=
  plain_of_class (fun _ => graphic_of_isAsciiDigit) rfl rfl h

theorem plain_of_isAsciiLetter {c : Char} (h : isAsciiLetter c) : Plain c :=
  plain_of_class (fun _ => graphic_of_isAsciiLetter) rfl rfl h

theorem plain_of_isNumeralChar {c : Char} (h : Numeral.isNumeralChar c) : Plain c :=
  plain_of_class (fun _ => graphic_of_isNumeralChar) rfl rfl h

theorem Expr.ProperName.plain {name : String} (h : ProperName name) : ∀ c ∈ name.toList, Plain c :=
  fun c hc => plain_of_isAsciiLetter (h.letters c hc)

@[simp] theorem plain_x : Plain 'x' := by decide

@[simp] theorem plain_comma : Plain ',' := by decide

@[simp] theorem plain_binarySymbol (op : BinaryOp) : Plain op.symbol := by
  cases op <;> decide

@[simp] theorem plain_unarySymbol (op : UnaryOp) : Plain op.symbol := by
  cases op <;> decide

theorem withoutBlanks_of_forall {text : String} (h : ∀ c ∈ text.toList, isBlank c = false) :
    withoutBlanks text = text.toList := by
  rw [withoutBlanks, List.filter_eq_self]
  intro c hc
  rw [h c hc]
  rfl

theorem withoutBlanks_ofList {w : List Char} (h : ∀ c ∈ w, isBlank c = false) :
    withoutBlanks (String.ofList w) = w := by
  rw [withoutBlanks_of_forall, String.toList_ofList]
  rwa [String.toList_ofList]

theorem withoutBlanks_append (s t : String) :
    withoutBlanks (s ++ t) = withoutBlanks s ++ withoutBlanks t := by
  rw [withoutBlanks, String.toList_append, List.filter_append]
  rfl

namespace Derives

variable {leaveOut : List Char → Prop} {p : Part} {n : ℕ} {w : List Char} {e : Expr}

/-- No derived text is empty. -/
theorem ne_nil (h : Derives leaveOut p n w e) : w ≠ [] := by
  induction h with
  | first _ ih => exact ih
  | bare _ _ ih => exact ih
  | number h => exact h.ne_nil
  | _ => simp

/-- Derived texts are written with few characters. -/
theorem isTextChar (h : Derives leaveOut p n w e) : ∀ c ∈ w, IsTextChar c := by
  have hname {name : String} (h : ProperName name) : ∀ c ∈ name.toList, IsTextChar c :=
    fun c hc => Or.inr (Or.inl (h.letters c hc))
  induction h with
  | first _ ih => exact ih
  | bare _ _ ih => exact ih
  | number h => exact fun c hc => Or.inl (h.isNumeralChar c hc)
  | var => exact List.forall_mem_singleton.mpr (Or.inr (Or.inl (by decide)))
  | next _ _ _ ihl ihr =>
    simp only [List.forall_mem_append, List.forall_mem_cons]
    exact ⟨ihl, isTextChar_binarySymbol _, ihr⟩
  | sign op _ ih =>
    simp only [List.forall_mem_cons]
    exact ⟨isTextChar_unarySymbol op, ih⟩
  | group _ ih => exact isTextChar_parenthesized ih
  | call hproper _ _ ih =>
    rw [List.forall_mem_append]
    exact ⟨hname hproper, isTextChar_parenthesized ih⟩
  | @log n ds w e hds _ _ _ ih =>
    have hcomma : IsTextChar ',' := by simp [IsTextChar]
    have hinside : ∀ c ∈ ds ++ ',' :: w, IsTextChar c := by
      simp only [List.forall_mem_append, List.forall_mem_cons]
      exact ⟨fun c hc => Or.inl (Numeral.isNumeralChar_of_isAsciiDigit (hds c hc)), hcomma, ih⟩
    have hlog := List.forall_mem_append.mpr
      ⟨hname properName_log, isTextChar_parenthesized hinside⟩
    rw [List.append_assoc] at hlog
    exact hlog

theorem graphic (h : Derives leaveOut p n w e) : ∀ c ∈ w, Graphic c :=
  fun c hc => (h.isTextChar c hc).graphic

/-- No derived text has blanks. -/
theorem isBlank_eq_false (h : Derives leaveOut p n w e) : ∀ c ∈ w, isBlank c = false :=
  fun c hc => (h.graphic c hc).isBlank_eq_false

end Derives

/-! ## Nesting -/

/-- How deep the parentheses of a text nest, when `d` of them are open before it. -/
def nestingFrom (d : ℕ) : List Char → ℕ
  | [] => d
  | c :: t =>
    if c = '(' then nestingFrom (d + 1) t
    else if c = ')' then max d (nestingFrom (d - 1) t)
    else nestingFrom d t

/-- How deep the parentheses of a text nest. -/
def nesting (w : List Char) : ℕ :=
  nestingFrom 0 w

theorem le_nestingFrom (d : ℕ) (w : List Char) : d ≤ nestingFrom d w := by
  induction w generalizing d with
  | nil => exact le_rfl
  | cons c t ih =>
    rw [nestingFrom]
    split_ifs
    · exact (Nat.le_succ d).trans (ih (d + 1))
    · exact le_max_left d _
    · exact ih d

theorem nestingFrom_open (d : ℕ) (w : List Char) :
    nestingFrom d ('(' :: w) = nestingFrom (d + 1) w := by
  rw [nestingFrom, if_pos rfl]

theorem nestingFrom_close (d : ℕ) (w : List Char) :
    nestingFrom (d + 1) (')' :: w) = max (d + 1) (nestingFrom d w) := by
  rw [nestingFrom, if_neg (by decide), if_pos rfl, Nat.add_sub_cancel]

theorem nestingFrom_plain {c : Char} (hc : Plain c) (d : ℕ) (w : List Char) :
    nestingFrom d (c :: w) = nestingFrom d w := by
  rw [nestingFrom, if_neg hc.2.1, if_neg hc.2.2]

theorem nestingFrom_append {v : List Char} (hv : ∀ c ∈ v, Plain c) (d : ℕ) (w : List Char) :
    nestingFrom d (v ++ w) = nestingFrom d w := by
  induction v with
  | nil => rfl
  | cons c v ih =>
    obtain ⟨hc, hv⟩ := List.forall_mem_cons.mp hv
    rw [List.cons_append, nestingFrom_plain hc, ih hv]

/-- What stands between parentheses, with its nesting, and what follows. -/
theorem nestingFrom_parenthesized {n : ℕ} {w : List Char}
    (h : ∀ d r, nestingFrom d (w ++ r) = max (d + n) (nestingFrom d r)) (d : ℕ) (r : List Char) :
    nestingFrom d ('(' :: (w ++ [')']) ++ r) = max (d + (n + 1)) (nestingFrom d r) := by
  have hr := le_nestingFrom d r
  rw [List.cons_append, List.append_assoc, nestingFrom_open, h, List.singleton_append,
    nestingFrom_close]
  omega

theorem Derives.nestingFrom_append {leaveOut : List Char → Prop} {p : Part} {n : ℕ}
    {w : List Char} {e : Expr} (h : Derives leaveOut p n w e) (d : ℕ) (r : List Char) :
    nestingFrom d (w ++ r) = max (d + n) (nestingFrom d r) := by
  induction h generalizing d r with
  | first _ ih => exact ih d r
  | bare _ _ ih => exact ih d r
  | next _ _ _ ihl ihr =>
    rw [List.append_assoc, ihl, List.cons_append, nestingFrom_plain (plain_binarySymbol _), ihr]
    omega
  | sign op _ ih => rw [List.cons_append, nestingFrom_plain (plain_unarySymbol op), ih]
  | number h =>
    have hr := le_nestingFrom d r
    rw [SymCalc.nestingFrom_append fun c hc => plain_of_isNumeralChar (h.isNumeralChar c hc)]
    omega
  | var =>
    have hr := le_nestingFrom d r
    rw [List.cons_append, nestingFrom_plain plain_x, List.nil_append]
    omega
  | group _ ih => exact nestingFrom_parenthesized ih d r
  | call hname _ _ ih =>
    rw [List.append_assoc, SymCalc.nestingFrom_append hname.plain, nestingFrom_parenthesized ih]
  | @log n ds w e hds _ _ _ ih =>
    have hinside (d : ℕ) (r : List Char) :
        nestingFrom d (ds ++ ',' :: w ++ r) = max (d + n) (nestingFrom d r) := by
      rw [List.append_assoc,
        SymCalc.nestingFrom_append fun c hc => plain_of_isAsciiDigit (hds c hc),
        List.cons_append, nestingFrom_plain plain_comma, ih]
    have h := nestingFrom_parenthesized hinside d r
    rw [← SymCalc.nestingFrom_append properName_log.plain, List.append_assoc,
      List.cons_append] at h
    exact h

theorem Derives.nesting_eq {leaveOut : List Char → Prop} {p : Part} {n : ℕ} {w : List Char}
    {e : Expr} (h : Derives leaveOut p n w e) : nesting w = n := by
  have := h.nestingFrom_append 0 []
  rw [List.append_nil] at this
  rw [nesting, this, nestingFrom]
  omega

/-! ## Derived expressions -/

/-- If it is a constant, it is a number that is not below zero. -/
def HasMagnitude : Expr → Prop
  | const c => ¬c.value < 0.0 ∧ c.value.isNaN = false
  | _ => True

theorem hasMagnitude_number {x : Float} (h : NonNegative (parts x)) : HasMagnitude (number x) := by
  show ¬(Constant.ofFloat x).value < 0.0 ∧ (Constant.ofFloat x).value.isNaN = false
  rw [Constant.ofFloat]
  split_ifs
  · decide
  · exact ⟨not_lt_zero_of_nonNegative h, isNaN_of_nonNegative h⟩

namespace Derives

variable {leaveOut : List Char → Prop} {p : Part} {n : ℕ} {w : List Char} {e : Expr}

/-- **No derived expression has a constant below zero.** -/
theorem hasMagnitude (h : Derives leaveOut p n w e) : e.Everywhere HasMagnitude := by
  induction h with
  | first _ ih => exact ih
  | bare _ _ ih => exact ih
  | group _ ih => exact ih
  | next _ _ _ ihl ihr => exact everywhere_binary.mpr ⟨trivial, ihl, ihr⟩
  | sign _ _ ih => exact everywhere_unary.mpr ⟨trivial, ih⟩
  | number _ => exact everywhere_const.mpr (hasMagnitude_number (nonNegative_toFloat _))
  | var => exact everywhere_var.mpr trivial
  | call _ _ _ ih => exact everywhere_call.mpr ⟨trivial, ih⟩
  | log _ _ _ _ ih => exact everywhere_call.mpr ⟨trivial, ih⟩

/-- **Every call in a derived expression can be written**, with a base exactly if it is a
logarithm. -/
theorem isProperCall (h : Derives leaveOut p n w e) : e.Everywhere IsProperCall := by
  induction h with
  | first _ ih => exact ih
  | bare _ _ ih => exact ih
  | group _ ih => exact ih
  | next _ _ _ ihl ihr => exact everywhere_binary.mpr ⟨trivial, ihl, ihr⟩
  | sign _ _ ih => exact everywhere_unary.mpr ⟨trivial, ih⟩
  | number _ => exact everywhere_const.mpr trivial
  | var => exact everywhere_var.mpr trivial
  | call hname hlog _ ih => exact everywhere_call.mpr ⟨⟨hname, hlog⟩, ih⟩
  | @log n ds w e hds _ hlimit _ ih =>
    have hbase : natOfDigits ds < 10 ^ digitLimit :=
      (natOfDigits_lt hds).trans_le (Nat.pow_le_pow_right (by decide) hlimit)
    have hproper : ProperBase "log" (some (natOfDigits ds : ℤ)) :=
      ⟨rfl, Int.natCast_nonneg _, by exact_mod_cast hbase⟩
    exact everywhere_call.mpr ⟨⟨properName_log, hproper⟩, ih⟩

end Derives

/-! ## Signs -/

theorem UnaryOp.symbol_of_ofSymbol? {c : Char} {op : UnaryOp} (h : ofSymbol? c = some op) :
    op.symbol = c := by
  unfold ofSymbol? at h
  split at h <;> cases h <;> rfl

/-- A class without signs. -/
theorem UnaryOp.ofSymbol?_of_class {p : Char → Bool} (hp : ∀ op : UnaryOp, p op.symbol = false)
    {c : Char} (h : p c) : ofSymbol? c = none := by
  cases hc : ofSymbol? c with
  | none => rfl
  | some op =>
    rw [← symbol_of_ofSymbol? hc, hp op] at h
    cases h

@[simp] theorem unsigned_cons {c : Char} {t : List Char} :
    Unsigned (c :: t) ↔ UnaryOp.ofSymbol? c = none := by
  simp [Unsigned]

theorem exists_of_not_unsigned {w : List Char} (h : ¬Unsigned w) :
    ∃ op t, w = UnaryOp.symbol op :: t := by
  cases w with
  | nil => simp [Unsigned] at h
  | cons c t =>
    rw [unsigned_cons] at h
    obtain ⟨op, hop⟩ := Option.ne_none_iff_exists'.mp h
    exact ⟨op, t, by rw [UnaryOp.symbol_of_ofSymbol? hop]⟩

theorem Unsigned.append {w : List Char} (hne : w ≠ []) (h : Unsigned w) (v : List Char) :
    Unsigned (w ++ v) := by
  cases w with
  | nil => exact absurd rfl hne
  | cons c t => exact h

namespace Derives

variable {leaveOut : List Char → Prop} {p : Part} {n : ℕ} {w : List Char} {e : Expr}

theorem mono {leaveOut' : List Char → Prop} (hle : ∀ w, leaveOut w → leaveOut' w)
    (h : Derives leaveOut p n w e) : Derives leaveOut' p n w e := by
  induction h with
  | first _ ih => exact .first ih
  | next hop _ _ ihl ihr => exact .next hop ihl ihr
  | bare hw _ ih => exact .bare (hle _ hw) ih
  | sign op _ ih => exact .sign op ih
  | number h => exact .number h
  | var => exact .var
  | group _ ih => exact .group ih
  | call hname hlog _ ih => exact .call hname hlog ih
  | log hds hne hlimit _ ih => exact .log hds hne hlimit ih

theorem unsigned_of_class {p : Char → Bool} (hp : ∀ op : UnaryOp, p op.symbol = false)
    (hw : ∀ c ∈ w, p c) : Unsigned w := by
  intro c hc
  exact UnaryOp.ofSymbol?_of_class hp (hw c (List.mem_of_mem_head? hc))

theorem unsigned_of_denotes {d : Decimal} (h : Numeral.Denotes w d) : Unsigned w :=
  unsigned_of_class (fun op => by cases op <;> rfl) h.isNumeralChar

/-- Where no sign is allowed there is none. -/
theorem unsigned (h : Derives leaveOut p n w e) (hp : p.isSignless) : Unsigned w := by
  induction h with
  | @first c n w e _ ih =>
    apply ih
    cases c with
    | sum => cases hp
    | term sign => exact hp
    | power sign => cases sign with
      | true => cases hp
      | false => rfl
  | next _ hl _ ihl _ => exact (ihl hp).append hl.ne_nil _
  | bare _ _ _ => cases hp
  | sign _ _ _ => cases hp
  | number h => exact unsigned_of_denotes h
  | var => exact unsigned_cons.mpr rfl
  | group _ => exact unsigned_cons.mpr rfl
  | call hname _ _ =>
    have hname' := unsigned_of_class (fun op => by cases op <;> rfl) hname.letters
    exact hname'.append hname.ne_nil _
  | log _ _ _ _ => exact unsigned_cons.mpr rfl

/-- Without the sign it begins with, a text is still derived. -/
theorem exists_of_symbol_cons {op : UnaryOp} {t : List Char}
    (h : Derives Unsigned p n (op.symbol :: t) e) : ∃ e', Derives Unsigned p n t e' := by
  generalize hw : op.symbol :: t = w at h
  have hsigned : ¬Unsigned w := by simp [← hw]
  induction h generalizing op t with
  | first _ ih =>
    obtain ⟨e', h'⟩ := ih hw hsigned
    exact ⟨e', .first h'⟩
  | @next c m n w v l r o hop hl hr ihl ihr =>
    obtain ⟨c', t', rfl⟩ := List.exists_cons_of_ne_nil hl.ne_nil
    obtain ⟨rfl, rfl⟩ := List.cons.inj hw
    obtain ⟨e', h'⟩ := ihl rfl hsigned
    exact ⟨_, .next hop h' hr⟩
  | bare hw' _ _ => exact absurd hw' hsigned
  | @sign p n w e op' h ih =>
    obtain ⟨-, rfl⟩ := List.cons.inj hw
    by_cases ht : Unsigned t
    · exact ⟨e, .bare ht h⟩
    · obtain ⟨op'', u, rfl⟩ := exists_of_not_unsigned ht
      obtain ⟨e', h'⟩ := ih rfl ht
      exact ⟨_, .sign op'' h'⟩
  | number h => exact absurd (unsigned_of_denotes h) hsigned
  | var => exact absurd (unsigned_cons.mpr rfl) hsigned
  | group h => exact absurd (unsigned (.group h) rfl) hsigned
  | call hname hlog h => exact absurd (unsigned (.call hname hlog h) rfl) hsigned
  | log hds hne hlimit h => exact absurd (unsigned (.log hds hne hlimit h) rfl) hsigned

/-- **Taking signs wherever they stand loses no text.** -/
theorem exists_unsigned (h : Derives Anywhere p n w e) : ∃ e', Derives Unsigned p n w e' := by
  induction h with
  | first _ ih =>
    obtain ⟨e', h'⟩ := ih
    exact ⟨e', .first h'⟩
  | next hop _ _ ihl ihr =>
    obtain ⟨l', hl⟩ := ihl
    obtain ⟨r', hr⟩ := ihr
    exact ⟨_, .next hop hl hr⟩
  | @bare p n w e _ _ ih =>
    obtain ⟨e', h'⟩ := ih
    by_cases hw : Unsigned w
    · exact ⟨e', .bare hw h'⟩
    · obtain ⟨op, t, rfl⟩ := exists_of_not_unsigned hw
      obtain ⟨e'', h''⟩ := h'.exists_of_symbol_cons
      exact ⟨_, .sign op h''⟩
  | sign op _ ih =>
    obtain ⟨e', h'⟩ := ih
    exact ⟨_, .sign op h'⟩
  | number h => exact ⟨_, .number h⟩
  | var => exact ⟨_, .var⟩
  | group _ ih =>
    obtain ⟨e', h'⟩ := ih
    exact ⟨_, .group h'⟩
  | call hname hlog _ ih =>
    obtain ⟨e', h'⟩ := ih
    exact ⟨_, .call hname hlog h'⟩
  | log hds hne hlimit _ ih =>
    obtain ⟨e', h'⟩ := ih
    exact ⟨_, .log hds hne hlimit h'⟩

end Derives

/-! ## Looser parts -/

/-- The part that expressions of a precedence are written as. -/
def Part.ofPrecedence : ℕ → Part
  | 0 | 1 => chain .sum
  | 2 => chain (.term false)
  | 3 => chain (.power false)
  | _ => atom

/-- The same level, with a sign allowed at its beginning. -/
def Level.withSign : Level → Level
  | sum => sum
  | term _ => term true
  | power _ => power true

namespace Derives

variable {leaveOut : List Char → Prop} {p : Part} {c : Level} {n k : ℕ} {w : List Char} {e : Expr}

/-- Where a sign is allowed there need not be one. -/
theorem withSign (h : Derives Unsigned (.chain c) n w e) :
    Derives Unsigned (.chain c.withSign) n w e := by
  generalize hp : Part.chain c = p at h
  induction h generalizing c with
  | @first c' n w e h ih =>
    cases hp
    cases c' with
    | sum => exact .first h
    | term sign => exact .first (ih rfl)
    | power sign => cases sign with
      | true => exact .first h
      | false => exact .first (.bare (h.unsigned rfl) h)
  | @next c' m n w v l r op hop hl hr ihl _ =>
    cases hp
    have hl := ihl rfl
    cases c' with
    | sum => exact .next hop hl hr
    | term sign => exact .next hop hl hr
    | power sign => exact .next hop hl hr
  | _ => cases hp

theorem loosen_succ (h : Derives Unsigned (.ofPrecedence (k + 1)) n w e) :
    Derives Unsigned (.ofPrecedence k) n w e := by
  match k with
  | 0 => exact h
  | 1 => exact .first (.bare (h.unsigned rfl) h.withSign)
  | 2 => exact .first h
  | 3 => exact .first h
  | _ + 4 => exact h

/-- What is written at a precedence can stand wherever a lower one is expected. -/
theorem loosen {j : ℕ} (h : Derives Unsigned (.ofPrecedence k) n w e) (hjk : j ≤ k) :
    Derives Unsigned (.ofPrecedence j) n w e := by
  obtain ⟨d, rfl⟩ := Nat.exists_eq_add_of_le hjk
  induction d with
  | zero => exact h
  | succ d ih => exact ih h.loosen_succ (Nat.le_add_right j d)

/-- What is written at a precedence can follow an operation of a lower one. -/
theorem operand (h : Derives Unsigned (.ofPrecedence k) n w e) (hk : c.precedence < k) :
    Derives Unsigned c.operand n w e := by
  have h := h.loosen hk
  cases c with
  | sum => exact .bare (h.unsigned rfl) h
  | term sign => exact .bare (h.unsigned rfl) h.withSign
  | power sign => exact .bare (h.unsigned rfl) (.bare (h.unsigned rfl) h)

end Derives

end SymCalc
