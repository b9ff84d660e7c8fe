import SymCalc.Expr.Reader
import SymCalc.Proofs.Expr.Grammar

/-!
# Derived texts are read

**Theorem (`Derives.reads`).** A text that is derived as a part is read by the reader of the part,
whatever follows it, unless that would go on with the part (`Stops`). If its parentheses nest
deeper than allowed, the reader stops for that reason.

A chain is derived from its last operation, but read from its first. So the induction shows more
of a chain: reading it is going on from what has been derived so far (`ReadsOn`), whatever
operations of the same level follow.
-/

namespace SymCalc

open Text SymCalc.Expr Reader

/-! ## Readers of parts -/

/-- How a part is read. -/
def Part.reader (nested : Nested) : Part → Reader Expr
  | chain .sum => Reader.sum nested
  | chain (.term sign) => Reader.term nested sign
  | chain (.power sign) => Reader.power nested sign
  | signed p => Reader.signed (p.reader nested)
  | atom => Reader.atom nested

theorem reader_primary (nested : Nested) (sign : Bool) :
    (Part.primary sign).reader nested = Reader.primary nested sign := by
  cases sign <;> rfl

theorem reader_chain (nested : Nested) (c : Level) :
    (Part.chain c).reader nested =
      Reader.chain c.precedence (c.first.reader nested) (c.operand.reader nested) := by
  cases c with
  | sum => rfl
  | term sign => rfl
  | power sign => rw [Level.first, reader_primary]; rfl

/-- What is read inside parentheses when `L` more levels of them are allowed. -/
def nested (limit : ℤ) : ℕ → Nested
  | 0 => .error (.nestedTooDeep limit)
  | L + 1 => .ok (expression limit L)

theorem expression_eq (limit : ℤ) (L : ℕ) :
    expression limit L = (Part.chain .sum).reader (nested limit L) := by
  cases L <;> rfl

/-! ## Where a part ends -/

/-- No numeral and no operation of this precedence or a higher one goes on with the text. -/
def Stops (k : ℕ) : List Char → Prop
  | [] => True
  | c :: _ =>
    Numeral.isNumeralChar c = false ∧ ∀ op, BinaryOp.ofSymbol? c = some op → op.precedence < k

theorem Stops.mono {j k : ℕ} {rest : List Char} (h : Stops j rest) (hjk : j ≤ k) :
    Stops k rest := by
  cases rest with
  | nil => trivial
  | cons c t => exact ⟨h.1, fun op hop => (h.2 op hop).trans_le hjk⟩

theorem stops_symbol {op : BinaryOp} {k : ℕ} (hop : op.precedence < k) (t : List Char) :
    Stops k (op.symbol :: t) := by
  constructor
  · cases op <;> decide
  · intro op' hop'
    rw [BinaryOp.ofSymbol?_symbol] at hop'
    cases hop'
    exact hop

theorem stops_close (k : ℕ) (t : List Char) : Stops k (')' :: t) :=
  ⟨by decide, nofun⟩

/-- The precedence from which on an operation after the part would be taken as its own. -/
def Part.reach : Part → ℕ
  | chain c => c.precedence
  | signed p => p.reach
  | atom => 4

theorem Level.reach_first (c : Level) : c.first.reach = c.precedence + 1 := by
  cases c with
  | sum => rfl
  | term sign => rfl
  | power sign => cases sign <;> rfl

theorem Level.reach_operand (c : Level) : c.operand.reach = c.precedence + 1 := by
  cases c <;> rfl

/-! ## Going on with a chain -/

section

variable {precedence : ℕ} {operand : Reader Expr} {s rest t : List Char} {e : Expr}

theorem extend_of_stops (h : rest.length < s.length) (hrest : Stops precedence rest) :
    extend precedence operand (s := s) ⟨e, rest, h⟩ = .ok ⟨e, rest, h⟩ := by
  rw [extend]
  split
  · rfl
  · rename_i c t heq
    cases (heq : rest = c :: t)
    have hnone : (BinaryOp.ofSymbol? c).filter (·.precedence = precedence) = none := by
      cases hc : BinaryOp.ofSymbol? c with
      | none => rfl
      | some op =>
        have := hrest.2 op hc
        simp
        omega
    rw [hnone]

theorem shorter_after {c : Char} (h : (c :: t).length < s.length) (r : Reading Expr t) :
    r.rest.length < s.length := by
  have := r.shorter
  rw [List.length_cons] at h
  omega

theorem extend_symbol {op : BinaryOp} (hop : op.precedence = precedence)
    (h : (op.symbol :: t).length < s.length) :
    extend precedence operand (s := s) ⟨e, op.symbol :: t, h⟩ =
      match operand t with
      | .error stop => .error stop
      | .ok r => extend precedence operand ⟨binary op e r.value, r.rest, shorter_after h r⟩ := by
  rw [extend]
  split
  · rename_i heq
    cases heq
  · rename_i c u heq
    obtain ⟨rfl, rfl⟩ := List.cons.inj heq
    have hsome : (BinaryOp.ofSymbol? op.symbol).filter (·.precedence = precedence) = some op := by
      simp [hop]
    split
    · rename_i hnone
      rw [hsome] at hnone
      cases hnone
    · rename_i op' hop'
      rw [hsome] at hop'
      cases hop'
      rfl

end

/-! ## Derived texts are read -/

/-- The reading goes on as `k` from `e` before `rest`, or stops as nested too deep if `n` levels are
more than the `L` that are allowed. -/
def Answers (limit : ℤ) (L n : ℕ) (e : Expr) (rest : List Char) {s : List Char}
    (k : Reading Expr s → Except Stop (Reading Expr s)) (r : Except Stop (Reading Expr s)) :
    Prop :=
  (n ≤ L → ∃ h, r = k ⟨e, rest, h⟩) ∧ (L < n → ∃ t, r = .error (.at (.nestedTooDeep limit) t))

section

variable {limit : ℤ} {L n : ℕ} {e e' : Expr} {rest rest' s t : List Char}
  {k : Reading Expr s → Except Stop (Reading Expr s)}

theorem Answers.bind {x : Except Stop (Reading Expr t)}
    {f : Reading Expr t → Except Stop (Reading Expr s)} (h : Answers limit L n e rest .ok x)
    (hf : ∀ hlt, ∃ hlt', f ⟨e, rest, hlt⟩ = k ⟨e', rest', hlt'⟩) :
    Answers limit L n e' rest' k (x >>= f) := by
  constructor
  · intro hn
    obtain ⟨hlt, rfl⟩ := h.1 hn
    exact hf hlt
  · intro hn
    obtain ⟨u, rfl⟩ := h.2 hn
    exact ⟨u, rfl⟩

/-- Each pair of parentheses uses up one level. -/
theorem Answers.enter {read : Reader Expr → Reader Expr}
    (h : ∀ L, Answers limit L n e rest k (read (expression limit L) s)) (L : ℕ) :
    Answers limit L (n + 1) e rest k (Reader.enter (nested limit L) read s) := by
  cases L with
  | zero =>
    constructor
    · intro hn
      exact absurd hn (Nat.not_succ_le_zero n)
    · intro _
      exact ⟨s, rfl⟩
  | succ L =>
    obtain ⟨hok, hdeep⟩ := h L
    constructor
    · intro hn
      exact hok (Nat.le_of_succ_le_succ hn)
    · intro hn
      exact hdeep (Nat.lt_of_succ_lt_succ hn)

end

/-- Whatever ends the part may follow it. -/
def Reads (limit : ℤ) (p : Part) (n : ℕ) (w : List Char) (e : Expr) : Prop :=
  ∀ L rest, Stops p.reach rest →
    Answers limit L n e rest .ok (p.reader (nested limit L) (w ++ rest))

/-- Operations of the level may follow, which are then taken as well. -/
def ReadsOn (limit : ℤ) (c : Level) (n : ℕ) (w : List Char) (e : Expr) : Prop :=
  ∀ L rest, Stops (c.precedence + 1) rest →
    Answers limit L n e rest
      (extend c.precedence (c.operand.reader (nested limit L)))
      ((Part.chain c).reader (nested limit L) (w ++ rest))

section

variable {limit : ℤ} {p : Part} {c : Level} {m n : ℕ} {w v : List Char} {e l r : Expr}

theorem ReadsOn.reads (h : ReadsOn limit c n w e) : Reads limit (.chain c) n w e := by
  intro L rest hrest
  obtain ⟨hok, hdeep⟩ := h L rest (hrest.mono (Nat.le_succ _))
  constructor
  · intro hn
    obtain ⟨hlt, heq⟩ := hok hn
    exact ⟨hlt, heq.trans (extend_of_stops hlt hrest)⟩
  · exact hdeep

theorem readsOn_first (h : Reads limit c.first n w e) : ReadsOn limit c n w e := by
  intro L rest hrest
  rw [reader_chain]
  refine (h L rest (by rwa [Level.reach_first])).bind ?_
  intro hlt
  exact ⟨hlt, rfl⟩

theorem readsOn_next {op : BinaryOp} (hop : op.precedence = c.precedence)
    (hl : ReadsOn limit c m w l) (hr : Reads limit c.operand n v r) :
    ReadsOn limit c (max m n) (w ++ op.symbol :: v) (binary op l r) := by
  intro L rest hrest
  rw [List.append_assoc, List.cons_append]
  have hsymbol : Stops (c.precedence + 1) (op.symbol :: (v ++ rest)) := stops_symbol (by omega) _
  obtain ⟨hlok, hldeep⟩ := hl L _ hsymbol
  obtain ⟨hrok, hrdeep⟩ := hr L rest (by rwa [Level.reach_operand])
  by_cases hm : m ≤ L
  · obtain ⟨hlt, heq⟩ := hlok hm
    rw [heq, extend_symbol hop]
    constructor
    · intro hmax
      obtain ⟨hlt', heq'⟩ := hrok (by omega)
      rw [heq']
      exact ⟨_, rfl⟩
    · intro hmax
      obtain ⟨t, heq'⟩ := hrdeep (by omega)
      rw [heq']
      exact ⟨t, rfl⟩
  · constructor
    · intro hmax
      omega
    · intro _
      exact hldeep (by omega)

theorem signed_of_unsigned {operand : Reader Expr} {w : List Char} (hw : Unsigned w) :
    Reader.signed operand w = operand w := by
  cases w with
  | nil => rfl
  | cons c t =>
    rw [Reader.signed]
    split
    · rename_i op hop
      rw [unsigned_cons.mp hw] at hop
      cases hop
    · rfl

theorem signed_symbol {operand : Reader Expr} (op : UnaryOp) (t : List Char) :
    Reader.signed operand (op.symbol :: t) = do
      let r ← operand t
      return (r.map (.unary op)).lift (by simp) := by
  rw [Reader.signed]
  split
  · rename_i op' hop
    rw [UnaryOp.ofSymbol?_symbol] at hop
    cases hop
    rfl
  · rename_i hop
    rw [UnaryOp.ofSymbol?_symbol] at hop
    cases hop

theorem reads_bare (hw : Unsigned w) (hne : w ≠ []) (h : Reads limit p n w e) :
    Reads limit (.signed p) n w e := by
  intro L rest hrest
  rw [Part.reader, signed_of_unsigned (hw.append hne rest)]
  exact h L rest hrest

theorem reads_sign (op : UnaryOp) (h : Reads limit p n w e) :
    Reads limit (.signed p) n (op.symbol :: w) (unary op e) := by
  intro L rest hrest
  rw [Part.reader, List.cons_append, signed_symbol]
  refine (h L rest hrest).bind ?_
  intro hlt
  exact ⟨_, rfl⟩

/-! ### Atoms -/

theorem number_of_denotes {d : Decimal} {c : Char} {t rest : List Char}
    (h : Numeral.Denotes (c :: t) d) (hrest : ∀ a ∈ rest.head?, Numeral.isNumeralChar a = false)
    (hc : isAsciiDigit c || c == '.') :
    ∃ hlt, Reader.number c (t ++ rest) hc = .ok ⟨number d.toFloat, rest, hlt⟩ := by
  obtain ⟨htake, hdrop⟩ := takeWhile_append_of_head h.isNumeralChar hrest
  have hread := Numeral.literal?_eq_some_iff.mpr h
  rw [← htake] at hread
  rw [Reader.number]
  split
  · rename_i d' hd'
    cases hread.symm.trans hd'
    have hlt : rest.length < (c :: (t ++ rest)).length := by
      rw [List.length_cons, List.length_append]
      omega
    refine ⟨hlt, ?_⟩
    congr 2
  · rename_i hnone
    cases hread.symm.trans hnone

theorem reads_number {d : Decimal} (h : Numeral.Denotes w d) :
    Reads limit .atom 0 w (number d.toFloat) := by
  intro L rest hrest
  obtain ⟨c, t, rfl⟩ := List.exists_cons_of_ne_nil h.ne_nil
  have hc : isAsciiDigit c || c == '.' := h.isNumeralChar c List.mem_cons_self
  have hhead : ∀ a ∈ rest.head?, Numeral.isNumeralChar a = false := by
    cases rest with
    | nil => nofun
    | cons a u => simpa using hrest.1
  constructor
  · intro _
    show ∃ hlt, Reader.atom (nested limit L) (c :: (t ++ rest)) = _
    rw [Reader.atom, dif_pos hc]
    exact number_of_denotes h hhead hc
  · intro hn
    exact absurd hn (Nat.not_lt_zero L)

theorem reads_var : Reads limit .atom 0 ['x'] var := by
  intro L rest hrest
  constructor
  · intro _
    exact ⟨_, rfl⟩
  · intro hn
    exact absurd hn (Nat.not_lt_zero L)

theorem atom_open (nested : Nested) (t : List Char) :
    Reader.atom nested ('(' :: t) = do
      let r ← enter nested (fun inside s => do (← inside s).close .unclosedGroup) t
      return r.lift (by simp) := rfl

theorem atom_name (nested : Nested) {name : List Char} (hne : name ≠ [])
    (hletters : ∀ c ∈ name, isAsciiLetter c) (hx : name.head? ≠ some 'x') (u : List Char) :
    Reader.atom nested (name ++ '(' :: u) = do
      let r ← enter nested (arguments (String.ofList name)) u
      return r.lift (by simp; omega) := by
  obtain ⟨c, t, rfl⟩ := List.exists_cons_of_ne_nil hne
  have hc := hletters c List.mem_cons_self
  have hstop : ∀ a ∈ ('(' :: u).head?, isAsciiLetter a = false := by simp; decide
  obtain ⟨htake, hdrop⟩ := takeWhile_append_of_head hletters hstop
  have hnumeral : ¬(isAsciiDigit c || c == '.') = true := by
    intro h
    simp [isAsciiDigit, isAsciiLetter, Char.le_def, UInt32.le_iff_toNat_le] at h hc
    rcases h with h | rfl
    · omega
    · exact absurd hc (by decide)
  have hx' : ¬c = 'x' := by simpa using hx
  have hopen : ¬c = '(' := by
    rintro rfl
    exact absurd hc (by decide)
  show Reader.atom nested (c :: (t ++ '(' :: u)) = _
  rw [Reader.atom, dif_neg hnumeral, if_neg hx', if_neg hopen, dif_pos hc]
  split
  · rename_i u' after
    cases hdrop.symm.trans after
    have hname : (c :: (t ++ '(' :: u)).takeWhile isAsciiLetter = c :: t := htake
    dsimp only
    rw [hname]
  · rename_i hnone
    exact absurd hdrop (hnone u)

/-- Inside parentheses, the closing one ends the expression. -/
theorem reads_inside (h : Reads limit (.chain .sum) n w e) (f : Expr → Expr)
    (cause : ParseError.Cause) (L : ℕ) (rest : List Char) :
    Answers limit L n (f e) rest .ok (do
      let r ← expression limit L (w ++ ')' :: rest)
      (r.map f).close cause) := by
  rw [expression_eq]
  refine (h L _ (stops_close _ _)).bind ?_
  intro hlt
  exact ⟨_, rfl⟩

theorem reads_group (h : Reads limit (.chain .sum) n w e) :
    Reads limit .atom (n + 1) ('(' :: (w ++ [')'])) e := by
  intro L rest hrest
  have hinside (L : ℕ) := reads_inside h id .unclosedGroup L rest
  rw [Part.reader, List.cons_append, List.append_assoc, atom_open]
  refine (Answers.enter hinside L).bind ?_
  intro hlt
  exact ⟨_, rfl⟩

theorem reads_call {name : String} (hname : ProperName name) (hlog : name ≠ "log")
    (h : Reads limit (.chain .sum) n w e) :
    Reads limit .atom (n + 1) (name.toList ++ '(' :: (w ++ [')'])) (call name none e) := by
  intro L rest hrest
  have hinside (L : ℕ) : Answers limit L n (call name none e) rest .ok
      (arguments name (expression limit L) (w ++ ')' :: rest)) := by
    rw [arguments, if_neg hlog]
    exact reads_inside h (call name none) _ L rest
  rw [Part.reader, List.append_assoc, List.cons_append, List.append_assoc,
    atom_name _ hname.ne_nil hname.letters hname.head_ne, String.ofList_toList]
  refine (Answers.enter hinside L).bind ?_
  intro hlt
  exact ⟨_, rfl⟩

theorem logBase_of_digits {ds : List Char} (hds : ∀ c ∈ ds, isAsciiDigit c) (hne : ds ≠ [])
    (hlimit : ds.length ≤ digitLimit) (t : List Char) :
    ∃ hlt, logBase (ds ++ ',' :: t) = .ok ⟨natOfDigits ds, t, hlt⟩ := by
  have hcomma : ∀ a ∈ (',' :: t).head?, isAsciiDigit a = false := by simp; decide
  obtain ⟨htake, hdrop⟩ := takeWhile_append_of_head hds hcomma
  have hread : Numeral.readDigits ds = .ok (natOfDigits ds) := by
    rw [Numeral.readDigits_eq hds, if_neg (by omega)]
  rw [logBase, htake, if_neg hne, hread]
  dsimp only
  split
  · rename_i u after
    cases hdrop.symm.trans after
    exact ⟨by simp; omega, rfl⟩
  · rename_i hnone
    exact absurd hdrop (hnone t)

theorem reads_log {ds : List Char} (hds : ∀ c ∈ ds, isAsciiDigit c) (hne : ds ≠ [])
    (hlimit : ds.length ≤ digitLimit) (h : Reads limit (.chain .sum) n w e) :
    Reads limit .atom (n + 1) ('l' :: 'o' :: 'g' :: '(' :: (ds ++ ',' :: (w ++ [')'])))
      (call "log" (some (natOfDigits ds)) e) := by
  intro L rest hrest
  have htext : 'l' :: 'o' :: 'g' :: '(' :: (ds ++ ',' :: (w ++ [')'])) ++ rest =
      ['l', 'o', 'g'] ++ '(' :: (ds ++ ',' :: (w ++ ')' :: rest)) := by simp
  have hletters : ∀ c ∈ ['l', 'o', 'g'], isAsciiLetter c := properName_log.letters
  obtain ⟨hlt, hbase⟩ := logBase_of_digits hds hne hlimit (w ++ ')' :: rest)
  have hinside (L : ℕ) : Answers limit L n (call "log" (some (natOfDigits ds)) e) rest .ok
      (arguments "log" (expression limit L) (ds ++ ',' :: (w ++ ')' :: rest))) := by
    rw [arguments, if_pos rfl, hbase, expression_eq]
    refine (h L _ (stops_close _ _)).bind ?_
    intro hlt
    exact ⟨_, rfl⟩
  rw [Part.reader, htext, atom_name _ (by simp) hletters (by simp)]
  refine (Answers.enter hinside L).bind ?_
  intro hlt
  exact ⟨_, rfl⟩

end

/-- **Derived texts are read.** -/
theorem Derives.reads {p : Part} {n : ℕ} {w : List Char} {e : Expr}
    (h : Derives Unsigned p n w e) (limit : ℤ) : Reads limit p n w e := by
  have hon : Reads limit p n w e ∧ ∀ c, p = .chain c → ReadsOn limit c n w e := by
    induction h with
    | @first c n w e _ ih =>
      have h := readsOn_first ih.1
      exact ⟨h.reads, fun _ hc => by cases hc; exact h⟩
    | @next c m n w v l r op hop _ _ ihl ihr =>
      have h := readsOn_next hop (ihl.2 c rfl) ihr.1
      exact ⟨h.reads, fun _ hc => by cases hc; exact h⟩
    | bare hw h ih => exact ⟨reads_bare hw h.ne_nil ih.1, nofun⟩
    | sign op _ ih => exact ⟨reads_sign op ih.1, nofun⟩
    | number h => exact ⟨reads_number h, nofun⟩
    | var => exact ⟨reads_var, nofun⟩
    | group _ ih => exact ⟨reads_group ih.1, nofun⟩
    | call hname hlog _ ih => exact ⟨reads_call hname hlog ih.1, nofun⟩
    | log hds hne hlimit _ ih => exact ⟨reads_log hds hne hlimit ih.1, nofun⟩
  exact hon.1

end SymCalc
