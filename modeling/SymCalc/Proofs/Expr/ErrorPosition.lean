import SymCalc.Proofs.Expr.RoundTrip

/-!
# Where errors of reading point

**Theorem (`pointsAt_of_parse`).** An error of reading points into the text. What stands before
that place can be completed to a text that is read (`Viable`), and the character there is the one
to blame. If parentheses nest too deep, the text before that place is the shortest one with more
of them unclosed than are allowed (`TooDeep`).

A reader stops with what is left of its own text, so the argument follows the readers outwards:
what a reader leaves in front of the place that it blames is viable as its part (`Blames`), and
what the surrounding readers have taken goes before it (`BlamedFrom.after`). The texts that may go
before a part are the signs, the operands with their operation, and the openings of parentheses.
-/

namespace SymCalc

open Text SymCalc.Expr Reader

/-- Whether the complaint is about the nesting of parentheses. -/
def ParseError.Cause.isNesting : Cause → Bool
  | nestedTooDeep _ => true
  | _ => false

/-! ## Unclosed parentheses -/

/-- How many parentheses are unclosed after a character, when `d` of them are before it. -/
def unclosedAfter (d : ℕ) (c : Char) : ℕ :=
  if c = '(' then d + 1 else if c = ')' then d - 1 else d

/-- How many parentheses are unclosed after a text, when `d` of them are before it. -/
def unclosedFrom (d : ℕ) (w : List Char) : ℕ :=
  w.foldl unclosedAfter d

/-- How many parentheses of a text are unclosed. -/
def unclosed (w : List Char) : ℕ :=
  unclosedFrom 0 w

theorem unclosedFrom_append (d : ℕ) (w v : List Char) :
    unclosedFrom d (w ++ v) = unclosedFrom (unclosedFrom d w) v :=
  List.foldl_append

theorem unclosedFrom_open (d : ℕ) (w : List Char) :
    unclosedFrom d ('(' :: w) = unclosedFrom (d + 1) w := rfl

theorem unclosedAfter_plain {c : Char} (hc : Plain c) (d : ℕ) : unclosedAfter d c = d := by
  rw [unclosedAfter, if_neg hc.2.1, if_neg hc.2.2]

theorem unclosedFrom_plain {w : List Char} (hw : ∀ c ∈ w, Plain c) (d : ℕ) :
    unclosedFrom d w = d := by
  induction w with
  | nil => rfl
  | cons c w ih =>
    obtain ⟨hc, hw⟩ := List.forall_mem_cons.mp hw
    rw [unclosedFrom, List.foldl_cons, unclosedAfter_plain hc]
    exact ih hw

theorem unclosedFrom_parenthesized {w : List Char} (h : ∀ d, unclosedFrom d w = d) (d : ℕ) :
    unclosedFrom d ('(' :: (w ++ [')'])) = d := by
  rw [unclosedFrom_open, unclosedFrom_append, h]
  rfl

/-- Derived texts close all their parentheses. -/
theorem Derives.unclosedFrom_eq {leaveOut : List Char → Prop} {p : Part} {n : ℕ} {w : List Char}
    {e : Expr} (h : Derives leaveOut p n w e) (d : ℕ) : unclosedFrom d w = d := by
  induction h generalizing d with
  | first _ ih => exact ih d
  | bare _ _ ih => exact ih d
  | @next _ _ _ w v _ _ op _ _ _ ihl ihr =>
    rw [unclosedFrom_append, ihl, unclosedFrom, List.foldl_cons,
      unclosedAfter_plain (plain_binarySymbol op)]
    exact ihr d
  | sign op _ ih =>
    rw [unclosedFrom, List.foldl_cons, unclosedAfter_plain (plain_unarySymbol op)]
    exact ih d
  | number h =>
    have hplain := fun c hc => plain_of_isNumeralChar (h.isNumeralChar c hc)
    exact unclosedFrom_plain hplain d
  | var => exact unclosedFrom_plain (by simp) d
  | group _ ih => exact unclosedFrom_parenthesized ih d
  | call hname _ _ ih =>
    rw [unclosedFrom_append, unclosedFrom_plain hname.plain]
    exact unclosedFrom_parenthesized ih d
  | @log n ds w e hds _ _ _ ih =>
    have hinside (d : ℕ) : unclosedFrom d (ds ++ ',' :: w) = d := by
      rw [unclosedFrom_append, unclosedFrom_plain fun c hc => plain_of_isAsciiDigit (hds c hc)]
      exact ih d
    have h := unclosedFrom_parenthesized hinside d
    rw [List.append_assoc] at h
    exact h

/-- The parentheses that are unclosed somewhere in a text are nested there. -/
theorem unclosedFrom_take_le (w : List Char) (d q : ℕ) :
    unclosedFrom d (w.take q) ≤ nestingFrom d w := by
  induction w generalizing d q with
  | nil => simp [unclosedFrom, nestingFrom]
  | cons c t ih =>
    cases q with
    | zero => exact le_nestingFrom d (c :: t)
    | succ q =>
      rw [List.take_succ_cons, unclosedFrom, List.foldl_cons, unclosedAfter, nestingFrom]
      split_ifs
      · exact ih (d + 1) q
      · exact (ih (d - 1) q).trans (le_max_right d _)
      · exact ih d q

/-- The text ends where for the first time more than `L` parentheses are unclosed. -/
def TooDeep (L : ℕ) (w : List Char) : Prop :=
  ∃ u, w = u ++ ['('] ∧ ∀ d, unclosedFrom d u = d + L ∧ nestingFrom d u = d + L

section

variable {L n : ℕ} {u v w : List Char}

theorem tooDeep_zero (hu : ∀ c ∈ u, Plain c) : TooDeep 0 (u ++ ['(']) := by
  refine ⟨u, rfl, fun d => ⟨unclosedFrom_plain hu d, ?_⟩⟩
  have h := nestingFrom_append hu d []
  rwa [List.append_nil] at h

theorem TooDeep.after_plain (h : TooDeep L w) (hv : ∀ c ∈ v, Plain c) : TooDeep L (v ++ w) := by
  obtain ⟨u, rfl, hu⟩ := h
  refine ⟨v ++ u, (List.append_assoc v u _).symm, fun d => ?_⟩
  rw [unclosedFrom_append, unclosedFrom_plain hv, nestingFrom_append hv]
  exact hu d

theorem TooDeep.after_open (h : TooDeep L w) : TooDeep (L + 1) ('(' :: w) := by
  obtain ⟨u, rfl, hu⟩ := h
  refine ⟨'(' :: u, rfl, fun d => ?_⟩
  obtain ⟨hunclosed, hnesting⟩ := hu (d + 1)
  rw [unclosedFrom_open, nestingFrom_open, hunclosed, hnesting]
  omega

theorem TooDeep.after_derived {leaveOut : List Char → Prop} {p : Part} {e : Expr}
    (h : TooDeep L w) (hv : Derives leaveOut p n v e) (hn : n ≤ L) : TooDeep L (v ++ w) := by
  obtain ⟨u, rfl, hu⟩ := h
  refine ⟨v ++ u, (List.append_assoc v u _).symm, fun d => ?_⟩
  obtain ⟨hunclosed, hnesting⟩ := hu d
  rw [unclosedFrom_append, hv.unclosedFrom_eq, hv.nestingFrom_append, hunclosed, hnesting]
  omega

theorem TooDeep.lt_unclosed (h : TooDeep L w) : L < unclosed w := by
  obtain ⟨u, rfl, hu⟩ := h
  rw [unclosed, unclosedFrom_append, (hu 0).1]
  show L < 0 + L + 1
  omega

/-- No shorter text has as many unclosed parentheses. -/
theorem TooDeep.length_le (h : TooDeep L w) (rest : List Char) {q : ℕ}
    (hq : L < unclosed ((w ++ rest).take q)) : w.length ≤ q := by
  obtain ⟨u, rfl, hu⟩ := h
  by_contra hlt
  have hshort : q ≤ u.length := by
    rw [List.length_append, List.length_singleton] at hlt
    omega
  have hle := unclosedFrom_take_le u 0 q
  rw [(hu 0).2] at hle
  rw [List.append_assoc, List.take_append_of_le_length hshort, unclosed] at hq
  omega

end

/-! ## Viable texts -/

/-- The text can be completed to one that stands for something, as a part `p` and within `L`
levels of parentheses. -/
def Viable (L : ℕ) (p : Part) (w : List Char) : Prop :=
  ∃ v n e, n ≤ L ∧ Derives Unsigned p n (w ++ v) e

theorem derives_var (p : Part) : Derives Unsigned p 0 ['x'] var := by
  have hx : Unsigned ['x'] := unsigned_cons.mpr rfl
  have hprimary (sign : Bool) : Derives Unsigned (.primary sign) 0 ['x'] var := by
    cases sign with
    | true => exact .bare hx .var
    | false => exact .var
  have hterm (sign : Bool) : Derives Unsigned (.chain (.term sign)) 0 ['x'] var :=
    .first (.first (hprimary sign))
  induction p with
  | chain c =>
    cases c with
    | sum => exact .first (.bare hx (hterm true))
    | term sign => exact hterm sign
    | power sign => exact .first (hprimary sign)
  | signed p ih => exact .bare hx ih
  | atom => exact .var

section

variable {L n : ℕ} {p : Part} {c : Level} {v w ds : List Char} {e : Expr}

theorem viable_nil (L : ℕ) (p : Part) : Viable L p [] :=
  ⟨['x'], 0, var, Nat.zero_le L, derives_var p⟩

theorem viable_of_derives (h : Derives Unsigned p n w e) (hn : n ≤ L) : Viable L p w :=
  ⟨[], n, e, hn, by rwa [List.append_nil]⟩

theorem Viable.of_append (h : Viable L p (w ++ v)) : Viable L p w := by
  obtain ⟨u, n, e, hn, h⟩ := h
  exact ⟨v ++ u, n, e, hn, by rwa [← List.append_assoc]⟩

theorem Viable.first (h : Viable L c.first w) : Viable L (.chain c) w := by
  obtain ⟨u, n, e, hn, h⟩ := h
  exact ⟨u, n, e, hn, .first h⟩

theorem Viable.next {op : BinaryOp} (hop : op.precedence = c.precedence)
    (hl : Derives Unsigned (.chain c) n v e) (hn : n ≤ L) (h : Viable L c.operand w) :
    Viable L (.chain c) (v ++ op.symbol :: w) := by
  obtain ⟨u, m, r, hm, h⟩ := h
  refine ⟨u, max n m, binary op e r, max_le hn hm, ?_⟩
  rw [List.append_assoc, List.cons_append]
  exact .next hop hl h

/-- Without a sign, a text that goes on at all is viable where a sign is optional. -/
theorem Viable.bare {rest : List Char} (hs : Unsigned (w ++ rest)) (h : Viable L p w) :
    Viable L (.signed p) w := by
  obtain ⟨u, n, e, hn, h⟩ := h
  cases w with
  | nil => exact viable_nil L (.signed p)
  | cons a w => exact ⟨u, n, e, hn, .bare hs h⟩

theorem Viable.sign (op : UnaryOp) (h : Viable L p w) : Viable L (.signed p) (op.symbol :: w) := by
  obtain ⟨u, n, e, hn, h⟩ := h
  exact ⟨u, n, unary op e, hn, .sign op h⟩

theorem Viable.group (h : Viable L (.chain .sum) w) : Viable (L + 1) .atom ('(' :: w) := by
  obtain ⟨u, n, e, hn, h⟩ := h
  refine ⟨u ++ [')'], n + 1, e, Nat.succ_le_succ hn, ?_⟩
  rw [List.cons_append, ← List.append_assoc]
  exact .group h

theorem Viable.call {name : String} (hname : ProperName name) (hlog : name ≠ "log")
    (h : Viable L (.chain .sum) w) : Viable (L + 1) .atom (name.toList ++ '(' :: w) := by
  obtain ⟨u, n, e, hn, h⟩ := h
  refine ⟨u ++ [')'], n + 1, Expr.call name none e, Nat.succ_le_succ hn, ?_⟩
  rw [List.append_assoc, List.cons_append, ← List.append_assoc w]
  exact .call hname hlog h

theorem Viable.log (hds : ∀ c ∈ ds, isAsciiDigit c) (hne : ds ≠ [])
    (hlimit : ds.length ≤ digitLimit) (h : Viable L (.chain .sum) w) :
    Viable (L + 1) .atom ("log".toList ++ '(' :: (ds ++ ',' :: w)) := by
  obtain ⟨u, n, e, hn, h⟩ := h
  refine ⟨u ++ [')'], n + 1, Expr.call "log" (some (natOfDigits ds)) e, Nat.succ_le_succ hn, ?_⟩
  have htext : "log".toList ++ '(' :: (ds ++ ',' :: w) ++ (u ++ [')']) =
      'l' :: 'o' :: 'g' :: '(' :: (ds ++ ',' :: (w ++ u ++ [')'])) := by simp
  rw [htext]
  exact .log hds hne hlimit h

end

/-! ## Blame -/

/-- The text `w` in front of the place that is blamed for this cause. -/
structure Blamed (L : ℕ) (p : Part) (w : List Char) (cause : ParseError.Cause) : Prop where
  deep : cause.isNesting = true → TooDeep L w
  viable : cause.isNesting = false → Viable L p w

/-- Reading `s` as a part `p` stopped at a place that is to blame. -/
def BlamedFrom (L : ℕ) (p : Part) (s : List Char) : Stop → Prop
  | .at cause rest => ∃ w, s = w ++ rest ∧ Blamed L p w cause
  | .numeral _ => True

/-- Where the reader stops, that place is to blame. -/
def Blames (L : ℕ) (p : Part) (reader : Reader Expr) : Prop :=
  ∀ s stop, reader s = .error stop → BlamedFrom L p s stop

section

variable {L M : ℕ} {p q : Part} {c : Level} {lead operand inside : Reader Expr}
  {s t u v w rest : List Char} {e : Expr} {stop : Stop} {cause : ParseError.Cause}

theorem blamed_of_viable (hcause : cause.isNesting = false) (h : Viable L p w) :
    Blamed L p w cause where
  deep hnesting := by simp [hcause] at hnesting
  viable _ := h

/-- At the very beginning anything may be missing. -/
theorem blamedFrom_start (hcause : cause.isNesting = false) : BlamedFrom L p s (.at cause s) :=
  ⟨[], rfl, blamed_of_viable hcause (viable_nil L p)⟩

/-- What was taken before goes in front. -/
theorem BlamedFrom.after (h : BlamedFrom L p s stop)
    (hdeep : ∀ w, TooDeep L w → TooDeep M (v ++ w))
    (hviable : ∀ w, Viable L p w → Viable M q (v ++ w)) : BlamedFrom M q (v ++ s) stop := by
  cases stop with
  | numeral e => trivial
  | «at» cause rest =>
    obtain ⟨w, rfl, hblamed⟩ := h
    refine ⟨v ++ w, (List.append_assoc v w rest).symm, ?_, ?_⟩
    · intro hcause
      exact hdeep w (hblamed.deep hcause)
    · intro hcause
      exact hviable w (hblamed.viable hcause)

/-! ### Chains and signs -/

theorem BlamedFrom.first (h : BlamedFrom L c.first s stop) : BlamedFrom L (.chain c) s stop :=
  h.after (fun _ hw => hw) (v := []) fun _ hw => hw.first

theorem BlamedFrom.next {op : BinaryOp} (hop : op.precedence = c.precedence)
    (hl : DerivedFrom s (op.symbol :: t) L (.chain c) e) (h : BlamedFrom L c.operand t stop) :
    BlamedFrom L (.chain c) s stop := by
  obtain ⟨v, n, rfl, hn, hd⟩ := hl
  have hplain : ∀ c ∈ [op.symbol], Plain c := List.forall_mem_singleton.mpr (plain_binarySymbol op)
  rw [← List.singleton_append, ← List.append_assoc]
  refine h.after ?_ ?_
  · intro w hw
    rw [List.append_assoc]
    exact (hw.after_plain hplain).after_derived hd hn
  · intro w hw
    rw [List.append_assoc]
    exact hw.next hop hd hn

theorem BlamedFrom.bare (hs : Unsigned s) (h : BlamedFrom L p s stop) :
    BlamedFrom L (.signed p) s stop := by
  cases stop with
  | numeral e => trivial
  | «at» cause rest =>
    obtain ⟨w, rfl, hblamed⟩ := h
    refine ⟨w, rfl, hblamed.deep, ?_⟩
    intro hcause
    exact (hblamed.viable hcause).bare hs

theorem BlamedFrom.sign (op : UnaryOp) (h : BlamedFrom L p t stop) :
    BlamedFrom L (.signed p) (op.symbol :: t) stop :=
  h.after (v := [op.symbol])
    (fun _ hw => hw.after_plain (List.forall_mem_singleton.mpr (plain_unarySymbol op)))
    fun _ hw => hw.sign op

theorem blames_signed (h : Blames L p operand) : Blames L (.signed p) (Reader.signed operand) := by
  intro s stop hr
  by_cases hs : Unsigned s
  · rw [signed_of_unsigned hs] at hr
    exact (h s stop hr).bare hs
  · obtain ⟨op, t, rfl⟩ := exists_of_not_unsigned hs
    rw [signed_symbol] at hr
    rcases bind_eq_error.mp hr with hr | ⟨r, -, hr⟩
    · exact (h t stop hr).sign op
    · cases hr

/-- The operand that cannot be read comes after what has been derived. -/
theorem blames_extend (hsound : Sound L c.operand operand) (hoperand : Blames L c.operand operand)
    (left : Reading Expr s) (hr : extend c.precedence operand left = .error stop)
    (hleft : DerivedFrom s left.rest L (.chain c) left.value) :
    BlamedFrom L (.chain c) s stop := by
  fun_induction Reader.extend c.precedence operand left with
  | case1 left h => cases hr
  | case2 left a t h hnone => cases hr
  | case3 left a t h op hop e he =>
    cases hr
    obtain ⟨hop, hprec⟩ := Option.filter_eq_some_iff.mp hop
    rw [h, ← BinaryOp.symbol_of_ofSymbol? hop] at hleft
    exact (hoperand t stop he).next (of_decide_eq_true hprec) hleft
  | case4 left a t h op hop right hright ih =>
    apply ih hr
    obtain ⟨hop, hprec⟩ := Option.filter_eq_some_iff.mp hop
    rw [h, ← BinaryOp.symbol_of_ofSymbol? hop] at hleft
    exact hleft.next (of_decide_eq_true hprec) (hsound t right hright)

theorem blames_chain (hlead : Sound L c.first lead) (hlead' : Blames L c.first lead)
    (hoperand : Sound L c.operand operand) (hoperand' : Blames L c.operand operand) :
    Blames L (.chain c) (Reader.chain c.precedence lead operand) := by
  intro s stop hr
  rcases bind_eq_error.mp hr with hr | ⟨left, hleft, hr⟩
  · exact (hlead' s stop hr).first
  · exact blames_extend hoperand hoperand' left hr (hlead s left hleft).first

/-! ### Atoms -/

theorem BlamedFrom.group (h : BlamedFrom L (.chain .sum) s stop) :
    BlamedFrom (L + 1) .atom ('(' :: s) stop :=
  h.after (v := ['(']) (fun _ hw => hw.after_open) fun _ hw => hw.group

theorem BlamedFrom.call {name : String} (hname : ProperName name) (hlog : name ≠ "log")
    (h : BlamedFrom L (.chain .sum) s stop) :
    BlamedFrom (L + 1) .atom (name.toList ++ '(' :: s) stop := by
  have h := h.after (v := name.toList ++ ['(']) (M := L + 1) (q := .atom) ?_ ?_
  · rwa [List.append_assoc] at h
  · intro w hw
    rw [List.append_assoc]
    exact hw.after_open.after_plain hname.plain
  · intro w hw
    rw [List.append_assoc]
    exact hw.call hname hlog

theorem BlamedFrom.log {ds : List Char} (hds : ∀ c ∈ ds, isAsciiDigit c) (hne : ds ≠ [])
    (hlimit : ds.length ≤ digitLimit) (hs : s = ds ++ ',' :: t)
    (h : BlamedFrom L (.chain .sum) t stop) :
    BlamedFrom (L + 1) .atom ("log".toList ++ '(' :: s) stop := by
  have htext (w : List Char) :
      "log".toList ++ '(' :: (ds ++ [',']) ++ w = "log".toList ++ '(' :: (ds ++ ',' :: w) := by simp
  have hinside : ∀ c ∈ ds ++ [','], Plain c := by
    rw [List.forall_mem_append, List.forall_mem_singleton]
    exact ⟨fun c hc => plain_of_isAsciiDigit (hds c hc), plain_comma⟩
  have h := h.after (v := "log".toList ++ '(' :: (ds ++ [','])) (M := L + 1) (q := .atom) ?_ ?_
  · rwa [htext, ← hs] at h
  · intro w hw
    have hopen := (hw.after_plain hinside).after_open.after_plain properName_log.plain
    rw [List.append_assoc ds] at hopen
    rw [htext]
    exact hopen
  · intro w hw
    rw [htext]
    exact hw.log hds hne hlimit

theorem blames_close {α : Type} {r : Reading α t} (hcause : cause.isNesting = false)
    (h : r.close cause = .error stop) (hd : DerivedFrom s r.rest L p e) :
    BlamedFrom L p s stop := by
  rw [Reading.close] at h
  split at h
  · cases h
  · cases h
    obtain ⟨w, n, hs, hn, hd⟩ := hd
    exact ⟨w, hs, blamed_of_viable hcause (viable_of_derives hd hn)⟩

theorem blames_number {a : Char} {ha : isAsciiDigit a || a == '.'}
    (h : Reader.number a t ha = .error stop) : BlamedFrom L .atom (a :: t) stop := by
  rw [Reader.number] at h
  split at h
  · cases h
  · cases h
    exact blamedFrom_start rfl

theorem blames_logBase (h : logBase s = .error stop) :
    BlamedFrom (L + 1) .atom ("log".toList ++ '(' :: s) stop := by
  have hds : ∀ c ∈ s.takeWhile isAsciiDigit, isAsciiDigit c := forall_mem_takeWhile s
  rw [logBase, Numeral.readDigits_eq hds] at h
  by_cases hne : s.takeWhile isAsciiDigit = []
  · rw [if_pos hne] at h
    cases h
    have hone : ∀ c ∈ ['1'], isAsciiDigit c := List.forall_mem_singleton.mpr (by decide)
    have hviable := (viable_nil L (.chain .sum)).log hone (by decide) (by decide)
    have hopen : Viable (L + 1) .atom ("log".toList ++ ['(']) :=
      Viable.of_append (v := ['1', ',']) hviable
    exact ⟨"log".toList ++ ['('], by simp, blamed_of_viable rfl hopen⟩
  rw [if_neg hne] at h
  by_cases hlimit : digitLimit < (s.takeWhile isAsciiDigit).length
  · rw [if_pos hlimit] at h
    cases h
    trivial
  rw [if_neg hlimit] at h
  dsimp only at h
  split at h
  · cases h
  · cases h
    have hviable := (viable_nil L (.chain .sum)).log hds hne (not_lt.mp hlimit)
    have hbase : Viable (L + 1) .atom ("log".toList ++ '(' :: s.takeWhile isAsciiDigit) := by
      rw [← List.cons_append, ← List.append_assoc] at hviable
      exact hviable.of_append
    refine ⟨_, ?_, blamed_of_viable rfl hbase⟩
    simp

theorem blames_arguments (hsound : Sound L (.chain .sum) inside)
    (hinside : Blames L (.chain .sum) inside) {name : String} (hname : ProperName name)
    (h : arguments name inside s = .error stop) :
    BlamedFrom (L + 1) .atom (name.toList ++ '(' :: s) stop := by
  rw [arguments] at h
  by_cases hlog : name = "log"
  · subst hlog
    rw [if_pos rfl] at h
    rcases bind_eq_error.mp h with h | ⟨base, hbase, h⟩
    · exact blames_logBase h
    obtain ⟨ds, hds, hne, hlimit, hs, -⟩ := logBase_eq_ok hbase
    rcases bind_eq_error.mp h with h | ⟨argument, hargument, h⟩
    · exact (hinside _ stop h).log hds hne hlimit hs
    · have hd := hsound _ _ hargument
      exact (blames_close rfl h hd).log hds hne hlimit hs
  · rw [if_neg hlog] at h
    rcases bind_eq_error.mp h with h | ⟨argument, hargument, h⟩
    · exact (hinside _ stop h).call hname hlog
    · have hd := hsound _ _ hargument
      exact (blames_close rfl h hd).call hname hlog

/-- Between parentheses the place is to blame, with one level less; if there is no level left,
the nesting is. -/
structure BlamesInside (L : ℕ) (nested : Nested) : Prop where
  within : ∀ inside, nested = .ok inside →
    ∃ M, L = M + 1 ∧ Sound M (.chain .sum) inside ∧ Blames M (.chain .sum) inside
  beyond : ∀ cause, nested = .error cause → L = 0 ∧ cause.isNesting = true

theorem blames_enter {nested : Nested} (hnested : BlamesInside L nested)
    {read : Reader Expr → Reader Expr} (hu : ∀ c ∈ u, Plain c)
    (hread : ∀ M inside, Sound M (.chain .sum) inside → Blames M (.chain .sum) inside →
      read inside s = .error stop → BlamedFrom (M + 1) .atom (u ++ '(' :: s) stop)
    (h : enter nested read s = .error stop) : BlamedFrom L .atom (u ++ '(' :: s) stop := by
  cases nested with
  | ok inside =>
    obtain ⟨M, rfl, hsound, hblames⟩ := hnested.within inside rfl
    exact hread M inside hsound hblames h
  | error cause =>
    cases h
    obtain ⟨rfl, hcause⟩ := hnested.beyond cause rfl
    refine ⟨u ++ ['('], by simp, fun _ => tooDeep_zero hu, ?_⟩
    intro hother
    rw [hcause] at hother
    cases hother

theorem blames_atom {nested : Nested} (hnested : BlamesInside L nested) :
    Blames L .atom (Reader.atom nested) := by
  intro s stop hr
  cases s with
  | nil =>
    cases hr
    exact blamedFrom_start rfl
  | cons a t =>
    rw [Reader.atom] at hr
    by_cases hnumeral : isAsciiDigit a || a == '.'
    · rw [dif_pos hnumeral] at hr
      exact blames_number hr
    rw [dif_neg hnumeral] at hr
    by_cases hx : a = 'x'
    · rw [if_pos hx] at hr
      cases hr
    rw [if_neg hx] at hr
    by_cases hopen : a = '('
    · rw [if_pos hopen] at hr
      rcases bind_eq_error.mp hr with hr | ⟨b, -, hr⟩
      · rw [hopen]
        refine blames_enter hnested (u := []) (by simp) ?_ hr
        intro M inside hsound hblames hr
        rcases bind_eq_error.mp hr with hr | ⟨b, hb, hr⟩
        · exact (hblames t stop hr).group
        · exact (blames_close rfl hr (hsound t b hb)).group
      · cases hr
    rw [if_neg hopen] at hr
    by_cases hletter : isAsciiLetter a
    · rw [dif_pos hletter] at hr
      split at hr
      · rename_i u after
        have hname := properName_takeWhile (t := t) hletter hx
        rcases bind_eq_error.mp hr with hr | ⟨b, -, hr⟩
        · have h := blames_enter hnested hname.plain
            (fun M inside hsound hblames => blames_arguments hsound hblames hname) hr
          rw [String.toList_ofList, ← after, List.takeWhile_append_dropWhile] at h
          exact h
        · cases hr
      · cases hr
        exact blamedFrom_start rfl
    · rw [dif_neg hletter] at hr
      cases hr
      exact blamedFrom_start rfl

/-! ### All parts -/

theorem blames_reader {nested : Nested} (hsound : Sound L .atom (Reader.atom nested))
    (hatom : Blames L .atom (Reader.atom nested)) (p : Part) : Blames L p (p.reader nested) := by
  have hprimary (sign : Bool) : Blames L (.primary sign) ((Part.primary sign).reader nested) := by
    cases sign with
    | true => exact blames_signed hatom
    | false => exact hatom
  have hchain (c : Level) (hfirst : Blames L c.first (c.first.reader nested))
      (hoperand : Blames L c.operand (c.operand.reader nested)) :
      Blames L (.chain c) ((Part.chain c).reader nested) := by
    rw [reader_chain]
    exact blames_chain (sound_reader hsound _) hfirst (sound_reader hsound _) hoperand
  have hpower (sign : Bool) := hchain (.power sign) (hprimary sign) (blames_signed (hprimary true))
  have hterm (sign : Bool) := hchain (.term sign) (hpower sign) (blames_signed (hpower true))
  induction p with
  | chain c =>
    cases c with
    | sum => exact hchain .sum (blames_signed (hterm true)) (blames_signed (hterm false))
    | term sign => exact hterm sign
    | power sign => exact hpower sign
  | signed p ih => exact blames_signed ih
  | atom => exact hatom

theorem soundInside_nested (limit : ℤ) (L : ℕ) : SoundInside L (nested limit L) := by
  intro inside hinside
  cases L with
  | zero => cases hinside
  | succ L =>
    cases hinside
    exact ⟨L, rfl, sound_expression limit L⟩

theorem blames_within {limit : ℤ} (h : BlamesInside L (nested limit L)) :
    Blames L (.chain .sum) (expression limit L) := by
  rw [expression_eq]
  exact blames_reader (sound_atom (soundInside_nested limit L)) (blames_atom h) _

theorem blamesInside_nested (limit : ℤ) (L : ℕ) : BlamesInside L (nested limit L) := by
  induction L with
  | zero =>
    refine ⟨nofun, ?_⟩
    intro cause hcause
    cases hcause
    exact ⟨rfl, rfl⟩
  | succ L ih =>
    refine ⟨?_, nofun⟩
    intro inside hinside
    cases hinside
    exact ⟨L, rfl, sound_expression limit L, blames_within ih⟩

theorem blames_expression (limit : ℤ) (L : ℕ) : Blames L (.chain .sum) (expression limit L) :=
  blames_within (blamesInside_nested limit L)

end

/-! ## Whole texts -/

/-- The error points into the text `w`, at the character to blame. Before it `w` can be completed to
a text that is read; or, if the nesting is to blame, for the first time more than `L` parentheses
are unclosed. -/
structure PointsAt (L : ℕ) (w : List Char) (e : ParseError) : Prop where
  position_le : e.position ≤ w.length
  character : e.cause.isNesting = false → e.character = w[e.position]?
  viable : e.cause.isNesting = false →
    ∃ v t, Expr.parse L (String.ofList (w.take e.position ++ v)) = .ok t
  no_character : e.cause.isNesting = true → e.character = none
  too_deep : e.cause.isNesting = true → L < unclosed (w.take e.position)
  shortest : e.cause.isNesting = true → ∀ q, L < unclosed (w.take q) → e.position ≤ q
  opening : e.cause.isNesting = true → (w.take e.position).getLast? = some '('

theorem character_atRest {cause : ParseError.Cause} {text rest : List Char} :
    (ParseError.atRest cause text rest).character =
      if cause.isNesting then none else rest.head? := by
  cases cause <;> rfl

theorem pointsAt_of_blamed {L : ℕ} {w rest : List Char} {cause : ParseError.Cause}
    (h : Blamed L (.chain .sum) w cause) :
    PointsAt L (w ++ rest) (.atRest cause (w ++ rest) rest) := by
  have hposition : (ParseError.atRest cause (w ++ rest) rest).position = w.length := by
    show (w ++ rest).length - rest.length = w.length
    rw [List.length_append, Nat.add_sub_cancel]
  have htake : (w ++ rest).take (ParseError.atRest cause (w ++ rest) rest).position = w := by
    rw [hposition, List.take_left]
  constructor
  case position_le =>
    rw [hposition, List.length_append]
    exact Nat.le_add_right _ _
  case character =>
    intro hcause
    rw [character_atRest, hposition, show cause.isNesting = false from hcause]
    simp [List.head?_eq_getElem?, List.getElem?_append_right]
  case viable =>
    intro hcause
    obtain ⟨v, n, t, hn, hd⟩ := h.viable hcause
    rw [htake]
    exact ⟨v, t, parse_ofList hd hn⟩
  case no_character =>
    intro hcause
    rw [character_atRest, show cause.isNesting = true from hcause]
    rfl
  case too_deep =>
    intro hcause
    rw [htake]
    exact (h.deep hcause).lt_unclosed
  case shortest =>
    intro hcause q hq
    rw [hposition]
    exact (h.deep hcause).length_le rest hq
  case opening =>
    intro hcause
    obtain ⟨u, rfl, -⟩ := h.deep hcause
    rw [htake]
    simp

/-- **An error of reading points at the character to blame**, in the text without its blanks. -/
theorem pointsAt_of_parse {L : ℕ} {text : String} {e : ParseError}
    (h : Expr.parse L text = .error (.parse e)) : PointsAt L (withoutBlanks text) e := by
  rw [Expr.parse, parseChars, Int.toNat_natCast] at h
  generalize withoutBlanks text = w at h ⊢
  cases hr : expression L L w with
  | error stop =>
    rw [hr] at h
    have hblamed := blames_expression L L w stop hr
    cases stop with
    | numeral e => cases h
    | «at» cause rest =>
      cases h
      obtain ⟨v, rfl, hv⟩ := hblamed
      exact pointsAt_of_blamed hv
  | ok r =>
    rw [hr] at h
    obtain ⟨v, n, hw, hn, hd⟩ := sound_expression L L w r hr
    dsimp only at h
    split_ifs at h
    cases h
    obtain ⟨value, rest, hlt⟩ := r
    change w = v ++ rest at hw
    subst hw
    exact pointsAt_of_blamed (blamed_of_viable rfl (viable_of_derives hd hn))

end SymCalc
