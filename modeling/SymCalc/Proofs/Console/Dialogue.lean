import SymCalc.Proofs.Console.Answer
import SymCalc.Proofs.Expr.Reparsing

/-!
# The whole dialogue

**Theorem (`run_transcript`).** With the standard settings, the dialogue goes through the lines one
after the other. It answers each that is not blank with a result or a message and comes to its end,
unless the derivative of an expression needs a whole number beyond the doubles. At the first such
line, and at no other, it breaks off. Such a line has a logarithm with a base beyond the doubles.

One line is `respond_replies`. It keeps what is remembered without bases that are below zero or too
long to be written, so that the induction over the lines goes through (`transcript_dialogue`).

There are such lines (`overflows_logarithmText`): the base of a logarithm may have thousands of
digits, and it becomes a constant of the derivative.

The depth of the interpreter's stack is not modelled. Where it is tight, reading a line that is
nested 99 deep, such as `x+x*x^(` repeated, breaks the dialogue off too.
-/

namespace SymCalc.Console

open Text SymCalc.Expr

variable {s : Settings} {m : Memo} {line : String} {lines : List String} {block : Block}

/-- The derivative of the expression on the line needs a whole number beyond the doubles. -/
def Overflows (s : Settings) (line : String) : Prop :=
  lineDerivative s.nestingLimit line = .error .integerTooLarge

/-- The expression on the line has a logarithm with a base beyond the doubles. -/
def HasLargeBase (s : Settings) (line : String) : Prop :=
  ∃ text x? e b argument, splitLine line = .ok (text, x?) ∧
    Expr.parse s.nestingLimit text = .ok e ∧ call "log" (some b) argument ∈ e.nodes ∧
    (Float.ofInt b).isInf

/-- What is printed for a line: nothing if it is blank, else a result or a message. -/
inductive Replies (s : Settings) (line : String) : String → Prop
  | blank (hline : withoutBlanks line = []) : Replies s line ""
  | answered {texts : List String} (hline : withoutBlanks line ≠ []) (h : IsAnswer s line texts) :
      Replies s line (endLines (texts ++ [""]))
  | refused {err : Error} (hline : withoutBlanks line ≠ []) (h : err.IsDueToLine)
      (more : List String) : Replies s line (endLines ((" !  " ++ err.message) :: more))

/-- What is printed for some lines, until they end or one of them breaks the dialogue off. -/
inductive Transcript (s : Settings) : List String → Block → Prop
  | done : Transcript s [] ⟨prompt ++ "\n", none⟩
  | next {line reply : String} {lines : List String} {rest : Block} (hline : ¬Overflows s line)
      (hreply : Replies s line reply) (hrest : Transcript s lines rest) :
      Transcript s (line :: lines) ⟨prompt ++ (reply ++ rest.output), rest.failure⟩
  | broken {line : String} {lines : List String} (hline : Overflows s line) :
      Transcript s (line :: lines) ⟨prompt, some .integerTooLarge⟩

/-! ## One line -/

/-- Where a line overflows, an expression is read, and the derivative is to blame. -/
theorem Overflows.exists_parse (h : Overflows s line) :
    ∃ text x? e, splitLine line = .ok (text, x?) ∧ Expr.parse s.nestingLimit text = .ok e ∧
      e.derivative = .error .integerTooLarge := by
  rcases lineDerivative_eq_error.mp h with hsplit | ⟨text, x?, hsplit, h⟩
  · exact (isDueToLine_of_splitLine hsplit).elim
  rcases h with hparse | ⟨e, hparse, hderivative⟩
  · exact (isDueToLine_of_parse hparse).elim
  · exact ⟨text, x?, e, hsplit, hparse, hderivative⟩

theorem Overflows.hasLargeBase (h : Overflows s line) : HasLargeBase s line := by
  obtain ⟨text, x?, e, hsplit, hparse, hderivative⟩ := h.exists_parse
  have hfails := fails_of_derivative hderivative
  generalize herr : Error.integerTooLarge = err at hfails
  cases hfails with
  | raised e =>
    have hline : Error.integerTooLarge.IsDueToLine := herr ▸ isDueToLine_raised e
    exact hline.elim
  | integerTooLarge hnode hlarge => exact ⟨text, x?, e, _, _, hsplit, hparse, hnode, hlarge⟩

/-- A blank line holds no expression. -/
theorem Overflows.withoutBlanks_ne_nil (hlimit : 0 ≤ s.nestingLimit) (h : Overflows s line) :
    withoutBlanks line ≠ [] := by
  intro hblank
  obtain ⟨text, x?, e, hsplit, hparse, -⟩ := h.exists_parse
  obtain ⟨L, hL⟩ := Int.eq_ofNat_of_zero_le hlimit
  rw [hL] at hparse
  obtain ⟨n, -, hd⟩ := parse_eq_ok_iff.mp hparse
  have hprefix := withoutBlanks_prefix_of_splitLine hsplit
  rw [hblank] at hprefix
  exact hd.ne_nil (List.prefix_nil.mp hprefix)

theorem replies_failureBlock {err : Error} (hline : withoutBlanks line ≠ [])
    (herror : err.IsDueToLine) :
    ∃ reply, Replies s line reply ∧ failureBlock line err = ⟨reply, none⟩ := by
  cases err with
  | parse e => exact ⟨_, .refused hline herror _, rfl⟩
  | evaluation e => exact ⟨_, .refused hline herror _, rfl⟩
  | value e => exact ⟨_, .refused hline herror _, rfl⟩
  | _ => cases herror

/-- **A line has its reply or breaks the dialogue off.** -/
theorem respond_replies (hε : 0.0 < s.epsilon) (hlimit : 0 ≤ s.nestingLimit) (hm : m.Short)
    (line : String) :
    (respond s line m).2.Short ∧
    ((¬Overflows s line ∧ ∃ reply, Replies s line reply ∧ (respond s line m).1 = ⟨reply, none⟩) ∨
      (Overflows s line ∧ (respond s line m).1 = ⟨"", some .integerTooLarge⟩)) := by
  rw [respond]
  by_cases hover : Overflows s line
  · rw [if_neg (hover.withoutBlanks_ne_nil hlimit), answer_of_error hover]
    exact ⟨hm, Or.inr ⟨hover, rfl⟩⟩
  by_cases hline : withoutBlanks line = []
  · rw [if_pos hline]
    exact ⟨hm, Or.inl ⟨hover, "", .blank hline, rfl⟩⟩
  rw [if_neg hline]
  obtain ⟨hm', houtcome⟩ := upholds_answer hε hlimit line m hm
  rcases hanswer : answer s line m with ⟨err | texts, m'⟩
  · rw [hanswer] at hm' houtcome
    refine ⟨hm', Or.inl ⟨hover, ?_⟩⟩
    rcases houtcome with herror | ⟨-, hoverflow⟩
    · exact replies_failureBlock hline herror
    · exact absurd hoverflow hover
  · rw [hanswer] at hm' houtcome
    exact ⟨hm', Or.inl ⟨hover, _, .answered hline houtcome, rfl⟩⟩

/-! ## All lines -/

theorem transcript_dialogue (hε : 0.0 < s.epsilon) (hlimit : 0 ≤ s.nestingLimit)
    (hm : m.Short) : Transcript s lines (dialogue s m lines) := by
  induction lines generalizing m with
  | nil => exact .done
  | cons line lines ih =>
    obtain ⟨hm', hreply⟩ := respond_replies hε hlimit hm line
    rw [dialogue]
    rcases hrespond : respond s line m with ⟨block, m'⟩
    rw [hrespond] at hm' hreply
    rcases hreply with ⟨hline, reply, hreply, rfl⟩ | ⟨hline, rfl⟩
    · exact .next hline hreply (ih hm')
    · have hbroken : Transcript s (line :: lines) ⟨prompt ++ "", some .integerTooLarge⟩ := by
        rw [String.append_empty]
        exact .broken hline
      exact hbroken

theorem transcript_run (lines : List String) :
    Transcript .standard lines (run .standard lines) := by
  have hempty : Memo.empty.Short := nofun
  exact transcript_dialogue (by decide) (by decide) hempty

theorem Transcript.failure_eq_none_iff (h : Transcript s lines block) :
    block.failure = none ↔ ∀ line ∈ lines, ¬Overflows s line := by
  induction h with
  | done => simp
  | next hline _ _ ih => simp [hline, ih]
  | broken hline => simp [hline]

theorem Transcript.eq_of_overflows (hline : Overflows s line)
    (h : Transcript s (line :: lines) block) : block = ⟨prompt, some .integerTooLarge⟩ := by
  cases h with
  | next hnot _ _ => exact absurd hline hnot
  | broken _ => rfl

/-- **The dialogue goes through all lines**, and breaks off exactly if the derivative of one of them
needs a whole number that is too large, which is the base of a logarithm on that line. -/
theorem run_transcript (lines : List String) :
    Transcript .standard lines (run .standard lines) ∧
    ((run .standard lines).failure = none ↔ ∀ line ∈ lines, ¬Overflows .standard line) ∧
    ∀ line ∈ lines, Overflows .standard line → HasLargeBase .standard line := by
  have hrun := transcript_run lines
  exact ⟨hrun, hrun.failure_eq_none_iff, fun line _ => Overflows.hasLargeBase⟩

/-! ## Lines that break the dialogue off -/

theorem derivative_log_var {b : ℤ} (hlarge : (Float.ofInt b).isInf) :
    (call "log" (some b) var).derivative = .error .integerTooLarge := by
  have hb : ¬(b = 0 ∨ b = 1) := by
    rintro (rfl | rfl)
    · exact absurd hlarge (by decide)
    · exact absurd hlarge (by decide)
  have hint : ofInt? b = .error .integerTooLarge := by rw [ofInt?, if_pos hlarge]
  refine bind_eq_error.mpr (Or.inr ⟨number 1.0, rfl, bind_eq_error.mpr (Or.inl ?_)⟩)
  rw [outerDerivative, if_pos rfl]
  refine bind_eq_error.mpr (Or.inr ⟨b, checkedBase_eq_ok.mpr ⟨rfl, hb⟩, ?_⟩)
  exact bind_eq_error.mpr (Or.inl hint)

/-- The logarithm of `x` to the base with these digits. -/
def logarithmText (ds : List Char) : String :=
  String.ofList ('l' :: 'o' :: 'g' :: '(' :: (ds ++ [',', 'x', ')']))

/-- A logarithm whose base is beyond the doubles. -/
theorem overflows_logarithmText {ds : List Char} (hds : ∀ c ∈ ds, isAsciiDigit c) (hne : ds ≠ [])
    (hlimit : ds.length ≤ digitLimit) (hlarge : (Float.ofInt (natOfDigits ds)).isInf) :
    Overflows .standard (logarithmText ds) := by
  have hx : Derives Unsigned (.ofPrecedence 4) 0 ['x'] var := .var
  have hlog : Derives Unsigned (.ofPrecedence 4) 1 _ (call "log" (some (natOfDigits ds)) var) :=
    .log hds hne hlimit (hx.loosen (Nat.zero_le 4))
  have hparse : Expr.parse (100 : ℕ) (logarithmText ds) =
      .ok (call "log" (some (natOfDigits ds)) var) :=
    parse_ofList (hlog.loosen (Nat.zero_le 4)) (Nat.le_add_left 1 99)
  have hsplit : splitLine (logarithmText ds) = .ok (logarithmText ds, none) := by
    apply splitLine_of_not_mem
    intro hat
    have hnot : '@' ∉ ds := fun h => absurd (hds _ h) (by decide)
    simp [logarithmText, hnot] at hat
  have hderivative := derivative_log_var hlarge
  exact lineDerivative_eq_error.mpr (Or.inr ⟨_, _, hsplit, Or.inr ⟨_, hparse, hderivative⟩⟩)

/-- **A base of 310 digits breaks the dialogue off**, and the line after it is not answered. -/
theorem run_breaks_off :
    run .standard [logarithmText (powerOfTen 309), "x"] = ⟨prompt, some .integerTooLarge⟩ := by
  have hlength : (powerOfTen 309).length ≤ digitLimit := by
    rw [powerOfTen, List.length_cons, List.length_replicate]
    decide
  have hlarge : (Float.ofInt (natOfDigits (powerOfTen 309))).isInf := by decide +kernel
  have hover : Overflows .standard (logarithmText (powerOfTen 309)) :=
    overflows_logarithmText (isAsciiDigit_powerOfTen 309) (List.cons_ne_nil _ _) hlength hlarge
  exact (transcript_run _).eq_of_overflows hover

end SymCalc.Console
