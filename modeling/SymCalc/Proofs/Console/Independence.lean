import SymCalc.Console
import SymCalc.Proofs.Expr.Remembering

/-!
# Lines do not influence each other

**Theorem (`run_eq_join`).** A dialogue that comes to its end prints, for each line in order, the
prompt and the reply to that line, and then the prompt once more. The reply is what is printed when
the line is the only one.

The lines share what is remembered about simplified forms. The answer to a line is the same as if
nothing was remembered (`computes_answer`). So the block for it is not affected by what is, which
stays faithful (`respond_of_faithful`). Hence a dialogue is the same as if nothing was
remembered before each of its lines (`dialogue_of_faithful`), also if one of them breaks it off.
-/

namespace SymCalc.Console

open Text

variable {s : Settings} {m : Memo} {line : String} {lines : List String}

/-! ## One line -/

/-- The answer to a line, if each expression is simplified afresh. -/
def answerAfresh (s : Settings) (line : String) : Except Error (List String) := do
  let (text, x?) ← splitLine line
  let e ← Expr.parse s.nestingLimit text
  let derivative ← (← e.derivative).simplify s.epsilon
  let simplified ← e.simplify s.epsilon
  let forms :=
    [" >  " ++ e.render, " =  " ++ simplified.render, " d/dx  " ++ derivative.render]
  match x? with
  | none => return forms
  | some x =>
    return forms
      ++ [← valueLine s.epsilon x "f" e, ← valueLine s.epsilon x "f\x27" derivative]

/-- **What is remembered makes no difference to an answer.** -/
theorem computes_answer (s : Settings) (line : String) :
    Computes s.epsilon (answer s line) (answerAfresh s line) := by
  rw [answer, answerAfresh]
  refine (computes_lift _).bind ?_
  rintro ⟨text, x?⟩
  refine (computes_lift _).bind fun e => ?_
  refine (computes_lift _).bind fun d => ?_
  refine (computes_simplifyRemembering d).bind fun derivative => ?_
  refine (computes_simplifyRemembering e).bind fun simplified => ?_
  cases x? with
  | none => exact computes_pure _
  | some x =>
    refine (computes_lift _).bind fun value => ?_
    refine (computes_lift _).bind fun slope => ?_
    exact computes_pure _

/-- **The block for a line depends on that line only.** -/
theorem respond_of_faithful (hm : m.Faithful s.epsilon) (line : String) :
    (respond s line m).1 = (respond s line .empty).1 ∧
      (respond s line m).2.Faithful s.epsilon := by
  by_cases hline : withoutBlanks line = []
  · rw [respond, respond, if_pos hline, if_pos hline]
    exact ⟨rfl, hm⟩
  obtain ⟨hresult, hm'⟩ := (computes_answer s line).ignoresMemo m hm
  rw [respond, respond, if_neg hline, if_neg hline]
  rcases hanswer : answer s line m with ⟨r, m'⟩
  rcases hempty : answer s line .empty with ⟨r₀, m₀⟩
  rw [hanswer] at hresult hm'
  rw [hempty] at hresult
  obtain rfl : r = r₀ := hresult
  cases r with
  | ok texts => exact ⟨rfl, hm'⟩
  | error err => exact ⟨rfl, hm'⟩

/-- What is printed for a line, if nothing was asked before. -/
def reply (s : Settings) (line : String) : String :=
  (respond s line .empty).1.output

theorem reply_of_blank (hline : withoutBlanks line = []) : reply s line = "" := by
  rw [reply, respond, if_pos hline]

/-! ## All lines -/

/-- A prompt, the block of a line and the rest of the dialogue, which is left out if the block ends
it. -/
def Block.followedBy (block rest : Block) : Block :=
  match block.failure with
  | some e => ⟨prompt ++ block.output, some e⟩
  | none => ⟨prompt ++ (block.output ++ rest.output), rest.failure⟩

section

variable {block rest : Block}

theorem Block.failure_followedBy_eq_none :
    (block.followedBy rest).failure = none ↔ block.failure = none ∧ rest.failure = none := by
  rw [followedBy]
  cases block.failure with
  | some e => simp
  | none => simp

theorem Block.followedBy_of_failure_eq_none (h : block.failure = none) :
    block.followedBy rest = ⟨prompt ++ (block.output ++ rest.output), rest.failure⟩ := by
  rw [followedBy, h]

end

theorem dialogue_cons (s : Settings) (m : Memo) (line : String) (lines : List String) :
    dialogue s m (line :: lines) =
      (respond s line m).1.followedBy (dialogue s (respond s line m).2 lines) := by
  rw [dialogue]
  rcases respond s line m with ⟨⟨output, failure⟩, m'⟩
  cases failure <;> rfl

/-- The dialogue, with the block of each line as if nothing was asked before it. -/
def separately (s : Settings) (lines : List String) : Block :=
  lines.foldr (fun line rest => (respond s line .empty).1.followedBy rest) ⟨prompt ++ "\n", none⟩

/-- **Earlier lines make no difference to a dialogue**, also if it breaks off. -/
theorem dialogue_of_faithful (hm : m.Faithful s.epsilon) (lines : List String) :
    dialogue s m lines = separately s lines := by
  induction lines generalizing m with
  | nil => rfl
  | cons line lines ih =>
    obtain ⟨hblock, hm'⟩ := respond_of_faithful hm line
    rw [dialogue_cons, hblock, ih hm', separately, separately, List.foldr_cons]

theorem separately_eq_join (h : (separately s lines).failure = none) :
    (separately s lines).output =
      String.join (lines.map fun line => prompt ++ reply s line) ++ (prompt ++ "\n") := by
  induction lines with
  | nil => rw [separately, List.foldr_nil, List.map_nil, String.join_nil, String.empty_append]
  | cons line lines ih =>
    rw [separately, List.foldr_cons, Block.failure_followedBy_eq_none] at h
    have hlines := ih h.2
    rw [separately] at hlines
    rw [separately, List.foldr_cons, Block.followedBy_of_failure_eq_none h.1, hlines, List.map_cons,
      String.join_cons, reply]
    simp only [String.append_assoc]

theorem separately_singleton (h : (respond s line .empty).1.failure = none) :
    separately s [line] = ⟨prompt ++ (reply s line ++ (prompt ++ "\n")), none⟩ :=
  Block.followedBy_of_failure_eq_none h

/-- No line of a dialogue that comes to its end breaks off. -/
theorem respond_failure_of_mem (h : (separately s lines).failure = none) (hline : line ∈ lines) :
    (respond s line .empty).1.failure = none := by
  induction lines with
  | nil => cases hline
  | cons first lines ih =>
    rw [separately, List.foldr_cons, Block.failure_followedBy_eq_none] at h
    rcases List.mem_cons.mp hline with rfl | hline
    · exact h.1
    · exact ih h.2 hline

/-- A dialogue that comes to its end has begun. -/
theorem run_eq_separately (h : (run s lines).failure = none) (lines' : List String) :
    run s lines' = separately s lines' := by
  rw [run] at h ⊢
  cases hlevel : s.checkedLevel with
  | ok level => exact dialogue_of_faithful (Memo.faithful_empty s.epsilon) lines'
  | error err =>
    rw [hlevel] at h
    cases h

/-- **Lines do not influence each other**: if the dialogue comes to its end, it prints the prompt
and the reply to each line, in order, then the prompt and the end of the line. The reply to a blank
line is empty, and any other is what a dialogue over that line alone prints between its first prompt
and its second. -/
theorem run_eq_join (h : (run s lines).failure = none) :
    (run s lines).output =
      String.join (lines.map fun line => prompt ++ reply s line) ++ (prompt ++ "\n") ∧
    ∀ line ∈ lines, (withoutBlanks line = [] → reply s line = "") ∧
      run s [line] = ⟨prompt ++ (reply s line ++ (prompt ++ "\n")), none⟩ := by
  have hlines := h
  rw [run_eq_separately h] at hlines ⊢
  refine ⟨separately_eq_join hlines, fun line hline => ⟨reply_of_blank, ?_⟩⟩
  rw [run_eq_separately h]
  exact separately_singleton (respond_failure_of_mem hlines hline)

/-- The same expression before and after a blank line, a line that cannot be read and a value that
cannot be read. -/
theorem run_eq_join_repeated :
    (run .standard ["x*x @ 3", " ", "x*x", "x*", "x*x @ y"]).output =
      String.join (["x*x @ 3", " ", "x*x", "x*", "x*x @ y"].map fun line =>
        prompt ++ reply .standard line) ++ (prompt ++ "\n") ∧
    ∀ line ∈ ["x*x @ 3", " ", "x*x", "x*", "x*x @ y"],
      (withoutBlanks line = [] → reply .standard line = "") ∧
        run .standard [line] = ⟨prompt ++ (reply .standard line ++ (prompt ++ "\n")), none⟩ := by
  apply run_eq_join
  rw [← Option.isNone_iff_eq_none]
  decide +kernel

end SymCalc.Console
