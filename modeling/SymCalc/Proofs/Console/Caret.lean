import SymCalc.Proofs.Console.Answer
import SymCalc.Proofs.Expr.ErrorPosition

/-!
# The caret

**Theorem (`caret_under_character`).** If a line holds an expression that cannot be read, then
below the line, shown without its blanks, there is a caret under the character to blame.

The error points into the expression (`pointsAt_of_parse`), but it is the whole line that is shown.
The expression is what stands before the last `@`, and so a prefix of the line, also without the
blanks (`withoutBlanks_prefix_of_splitLine`).
-/

namespace SymCalc.Console

open Text

/-- The block shows the line without its blanks, and below it a caret under the place of the error.
If the error blames a character, it is the one above the caret. -/
def ShowsCaret (line : String) (e : ParseError) (block : Block) : Prop :=
  ∃ shown indent,
    block = ⟨endLines [" !  " ++ e.message, shown,
      String.ofList (List.replicate (indent + e.position) ' ' ++ ['^']), ""], none⟩ ∧
    shown.toList = List.replicate indent ' ' ++ withoutBlanks line ∧
    e.position ≤ (withoutBlanks line).length ∧
    ∀ c, e.character = some c → shown.toList[indent + e.position]? = some c

/-- Where an error points in the expression, the whole line has the same character. -/
theorem showsCaret_of_pointsAt {L : ℕ} {line : String} {v : List Char} {e : ParseError}
    (hv : v <+: withoutBlanks line) (h : PointsAt L v e) :
    ShowsCaret line e (failureBlock line (.parse e)) := by
  have hcaret : String.ofList (List.replicate (4 + e.position) ' ' ++ ['^']) =
      "    " ++ String.ofList (List.replicate e.position ' ' ++ ['^']) := by
    rw [List.replicate_add, List.append_assoc, String.ofList_append]
    rfl
  have hshown : ("    " ++ String.ofList (withoutBlanks line)).toList =
      List.replicate 4 ' ' ++ withoutBlanks line := by
    rw [String.toList_append, String.toList_ofList (l := withoutBlanks line)]
    rfl
  refine ⟨_, 4, ?_, hshown, h.position_le.trans hv.length_le, ?_⟩
  · rw [hcaret]
    rfl
  · intro c hc
    have hcause : e.cause.isNesting = false := by
      by_contra hnesting
      rw [Bool.not_eq_false] at hnesting
      rw [h.no_character hnesting] at hc
      cases hc
    rw [h.character hcause] at hc
    obtain ⟨rest, hrest⟩ := hv
    obtain ⟨hlt, -⟩ := List.getElem?_eq_some_iff.mp hc
    have hindent : (List.replicate 4 ' ').length ≤ 4 + e.position := Nat.le_add_right 4 e.position
    rw [hshown, List.getElem?_append_right hindent, List.length_replicate,
      Nat.add_sub_cancel_left, ← hrest, List.getElem?_append_left hlt]
    exact hc

/-- **The caret stands under the character to blame.** The error of a text points at it; and what is
printed for a line with that text shows the line without its blanks and the caret below, whether or
not a value of `x` follows. -/
theorem caret_under_character (L : ℕ) :
    (∀ text e, Expr.parse L text = .error (.parse e) → PointsAt L (withoutBlanks text) e) ∧
    ∀ (s : Settings) (line text : String) (x? : Option Float) (memo : Memo) (e : ParseError),
      s.nestingLimit = L → withoutBlanks line ≠ [] → splitLine line = .ok (text, x?) →
      Expr.parse L text = .error (.parse e) → ShowsCaret line e (respond s line memo).1 := by
  refine ⟨fun text e => pointsAt_of_parse, ?_⟩
  intro s line text x? memo e hlimit hline hsplit hparse
  have hderivative : lineDerivative s.nestingLimit line = .error (.parse e) := by
    rw [hlimit]
    exact lineDerivative_eq_error.mpr (Or.inr ⟨text, x?, hsplit, Or.inl hparse⟩)
  have hrespond : (respond s line memo).1 = failureBlock line (.parse e) := by
    rw [respond, if_neg hline, answer_of_error hderivative]
  rw [hrespond]
  exact showsCaret_of_pointsAt (withoutBlanks_prefix_of_splitLine hsplit) (pointsAt_of_parse hparse)

/-- A value follows the text, and an operand is missing before the parenthesis. -/
theorem caret_under_parenthesis :
    PointsAt 100 (withoutBlanks "x+)") ⟨.unexpectedCharacter ')', 2, some ')'⟩ ∧
    ShowsCaret "x + ) @ 2" ⟨.unexpectedCharacter ')', 2, some ')'⟩
      (respond .standard "x + ) @ 2" .empty).1 := by
  have hsplit : splitLine "x + ) @ 2" = .ok ("x + ) ", some 2.0) := by with_unfolding_all rfl
  have hparse (text : String) (h : withoutBlanks text = ['x', '+', ')']) :
      Expr.parse (100 : ℕ) text =
        .error (.parse ⟨.unexpectedCharacter ')', 2, some ')'⟩) := by
    rw [Expr.parse, h]
    with_unfolding_all rfl
  obtain ⟨hpoints, hshows⟩ := caret_under_character 100
  exact ⟨hpoints "x+)" _ (hparse _ (by decide)),
    hshows .standard _ _ _ _ _ rfl (by decide) hsplit (hparse _ (by decide))⟩

end SymCalc.Console
