import SymCalc.Console
import SymCalc.Proofs.Expr.LogarithmBases
import SymCalc.Proofs.Expr.Remembering

/-!
# Answers

**Theorem (`upholds_answer`).** If the division epsilon is above zero, a line is answered, or it
fails for a reason of its own, or the derivative of its expression needs a whole number beyond the
doubles.

`Upholds` says what a remembering computation gives and how it fails, and that no simplified form
that is remembered has a logarithm with a base that is below zero or too long to be written. So a
form that is remembered from an earlier line can be relied upon like one that is computed.
-/

namespace SymCalc

open Text SymCalc.Expr

/-! ## Remembering computations -/

/-- No simplified form that is remembered has a base that is below zero or too long. -/
def Memo.Short (m : Memo) : Prop :=
  ∀ entry ∈ m.entries, entry.2.Everywhere HasShortBase

/-- The computation gives a result with the one property or fails with an error with the other, and
what is remembered stays without bases that are below zero or too long. -/
def Upholds {α : Type} (P : α → Prop) (E : Error → Prop) (x : Remembering α) : Prop :=
  ∀ m : Memo, m.Short → (x m).2.Short ∧
    match (x m).1 with
    | .ok a => P a
    | .error e => E e

section

variable {α β : Type} {P : α → Prop} {R : β → Prop} {E : Error → Prop}

theorem upholds_pure {a : α} (h : P a) : Upholds P E (pure a) :=
  fun _ hm => ⟨hm, h⟩

theorem upholds_lift {x : Except Error α} (hok : ∀ a, x = .ok a → P a)
    (herror : ∀ e, x = .error e → E e) : Upholds P E (liftM x) := by
  intro m hm
  cases x with
  | ok a => exact ⟨hm, hok a rfl⟩
  | error e => exact ⟨hm, herror e rfl⟩

theorem Upholds.bind {x : Remembering α} {f : α → Remembering β} (hx : Upholds P E x)
    (hf : ∀ a, P a → Upholds R E (f a)) : Upholds R E (x >>= f) := by
  intro m hm
  obtain ⟨hm', hx⟩ := hx m hm
  rw [bind_apply]
  rcases hxm : x m with ⟨e | a, m'⟩
  · rw [hxm] at hm' hx
    exact ⟨hm', hx⟩
  · rw [hxm] at hm' hx
    exact hf a hx m' hm'

/-- What was remembered has no such base either. -/
theorem upholds_simplifyRemembering {ε : Float} (hε : 0.0 < ε) {t : Expr}
    (ht : t.Everywhere HasShortBase) :
    Upholds (·.Everywhere HasShortBase) E (t.simplifyRemembering ε) := by
  intro m hm
  rw [Expr.simplifyRemembering]
  cases hfind : m.find? t with
  | some s =>
    obtain ⟨entry, hentry, rfl⟩ := Option.map_eq_some_iff.mp hfind
    exact ⟨hm, hm entry (List.mem_of_find?_eq_some hentry)⟩
  | none =>
    obtain ⟨s, hs⟩ := exists_simplify hε (natural_of_short ht)
    have hshort : s.Everywhere HasShortBase := everywhere_simplify isPreserved_hasShortBase ht hs
    rw [hs]
    refine ⟨?_, hshort⟩
    intro entry hentry
    rcases List.mem_cons.mp hentry with rfl | hentry
    · exact hshort
    · exact hm entry hentry

end

/-! ## Answering a line -/

/-- Whether the failure is due to the line, so that the dialogue goes on after it. -/
def Error.IsDueToLine : Error → Prop
  | parse _ | evaluation _ | value _ => True
  | _ => False

namespace Console

variable {s : Settings} {line text : String} {x? : Option Float} {ε x : Float} {e : Expr}
  {err : Error}

/-- The expression of a line is a prefix of it. -/
theorem prefix_of_splitLine {line text : String} {x? : Option Float}
    (h : splitLine line = .ok (text, x?)) : text.toList <+: line.toList := by
  rw [splitLine] at h
  dsimp only at h
  split at h
  · cases h
    exact List.prefix_rfl
  · rename_i c before hdrop
    obtain ⟨x, -, h⟩ := bind_eq_ok.mp h
    cases h
    have hsuffix : before <:+ line.toList.reverse :=
      (List.suffix_cons c before).trans (hdrop ▸ List.dropWhile_suffix _)
    rw [String.toList_ofList]
    exact List.reverse_suffix.mp (by rwa [List.reverse_reverse])

theorem withoutBlanks_prefix_of_splitLine {line text : String} {x? : Option Float}
    (h : splitLine line = .ok (text, x?)) : withoutBlanks text <+: withoutBlanks line :=
  (prefix_of_splitLine h).filter _

theorem splitLine_of_not_mem (h : '@' ∉ line.toList) : splitLine line = .ok (line, none) := by
  have hnone : line.toList.reverse.dropWhile (· != '@') = [] := by
    rw [List.dropWhile_eq_nil_iff]
    intro c hc
    rw [List.mem_reverse] at hc
    rw [bne_iff_ne]
    rintro rfl
    exact h hc
  rw [splitLine]
  dsimp only
  rw [hnone]

/-- The derivative of the expression that a line holds. -/
def lineDerivative (limit : ℤ) (line : String) : Except Error Expr := do
  let (text, _) ← splitLine line
  let e ← Expr.parse limit text
  e.derivative

/-- It fails as the splitting does, or the reading, or the differentiation. -/
theorem lineDerivative_eq_error {limit : ℤ} :
    lineDerivative limit line = .error err ↔
      splitLine line = .error err ∨ ∃ text x?, splitLine line = .ok (text, x?) ∧
        (Expr.parse limit text = .error err ∨
          ∃ e, Expr.parse limit text = .ok e ∧ e.derivative = .error err) := by
  rw [lineDerivative, bind_eq_error, Prod.exists]
  simp only [bind_eq_error]

/-- What fails there fails in the answer. -/
theorem answer_of_error (h : lineDerivative s.nestingLimit line = .error err) (m : Memo) :
    answer s line m = (.error err, m) := by
  rw [answer, bind_apply, lift_apply]
  rcases lineDerivative_eq_error.mp h with hsplit | ⟨text, x?, hsplit, h⟩
  · rw [hsplit]
  rw [hsplit]
  dsimp only
  rw [bind_apply, lift_apply]
  rcases h with hparse | ⟨e, hparse, hderivative⟩
  · rw [hparse]
  rw [hparse]
  dsimp only
  rw [bind_apply, lift_apply, hderivative]

theorem isDueToLine_raised (err : EvaluationError) : err.raised.IsDueToLine := by
  rw [EvaluationError.raised]
  split_ifs <;> trivial

theorem isDueToLine_of_splitLine (h : splitLine line = .error err) : err.IsDueToLine := by
  rw [splitLine] at h
  dsimp only at h
  split at h
  · cases h
  · rcases bind_eq_error.mp h with h | ⟨x, -, h⟩
    · cases hread : Numeral.readFloat (String.ofList _) with
      | ok a =>
        rw [hread] at h
        cases h
      | error e =>
        rw [hread] at h
        cases h
        trivial
    · cases h

theorem isDueToLine_of_parse {limit : ℤ} (h : Expr.parse limit text = .error err) :
    err.IsDueToLine := by
  rw [Expr.parse, Expr.parseChars] at h
  split at h
  · rename_i stop _
    cases h
    cases stop <;> trivial
  · split_ifs at h
    cases h
    trivial

/-- A line about a value is always written. -/
theorem upholds_valueLine {E : Error → Prop} (hε : 0.0 < ε) (he : e.Everywhere HasShortBase)
    (label : String) :
    Upholds (valueLine ε x label e = .ok ·) E (liftM (valueLine ε x label e)) := by
  have hwritten : ∃ text, valueLine ε x label e = .ok text := by
    rw [valueLine]
    rcases (settled hε x (natural_of_short he)).of_isWritable (isWritable_of_short he) with
      ⟨-, v, hv⟩ | ⟨err, -, hv⟩
    · rw [hv]
      exact ⟨_, rfl⟩
    · rw [hv]
      exact ⟨_, rfl⟩
  obtain ⟨text, htext⟩ := hwritten
  rw [htext]
  exact upholds_lift (fun _ h => h) nofun

/-- How answering a line may fail. -/
def AnswerFails (s : Settings) (line : String) (err : Error) : Prop :=
  err.IsDueToLine ∨
    err = .integerTooLarge ∧ lineDerivative s.nestingLimit line = .error .integerTooLarge

/-- The answer to a line: its expression in three forms, which can be written, and with a value of
`x` also the function and its derivative there. -/
inductive IsAnswer (s : Settings) (line : String) : List String → Prop
  | forms {text : String} {e simplified derivative : Expr}
      (hsplit : splitLine line = .ok (text, none))
      (hparse : Expr.parse s.nestingLimit text = .ok e)
      (hforms : ∀ form ∈ [e, simplified, derivative], form.isWritable) :
      IsAnswer s line
        [" >  " ++ e.render, " =  " ++ simplified.render, " d/dx  " ++ derivative.render]
  | values {text value slope : String} {x : Float} {e simplified derivative : Expr}
      (hsplit : splitLine line = .ok (text, some x))
      (hparse : Expr.parse s.nestingLimit text = .ok e)
      (hforms : ∀ form ∈ [e, simplified, derivative], form.isWritable)
      (hvalue : valueLine s.epsilon x "f" e = .ok value)
      (hslope : valueLine s.epsilon x "f\x27" derivative = .ok slope) :
      IsAnswer s line
        [" >  " ++ e.render, " =  " ++ simplified.render, " d/dx  " ++ derivative.render, value,
          slope]

theorem answerFails_of_derivative (hsplit : splitLine line = .ok (text, x?))
    (hparse : Expr.parse s.nestingLimit text = .ok e) (h : e.derivative = .error err) :
    AnswerFails s line err := by
  cases fails_of_derivative h with
  | raised e => exact Or.inl (isDueToLine_raised e)
  | integerTooLarge _ _ =>
    refine Or.inr ⟨rfl, ?_⟩
    exact lineDerivative_eq_error.mpr (Or.inr ⟨text, x?, hsplit, Or.inr ⟨e, hparse, h⟩⟩)

/-- **A line is answered, or fails for a reason of its own, or its derivative needs a whole number
that is too large.** -/
theorem upholds_answer (hε : 0.0 < s.epsilon) (hlimit : 0 ≤ s.nestingLimit) (line : String) :
    Upholds (IsAnswer s line) (AnswerFails s line) (answer s line) := by
  rw [answer]
  refine (upholds_lift (P := (splitLine line = .ok ·)) (fun _ h => h) fun err h =>
    Or.inl (isDueToLine_of_splitLine h)).bind ?_
  rintro ⟨text, x?⟩ hsplit
  refine (upholds_lift (P := (Expr.parse s.nestingLimit text = .ok ·)) (fun _ h => h) fun err h =>
    Or.inl (isDueToLine_of_parse h)).bind ?_
  intro e hparse
  have he : e.Everywhere HasShortBase := short_of_parse hlimit hparse
  refine (upholds_lift (P := (·.Everywhere HasShortBase))
    (fun _ h => everywhere_derivative isPreserved_hasShortBase he h)
    fun err h => answerFails_of_derivative hsplit hparse h).bind ?_
  intro d hd
  refine (upholds_simplifyRemembering hε hd).bind ?_
  intro d' hd'
  refine (upholds_simplifyRemembering hε he).bind ?_
  intro e' he'
  have hforms : ∀ form ∈ [e, e', d'], form.isWritable := by
    simp [isWritable_of_short he, isWritable_of_short he', isWritable_of_short hd']
  cases x? with
  | none => exact upholds_pure (.forms hsplit hparse hforms)
  | some x =>
    refine (upholds_valueLine hε he "f").bind fun v hv => ?_
    refine (upholds_valueLine hε hd' "f\x27").bind fun v' hv' => ?_
    exact upholds_pure (.values hsplit hparse hforms hv hv')

end Console

end SymCalc
