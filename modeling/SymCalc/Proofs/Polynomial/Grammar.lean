import SymCalc.Polynomial.Text
import SymCalc.Proofs.Decimal.Numeral

/-!
# The texts of polynomials

`Term.text` writes a term out as it was typed, and `Spells` says which texts are terms one after
the other, of which only the first may lack a sign.

**Theorem (`readTerms_eq_ok_iff`).** The terms of such a text are read, each gives its power and its
coefficient, and no other text is read.

Each part of a term is split off greedily. That finds the whole part, because what follows it
cannot belong to it: a coefficient is followed by a star, by `x` or by the next term, and the next
term begins with a sign (`EndsTerm`). So a term is split off as it was written (`termSpan_text`),
and all terms are, by induction on how they are spelled (`readTerms_of_spells`). In the other
direction each part that is split off stands in front of what is left of the text
(`exists_eq_of_readTerm`).
-/

namespace SymCalc.Polynomial

open Text

variable {c : Char} {w ds rest : List Char} {t : Term} {ts : List Term} {star isFirst : Bool}

/-! ## How terms are spelled -/

/-- Digits of any script, perhaps with a point before, among or after them. -/
inductive IsCoefficient : List Char → Prop
  | whole {ds : List Char} (hds : ∀ c ∈ ds, isDigit c) (hne : ds ≠ []) : IsCoefficient ds
  | point {ds fraction : List Char} (hds : ∀ c ∈ ds, isDigit c)
      (hfraction : ∀ c ∈ fraction, isDigit c) (hne : ¬(ds = [] ∧ fraction = [])) :
      IsCoefficient (ds ++ '.' :: fraction)

/-- A sign as it is written. -/
def signText : Option Bool → List Char
  | none => []
  | some true => ['-']
  | some false => ['+']

/-- A power as it is written after `x`. -/
def powerText : List Char → List Char
  | [] => []
  | d :: ds => '^' :: d :: ds

/-- `x` and its power as they are written, perhaps with a star before them. -/
def variableText (star : Bool) : Option (List Char) → List Char
  | none => []
  | some ds => if star then '*' :: 'x' :: powerText ds else 'x' :: powerText ds

namespace Term

/-- A term as it is written, perhaps with a star before `x`. -/
def text (star : Bool) (t : Term) : List Char :=
  signText t.sign ++ (t.coefficient ++ variableText star t.power)

/-- Each part of the term is what it should be, and there is a coefficient or `x`. -/
structure Proper (t : Term) : Prop where
  coefficient : t.coefficient = [] ∨ IsCoefficient t.coefficient
  power : ∀ ds ∈ t.power, ∀ c ∈ ds, isDigit c
  nonempty : ¬(t.coefficient = [] ∧ t.power = none)

/-- The power of a term and its coefficient. -/
def value (t : Term) : Except NumeralError (ℕ × Float) :=
  t.powerValue.map (·, t.signedCoefficient)

end Term

/-- The text consists of these terms. Each has a sign, but the first may lack it; the flag tells
whether the first is among them. -/
inductive Spells : Bool → List Char → List Term → Prop
  | nil {isFirst : Bool} : Spells isFirst [] []
  | cons {isFirst star : Bool} {t : Term} {w : List Char} {ts : List Term} (ht : t.Proper)
      (hsign : isFirst ∨ t.sign.isSome) (h : Spells false w ts) :
      Spells isFirst (t.text star ++ w) (t :: ts)

/-! ## Splitting off -/

theorem isDigit_of_isAsciiDigit (h : isAsciiDigit c) : isDigit c := by
  simp [isAsciiDigit, Char.le_def, UInt32.le_iff_toNat_le] at h
  rw [isDigit, digitValue?, zeros, List.find?_cons_of_pos (by simp; omega)]
  rfl

theorem ne_of_isDigit {d : Char} (hc : isDigit c) (hd : isDigit d = false) : c ≠ d := by
  rintro rfl
  rw [hc] at hd
  cases hd

/-- What follows a term: nothing, or the sign of the next one. -/
def EndsTerm (w : List Char) : Prop :=
  ∀ c ∈ w.head?, c = '+' ∨ c = '-'

/-- What can follow a coefficient. -/
def EndsCoefficient (w : List Char) : Prop :=
  ∀ c ∈ w.head?, isDigit c = false ∧ c ≠ '.'

theorem EndsTerm.endsCoefficient (h : EndsTerm w) : EndsCoefficient w := by
  intro c hc
  rcases h c hc with rfl | rfl <;> decide

theorem endsCoefficient_variableText (star : Bool) (power : Option (List Char))
    (hrest : EndsTerm rest) : EndsCoefficient (variableText star power ++ rest) := by
  cases power with
  | none => exact hrest.endsCoefficient
  | some ds => cases star <;> simp [EndsCoefficient, variableText] <;> decide

theorem signSpan_signText (sign : Option Bool)
    (hrest : sign = none → ∀ c ∈ rest.head?, c ≠ '+' ∧ c ≠ '-') :
    signSpan (signText sign ++ rest) = (sign, rest) := by
  rcases sign with _ | _ | _
  · rw [signText, List.nil_append]
    unfold signSpan
    split
    · exact absurd rfl (hrest rfl '-' rfl).2
    · exact absurd rfl (hrest rfl '+' rfl).1
    · rfl
  · rfl
  · rfl

/-- Digits are split off up to the point, if there is none, up to their end. -/
theorem coefficientSpan_digits (hds : ∀ c ∈ ds, isDigit c) (hrest : EndsCoefficient rest) :
    coefficientSpan (ds ++ rest) = (ds, rest) := by
  obtain ⟨htake, hdrop⟩ := takeWhile_append_of_head hds fun c hc => (hrest c hc).1
  rw [coefficientSpan, htake, hdrop]
  split
  · exact absurd rfl (hrest '.' rfl).2
  · rfl

/-- **A coefficient is split off.** -/
theorem coefficientSpan_append (hw : w = [] ∨ IsCoefficient w) (hrest : EndsCoefficient rest) :
    coefficientSpan (w ++ rest) = (w, rest) := by
  rcases hw with rfl | ⟨hds, -⟩ | @⟨ds, fraction, hds, hfraction, hne⟩
  · exact coefficientSpan_digits nofun hrest
  · exact coefficientSpan_digits hds hrest
  · have hpoint : ∀ c ∈ ('.' :: (fraction ++ rest)).head?, isDigit c = false := by simp; decide
    obtain ⟨htake, hdrop⟩ := takeWhile_append_of_head hds hpoint
    obtain ⟨htake', hdrop'⟩ := takeWhile_append_of_head hfraction fun c hc => (hrest c hc).1
    rw [List.append_assoc, List.cons_append, coefficientSpan, htake, hdrop]
    simp only [htake', hdrop', if_neg hne]

theorem powerSpan_powerText (hds : ∀ c ∈ ds, isDigit c) (hrest : EndsTerm rest) :
    powerSpan (powerText ds ++ rest) = (ds, rest) := by
  have hend : ∀ c ∈ rest.head?, isDigit c = false := fun c hc => (hrest.endsCoefficient c hc).1
  cases ds with
  | nil =>
    rw [powerText, List.nil_append]
    unfold powerSpan
    split
    · have := hrest '^' rfl
      simp at this
    · rfl
  | cons d ds =>
    obtain ⟨htake, hdrop⟩ := takeWhile_append_of_head hds hend
    rw [powerText, List.cons_append, powerSpan]
    rw [htake, hdrop, if_neg (List.cons_ne_nil d ds)]

/-- **`x` and its power are split off**, or nothing is. -/
theorem variableSpan_variableText (star : Bool) {power : Option (List Char)}
    (hpower : ∀ ds ∈ power, ∀ c ∈ ds, isDigit c) (hrest : EndsTerm rest) :
    variableSpan (variableText star power ++ rest) = (power, rest) := by
  cases power with
  | none =>
    rw [variableText, List.nil_append]
    unfold variableSpan
    split
    · have := hrest 'x' rfl
      simp at this
    · have := hrest '*' rfl
      simp at this
    · rfl
  | some ds =>
    have hspan : powerSpan (powerText ds ++ rest) = (ds, rest) :=
      powerSpan_powerText (hpower ds rfl) hrest
    cases star <;> simp [variableText, variableSpan, hspan]

theorem IsCoefficient.exists_head (h : IsCoefficient w) :
    ∃ c v, w = c :: v ∧ (isDigit c ∨ c = '.') := by
  rcases h with ⟨hds, hne⟩ | @⟨ds, fraction, hds, hfraction, hne⟩
  · obtain ⟨c, v, rfl⟩ := List.exists_cons_of_ne_nil hne
    exact ⟨c, v, rfl, Or.inl (hds c List.mem_cons_self)⟩
  · cases ds with
    | nil => exact ⟨'.', fraction, rfl, Or.inr rfl⟩
    | cons c v => exact ⟨c, v ++ '.' :: fraction, rfl, Or.inl (hds c List.mem_cons_self)⟩

/-- What follows the sign of a term is not a sign. -/
theorem head_ne_sign (ht : t.Proper) :
    ∀ c ∈ (t.coefficient ++ variableText star t.power ++ rest).head?, c ≠ '+' ∧ c ≠ '-' := by
  rcases ht.coefficient with hempty | hcoefficient
  · obtain ⟨ds, hpower⟩ := Option.ne_none_iff_exists'.mp fun h => ht.nonempty ⟨hempty, h⟩
    rw [hempty, hpower]
    cases star <;> simp [variableText]
  · obtain ⟨c, v, hw, hc⟩ := hcoefficient.exists_head
    rw [hw]
    rintro _ ⟨⟩
    rcases hc with hc | rfl
    · exact ⟨ne_of_isDigit hc (by decide), ne_of_isDigit hc (by decide)⟩
    · decide

/-- **A term is split off.** -/
theorem termSpan_text (ht : t.Proper) (star : Bool) (hrest : EndsTerm rest) :
    termSpan (t.text star ++ rest) = (t, rest) := by
  have hcoefficient : EndsCoefficient (variableText star t.power ++ rest) :=
    endsCoefficient_variableText star t.power hrest
  rw [termSpan, Term.text, List.append_assoc, signSpan_signText t.sign fun _ => head_ne_sign ht]
  dsimp only
  rw [List.append_assoc, coefficientSpan_append ht.coefficient hcoefficient]
  dsimp only
  rw [variableSpan_variableText star ht.power hrest]

/-! ## Reading -/

theorem Spells.endsTerm (h : Spells false w ts) : EndsTerm w := by
  cases h with
  | nil => nofun
  | cons ht hsign h =>
    obtain ⟨negative, hsign⟩ := Option.isSome_iff_exists.mp (hsign.resolve_left nofun)
    rw [Term.text, hsign]
    cases negative <;> simp [signText, EndsTerm]

theorem readTerm_text (ht : t.Proper) (star : Bool) (hrest : EndsTerm rest) :
    ∃ h, readTerm (t.text star ++ rest) = .ok ⟨t, rest, h⟩ := by
  have hspan := termSpan_text ht star hrest
  have hterm : (termSpan (t.text star ++ rest)).1 = t := congrArg Prod.fst hspan
  have hproper : ¬((termSpan (t.text star ++ rest)).1.coefficient = [] ∧
      (termSpan (t.text star ++ rest)).1.power = none) := by
    rw [hterm]
    exact ht.nonempty
  have hshorter := length_termSpan hproper
  rw [readTerm, dif_neg hproper]
  rw [hspan] at hshorter
  refine ⟨hshorter, ?_⟩
  simp only [hspan]

theorem Spells.ne_nil (h : Spells isFirst w (t :: ts)) : w ≠ [] := by
  cases h with
  | @cons _ star _ rest _ ht _ h =>
    obtain ⟨hshorter, -⟩ := readTerm_text ht star h.endsTerm
    exact List.ne_nil_of_length_pos (Nat.zero_lt_of_lt hshorter)

/-- **The terms of a text are read.** -/
theorem readTerms_of_spells (h : Spells isFirst w ts) :
    readTerms isFirst w = (ts.mapM Term.value).mapError .numeral := by
  induction h with
  | nil =>
    rw [readTerms, if_pos rfl]
    rfl
  | @cons isFirst star t w ts ht hsign h ih =>
    obtain ⟨_, hterm⟩ := readTerm_text ht star h.endsTerm
    have hsigned : ¬(!isFirst && t.sign.isNone) = true := by
      rcases hsign with rfl | hsign
      · simp
      · simp [Option.isSome_iff_ne_none.mp hsign]
    rw [readTerms, if_neg (Spells.cons ht hsign h).ne_nil, hterm]
    dsimp only
    rw [if_neg hsigned, ih, List.mapM_cons, Term.value]
    cases t.powerValue with
    | error e => rfl
    | ok power => cases ts.mapM Term.value <;> rfl

/-- **A text of terms is read as their sum.** -/
theorem parse_of_spells {text : String} {values : List (ℕ × Float)}
    (h : Spells true (withoutBlanks text) (t :: ts))
    (hvalues : (t :: ts).mapM Term.value = .ok values) : parse text = .ok (ofTerms values) := by
  rw [parse, parseChars, if_neg h.ne_nil, readTerms_of_spells h, hvalues]
  rfl

/-! ## What is read is spelled -/

section

variable {s : List Char} {values : List (ℕ × Float)}

theorem eq_of_signSpan (s : List Char) : s = signText (signSpan s).1 ++ (signSpan s).2 := by
  unfold signSpan
  split <;> rfl

theorem eq_of_coefficientSpan (s : List Char) :
    s = (coefficientSpan s).1 ++ (coefficientSpan s).2 ∧
      ((coefficientSpan s).1 = [] ∨ IsCoefficient (coefficientSpan s).1) := by
  have hs : s.takeWhile isDigit ++ s.dropWhile isDigit = s := List.takeWhile_append_dropWhile
  have hwhole : ∀ c ∈ s.takeWhile isDigit, isDigit c := forall_mem_takeWhile s
  unfold coefficientSpan
  dsimp only
  split
  · rename_i t hdrop
    split_ifs with hempty
    · exact ⟨rfl, Or.inl rfl⟩
    · refine ⟨?_, Or.inr (.point hwhole (forall_mem_takeWhile t) hempty)⟩
      rw [List.append_assoc, List.cons_append, List.takeWhile_append_dropWhile, ← hdrop, hs]
  · refine ⟨hs.symm, ?_⟩
    by_cases hempty : s.takeWhile isDigit = []
    · exact Or.inl hempty
    · exact Or.inr (.whole hwhole hempty)

theorem eq_of_powerSpan (s : List Char) :
    s = powerText (powerSpan s).1 ++ (powerSpan s).2 ∧ ∀ c ∈ (powerSpan s).1, isDigit c := by
  unfold powerSpan
  split
  · rename_i t
    split_ifs with hempty
    · exact ⟨rfl, nofun⟩
    · refine ⟨?_, forall_mem_takeWhile t⟩
      obtain ⟨d, ds, hds⟩ := List.exists_cons_of_ne_nil hempty
      have ht : t.takeWhile isDigit ++ t.dropWhile isDigit = t := List.takeWhile_append_dropWhile
      rw [hds] at ht ⊢
      rw [powerText, List.cons_append, ht]
  · exact ⟨rfl, nofun⟩

theorem exists_eq_of_variableSpan (s : List Char) :
    ∃ star, s = variableText star (variableSpan s).1 ++ (variableSpan s).2 ∧
      ∀ ds ∈ (variableSpan s).1, ∀ c ∈ ds, isDigit c := by
  unfold variableSpan
  split
  · rename_i t
    obtain ⟨ht, hdigits⟩ := eq_of_powerSpan t
    refine ⟨false, congrArg _ ht, ?_⟩
    rintro _ ⟨⟩
    exact hdigits
  · rename_i t
    obtain ⟨ht, hdigits⟩ := eq_of_powerSpan t
    refine ⟨true, congrArg (fun u => '*' :: 'x' :: u) ht, ?_⟩
    rintro _ ⟨⟩
    exact hdigits
  · exact ⟨false, rfl, nofun⟩

/-- **What is read as a term is spelled like it.** -/
theorem exists_eq_of_readTerm {r : Reading Term s} (h : readTerm s = .ok r) :
    ∃ star, s = r.value.text star ++ r.rest ∧ r.value.Proper := by
  rw [readTerm] at h
  split_ifs at h with hempty
  cases h
  obtain ⟨hcoefficient, hproper⟩ := eq_of_coefficientSpan (signSpan s).2
  obtain ⟨star, hvariable, hdigits⟩ :=
    exists_eq_of_variableSpan (coefficientSpan (signSpan s).2).2
  refine ⟨star, ?_, hproper, hdigits, hempty⟩
  show s = (signText (signSpan s).1 ++ ((coefficientSpan (signSpan s).2).1 ++ variableText star
    (variableSpan (coefficientSpan (signSpan s).2).2).1)) ++
      (variableSpan (coefficientSpan (signSpan s).2).2).2
  rw [List.append_assoc, List.append_assoc, ← hvariable, ← hcoefficient, ← eq_of_signSpan]

/-- The reader wants a sign before every term but the first. -/
theorem isSome_of_signed {sign : Option Bool} (h : ¬(!isFirst && sign.isNone) = true) :
    isFirst ∨ sign.isSome := by
  cases isFirst with
  | true => exact Or.inl rfl
  | false => exact Or.inr (by simpa [← Option.isSome_iff_ne_none] using h)

/-- **What is read as terms is spelled like them.** -/
theorem exists_spells_of_readTerms (h : readTerms isFirst s = .ok values) :
    ∃ ts, Spells isFirst s ts ∧ ts.mapM Term.value = .ok values := by
  fun_induction readTerms isFirst s generalizing values with
  | case1 =>
    cases h
    exact ⟨[], .nil, rfl⟩
  | case2 => cases h
  | case3 => cases h
  | case4 => cases h
  | case5 isFirst s hne r hread hsign power hpower ih =>
    obtain ⟨star, hs, hproper⟩ := exists_eq_of_readTerm hread
    cases hrest : readTerms false r.rest with
    | error stop =>
      rw [hrest] at h
      cases h
    | ok rest =>
      rw [hrest] at h
      cases h
      obtain ⟨ts, hts, hvalues⟩ := ih hrest
      have hspells : Spells isFirst (r.value.text star ++ r.rest) (r.value :: ts) :=
        .cons hproper (isSome_of_signed hsign) hts
      rw [← hs] at hspells
      refine ⟨r.value :: ts, hspells, ?_⟩
      rw [List.mapM_cons, Term.value, hpower, hvalues]
      rfl

/-- **Reading terms is spelling them**: what is read are the values of the terms that the text
consists of, and a text that does not consist of terms is not read. -/
theorem readTerms_eq_ok_iff :
    readTerms isFirst s = .ok values ↔
      ∃ ts, Spells isFirst s ts ∧ ts.mapM Term.value = .ok values := by
  refine ⟨exists_spells_of_readTerms, ?_⟩
  rintro ⟨ts, hts, hvalues⟩
  rw [readTerms_of_spells hts, hvalues]
  rfl

end

end SymCalc.Polynomial
