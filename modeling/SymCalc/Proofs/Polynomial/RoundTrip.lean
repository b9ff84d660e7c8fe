import SymCalc.Proofs.Expr.Grammar
import SymCalc.Proofs.Polynomial.Coefficients
import SymCalc.Proofs.Polynomial.Grammar

/-!
# Written polynomials read back

**Theorem (`read_written`).** What is written for a polynomial with finite coefficients is read as
a polynomial that is equal to it. So two polynomials have the same text exactly if they are equal.

Without its blanks the text is a list of terms as the grammar has them (`writtenTerm`,
`spells_render`). A coefficient that is left out is one: nothing but the number one is written `1`
(`abs_eq_one_of_text`). The zero polynomial has no terms, and is written as one.
-/

namespace SymCalc.Polynomial

open Text Double Numeral

variable {p q : Polynomial} {c : Float} {t : ℕ × Float} {ts : List (ℕ × Float)}

/-- Only the magnitude one is written `1`. -/
theorem abs_eq_one_of_text (hfin : c.isFinite) (h : numberText c.abs = "1") : c.abs = 1.0 := by
  obtain ⟨d, hd, hread⟩ := exists_denotes_abs hfin
  have hchars : Layout.plain.chars c.abs = ['1'] := by
    have := congrArg String.toList h
    rwa [numberText, String.toList_ofList] at this
  rw [hchars, ← literal?_eq_some_iff] at hd
  obtain rfl : (⟨1, 0⟩ : Decimal) = d := Option.some.inj hd
  rw [← hread, Decimal.toFloat, Decimal.trimZeros_of_not_dvd (by decide) (by decide)]
  rfl

/-! ## Written terms -/

/-- A term as it is written: the first one has no plus sign. -/
def writtenTerm (isFirst : Bool) (t : ℕ × Float) : Term where
  sign := if t.2 < 0.0 then some true else if isFirst then none else some false
  coefficient := if t.1 ≠ 0 ∧ numberText t.2.abs = "1" then [] else Layout.plain.chars t.2.abs
  power :=
    match t.1 with
    | 0 => none
    | 1 => some []
    | k => some (decimalDigits k)

/-- The coefficient is one that can be written, and the power can be read. -/
structure Readable (t : ℕ × Float) : Prop where
  finite : t.2.isFinite
  ne_zero : (t.2 == 0.0) = false
  power_lt : t.1 < 10 ^ digitLimit

theorem isCoefficient_of_denotes {w : List Char} {d : Decimal} (h : Denotes w d) :
    IsCoefficient w := by
  cases h with
  | whole hds hne => exact .whole (fun c hc => isDigit_of_isAsciiDigit (hds c hc)) hne
  | point hds hfraction hne =>
    exact .point (fun c hc => isDigit_of_isAsciiDigit (hds c hc))
      (fun c hc => isDigit_of_isAsciiDigit (hfraction c hc)) hne

theorem proper_writtenTerm (isFirst : Bool) (ht : Readable t) : (writtenTerm isFirst t).Proper := by
  obtain ⟨d, hd, -⟩ := exists_denotes_abs ht.finite
  refine ⟨?_, ?_, ?_⟩
  · rw [writtenTerm]
    dsimp only
    split_ifs
    · exact Or.inl rfl
    · exact Or.inr (isCoefficient_of_denotes hd)
  · intro ds hds c hc
    rw [writtenTerm] at hds
    rcases t with ⟨_ | _ | k, x⟩
    · cases hds
    · cases hds
      cases hc
    · cases hds
      exact isDigit_of_isAsciiDigit (isAsciiDigit_of_mem_decimalDigits hc)
  · rintro ⟨hcoefficient, hpower⟩
    rcases t with ⟨_ | _ | k, x⟩
    · exact hd.ne_nil hcoefficient
    · cases hpower
    · cases hpower

/-! ## Values of written terms -/

theorem signedCoefficient_writtenTerm (isFirst : Bool) (ht : Readable t) :
    (writtenTerm isFirst t).signedCoefficient = t.2 := by
  obtain ⟨d, hd, hread⟩ := exists_denotes_abs ht.finite
  have hmagnitude : ((literal? ((writtenTerm isFirst t).coefficient.map toAscii)).map
      Decimal.toFloat).getD 1.0 = t.2.abs := by
    rw [writtenTerm]
    dsimp only
    split_ifs with hone
    · exact (abs_eq_one_of_text ht.finite hone.2).symm
    · rw [map_toAscii hd.isNumeralChar, literal?_eq_some_iff.mpr hd]
      exact hread
  rw [Term.signedCoefficient, hmagnitude]
  by_cases hlt : t.2 < 0.0
  · rw [writtenTerm, if_pos hlt, abs_of_negative ht.finite hlt]
    exact neg_neg t.2
  · have hnegZero : t.2 ≠ -0.0 := by
      intro h
      have hzero := ht.ne_zero
      rw [h] at hzero
      cases hzero
    rw [writtenTerm, if_neg hlt, abs_of_not_negative ht.finite hlt hnegZero]
    cases isFirst <;> rfl

theorem powerValue_of_power {t : Term} {ds : List Char} (h : t.power = some ds) (hne : ds ≠ []) :
    t.powerValue = readDigits ds := by
  obtain ⟨d, ds, rfl⟩ := List.exists_cons_of_ne_nil hne
  rw [Term.powerValue, h]

theorem powerValue_writtenTerm (isFirst : Bool) (ht : Readable t) :
    (writtenTerm isFirst t).powerValue = .ok t.1 := by
  have hlength := length_decimalDigits_le ht.power_lt
  rcases t with ⟨_ | _ | k, x⟩
  · rfl
  · rfl
  · have hread : readDigits (decimalDigits (k + 2)) = .ok (k + 2) := by
      rw [readDigits_eq (forall_isAsciiDigit_decimalDigits (k + 2)), if_neg (not_lt.mpr hlength),
        natOfDigits_decimalDigits]
    rw [powerValue_of_power rfl (decimalDigits_ne_nil (k + 2))]
    exact hread

/-- **A written term reads as the term.** -/
theorem value_writtenTerm (isFirst : Bool) (ht : Readable t) :
    (writtenTerm isFirst t).value = .ok t := by
  rw [Term.value, powerValue_writtenTerm isFirst ht, signedCoefficient_writtenTerm isFirst ht]
  rfl

theorem mapM_value_writtenTerm (isFirst : Bool) (hts : ∀ t ∈ ts, Readable t) :
    (ts.map (writtenTerm isFirst)).mapM Term.value = .ok ts := by
  induction ts with
  | nil => rfl
  | cons t ts ih =>
    obtain ⟨ht, hts⟩ := List.forall_mem_cons.mp hts
    rw [List.map_cons, List.mapM_cons, value_writtenTerm isFirst ht, ih hts]
    rfl

/-! ## Texts of written terms -/

theorem withoutBlanks_numberText_abs (hfin : c.isFinite) :
    withoutBlanks (numberText c.abs) = Layout.plain.chars c.abs := by
  obtain ⟨d, hd, -⟩ := exists_denotes_abs hfin
  exact withoutBlanks_ofList fun c hc => (plain_of_isNumeralChar (hd.isNumeralChar c hc)).1

theorem withoutBlanks_natText (n : ℕ) : withoutBlanks (natText n) = decimalDigits n :=
  withoutBlanks_ofList fun _ hc => (plain_of_isAsciiDigit (isAsciiDigit_of_mem_decimalDigits hc)).1

theorem powerText_of_ne_nil {ds : List Char} (hne : ds ≠ []) : powerText ds = '^' :: ds := by
  obtain ⟨d, ds, rfl⟩ := List.exists_cons_of_ne_nil hne
  rfl

/-- `x` with its power. -/
theorem withoutBlanks_variable (k : ℕ) :
    withoutBlanks (if k = 0 then "x" else "x^" ++ natText (k + 1)) =
      'x' :: powerText (if k = 0 then [] else decimalDigits (k + 1)) := by
  split_ifs
  · rfl
  · rw [withoutBlanks_append, withoutBlanks_natText, powerText_of_ne_nil (decimalDigits_ne_nil _)]
    rfl

theorem withoutBlanks_termText (isFirst : Bool) (ht : Readable t) :
    withoutBlanks (termText t) =
      (writtenTerm isFirst t).coefficient ++ variableText false (writtenTerm isFirst t).power := by
  have hchars := withoutBlanks_numberText_abs ht.finite
  rcases t with ⟨_ | k, x⟩
  · have hcoefficient : (writtenTerm isFirst (0, x)).coefficient = Layout.plain.chars x.abs := by
      simp [writtenTerm]
    rw [hcoefficient, ← hchars]
    exact (List.append_nil _).symm
  · have hpower : (writtenTerm isFirst (k + 1, x)).power =
        some (if k = 0 then [] else decimalDigits (k + 1)) := by
      cases k <;> rfl
    have hcoefficient : withoutBlanks (if numberText x.abs = "1" then "" else numberText x.abs) =
        (writtenTerm isFirst (k + 1, x)).coefficient := by
      rw [writtenTerm]
      dsimp only
      by_cases hone : numberText x.abs = "1"
      · rw [if_pos hone, if_pos ⟨Nat.succ_ne_zero k, hone⟩]
        rfl
      · rw [if_neg hone, if_neg fun h => hone h.2]
        exact hchars
    rw [termText, withoutBlanks_append, hcoefficient, withoutBlanks_variable, hpower]
    rfl

theorem signText_writtenTerm (isFirst : Bool) (t : ℕ × Float) :
    signText (writtenTerm isFirst t).sign =
      if t.2 < 0.0 then ['-'] else if isFirst then [] else ['+'] := by
  rw [writtenTerm]
  dsimp only
  split_ifs <;> rfl

theorem withoutBlanks_firstTerm (ht : Readable t) :
    withoutBlanks (firstTerm t) = (writtenTerm true t).text false := by
  have hsign : withoutBlanks (if t.2 < 0.0 then "-" else "") = if t.2 < 0.0 then ['-'] else [] := by
    split_ifs <;> rfl
  rw [firstTerm, withoutBlanks_append, hsign, withoutBlanks_termText true ht, Term.text,
    signText_writtenTerm]
  rfl

theorem withoutBlanks_nextTerm (ht : Readable t) :
    withoutBlanks (nextTerm t) = (writtenTerm false t).text false := by
  have hsign : withoutBlanks (if t.2 < 0.0 then " - " else " + ") =
      if t.2 < 0.0 then ['-'] else ['+'] := by
    split_ifs <;> rfl
  rw [nextTerm, withoutBlanks_append, hsign, withoutBlanks_termText false ht, Term.text,
    signText_writtenTerm]
  rfl

/-! ## Written polynomials -/

theorem isSome_sign_writtenTerm (t : ℕ × Float) : (writtenTerm false t).sign.isSome := by
  rw [writtenTerm]
  by_cases hlt : t.2 < 0.0 <;> simp [hlt]

/-- The terms after the first. -/
theorem spells_nextTerms (hts : ∀ t ∈ ts, Readable t) :
    Spells false (withoutBlanks (String.join (ts.map nextTerm))) (ts.map (writtenTerm false)) := by
  induction ts with
  | nil => exact .nil
  | cons t ts ih =>
    obtain ⟨ht, hts⟩ := List.forall_mem_cons.mp hts
    rw [List.map_cons, List.map_cons, String.join_cons, withoutBlanks_append,
      withoutBlanks_nextTerm ht]
    exact .cons (proper_writtenTerm false ht) (Or.inr (isSome_sign_writtenTerm t)) (ih hts)

/-- **The text of a polynomial consists of its terms.** -/
theorem spells_render (hterms : p.terms.reverse = t :: ts) (hts : ∀ s ∈ t :: ts, Readable s) :
    Spells true (withoutBlanks p.render) (writtenTerm true t :: ts.map (writtenTerm false)) := by
  obtain ⟨ht, hts⟩ := List.forall_mem_cons.mp hts
  rw [render, hterms]
  dsimp only
  rw [String.join_cons, withoutBlanks_append, withoutBlanks_firstTerm ht]
  exact .cons (proper_writtenTerm true ht) (Or.inl rfl) (spells_nextTerms hts)

theorem readable_of_mem_terms (hp : p.IsFinite) (hdegree : p.degree < 10 ^ digitLimit) :
    ∀ t ∈ p.terms.reverse, Readable t := by
  intro t ht
  obtain ⟨hpower, hmem, hne⟩ := of_mem_terms (List.mem_reverse.mp ht)
  exact ⟨hp t.2 hmem, hne, lt_of_le_of_lt hpower hdegree⟩

/-- Zero is written as a term, although it has none. -/
theorem parse_zero : parse "0" = .ok (ofTerms [(0, 0.0)]) := by
  have hdigit : ∀ c ∈ ['0'], isDigit c := List.forall_mem_singleton.mpr (by decide)
  have hproper : Term.Proper ⟨none, ['0'], none⟩ :=
    ⟨Or.inr (.whole hdigit (by decide)), nofun, nofun⟩
  have hspells : Spells true (withoutBlanks "0") [⟨none, ['0'], none⟩] :=
    @Spells.cons true false _ _ _ hproper (Or.inl rfl) .nil
  have hzero : (⟨0, 0⟩ : Decimal).toFloat = 0.0 := by
    rw [Decimal.toFloat, Decimal.trimZeros_zero]
    rfl
  refine parse_of_spells hspells ?_
  show Except.ok [(0, (⟨0, 0⟩ : Decimal).toFloat)] = _
  rw [hzero]

/-- The text is read as a polynomial with the same constants. -/
theorem exists_parse_render (hp : p.IsFinite) (hdegree : p.degree < 10 ^ digitLimit) :
    ∃ q, parse p.render = .ok q ∧ q.constants = p.constants := by
  have hreadable := readable_of_mem_terms hp hdegree
  cases hterms : p.terms.reverse with
  | nil =>
    -- no term is written, so a zero stands for the polynomial
    rw [render, hterms, constants_of_terms_eq_nil (List.reverse_eq_nil_iff.mp hterms)]
    exact ⟨_, parse_zero, rfl⟩
  | cons t ts =>
    rw [hterms] at hreadable
    have hvalues : (writtenTerm true t :: ts.map (writtenTerm false)).mapM Term.value =
        .ok (t :: ts) := by
      obtain ⟨ht, hts⟩ := List.forall_mem_cons.mp hreadable
      rw [List.mapM_cons, value_writtenTerm true ht, mapM_value_writtenTerm false hts]
      rfl
    refine ⟨_, parse_of_spells (spells_render hterms hreadable) hvalues, ?_⟩
    rw [← hterms]
    exact p.constants_ofTerms_reverse

/-- Equal polynomials have the same text. -/
theorem render_eq_of_constants_eq (h : p.constants = q.constants) : p.render = q.render := by
  rw [render, render, terms_eq_of_constants_eq h]

/-- **Written polynomials read back.** What is written for a polynomial is read as one that is
equal to it; and two polynomials have the same text exactly if they are equal. -/
theorem read_written (hp : p.IsFinite) (hdegree : p.degree < 10 ^ digitLimit) :
    (∃ q, parse p.render = .ok q ∧ (q == p) = true) ∧
    ∀ p' : Polynomial, p'.IsFinite → p'.degree < 10 ^ digitLimit →
      (p.render = p'.render ↔ (p == p') = true) := by
  obtain ⟨q, hq, hconstants⟩ := exists_parse_render hp hdegree
  refine ⟨⟨q, hq, ?_⟩, ?_⟩
  · exact (beq_iff_constants_eq (isFinite_of_constants_eq hp hconstants)).mpr hconstants
  · intro p' hp' hdegree'
    rw [beq_iff_constants_eq hp]
    constructor
    · intro h
      -- both are equal to what is read from the text they share
      obtain ⟨q', hq', hconstants'⟩ := exists_parse_render hp' hdegree'
      rw [← h, hq] at hq'
      cases hq'
      exact hconstants.symm.trans hconstants'
    · exact render_eq_of_constants_eq

/-- `-2.5x^2 + 1`, with either zero as the coefficient of `x`. -/
theorem read_written_quadratic :
    (∃ q, parse (ofCoefficients [1.0, -0.0, -2.5]).render = .ok q ∧
      (q == ofCoefficients [1.0, -0.0, -2.5]) = true) ∧
    ((ofCoefficients [1.0, -0.0, -2.5]).render = (ofCoefficients [1.0, 0.0, -2.5]).render ↔
      (ofCoefficients [1.0, -0.0, -2.5] == ofCoefficients [1.0, 0.0, -2.5]) = true) := by
  have htwo : 2 < 10 ^ digitLimit :=
    calc 2 < 10 ^ 1 := by decide
      _ ≤ 10 ^ digitLimit := Nat.pow_le_pow_right (by decide) (by decide)
  have hfin : (ofCoefficients [1.0, -0.0, -2.5]).IsFinite := List.all_eq_true.mp (by decide)
  have hfin' : (ofCoefficients [1.0, 0.0, -2.5]).IsFinite := List.all_eq_true.mp (by decide)
  obtain ⟨hread, htexts⟩ := read_written hfin htwo
  exact ⟨hread, htexts _ hfin' htwo⟩

end SymCalc.Polynomial
