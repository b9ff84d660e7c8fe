import SymCalc.Proofs.Polynomial.CommonTexts

/-!
# Which texts are read as polynomials

**Theorem (`parse_spelled`).** A text is read as a polynomial exactly if it consists of terms, each
with a sign, but the first may lack it. The coefficient of a power is the sum of the coefficients
of the terms of that power, in their order. Where a text is not read, the position that is blamed
is that of a character, and what stands before it consists of terms.

Reading takes one term after the other. A round that does not end it takes at least one character
(`Reading.shorter`), so the induction follows the reader: either the rest of the text is spelled by
terms, or it has a longest beginning that is, and the reader stops right after that
(`stop_of_readTerms`). What the terms stand for is said without the reader (`Term.Means`).

Digits of a power that are too many for a whole number are refused with another error, so the
theorem leaves texts with such powers out (`ShortPowers`).
-/

namespace SymCalc

open Text

namespace Polynomial

open Numeral
open Double (Agree zero_beq_zero)

variable {c : Char} {w v s ds : List Char} {t : Term} {ts : List Term} {star isFirst : Bool}
  {values : List (ℕ × Float)} {k : ℕ} {x : Float} {p : Polynomial}

/-! ## What terms stand for -/

/-- Digits are not blank. -/
theorem isBlank_of_isDigit (hc : isDigit c) : isBlank c = false := by
  obtain ⟨d, hd⟩ := Option.isSome_iff_exists.mp hc
  obtain ⟨z, hfind, -⟩ := Option.map_eq_some_iff.mp hd
  have hblanks : ∀ z ∈ zeros, ∀ span ∈ blanks, span.2 < z ∨ z + 10 ≤ span.1 := by decide
  have hrange := List.find?_some hfind
  simp only [Bool.and_eq_true, decide_eq_true_eq] at hrange
  rw [Bool.eq_false_iff]
  intro hblank
  obtain ⟨span, hspan, hwithin⟩ := List.any_eq_true.mp hblank
  have hdisjoint := hblanks z (List.mem_of_find?_eq_some hfind) span hspan
  simp only [Bool.and_eq_true, decide_eq_true_eq] at hwithin
  omega

/-- A digit becomes an ASCII digit. -/
theorem isAsciiDigit_toAscii (hc : isDigit c) : isAsciiDigit (toAscii c) := by
  obtain ⟨d, hd⟩ := Option.isSome_iff_exists.mp hc
  have hlt : d < 10 := digitValue?_lt hd
  rw [toAscii]
  by_cases hascii : c.toNat < 0x80
  · rw [if_pos hascii]
    exact isAsciiDigit_of_lt hc hascii
  · rw [if_neg hascii, if_neg (by simp [isBlank_of_isDigit hc]), hd]
    show isAsciiDigit (Nat.digitChar d)
    interval_cases d <;> decide

theorem exists_denotes_toAscii (hw : IsCoefficient w) : ∃ d, Denotes (w.map toAscii) d := by
  have hdigits : ∀ {ds : List Char}, (∀ c ∈ ds, isDigit c) →
      ∀ c ∈ ds.map toAscii, isAsciiDigit c := by
    intro ds hds c hc
    obtain ⟨d, hd, rfl⟩ := List.mem_map.mp hc
    exact isAsciiDigit_toAscii (hds d hd)
  rcases hw with ⟨hds, hne⟩ | ⟨hds, hfraction, hne⟩
  · exact ⟨_, .whole (hdigits hds) (by simpa using hne)⟩
  · rw [List.map_append, List.map_cons]
    exact ⟨_, .point (hdigits hds) (hdigits hfraction) (by simpa using hne)⟩

/-- The term stands for the coefficient `x` of the power `k`. -/
structure Term.Means (t : Term) (k : ℕ) (x : Float) : Prop where
  power : t.power = none ∧ k = 0 ∨ t.power = some [] ∧ k = 1 ∨
    ∃ d ds, t.power = some (d :: ds) ∧ k = natOfDigits ((d :: ds).map toAscii)
  coefficient : ∃ m, x = (if t.sign = some true then -m else m) ∧
    (t.coefficient = [] ∧ m = 1.0 ∨ ∃ d, Denotes (t.coefficient.map toAscii) d ∧ m = d.toFloat)

/-- No power has more digits than a whole number may have. -/
def ShortPowers (w : List Char) : Prop :=
  ∀ before ds after, w = before ++ 'x' :: '^' :: (ds ++ after) → (∀ c ∈ ds, isDigit c) →
    ds.length ≤ digitLimit

theorem shortPowers_of_length (h : w.length ≤ digitLimit) : ShortPowers w := by
  rintro before ds after rfl -
  simp only [List.length_append, List.length_cons] at h
  omega

theorem ShortPowers.mono (h : ShortPowers w) (hv : v <:+: w) : ShortPowers v := by
  rintro before ds after rfl hds
  obtain ⟨front, back, rfl⟩ := hv
  exact h (front ++ before) ds (after ++ back) (by simp) hds

theorem exists_magnitude (ht : t.Proper) :
    t.coefficient = [] ∧ t.magnitude = 1.0 ∨
      ∃ d, Denotes (t.coefficient.map toAscii) d ∧ t.magnitude = d.toFloat := by
  rcases ht.coefficient with hempty | hcoefficient
  · exact Or.inl ⟨hempty, magnitude_of_nil hempty⟩
  · obtain ⟨d, hd⟩ := exists_denotes_toAscii hcoefficient
    refine Or.inr ⟨d, hd, ?_⟩
    rw [Term.magnitude, literal?_eq_some_iff.mpr hd]
    rfl

/-- **A term has a value**, unless its power has too many digits. -/
theorem exists_value (ht : t.Proper) (hshort : ShortPowers (t.text star)) :
    ∃ k, t.powerValue = .ok k ∧ t.Means k t.signedCoefficient := by
  have hcoefficient : ∃ m, t.signedCoefficient = (if t.sign = some true then -m else m) ∧
      (t.coefficient = [] ∧ m = 1.0 ∨
        ∃ d, Denotes (t.coefficient.map toAscii) d ∧ m = d.toFloat) :=
    ⟨t.magnitude, t.signedCoefficient_eq, exists_magnitude ht⟩
  rw [Term.powerValue]
  rcases hpower : t.power with _ | _ | ⟨d, ds⟩
  · exact ⟨0, rfl, Or.inl ⟨hpower, rfl⟩, hcoefficient⟩
  · exact ⟨1, rfl, Or.inr (Or.inl ⟨hpower, rfl⟩), hcoefficient⟩
  · have hdigits : ∀ c ∈ d :: ds, isDigit c := ht.power _ hpower
    obtain ⟨before, htext⟩ : ∃ before, t.text star = before ++ 'x' :: '^' :: ((d :: ds) ++ []) := by
      rw [Term.text, hpower]
      cases star with
      | false => exact ⟨signText t.sign ++ t.coefficient, by simp [variableText, powerText]⟩
      | true => exact ⟨signText t.sign ++ t.coefficient ++ ['*'], by simp [variableText, powerText]⟩
    have hlength : (d :: ds).length ≤ digitLimit := hshort before (d :: ds) [] htext hdigits
    have hread : readDigits (d :: ds) = .ok (natOfDigits ((d :: ds).map toAscii)) :=
      if_neg (Nat.not_lt.mpr hlength)
    exact ⟨_, hread, Or.inr (Or.inr ⟨d, ds, hpower, rfl⟩), hcoefficient⟩

/-- **All terms of a text have values.** -/
theorem exists_values (h : Spells isFirst w ts) (hshort : ShortPowers w) :
    ∃ values, ts.mapM Term.value = .ok values ∧
      List.Forall₂ (fun t v => t.Means v.1 v.2) ts values := by
  induction h with
  | nil => exact ⟨[], rfl, .nil⟩
  | @cons isFirst star t w ts ht hsign h ih =>
    obtain ⟨k, hk, hmeans⟩ := exists_value ht (hshort.mono (List.prefix_append _ _).isInfix)
    obtain ⟨values, hvalues, hall⟩ := ih (hshort.mono (List.suffix_append _ _).isInfix)
    refine ⟨(k, t.signedCoefficient) :: values, ?_, .cons hmeans hall⟩
    rw [List.mapM_cons, Term.value, hk, hvalues]
    rfl

/-! ## Coefficients of sums -/

/-- The sum of the coefficients of a power, in the order of the terms. -/
def sumOfPower (values : List (ℕ × Float)) (k : ℕ) : Float :=
  (values.filter (·.1 = k)).foldl (fun sum t => sum + t.2) 0.0

theorem getD_sums (values : List (ℕ × Float)) (k : ℕ) :
    ((List.range (values.foldl (fun m t => max m t.1) 0 + 1)).map (sumOfPower values)).getD k 0.0 =
      sumOfPower values k := by
  have htop := foldl_max_le_iff.mp (le_refl (values.foldl (fun m t => max m t.1) 0))
  rw [List.getD_eq_getElem?_getD, List.getElem?_map]
  by_cases hk : k < values.foldl (fun m t => max m t.1) 0 + 1
  · rw [List.getElem?_range hk]
    rfl
  · -- no term has a power beyond the highest one
    have hnone : values.filter (·.1 = k) = [] := by
      rw [List.filter_eq_nil_iff]
      intro t ht
      have hle := htop.2 t ht
      simp only [decide_eq_true_eq]
      omega
    rw [List.getElem?_eq_none (by simpa using hk), sumOfPower, hnone]
    rfl

theorem ofTerms_eq (values : List (ℕ × Float)) :
    ofTerms values = ofCoefficients ((List.range
      (values.foldl (fun m t => max m t.1) 0 + 1)).map (sumOfPower values)) := rfl

/-- **Up to the degree the coefficients are the sums**, and beyond it the sums are zero. -/
theorem coefficient_ofTerms (values : List (ℕ × Float)) (k : ℕ) :
    (k ≤ (ofTerms values).degree → (ofTerms values).coefficient k = sumOfPower values k) ∧
      ((ofTerms values).degree < k → (sumOfPower values k == 0.0) = true) := by
  rw [← getD_sums, ofTerms_eq]
  refine ⟨coefficient_ofCoefficients, fun hk => ?_⟩
  rcases agree_coefficient_ofCoefficients _ k with heq | ⟨-, hzero⟩
  · rw [← heq, coefficient_of_degree_lt hk]
    exact zero_beq_zero
  · exact hzero

/-! ## Where reading stops -/

/-- **The reader stops after terms.** -/
theorem stop_of_readTerms {stop : Stop} (hshort : ShortPowers s)
    (h : readTerms isFirst s = .error stop) :
    ∃ cause rest done ts, stop = .at cause rest ∧ s = done ++ rest ∧ rest ≠ [] ∧
      Spells isFirst done ts ∧ ∀ limit, cause ≠ .nestedTooDeep limit := by
  fun_induction readTerms isFirst s with
  | case1 => cases h
  | case2 isFirst s hne stop' hread =>
    cases h
    rw [readTerm] at hread
    split_ifs at hread
    cases hread
    refine ⟨_, s, [], [], rfl, rfl, hne, .nil, ?_⟩
    intro limit hcause
    split at hcause <;> cases hcause
  | case3 isFirst s hne r hread hsign =>
    cases h
    refine ⟨_, s, [], [], rfl, rfl, hne, .nil, ?_⟩
    intro limit hcause
    cases hcause
  | case4 isFirst s hne r hread hsign e hpower =>
    obtain ⟨star, hs, hproper⟩ := exists_eq_of_readTerm hread
    rw [hs] at hshort
    obtain ⟨k, hk, -⟩ := exists_value hproper (hshort.mono (List.prefix_append _ _).isInfix)
    cases hpower.symm.trans hk
  | case5 isFirst s hne r hread hsign power hpower ih =>
    obtain ⟨star, hs, hproper⟩ := exists_eq_of_readTerm hread
    have hstop : readTerms false r.rest = .error stop := by
      cases hrest : readTerms false r.rest with
      | error stop' =>
        rw [hrest] at h
        cases h
        rfl
      | ok values =>
        rw [hrest] at h
        cases h
    rw [hs] at hshort
    obtain ⟨cause, rest, done, ts, hcause, hrest, hne', hts, hnesting⟩ :=
      ih (hshort.mono (List.suffix_append _ _).isInfix) hstop
    have hspells : Spells isFirst (r.value.text star ++ done) (r.value :: ts) :=
      .cons hproper (isSome_of_signed hsign) hts
    refine ⟨cause, rest, _, _, hcause, ?_, hne', hspells, hnesting⟩
    rw [List.append_assoc, ← hrest]
    exact hs

/-! ## Whole texts -/

/-- Only the empty text has no terms. -/
theorem Spells.eq_nil_iff (h : Spells isFirst w ts) : w = [] ↔ ts = [] := by
  constructor
  · rintro rfl
    cases ts with
    | nil => rfl
    | cons t ts => exact absurd rfl h.ne_nil
  · rintro rfl
    cases h
    rfl

/-- **A text of terms is read.** -/
theorem exists_parse {text : String} (hshort : ShortPowers (withoutBlanks text))
    (hts : Spells true (withoutBlanks text) ts) (hne : ts ≠ []) :
    ∃ values, List.Forall₂ (fun t v => t.Means v.1 v.2) ts values ∧
      parse text = .ok (ofTerms values) := by
  obtain ⟨t, ts, rfl⟩ := List.exists_cons_of_ne_nil hne
  obtain ⟨values, hvalues, hmeans⟩ := exists_values hts hshort
  exact ⟨values, hmeans, parse_of_spells hts hvalues⟩

/-- The error blames a character of the text, and what stands before it, if anything does, is a
polynomial. An empty text has no character to blame. -/
def BlamesAfterPolynomial (w : List Char) (e : ParseError) : Prop :=
  w = [] ∧ e.position = 0 ∨
    e.position < w.length ∧ e.character = w[e.position]? ∧
      (e.position = 0 ∨ ∃ q, parse (String.ofList (w.take e.position)) = .ok q)

theorem atRest_append {cause : ParseError.Cause} (h : ∀ limit, cause ≠ .nestedTooDeep limit)
    (done rest : List Char) :
    ParseError.atRest cause (done ++ rest) rest = ⟨cause, done.length, rest.head?⟩ := by
  cases cause with
  | nestedTooDeep limit => exact absurd rfl (h limit)
  | _ => simp [ParseError.atRest]

/-- **A text that is not read is blamed right after terms.** -/
theorem blames_of_parse {text : String} {e : Error} (hshort : ShortPowers (withoutBlanks text))
    (h : parse text = .error e) :
    ∃ blame, e = .parse blame ∧ BlamesAfterPolynomial (withoutBlanks text) blame := by
  have hblank : ∀ c ∈ withoutBlanks text, isBlank c = false := fun _ => isBlank_of_mem_withoutBlanks
  rw [parse, parseChars] at h
  generalize withoutBlanks text = w at h hshort hblank
  split_ifs at h with hempty
  · cases h
    subst hempty
    exact ⟨_, rfl, Or.inl ⟨rfl, rfl⟩⟩
  cases hread : readTerms true w with
  | ok values =>
    rw [hread] at h
    cases h
  | error stop =>
    rw [hread] at h
    cases h
    obtain ⟨cause, rest, done, ts, rfl, rfl, hne, hts, hnesting⟩ := stop_of_readTerms hshort hread
    refine ⟨_, rfl, Or.inr ?_⟩
    rw [atRest_append hnesting]
    have hlength : done.length < (done ++ rest).length := by
      simpa using List.length_pos_iff.mpr hne
    have hcharacter : rest.head? = (done ++ rest)[done.length]? := by
      simp [List.head?_eq_getElem?, List.getElem?_append_right]
    refine ⟨hlength, hcharacter, ?_⟩
    by_cases hdone : done = []
    · exact Or.inl (by rw [hdone]; rfl)
    · have hts_ne : ts ≠ [] := by
        rintro rfl
        cases hts
        exact hdone rfl
      have hchars : withoutBlanks (String.ofList done) = done :=
        withoutBlanks_ofList fun c hc => hblank c (List.mem_append_left rest hc)
      have hdone_short := hshort.mono (List.prefix_append done rest).isInfix
      rw [List.take_left]
      obtain ⟨values, -, hparse⟩ := exists_parse (by rwa [hchars]) (by rwa [hchars]) hts_ne
      exact Or.inr ⟨_, hparse⟩

theorem exists_spells_of_parse {text : String} (h : parse text = .ok p) :
    ∃ ts, ts ≠ [] ∧ Spells true (withoutBlanks text) ts := by
  rw [parse, parseChars] at h
  split_ifs at h with hempty
  cases hread : readTerms true (withoutBlanks text) with
  | error stop =>
    rw [hread] at h
    cases h
  | ok values =>
    obtain ⟨ts, hts, -⟩ := exists_spells_of_readTerms hread
    exact ⟨ts, fun h => hempty (hts.eq_nil_iff.mpr h), hts⟩

/-- **Polynomials are read from texts of terms, and from no others.** If no power of the text has
too many digits:

* the text is read exactly if it consists of terms,
* the coefficient of each power is then the sum of the coefficients of its terms in their order, up
  to the degree, whose coefficient is not zero, and all other sums are zero,
* if the text is not read, the error blames a character before which there is a polynomial, or
  nothing.

Each round of reading takes at least one character or is the last. -/
theorem parse_spelled (text : String) (hshort : ShortPowers (withoutBlanks text)) :
    ((∃ p, parse text = .ok p) ↔ ∃ ts, ts ≠ [] ∧ Spells true (withoutBlanks text) ts) ∧
    (∀ ts, ts ≠ [] → Spells true (withoutBlanks text) ts → ∃ values p,
      List.Forall₂ (fun t v => t.Means v.1 v.2) ts values ∧ parse text = .ok p ∧
      (∀ k, (k ≤ p.degree → p.coefficient k = sumOfPower values k) ∧
        (p.degree < k → (sumOfPower values k == 0.0) = true)) ∧
      (0 < p.degree → (p.coefficient p.degree == 0.0) = false)) ∧
    (∀ e, parse text = .error e →
      ∃ blame, e = .parse blame ∧ BlamesAfterPolynomial (withoutBlanks text) blame) ∧
    (∀ s r, readTerm s = .ok r → r.rest <:+ s ∧ r.rest.length < s.length) := by
  refine ⟨⟨?_, ?_⟩, ?_, fun e => blames_of_parse hshort, ?_⟩
  · rintro ⟨p, hp⟩
    exact exists_spells_of_parse hp
  · rintro ⟨ts, hne, hts⟩
    obtain ⟨values, -, hparse⟩ := exists_parse hshort hts hne
    exact ⟨_, hparse⟩
  · intro ts hne hts
    obtain ⟨values, hmeans, hparse⟩ := exists_parse hshort hts hne
    exact ⟨values, _, hmeans, hparse, coefficient_ofTerms values, coefficient_degree_ne_zero⟩
  · intro s r hread
    obtain ⟨star, hs, -⟩ := exists_eq_of_readTerm hread
    exact ⟨⟨_, hs.symm⟩, r.shorter⟩

/-- A star without `x` is blamed, and what stands before it is a polynomial. -/
theorem parse_spelled_star :
    ∃ blame, parse "2x^2 - x*" = .error (.parse blame) ∧
      BlamesAfterPolynomial (withoutBlanks "2x^2 - x*") blame := by
  have hshort : ShortPowers (withoutBlanks "2x^2 - x*") := shortPowers_of_length (by decide +kernel)
  have herror : (parse "2x^2 - x*").toOption = none := by decide +kernel
  obtain ⟨-, -, hblame, -⟩ := parse_spelled "2x^2 - x*" hshort
  cases h : parse "2x^2 - x*" with
  | ok p =>
    rw [h] at herror
    cases herror
  | error e =>
    obtain ⟨blame, rfl, hafter⟩ := hblame e h
    exact ⟨blame, rfl, hafter⟩

end Polynomial

end SymCalc
