import SymCalc.Proofs.Expr.Adjacency
import SymCalc.Proofs.Expr.Soundness
import SymCalc.Proofs.Polynomial.Grammar
import SymCalc.Proofs.Polynomial.Value

/-!
# Texts of polynomials that are texts of expressions

**Theorem (`rational_eq_value`).** If a text can be read as an expression and as a polynomial, the
two have the same exact values, as long as the coefficients are finite, the powers are values of
doubles and no power occurs twice.

The text consists of terms. Since it is also derived as an expression, its digits are ASCII, and
there is a star exactly between a coefficient and `x` (`Term.IsCommon`, `isCommon_of_joined`). So
each term can be derived, and all of them can be, from left to right (`stands_text`): a sign before
the first term goes with the whole term, and any other sign is the operation between two terms. A
text has one meaning, so the expression that is read is the one derived here.
-/

namespace SymCalc.Polynomial

open Text Numeral SymCalc.Expr
open Double (exact exact_neg exact_one)

variable {w v ds : List Char} {t : Term} {ts : List Term} {star : Bool} {k : ℕ} {x a b c : ℚ}

/-! ## Parts of terms -/

/-- The digits of other scripts lie beyond ASCII. -/
theorem isAsciiDigit_of_lt {c : Char} (hc : isDigit c) (hlt : c.toNat < 0x80) :
    isAsciiDigit c := by
  obtain ⟨d, hd⟩ := Option.isSome_iff_exists.mp hc
  obtain ⟨z, hfind, -⟩ := Option.map_eq_some_iff.mp hd
  have hzeros : ∀ z ∈ zeros, z = 0x30 ∨ 0x80 ≤ z := by decide
  have hz := hzeros z (List.mem_of_find?_eq_some hfind)
  have hrange := List.find?_some hfind
  simp only [Bool.and_eq_true, decide_eq_true_eq] at hrange
  simp only [isAsciiDigit, Char.le_def, UInt32.le_iff_toNat_le, Bool.and_eq_true, decide_eq_true_eq]
  show 48 ≤ c.toNat ∧ c.toNat ≤ 57
  omega

/-- The digits of expressions are ASCII. -/
theorem isAsciiDigit_of_graphic {c : Char} (hc : isDigit c) (hgraphic : Graphic c) :
    isAsciiDigit c := by
  obtain ⟨-, hlt⟩ := hgraphic
  exact isAsciiDigit_of_lt hc (by omega)

/-- The text stands for an expression with the value `b` at `x`. -/
def Stands (x : ℚ) (p : Part) (w : List Char) (b : ℚ) : Prop :=
  ∃ e n, Derives Unsigned p n w e ∧ e.rational x = some b

section

variable {i j : ℕ} {d : Decimal} {op : BinaryOp} {l : Level}

theorem Stands.loosen (h : Stands x (.ofPrecedence j) w a) (hij : i ≤ j) :
    Stands x (.ofPrecedence i) w a := by
  obtain ⟨e, n, hd, hvalue⟩ := h
  exact ⟨e, n, hd.loosen hij, hvalue⟩

theorem Stands.next (hl : Stands x (.chain l) w a) (hr : Stands x (.ofPrecedence j) v b)
    (hop : op.precedence = l.precedence) (hj : l.precedence < j) (hc : op.rational a b = some c) :
    Stands x (.chain l) (w ++ op.symbol :: v) c := by
  obtain ⟨e, m, hde, he⟩ := hl
  obtain ⟨f, n, hdf, hf⟩ := hr
  exact ⟨_, _, .next hop hde (hdf.operand hj), (rational_binary he hf op).trans hc⟩

theorem stands_var (x : ℚ) : Stands x (.ofPrecedence 4) ['x'] x :=
  ⟨var, 0, .var, rational_var⟩

theorem stands_number (hd : Denotes w d) (hfin : d.toFloat.isFinite) (x : ℚ) :
    Stands x (.ofPrecedence 4) w (exact d.toFloat) :=
  ⟨_, 0, .number hd, rational_number hfin⟩

/-- `x` and a power. -/
theorem stands_power (hds : ∀ c ∈ ds, isAsciiDigit c) (hne : ds ≠ [])
    (hk : natOfDigits ds ≤ 2 ^ 53) (x : ℚ) :
    Stands x (.ofPrecedence 3) ('x' :: '^' :: ds) (x ^ natOfDigits ds) := by
  have hx : Stands x (.chain (.power false)) ['x'] x := (stands_var x).loosen (show 3 ≤ 4 by decide)
  have hnumber : Stands x (.ofPrecedence 4) ds (natOfDigits ds : ℚ) :=
    ⟨_, 0, .number (.whole hds hne), by rw [Decimal.toFloat_ofNat hk, rational_ofNat hk]⟩
  have hvalue : BinaryOp.rational .pow x (natOfDigits ds) = some (x ^ natOfDigits ds) := by
    rw [BinaryOp.rational, Rat.num_natCast, Int.toNat_natCast, if_pos rfl]
  exact hx.next hnumber rfl (by decide) hvalue

end

/-! ## Terms -/

namespace Term

/-- The magnitude of the coefficient; one if it is left out. -/
def magnitude (t : Term) : Float :=
  ((literal? (t.coefficient.map toAscii)).map Decimal.toFloat).getD 1.0

theorem signedCoefficient_eq (t : Term) :
    t.signedCoefficient = if t.sign = some true then -t.magnitude else t.magnitude := rfl

/-- The term could stand in an expression as it is written: its characters could, and there is a
star exactly between a coefficient and `x`. -/
structure IsCommon (star : Bool) (t : Term) : Prop where
  proper : t.Proper
  graphic : ∀ c ∈ t.text star, Graphic c
  star_iff : t.power.isSome → (star = true ↔ t.coefficient ≠ [])

end Term

theorem exists_denotes_of_isCoefficient (hw : IsCoefficient w) (hgraphic : ∀ c ∈ w, Graphic c) :
    ∃ d, Denotes w d := by
  rcases hw with ⟨hds, hne⟩ | ⟨hds, hfraction, hne⟩
  · exact ⟨_, .whole (fun c hc => isAsciiDigit_of_graphic (hds c hc) (hgraphic c hc)) hne⟩
  · rw [List.forall_mem_append, List.forall_mem_cons] at hgraphic
    exact ⟨_, .point (fun c hc => isAsciiDigit_of_graphic (hds c hc) (hgraphic.1 c hc))
      (fun c hc => isAsciiDigit_of_graphic (hfraction c hc) (hgraphic.2.2 c hc)) hne⟩

theorem magnitude_of_denotes {d : Decimal} (h : Denotes t.coefficient d) :
    t.magnitude = d.toFloat := by
  rw [Term.magnitude, map_toAscii h.isNumeralChar, literal?_eq_some_iff.mpr h]
  rfl

theorem magnitude_of_nil (h : t.coefficient = []) : t.magnitude = 1.0 := by
  rw [Term.magnitude, h]
  rfl

theorem mem_variableText {ch : Char} (h : ch ∈ ds) : ch ∈ variableText star (some ds) := by
  cases ds with
  | nil => cases h
  | cons d ds => cases star <;> simp [variableText, powerText, List.mem_cons.mp h]

theorem stands_variable (hpower : t.power = some ds) (hds : ∀ c ∈ ds, isAsciiDigit c)
    (hvalue : t.powerValue = .ok k) (hk : k ≤ 2 ^ 53) (x : ℚ) :
    Stands x (.ofPrecedence 3) ('x' :: powerText ds) (x ^ k) := by
  rw [Term.powerValue, hpower] at hvalue
  cases ds with
  | nil =>
    cases hvalue
    rw [pow_one]
    exact (stands_var x).loosen (by decide)
  | cons d ds =>
    dsimp only at hvalue
    rw [readDigits_eq hds] at hvalue
    split_ifs at hvalue
    cases hvalue
    exact stands_power hds (List.cons_ne_nil d ds) hk x

/-- **A term without its sign** stands for a magnitude times a power. -/
theorem stands_body (ht : t.IsCommon star) (hvalue : t.powerValue = .ok k) (hk : k ≤ 2 ^ 53)
    (hfin : t.magnitude.isFinite) (x : ℚ) :
    Stands x (.ofPrecedence 2) (t.coefficient ++ variableText star t.power)
      (exact t.magnitude * x ^ k) := by
  have hgraphic := ht.graphic
  rw [Term.text, List.forall_mem_append, List.forall_mem_append] at hgraphic
  obtain ⟨-, hcoefficient, hvariable⟩ := hgraphic
  have hdigits : ∀ ds, t.power = some ds → ∀ c ∈ ds, isAsciiDigit c := by
    intro ds hpower c hc
    rw [hpower] at hvariable
    exact isAsciiDigit_of_graphic (ht.proper.power ds hpower c hc)
      (hvariable c (mem_variableText hc))
  rcases ht.proper.coefficient with hempty | hproper
  · obtain ⟨ds, hpower⟩ := Option.ne_none_iff_exists'.mp fun h => ht.proper.nonempty ⟨hempty, h⟩
    have hstar : star = false := by
      simpa [hempty] using ht.star_iff (by rw [hpower]; rfl)
    have hx := stands_variable hpower (hdigits ds hpower) hvalue hk x
    rw [hempty, hpower, hstar, magnitude_of_nil hempty, exact_one, one_mul]
    exact hx.loosen (by decide)
  · obtain ⟨d, hd⟩ := exists_denotes_of_isCoefficient hproper hcoefficient
    rw [magnitude_of_denotes hd] at hfin ⊢
    have hnumber := stands_number hd hfin x
    cases hpower : t.power with
    | none =>
      rw [Term.powerValue, hpower] at hvalue
      cases hvalue
      rw [variableText, List.append_nil, pow_zero, mul_one]
      exact hnumber.loosen (by decide)
    | some ds =>
      have hstar : star = true := (ht.star_iff (by rw [hpower]; rfl)).mpr hd.ne_nil
      have hx := stands_variable hpower (hdigits ds hpower) hvalue hk x
      have hleft : Stands x (.chain (.term false)) t.coefficient _ :=
        hnumber.loosen (show 2 ≤ 4 by decide)
      have hvalue : BinaryOp.rational .mul (exact d.toFloat) (x ^ k) = some _ := rfl
      rw [hstar]
      exact hleft.next hx rfl (by decide) hvalue

theorem isFinite_magnitude (h : t.signedCoefficient.isFinite) : t.magnitude.isFinite := by
  rw [Term.signedCoefficient_eq] at h
  split_ifs at h
  · rwa [Double.isFinite_neg] at h
  · exact h

/-- The first term stands for its value. -/
theorem stands_first (ht : t.IsCommon star) (hvalue : t.powerValue = .ok k) (hk : k ≤ 2 ^ 53)
    (hfin : t.signedCoefficient.isFinite) (x : ℚ) :
    Stands x (.chain .sum) (t.text star) (exact t.signedCoefficient * x ^ k) := by
  have hbody := stands_body ht hvalue hk (isFinite_magnitude hfin) x
  rw [Term.text, Term.signedCoefficient_eq]
  cases hsign : t.sign with
  | none => exact hbody.loosen (show 1 ≤ 2 by decide)
  | some negative =>
    obtain ⟨e, n, hd, he⟩ := hbody
    have hd : Derives Unsigned (.chain (.term true)) n _ e := hd.withSign
    cases negative with
    | true =>
      refine ⟨_, n, .first (.sign .negate hd), ?_⟩
      rw [rational_negate he, if_pos rfl, exact_neg, neg_mul]
    | false => exact ⟨_, n, .first (.sign .keep hd), he⟩

/-- A term after others adds its value. -/
theorem Stands.append_text (hw : Stands x (.chain .sum) w a) (ht : t.IsCommon star)
    (hsign : t.sign.isSome) (hvalue : t.powerValue = .ok k) (hk : k ≤ 2 ^ 53)
    (hfin : t.signedCoefficient.isFinite) :
    Stands x (.chain .sum) (w ++ t.text star) (a + exact t.signedCoefficient * x ^ k) := by
  have hbody := stands_body ht hvalue hk (isFinite_magnitude hfin) x
  obtain ⟨negative, hsign⟩ := Option.isSome_iff_exists.mp hsign
  rw [Term.text, Term.signedCoefficient_eq, hsign]
  cases negative with
  | true =>
    have hvalue : BinaryOp.rational .sub a (exact t.magnitude * x ^ k) = some _ := rfl
    rw [if_pos rfl, exact_neg, neg_mul, ← sub_eq_add_neg]
    exact hw.next hbody rfl (by decide) hvalue
  | false =>
    have hvalue : BinaryOp.rational .add a (exact t.magnitude * x ^ k) = some _ := rfl
    exact hw.next hbody rfl (by decide) hvalue

/-! ## Whole texts -/

/-- **A term of a derived text is common to both kinds of texts.** -/
theorem isCommon_of_joined (ht : t.Proper) (hgraphic : ∀ c ∈ t.text star, Graphic c)
    (hchain : (t.text star).IsChain Joins) (hhead : ∀ c ∈ (t.text star).head?, c ≠ '*') :
    t.IsCommon star := by
  refine ⟨ht, hgraphic, fun hpower => ⟨?_, ?_⟩⟩
  · -- without a coefficient the star would be the first character or follow a sign
    rintro rfl hempty
    obtain ⟨ds, hpower⟩ := Option.isSome_iff_exists.mp hpower
    rw [Term.text, hempty, hpower] at hchain hhead
    rcases hsign : t.sign with _ | _ | _ <;> rw [hsign] at hchain hhead
    · exact hhead '*' rfl rfl
    · exact (List.isChain_cons_cons.mp hchain).1.2 rfl rfl
    · exact (List.isChain_cons_cons.mp hchain).1.2 rfl rfl
  · -- without a star `x` would follow the coefficient
    intro hne
    by_contra hstar
    obtain ⟨ds, hpower⟩ := Option.isSome_iff_exists.mp hpower
    rw [Term.text, List.forall_mem_append, List.forall_mem_append] at hgraphic
    obtain ⟨d, hd⟩ :=
      exists_denotes_of_isCoefficient (ht.coefficient.resolve_left hne) hgraphic.2.1
    rw [Term.text, hpower, Bool.eq_false_iff.mpr hstar] at hchain
    have hjoins : Joins (t.coefficient.getLast hne) 'x' :=
      hchain.right_of_append.rel_getLast_head_of_append hne (List.cons_ne_nil _ _)
    exact hjoins.1 (hd.isNumeralChar _ (List.getLast_mem hne)) rfl

variable {values : List (ℕ × Float)}

theorem mapM_value_cons (h : (t :: ts).mapM Term.value = .ok values) :
    ∃ k rest, t.powerValue = .ok k ∧ ts.mapM Term.value = .ok rest ∧
      values = (k, t.signedCoefficient) :: rest := by
  rw [List.mapM_cons] at h
  obtain ⟨value, hvalue, h⟩ := bind_eq_ok.mp h
  obtain ⟨rest, hrest, h⟩ := bind_eq_ok.mp h
  cases h
  rw [Term.value] at hvalue
  cases hpower : t.powerValue with
  | error e =>
    rw [hpower] at hvalue
    cases hvalue
  | ok k =>
    rw [hpower] at hvalue
    cases hvalue
    exact ⟨k, rest, rfl, hrest, rfl⟩

/-- **Terms after others add their values.** -/
theorem stands_spells (hw : Stands x (.chain .sum) w a) (h : Spells false v ts)
    (hvalues : ts.mapM Term.value = .ok values)
    (hbounds : ∀ t ∈ values, t.1 ≤ 2 ^ 53 ∧ t.2.isFinite) (hgraphic : ∀ c ∈ v, Graphic c)
    (hchain : v.IsChain Joins) :
    Stands x (.chain .sum) (w ++ v) (a + (values.map fun t => exact t.2 * x ^ t.1).sum) := by
  induction ts generalizing v w a values with
  | nil =>
    cases h
    cases hvalues
    simpa using hw
  | cons t ts ih =>
    obtain ⟨k, rest, hk, hrest, rfl⟩ := mapM_value_cons hvalues
    obtain ⟨⟨hle, hfin⟩, hbounds⟩ := List.forall_mem_cons.mp hbounds
    cases h with
    | @cons _ star _ u _ ht hsign h =>
      have hsign := hsign.resolve_left nofun
      obtain ⟨hterm, hgraphic⟩ := List.forall_mem_append.mp hgraphic
      have hhead : ∀ c ∈ (t.text star).head?, c ≠ '*' := by
        obtain ⟨negative, hsign⟩ := Option.isSome_iff_exists.mp hsign
        rw [Term.text, hsign]
        cases negative <;> simp [signText]
      have hcommon := isCommon_of_joined ht hterm hchain.left_of_append hhead
      have hnext := ih (hw.append_text hcommon hsign hk hle hfin) h hrest hbounds hgraphic
        hchain.right_of_append
      rwa [List.append_assoc, add_assoc] at hnext

/-- **A text of terms that is a derived text** stands for the sum of the values of its terms. -/
theorem stands_text (h : Spells true w ts) (hne : w ≠ [])
    (hvalues : ts.mapM Term.value = .ok values)
    (hbounds : ∀ t ∈ values, t.1 ≤ 2 ^ 53 ∧ t.2.isFinite) (hgraphic : ∀ c ∈ w, Graphic c)
    (hjoined : Joined w) (x : ℚ) :
    Stands x (.chain .sum) w (values.map fun t => exact t.2 * x ^ t.1).sum := by
  cases h with
  | nil => exact absurd rfl hne
  | @cons _ star t v ts ht _ hts =>
    obtain ⟨k, rest, hk, hrest, rfl⟩ := mapM_value_cons hvalues
    obtain ⟨⟨hle, hfin⟩, hbounds⟩ := List.forall_mem_cons.mp hbounds
    obtain ⟨hterm, hgraphic⟩ := List.forall_mem_append.mp hgraphic
    have hhead : ∀ c ∈ (t.text star).head?, c ≠ '*' := by
      intro c hc
      exact hjoined.head c (by rw [List.head?_append, Option.mem_def.mp hc]; rfl)
    have hcommon := isCommon_of_joined ht hterm hjoined.chain.left_of_append hhead
    rw [List.map_cons, List.sum_cons]
    exact stands_spells (stands_first hcommon hk hle hfin x) hts hrest hbounds hgraphic
      hjoined.chain.right_of_append

/-- **The two readings of a text agree.** -/
theorem rational_eq_value {limit : ℤ} {text : String} {e : Expr} {p : Polynomial}
    (he : Expr.parse limit text = .ok e) (hp : parse text = .ok p)
    (hvalues : readTerms true (withoutBlanks text) = .ok values)
    (hfin : ∀ t ∈ values, t.2.isFinite) (hpower : ∀ t ∈ values, t.1 ≤ 2 ^ 53)
    (hnodup : (values.map Prod.fst).Nodup) (x : ℚ) : e.rational x = some (p.value x) := by
  obtain ⟨n, -, hd⟩ := derives_of_parseChars he
  have hp' : p = ofTerms values := by
    rw [parse, parseChars, if_neg hd.ne_nil, hvalues] at hp
    cases hp
    rfl
  have hbounds : ∀ t ∈ values, t.1 ≤ 2 ^ 53 ∧ t.2.isFinite := fun t ht =>
    ⟨hpower t ht, hfin t ht⟩
  obtain ⟨ts, hts, hvalues⟩ := readTerms_eq_ok_iff.mp hvalues
  obtain ⟨e', n', hd', hvalue⟩ :=
    stands_text hts hd.ne_nil hvalues hbounds hd.graphic hd.joined x
  rw [hd.unique hd', hvalue, hp', value_ofTerms hnodup]

/-- A sign, a point at the end and one at the beginning, and a power with a zero before it. -/
theorem rational_eq_value_leading_zero :
    ∃ e p, Expr.parse 100 "-3.*x^02 + .5" = .ok e ∧ parse "-3.*x^02 + .5" = .ok p ∧
      ∀ x : ℚ, e.rational x = some (p.value x) := by
  have he : (Expr.parse 100 "-3.*x^02 + .5").toOption.isSome := by decide +kernel
  have hp : (parse "-3.*x^02 + .5").toOption.isSome := by decide +kernel
  have hvalues : (readTerms true (withoutBlanks "-3.*x^02 + .5")).toOption =
      some [(2, -3.0), (0, 0.5)] := by decide +kernel
  obtain ⟨e, he⟩ := Option.isSome_iff_exists.mp he
  obtain ⟨p, hp⟩ := Option.isSome_iff_exists.mp hp
  refine ⟨e, p, eq_ok_of_toOption he, eq_ok_of_toOption hp, fun x => ?_⟩
  exact rational_eq_value (eq_ok_of_toOption he) (eq_ok_of_toOption hp) (eq_ok_of_toOption hvalues)
    (by decide) (by decide) (by decide) x

end SymCalc.Polynomial
