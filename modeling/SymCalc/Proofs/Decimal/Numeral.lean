import SymCalc.Decimal.Numeral
import SymCalc.Proofs.Double.Comparison
import SymCalc.Proofs.Double.Rounding

/-!
# Numerals and the doubles they denote

A numeral is a run of digits with at most one point before, among or after them. `Denotes` says
which decimal a numeral stands for.

* `literal?_eq_some_iff`: what is read is the decimal that the numeral denotes, and nothing else
  is read.
* `exists_denotes_chars`: **the text of a number reads back.** What is written for a finite
  double without a minus sign is a numeral, and the double nearest to it is the one written.

The second statement rests on the exact decimal of a double: it has the same value, so it is read
as that double, and the digits that are written are only chosen among those that are read so.
-/

namespace SymCalc

open Text Double Float.Model UnpackedFloat

/-! ## Runs of characters -/

/-- A run of a class ends where the class does. -/
theorem takeWhile_append_of_head {p : Char → Bool} {run rest : List Char} (hrun : ∀ c ∈ run, p c)
    (hrest : ∀ c ∈ rest.head?, p c = false) :
    (run ++ rest).takeWhile p = run ∧ (run ++ rest).dropWhile p = rest := by
  rw [List.takeWhile_append_of_pos hrun, List.dropWhile_append_of_pos hrun]
  cases rest with
  | nil => exact ⟨List.append_nil run, rfl⟩
  | cons c t =>
    have hc : ¬p c = true := by simp [hrest c rfl]
    rw [List.takeWhile_cons_of_neg hc, List.dropWhile_cons_of_neg hc, List.append_nil]
    exact ⟨rfl, rfl⟩

theorem forall_mem_takeWhile {p : Char → Bool} (s : List Char) : ∀ c ∈ s.takeWhile p, p c :=
  List.all_eq_true.mp List.all_takeWhile

/-! ## Digits -/

theorem isAsciiDigit_of_isDigit {c : Char} (h : c.isDigit) : isAsciiDigit c := by
  simpa [isAsciiDigit, Char.isDigit, Char.le_def, UInt32.le_iff_toNat_le] using h

theorem isAsciiDigit_of_mem_decimalDigits {n : ℕ} {c : Char} (h : c ∈ decimalDigits n) :
    isAsciiDigit c :=
  isAsciiDigit_of_isDigit (Nat.isDigit_of_mem_toDigits (by decide) le_rfl h)

theorem natOfDigits_eq (cs : List Char) : natOfDigits cs = Nat.ofDigitChars 10 cs 0 := rfl

@[simp] theorem natOfDigits_decimalDigits (n : ℕ) : natOfDigits (decimalDigits n) = n :=
  Nat.ofDigitChars_ten_toDigits

theorem decimalDigits_ne_nil (n : ℕ) : decimalDigits n ≠ [] :=
  Nat.toDigits_ne_nil

theorem length_decimalDigits_le {n : ℕ} (hn : n < 10 ^ digitLimit) :
    (decimalDigits n).length ≤ digitLimit :=
  (Nat.length_toDigits_le_iff (by decide) (by decide)).mpr hn

theorem natOfDigits_append_zeros (cs : List Char) (k : ℕ) :
    natOfDigits (cs ++ List.replicate k '0') = natOfDigits cs * 10 ^ k := by
  rw [natOfDigits_eq, Nat.ofDigitChars_append, Nat.ofDigitChars_replicate_zero, mul_comm]
  rfl

theorem natOfDigits_zeros_append (k : ℕ) (cs : List Char) :
    natOfDigits (List.replicate k '0' ++ cs) = natOfDigits cs := by
  rw [natOfDigits_eq, Nat.ofDigitChars_append, Nat.ofDigitChars_replicate_zero, mul_zero]
  rfl

theorem natOfDigits_lt {cs : List Char} (h : ∀ c ∈ cs, isAsciiDigit c) :
    natOfDigits cs < 10 ^ cs.length := by
  induction cs with
  | nil => simp [natOfDigits]
  | cons c cs ih =>
    have hc : c.toNat - '0'.toNat < 10 := by
      have := h c List.mem_cons_self
      simp [isAsciiDigit, Char.le_def, UInt32.le_iff_toNat_le] at this
      show c.toNat - 48 < 10
      have : c.toNat = c.val.toNat := rfl
      omega
    have hcs := ih fun d hd => h d (List.mem_cons_of_mem c hd)
    rw [natOfDigits_eq, Nat.ofDigitChars_cons, Nat.ofDigitChars_eq_ofDigitChars_zero,
      ← natOfDigits_eq, List.length_cons, pow_succ]
    nlinarith [Nat.mul_le_mul_left (10 ^ cs.length) (Nat.le_of_lt_succ hc)]

/-! ## Numerals -/

/-- The decimal that a numeral denotes. -/
inductive Numeral.Denotes : List Char → Decimal → Prop
  | whole {ds : List Char} (hds : ∀ c ∈ ds, isAsciiDigit c) (hne : ds ≠ []) :
      Denotes ds ⟨natOfDigits ds, 0⟩
  | point {ds fraction : List Char} (hds : ∀ c ∈ ds, isAsciiDigit c)
      (hfraction : ∀ c ∈ fraction, isAsciiDigit c) (hne : ¬(ds = [] ∧ fraction = [])) :
      Denotes (ds ++ '.' :: fraction) ⟨natOfDigits (ds ++ fraction), -fraction.length⟩

namespace Numeral

theorem Denotes.ne_nil {w : List Char} {d : Decimal} (h : Denotes w d) : w ≠ [] := by
  cases h with
  | whole _ hne => exact hne
  | point _ _ _ => simp

/-- Whether a character can stand in a numeral. -/
def isNumeralChar (c : Char) : Bool :=
  isAsciiDigit c || c == '.'

theorem isNumeralChar_of_isAsciiDigit {c : Char} (h : isAsciiDigit c) : isNumeralChar c := by
  rw [isNumeralChar, h, Bool.true_or]

theorem Denotes.isNumeralChar {w : List Char} {d : Decimal} (h : Denotes w d) :
    ∀ c ∈ w, isNumeralChar c := by
  intro c hc
  cases h with
  | whole hds _ => exact isNumeralChar_of_isAsciiDigit (hds c hc)
  | point hds hfraction _ =>
    rcases List.mem_append.mp hc with hc | hc
    · exact isNumeralChar_of_isAsciiDigit (hds c hc)
    · rcases List.mem_cons.mp hc with rfl | hc
      · rfl
      · exact isNumeralChar_of_isAsciiDigit (hfraction c hc)

theorem denotes_of_literal? {cs : List Char} {d : Decimal} (h : literal? cs = some d) :
    Denotes cs d := by
  have hcs : cs.takeWhile isAsciiDigit ++ cs.dropWhile isAsciiDigit = cs :=
    List.takeWhile_append_dropWhile
  have hwhole : ∀ c ∈ cs.takeWhile isAsciiDigit, isAsciiDigit c := forall_mem_takeWhile cs
  unfold literal? at h
  dsimp only at h
  split at h
  · rename_i hrest
    rw [hrest, List.append_nil] at hcs
    split at h
    · cases h
    · rename_i hne
      cases h
      rw [hcs] at hne ⊢
      exact .whole (hcs ▸ hwhole) (by simpa using hne)
  · rename_i c fraction hrest
    split at h
    · rename_i hpoint
      obtain ⟨rfl, hfraction, hne⟩ := hpoint
      cases h
      rw [hrest] at hcs
      have := Denotes.point hwhole (List.all_eq_true.mp hfraction) hne
      rwa [hcs] at this
    · cases h

/-- **Reading a numeral gives the decimal that it denotes**, and only numerals are read. -/
theorem literal?_eq_some_iff {cs : List Char} {d : Decimal} :
    literal? cs = some d ↔ Denotes cs d := by
  refine ⟨denotes_of_literal?, ?_⟩
  rintro (⟨hds, hne⟩ | @⟨ds, fraction, hds, hfraction, hne⟩)
  · simp [literal?, List.takeWhile_eq_self_iff.mpr hds, List.dropWhile_eq_nil_iff.mpr hds, hne]
  · have hpoint : ∀ c ∈ ('.' :: fraction).head?, isAsciiDigit c = false := by simp; decide
    simp [literal?, takeWhile_append_of_head hds hpoint, hne]
    exact hfraction

theorem map_toAscii {w : List Char} (hw : ∀ c ∈ w, isNumeralChar c) : w.map toAscii = w := by
  rw [List.map_congr_left (g := id), List.map_id]
  intro c hc
  have hc := hw c hc
  simp [isNumeralChar, isAsciiDigit, Char.le_def, UInt32.le_iff_toNat_le] at hc
  have hlt : c.toNat < 0x80 := by
    rcases hc with hc | rfl
    · omega
    · decide
  rw [toAscii, if_pos hlt]
  rfl

/-- A run of digits that is not too long is read as what it denotes. -/
theorem readDigits_eq {ds : List Char} (hds : ∀ c ∈ ds, isAsciiDigit c) :
    readDigits ds =
      if digitLimit < ds.length then .error (.tooManyDigits ds.length)
      else .ok (natOfDigits ds) := by
  rw [readDigits, map_toAscii fun c hc => isNumeralChar_of_isAsciiDigit (hds c hc)]

end Numeral

/-! ## Values of decimals -/

namespace Decimal

/-- The exact value of a decimal. -/
def value (d : Decimal) : ℚ :=
  d.digits * 10 ^ d.exponent

theorem trimZeros_of_dvd {d : Decimal} (h : ¬d.digits = 0) (h10 : d.digits % 10 = 0) :
    d.trimZeros = trimZeros ⟨d.digits / 10, d.exponent + 1⟩ := by
  rw [trimZeros, if_neg h, if_pos h10]

theorem trimZeros_of_not_dvd {d : Decimal} (h : ¬d.digits = 0) (h10 : ¬d.digits % 10 = 0) :
    d.trimZeros = d := by
  rw [trimZeros, if_neg h, if_neg h10]

theorem value_trimZeros (d : Decimal) : d.trimZeros.value = d.value := by
  induction d using trimZeros.induct with
  | case1 d h => simp [trimZeros, h, value]
  | case2 d h h10 ih =>
    rw [trimZeros_of_dvd h h10, ih]
    have hsplit : d.digits = 10 * (d.digits / 10) := by omega
    have hcast : (d.digits : ℚ) = 10 * (d.digits / 10 : ℕ) := by exact_mod_cast hsplit
    simp only [value, zpow_add₀ (show (10 : ℚ) ≠ 0 by norm_num), zpow_one]
    rw [hcast]
    ring
  | case3 d h h10 => rw [trimZeros_of_not_dvd h h10]

theorem trimZeros_trimZeros (d : Decimal) : d.trimZeros.trimZeros = d.trimZeros := by
  induction d using trimZeros.induct with
  | case1 d h => simp [trimZeros, h]
  | case2 d h h10 ih => rw [trimZeros_of_dvd h h10, ih]
  | case3 d h h10 => rw [trimZeros_of_not_dvd h h10, trimZeros_of_not_dvd h h10]

theorem trimZeros_scale (n k : ℕ) (e : ℤ) :
    trimZeros ⟨n * 10 ^ k, e⟩ = trimZeros ⟨n, e + k⟩ := by
  induction k generalizing e with
  | zero => simp
  | succ k ih =>
    rw [pow_succ, ← mul_assoc, mul_comm _ 10, trimZeros_shift, ih]
    congr 2
    push_cast
    ring

theorem toFloat_trimZeros (d : Decimal) : d.trimZeros.toFloat = d.toFloat := by
  simp only [toFloat, trimZeros_trimZeros]

theorem value_ofBinary (m : ℕ) (e : ℤ) : (ofBinary m e).value = m * 2 ^ e := by
  simp only [ofBinary, Nat.pow_eq]
  split_ifs with he
  · obtain ⟨k, rfl⟩ : ∃ k : ℕ, e = -k := ⟨e.natAbs, by omega⟩
    simp only [value, Int.natAbs_neg, Int.natAbs_natCast, zpow_neg, zpow_natCast]
    push_cast
    rw [show (10 : ℚ) ^ k = 5 ^ k * 2 ^ k by rw [← mul_pow]; norm_num]
    field_simp
  · obtain ⟨k, rfl⟩ := Int.eq_ofNat_of_zero_le (not_lt.mp he)
    simp [value]

/-- **A decimal with the value of a double is read as that double.** -/
theorem toFloat_of_value {d : Decimal} {x : Float} {m : ℕ} {e : ℤ} {hm : 0 < m}
    (hx : parts x = .finite .positive m e hm) (hd : d.value = m * 2 ^ e) : d.toFloat = x := by
  have hmag : Magnitude m e := by
    have := canonical_parts x
    rwa [hx] at this
  rw [← value_trimZeros] at hd
  have hpos : 0 < d.trimZeros.digits := by
    rw [Nat.pos_iff_ne_zero]
    intro h
    rw [value, h] at hd
    have : (0 : ℚ) < m * 2 ^ e := by positivity
    simp [← hd] at this
  have hread := ofScientific_exact hmag hpos hd
  show ofParts (UnpackedFloat.ofScientific .binary64 _ _) = x
  rw [hread, ← hx, ofParts_parts]

/-- A whole number is read as it is converted. -/
theorem toFloat_ofNat {n : ℕ} (hn : n ≤ 2 ^ 53) : (⟨n, 0⟩ : Decimal).toFloat = Float.ofNat n := by
  rcases Nat.eq_zero_or_pos n with rfl | hpos
  · rw [toFloat, trimZeros, if_pos rfl]
    rfl
  · obtain ⟨m, e, h, hvalue⟩ := exists_magnitude hpos hn
    refine toFloat_of_value (parts_ofNat h hpos hvalue) ?_
    rw [value, zpow_zero, mul_one, hvalue]

end Decimal

/-! ## Written numbers -/

open Numeral

theorem isAsciiDigit_of_mem_zeros {k : ℕ} {c : Char} (h : c ∈ List.replicate k '0') :
    isAsciiDigit c := by
  rw [List.eq_of_mem_replicate h]
  rfl

theorem forall_isAsciiDigit_decimalDigits (n : ℕ) : ∀ c ∈ decimalDigits n, isAsciiDigit c :=
  fun _ => isAsciiDigit_of_mem_decimalDigits

/-- Digits with zeros after them. -/
theorem denotes_zeros_after (n k : ℕ) :
    Denotes (decimalDigits n ++ List.replicate k '0') ⟨n * 10 ^ k, 0⟩ := by
  have hall : ∀ c ∈ decimalDigits n ++ List.replicate k '0', isAsciiDigit c := by
    intro c hc
    rcases List.mem_append.mp hc with hc | hc
    · exact isAsciiDigit_of_mem_decimalDigits hc
    · exact isAsciiDigit_of_mem_zeros hc
  have h := Denotes.whole hall (by simp [decimalDigits_ne_nil])
  rwa [natOfDigits_append_zeros, natOfDigits_decimalDigits] at h

/-- Digits with a point before the last `k` of them. -/
theorem denotes_point_inside {n k : ℕ} (hk : k ≤ (decimalDigits n).length) :
    Denotes ((decimalDigits n).take ((decimalDigits n).length - k) ++
      '.' :: (decimalDigits n).drop ((decimalDigits n).length - k)) ⟨n, -k⟩ := by
  have hds := forall_isAsciiDigit_decimalDigits n
  set ds := decimalDigits n with hn
  set i := ds.length - k with hi
  have htake : ∀ c ∈ ds.take i, isAsciiDigit c := fun c hc => hds c (List.mem_of_mem_take hc)
  have hdrop : ∀ c ∈ ds.drop i, isAsciiDigit c := fun c hc => hds c (List.mem_of_mem_drop hc)
  have hne : ¬(ds.take i = [] ∧ ds.drop i = []) := by
    rintro ⟨h₁, h₂⟩
    apply decimalDigits_ne_nil n
    rw [← hn, ← List.take_append_drop i ds, h₁, h₂, List.append_nil]
  have h := Denotes.point htake hdrop hne
  rw [List.take_append_drop, List.length_drop, hi, show ds.length - (ds.length - k) = k by omega,
    ← hi, hn, natOfDigits_decimalDigits, ← hn] at h
  exact h

/-- A zero, a point, and digits with zeros before them. -/
theorem denotes_zeros_before {n k : ℕ} (hk : (decimalDigits n).length ≤ k) :
    Denotes ('0' :: '.' :: (List.replicate (k - (decimalDigits n).length) '0' ++ decimalDigits n))
      ⟨n, -k⟩ := by
  set ds := decimalDigits n with hn
  set zeros := List.replicate (k - ds.length) '0' with hzeros
  have hall : ∀ c ∈ zeros ++ ds, isAsciiDigit c := by
    intro c hc
    rcases List.mem_append.mp hc with hc | hc
    · exact isAsciiDigit_of_mem_zeros hc
    · exact isAsciiDigit_of_mem_decimalDigits hc
  have hvalue : natOfDigits (List.replicate 1 '0' ++ (zeros ++ ds)) = n := by
    rw [natOfDigits_zeros_append, hzeros, natOfDigits_zeros_append, hn, natOfDigits_decimalDigits]
  have h : Denotes (List.replicate 1 '0' ++ '.' :: (zeros ++ ds)) _ :=
    .point (fun c => isAsciiDigit_of_mem_zeros) hall (by simp)
  rw [hvalue, List.length_append, List.length_replicate,
    show k - ds.length + ds.length = k by omega] at h
  exact h

/-- A decimal with its point in place is a numeral that is read as the same double. -/
theorem exists_denotes_inPlace (d : Decimal) :
    ∃ d', Denotes (Layout.plain.inPlace d) d' ∧ d'.toFloat = d.toFloat := by
  obtain ⟨n, e⟩ := d
  cases e with
  | ofNat k =>
    refine ⟨⟨n * 10 ^ k, 0⟩, ?_, ?_⟩
    · simpa [Layout.inPlace, Layout.plain] using denotes_zeros_after n k
    · simp [Decimal.toFloat, Decimal.trimZeros_scale]
  | negSucc k =>
    refine ⟨⟨n, -((k + 1 : ℕ) : ℤ)⟩, ?_, by rw [Int.negSucc_eq]; rfl⟩
    simp only [Layout.inPlace]
    split_ifs with hplaces
    · exact denotes_point_inside hplaces.le
    · exact denotes_zeros_before (not_lt.mp hplaces)

/-- What is written for a finite double that is not below zero. -/
theorem parts_of_nonnegative {x : Float} (hfin : x.isFinite) (hle : ¬x < 0.0) (hne : x ≠ -0.0) :
    parts x = .zero .positive ∨ ∃ m e h, parts x = .finite .positive m e h := by
  have hfin' : (parts x).isFinite := hfin
  rw [lt_zero_iff] at hle
  cases hx : parts x with
  | notANumber => simp [hx, UnpackedFloat.isFinite] at hfin'
  | infinity s => simp [hx, UnpackedFloat.isFinite] at hfin'
  | zero s =>
    cases s with
    | positive => exact Or.inl rfl
    | negative => exact absurd (parts_injective (hx.trans (by rfl))) hne
  | finite s m e h =>
    cases s with
    | positive => exact Or.inr ⟨m, e, h, rfl⟩
    | negative => exact absurd (Or.inr ⟨m, e, h, hx⟩) hle

theorem chars_of_finite {x : Float} {s : Sign} {m : ℕ} {e : ℤ} {h : 0 < m}
    (hx : parts x = .finite s m e h) :
    Layout.plain.chars x =
      Layout.chars.sign s ++
        Layout.plain.inPlace (Decimal.shortestOf x.abs (.ofBinary m e)).trimZeros := by
  have hx' : x.toModel.unpack = .finite s m e h := hx
  rw [Layout.chars, hx']
  rfl

/-- **The text of a number reads back.** -/
theorem exists_denotes_chars {x : Float} (hfin : x.isFinite) (hle : ¬x < 0.0) (hne : x ≠ -0.0) :
    ∃ d, Denotes (Layout.plain.chars x) d ∧ d.toFloat = x := by
  rcases parts_of_nonnegative hfin hle hne with hx | ⟨m, e, h, hx⟩
  · obtain rfl : x = 0.0 := parts_injective hx
    refine ⟨⟨0, 0⟩, ?_, ?_⟩
    · have hdigit : ∀ c ∈ ['0'], isAsciiDigit c := List.forall_mem_singleton.mpr (by decide)
      exact .whole hdigit (by decide)
    · rw [Decimal.toFloat, Decimal.trimZeros_zero]
      rfl
  · have habs : x.abs = x := parts_injective (by rw [parts_abs, hx]; rfl)
    have hexact : (Decimal.ofBinary m e).toFloat = x :=
      Decimal.toFloat_of_value hx (Decimal.value_ofBinary m e)
    obtain ⟨d, hd, hread⟩ := exists_denotes_inPlace
      (Decimal.shortestOf x.abs (.ofBinary m e)).trimZeros
    refine ⟨d, ?_, ?_⟩
    · rw [chars_of_finite hx]
      exact hd
    · rw [hread, Decimal.toFloat_trimZeros, habs, Decimal.toFloat_shortestOf hexact]

/-! ## The sign of a numeral -/

/-- Parts without a minus sign, of a number. -/
def NonNegative : UnpackedFloat → Prop
  | .infinity s | .zero s | .finite s _ _ _ => s = .positive
  | .notANumber => False

theorem not_lt_zero_of_nonNegative {x : Float} (h : NonNegative (parts x)) : ¬x < 0.0 := by
  intro hlt
  have hsign : ¬Sign.negative = Sign.positive := nofun
  rcases lt_zero_iff.mp hlt with hx | ⟨m, e, hm, hx⟩
  · rw [hx] at h
    exact hsign h
  · rw [hx] at h
    exact hsign h

theorem isNaN_of_nonNegative {x : Float} (h : NonNegative (parts x)) : x.isNaN = false := by
  show (parts x).isNaN = false
  cases hx : parts x with
  | notANumber =>
    rw [hx] at h
    exact h.elim
  | _ => rfl

/-- A finite number below zero is one above it with its sign changed. -/
theorem parts_neg_of_negative {x : Float} (hfin : x.isFinite) (hlt : x < 0.0) :
    ∃ m e h, parts x = .finite .negative m e h ∧ parts (-x) = .finite .positive m e h := by
  have hfin' : (parts x).isFinite := hfin
  rcases lt_zero_iff.mp hlt with hx | ⟨m, e, h, hx⟩
  · rw [hx] at hfin'
    exact absurd hfin' (by decide)
  · exact ⟨m, e, h, hx, by rw [parts_neg, hx]; rfl⟩

/-- A number below zero is written as its magnitude after a minus sign. -/
theorem chars_of_negative {x : Float} (hfin : x.isFinite) (hlt : x < 0.0) :
    Layout.plain.chars x = '-' :: Layout.plain.chars (-x) := by
  obtain ⟨m, e, h, hx, hneg⟩ := parts_neg_of_negative hfin hlt
  have habs : (-x).abs = x.abs := parts_injective (by rw [parts_abs, parts_abs, hneg, hx]; rfl)
  rw [chars_of_finite hx, chars_of_finite hneg, habs]
  rfl

/-- The magnitude of a number below zero reads back. -/
theorem exists_denotes_chars_neg {x : Float} (hfin : x.isFinite) (hlt : x < 0.0) :
    ∃ d, Denotes (Layout.plain.chars (-x)) d ∧ d.toFloat = -x := by
  obtain ⟨m, e, h, -, hneg⟩ := parts_neg_of_negative hfin hlt
  apply exists_denotes_chars
  · show (parts (-x)).isFinite
    rw [hneg]
    rfl
  · apply not_lt_zero_of_nonNegative
    rw [hneg]
    rfl
  · intro hzero
    have : parts (-x) = .zero .negative := by rw [hzero]; rfl
    rw [hneg] at this
    cases this

theorem abs_of_negative {x : Float} (hfin : x.isFinite) (hlt : x < 0.0) : x.abs = -x := by
  obtain ⟨m, e, h, hx, hneg⟩ := parts_neg_of_negative hfin hlt
  exact parts_injective (by rw [parts_abs, hneg, hx]; rfl)

theorem abs_of_not_negative {x : Float} (hfin : x.isFinite) (hle : ¬x < 0.0) (hne : x ≠ -0.0) :
    x.abs = x := by
  rcases parts_of_nonnegative hfin hle hne with hx | ⟨m, e, h, hx⟩ <;>
    exact parts_injective (by rw [parts_abs, hx]; rfl)

/-- The magnitude of a finite double reads back. -/
theorem exists_denotes_abs {x : Float} (hfin : x.isFinite) :
    ∃ d, Denotes (Layout.plain.chars x.abs) d ∧ d.toFloat = x.abs := by
  by_cases hlt : x < 0.0
  · rw [abs_of_negative hfin hlt]
    exact exists_denotes_chars_neg hfin hlt
  by_cases hne : x = -0.0
  · have habs : x.abs = 0.0 := by
      rw [hne]
      rfl
    rw [habs]
    exact exists_denotes_chars (by decide) (by decide) (by decide)
  · rw [abs_of_not_negative hfin hlt hne]
    exact exists_denotes_chars hfin hlt hne

theorem nonNegative_unpack_packComponents {e : BitVec 11} (m : BitVec 52) (he : e ≠ -1#11) :
    NonNegative (UnpackedFloat.unpack .binary64 (packComponents .binary64 .positive e m)) := by
  rw [unpack_packComponents, if_neg he]
  split_ifs <;> rfl

theorem nonNegative_parts_ofParts {u : UnpackedFloat} (hu : NonNegative u) :
    NonNegative (parts (ofParts u)) := by
  show NonNegative (UnpackedFloat.unpack .binary64 (UnpackedFloat.pack .binary64 u))
  cases u with
  | notANumber => exact hu
  | infinity s => cases s <;> exact hu
  | zero s => cases s <;> exact hu
  | finite s m e h =>
    obtain rfl : s = .positive := hu
    rw [UnpackedFloat.pack]
    dsimp only
    split_ifs with hoverflow hnormal
    · rfl
    · apply nonNegative_unpack_packComponents
      intro heq
      have hlt : (e + (1023 : ℕ) + (52 : ℕ)).toNat + 1 < 2048 := not_le.mp hoverflow
      have hones : (e + (1023 : ℕ) + (52 : ℕ)).toNat % 2048 = 2047 := congrArg BitVec.toNat heq
      omega
    · exact nonNegative_unpack_packComponents _ (by decide)

theorem nonNegative_roundWithAccuracy (m : ℕ) (e : ℤ) (a : Accuracy) :
    NonNegative (roundWithAccuracy .binary64 .positive m e a) := by
  rw [roundWithAccuracy]
  dsimp only
  split_ifs <;> rfl

theorem nonNegative_ofScientific (d : ℕ) (x : ℤ) :
    NonNegative (UnpackedFloat.ofScientific .binary64 d x) := by
  rw [UnpackedFloat.ofScientific]
  split_ifs
  · rfl
  · rfl
  · rfl
  · exact nonNegative_roundWithAccuracy _ _ _
  · exact nonNegative_roundWithAccuracy _ _ _

/-- **A numeral is never read as a number below zero**, nor as not-a-number. -/
theorem nonNegative_toFloat (d : Decimal) : NonNegative (parts d.toFloat) :=
  nonNegative_parts_ofParts (nonNegative_ofScientific _ _)

/-! ## Whole numbers as doubles -/

theorem isFinite_of_not_isInf {u : UnpackedFloat} (hnan : u.isNaN = false) (hinf : ¬u.isInf) :
    u.isFinite := by
  cases u with
  | notANumber => cases hnan
  | infinity s => exact absurd rfl hinf
  | zero s => rfl
  | finite s m e hm => rfl

theorem isNaN_neg (x : Float) : (-x).isNaN = x.isNaN := by
  show (parts (-x)).isNaN = (parts x).isNaN
  rw [parts_neg]
  cases parts x <;> rfl

theorem nonNegative_ofNat (n : ℕ) : NonNegative (parts (Float.ofNat n)) := by
  by_cases hlarge : n < 2 ^ 53
  · rcases Nat.eq_zero_or_pos n with rfl | hpos
    · rfl
    · obtain ⟨m, e, h, hvalue⟩ := exists_magnitude hpos hlarge.le
      rw [parts_ofNat h hpos hvalue]
      rfl
  · rw [ofNat_of_large hlarge]
    exact nonNegative_parts_ofParts (nonNegative_ofScientific n 0)

/-- A whole number that is not too large for doubles is converted to a finite one. -/
theorem isFinite_ofInt {n : ℤ} (hinf : ¬(Float.ofInt n).isInf) : (Float.ofInt n).isFinite := by
  refine isFinite_of_not_isInf ?_ hinf
  cases n with
  | ofNat k => exact isNaN_of_nonNegative (nonNegative_ofNat k)
  | negSucc k =>
    show (-Float.ofNat (k + 1)).isNaN = false
    rw [isNaN_neg]
    exact isNaN_of_nonNegative (nonNegative_ofNat (k + 1))

end SymCalc
