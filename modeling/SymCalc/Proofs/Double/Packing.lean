import Mathlib

/-!
# The parts of a double

A double is one of the two infinities, one of the two zeros, not a number, or a sign with a
magnitude `m * 2^e`. `parts` takes a double apart and `ofParts` puts it together again.

* `ofParts_parts`: every double is put together from its parts.
* `parts_ofParts`: parts that a double can have come back, and `canonical_parts`: a double has
  no others.

Arithmetic on doubles is arithmetic on their parts, so these facts turn a statement about
doubles into one about signs, mantissas and exponents.
-/

namespace SymCalc.Double

open Float.Model UnpackedFloat

/-- The sign, mantissa and exponent of a double, or which special value it is. -/
def parts (x : Float) : UnpackedFloat :=
  x.toModel.unpack

/-- The double with these parts. -/
def ofParts (u : UnpackedFloat) : Float :=
  .ofModel (.pack u)

/-- The mantissas and exponents that doubles have: a mantissa has 53 bits, or fewer at the least
exponent. -/
structure Magnitude (m : ℕ) (e : ℤ) : Prop where
  pos : 0 < m
  lt : m < 2 ^ 53
  le_exponent : -1074 ≤ e
  exponent_le : e ≤ 971
  normal : 2 ^ 52 ≤ m ∨ e = -1074

/-- The parts that doubles have. -/
def Canonical : UnpackedFloat → Prop
  | .finite _ m e _ => Magnitude m e
  | _ => True

/-! ## The fields of the packed form -/

theorem toNat_implicit_append (m : BitVec 52) : (1#1 ++ m).toNat = 2 ^ 52 + m.toNat := by
  rw [BitVec.toNat_append, ← Nat.shiftLeft_add_eq_or_of_lt m.isLt]
  simp [Nat.shiftLeft_eq]

theorem log2_eq_of_normal {m : ℕ} (h₁ : 2 ^ 52 ≤ m) (h₂ : m < 2 ^ 53) : m.log2 = 52 :=
  (Nat.log2_eq_iff (by omega)).mpr ⟨h₁, h₂⟩

theorem log2_lt_of_subnormal {m : ℕ} (h : m < 2 ^ 52) : m.log2 < 52 := by
  by_cases hm : m = 0
  · simp [hm]
  · exact (Nat.log2_lt hm).mpr h

/-! ## Packing -/

theorem pack_subnormal (s : Sign) {m : ℕ} (hm : 0 < m) (h : m < 2 ^ 52) :
    UnpackedFloat.pack .binary64 (.finite s m (-1074) hm) =
      packComponents .binary64 s 0 (BitVec.ofNat 52 m) := by
  have hlog := log2_lt_of_subnormal h
  have hbits : Format.binary64.mantissaBits = 53 := rfl
  rw [UnpackedFloat.pack]
  rw [if_neg (by decide), if_neg (by omega)]
  rfl

theorem pack_normal (s : Sign) {m : ℕ} {e : ℤ} (hm : 0 < m) (h₁ : 2 ^ 52 ≤ m) (h₂ : m < 2 ^ 53)
    (he : e ≤ 971) :
    UnpackedFloat.pack .binary64 (.finite s m e hm) =
      packComponents .binary64 s (BitVec.ofNat 11 (e + 1075).toNat) (BitVec.ofNat 52 m) := by
  have hlog := log2_eq_of_normal h₁ h₂
  have hexp : (e + Format.binary64.exponentBias +
      Format.binary64.mantissaBitsWithoutImplicit).toNat = (e + 1075).toNat := by
    show (e + 1023 + 52).toNat = (e + 1075).toNat
    omega
  rw [UnpackedFloat.pack]
  simp only [hlog, hexp]
  rw [if_neg (by show ¬2048 ≤ _; omega), if_pos (by decide)]

/-! ## Unpacking -/

/-- The parts of a word, by its fields. -/
theorem unpack_packComponents (s : Sign) (e : BitVec 11) (m : BitVec 52) :
    UnpackedFloat.unpack .binary64 (packComponents .binary64 s e m) =
      if e = -1#11 then if m = 0 then .infinity s else .notANumber
      else if e = 0 then if h : m = 0 then .zero s
        else .finite s m.toNat (-1074) (by simpa [BitVec.toNat_pos, BitVec.pos_iff_ne_zero])
      else .finite s (2 ^ 52 + m.toNat) ((e.toNat : ℤ) - 1075) (by omega) := by
  simp only [UnpackedFloat.unpack, unpackMantissa_packComponents, unpackExponent_packComponents,
    unpackSign_packComponents, Sign.ofBitVec_toBitVec]
  by_cases h₁ : e = -1#11
  · simp [h₁]
  · by_cases h₂ : e = 0
    · subst h₂
      rfl
    · rw [if_neg h₁, if_neg h₁, if_neg h₂, if_neg (show ¬e = 0#11 from h₂)]
      congr 1
      exact toNat_implicit_append m

theorem canonical_unpack (b : BitVec Format.binary64.numBits) :
    Canonical (UnpackedFloat.unpack .binary64 b) := by
  rw [← packComponents_unpackSign_unpackExponent_unpackMantissa b]
  generalize Sign.ofBitVec (unpackSign b) = s
  generalize unpackExponent b = e
  generalize unpackMantissa b = m
  have hm : m.toNat < 2 ^ 52 := m.isLt
  rw [unpack_packComponents]
  split_ifs with he hm₀ he₀ hm₀
  · trivial
  · trivial
  · trivial
  · have hpos : 0 < m.toNat := by simpa [BitVec.toNat_pos, BitVec.pos_iff_ne_zero]
    exact ⟨hpos, by omega, by omega, by omega, Or.inr rfl⟩
  · have h : e.toNat < 2 ^ 11 := e.isLt
    have hne : e.toNat ≠ 2047 := fun h => he (BitVec.eq_of_toNat_eq h)
    have hpos : e.toNat ≠ 0 := fun h => he₀ (BitVec.eq_of_toNat_eq h)
    exact ⟨by omega, by omega, by omega, by omega, Or.inl (by omega)⟩

theorem unpack_subnormal (s : Sign) {m : ℕ} (hm : 0 < m) (h : m < 2 ^ 52) :
    UnpackedFloat.unpack .binary64 (packComponents .binary64 s 0 (BitVec.ofNat 52 m)) =
      .finite s m (-1074) hm := by
  have hmantissa : (BitVec.ofNat 52 m).toNat = m := by
    rw [BitVec.toNat_ofNat, Nat.mod_eq_of_lt h]
  have hne : BitVec.ofNat 52 m ≠ 0 := by
    rw [ne_eq, ← BitVec.toNat_inj, hmantissa]
    exact hm.ne'
  rw [unpack_packComponents, if_neg (by decide), if_pos rfl, dif_neg hne]
  congr 1

theorem unpack_normal (s : Sign) {m : ℕ} {e : ℤ} (hm : 0 < m) (h₁ : 2 ^ 52 ≤ m) (h₂ : m < 2 ^ 53)
    (hle : -1074 ≤ e) (hge : e ≤ 971) :
    UnpackedFloat.unpack .binary64
      (packComponents .binary64 s (BitVec.ofNat 11 (e + 1075).toNat) (BitVec.ofNat 52 m)) =
      .finite s m e hm := by
  have hexponent : (BitVec.ofNat 11 (e + 1075).toNat).toNat = (e + 1075).toNat := by
    rw [BitVec.toNat_ofNat, Nat.mod_eq_of_lt (by omega)]
  have hmantissa : (BitVec.ofNat 52 m).toNat = m - 2 ^ 52 := by
    rw [BitVec.toNat_ofNat]
    omega
  have hones : BitVec.ofNat 11 (e + 1075).toNat ≠ -1#11 := by
    rw [ne_eq, ← BitVec.toNat_inj, hexponent]
    show (e + 1075).toNat ≠ 2047
    omega
  have hzero : BitVec.ofNat 11 (e + 1075).toNat ≠ 0 := by
    rw [ne_eq, ← BitVec.toNat_inj, hexponent]
    show (e + 1075).toNat ≠ 0
    omega
  rw [unpack_packComponents, if_neg hones, if_neg hzero]
  congr 1 <;> omega

/-- **Unpacking undoes packing**, for the parts that doubles have. -/
theorem unpack_pack {u : UnpackedFloat} (hu : Canonical u) :
    UnpackedFloat.unpack .binary64 (UnpackedFloat.pack .binary64 u) = u := by
  cases u with
  | notANumber => rfl
  | infinity s => cases s <;> rfl
  | zero s => cases s <;> rfl
  | finite s m e hm =>
    obtain ⟨-, hlt, hle, hge, hnormal⟩ := hu
    by_cases h : 2 ^ 52 ≤ m
    · rw [pack_normal s hm h hlt hge, unpack_normal s hm h hlt hle hge]
    · obtain rfl : e = -1074 := hnormal.resolve_left h
      rw [pack_subnormal s hm (not_le.mp h), unpack_subnormal s hm (not_le.mp h)]

/-! ## Doubles and their parts -/

@[simp] theorem ofParts_parts (x : Float) : ofParts (parts x) = x := by
  obtain ⟨⟨bits, hb⟩⟩ := x
  have h : UnpackedFloat.pack .binary64 (UnpackedFloat.unpack .binary64 bits.toBitVec) =
      bits.toBitVec := pack_unpack_of_valid hb
  simp only [ofParts, parts, Float.Model.pack, Float.Model.unpack, h]

theorem canonical_parts (x : Float) : Canonical (parts x) :=
  canonical_unpack x.toModel.toBits.toBitVec

theorem parts_ofParts {u : UnpackedFloat} (hu : Canonical u) : parts (ofParts u) = u :=
  unpack_pack hu

theorem parts_injective : Function.Injective parts := fun x y h => by
  rw [← ofParts_parts x, h, ofParts_parts]

/-! ## Arithmetic on parts -/

theorem add_eq (x y : Float) : x + y = ofParts (UnpackedFloat.add .binary64 (parts x) (parts y)) :=
  rfl

theorem sub_eq (x y : Float) : x - y = ofParts (UnpackedFloat.sub .binary64 (parts x) (parts y)) :=
  rfl

theorem mul_eq (x y : Float) : x * y = ofParts (UnpackedFloat.mul .binary64 (parts x) (parts y)) :=
  rfl

theorem div_eq (x y : Float) : x / y = ofParts (UnpackedFloat.div .binary64 (parts x) (parts y)) :=
  rfl

theorem beq_eq (x y : Float) : (x == y) = (parts x).beq (parts y) := rfl

theorem canonical_neg {u : UnpackedFloat} (hu : Canonical u) : Canonical u.neg := by
  cases u <;> exact hu

theorem canonical_abs {u : UnpackedFloat} (hu : Canonical u) : Canonical u.abs := by
  cases u <;> exact hu

@[simp] theorem parts_neg (x : Float) : parts (-x) = (parts x).neg :=
  parts_ofParts (canonical_neg (canonical_parts x))

@[simp] theorem parts_abs (x : Float) : parts x.abs = (parts x).abs :=
  parts_ofParts (canonical_abs (canonical_parts x))

end SymCalc.Double
