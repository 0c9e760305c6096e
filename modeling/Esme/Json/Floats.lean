import Esme.Json.Cbor

/-! Which floating-point numbers `to_cbor` writes in four bytes. -/

namespace Esme

open BinaryFormat

/-- The conversion of any number stays within the width of the target. -/
theorem convert_lt {source target : BinaryFormat} (quiet : 0 < target.fraction) (bits : Nat) :
    convert source target bits < 2 * target.signBit := by
  have below := convertMagnitude_lt source quiet (source.magnitude bits)
  rw [convert]
  split <;> omega

/-- Single precision has four bytes. -/
theorem toFloat_lt (bits : UInt64) : toFloat bits < 2 ^ 32 := by
  have sign : 2 * single.signBit = 2 ^ 32 := by decide
  exact sign ▸ convert_lt (by decide) bits.toNat

/-- A number that passes the condition is the same after it was a `float`. -/
theorem toDouble_toFloat {bits : UInt64} (fits : fitsFloat bits = true) :
    toDouble (toFloat bits) = bits.toNat := by
  simp only [fitsFloat, Bool.and_eq_true] at fits
  -- Both conversions keep the sign, and numbers that compare equal then have the same bits.
  have narrow := convert_parts double single (by decide) bits.toNat
  have wide := convert_parts single double (by decide) (toFloat bits)
  have width : bits.toNat < 2 * double.signBit := by
    have sign : 2 * double.signBit = 2 ^ 64 := by decide
    exact sign ▸ bits.toNat_lt
  exact eq_of_equal double (convert_lt (by decide) _) width fits.2 (wide.1.trans narrow.1)

/-- Finite numbers of single precision. -/
def FiniteFloat (float : Nat) : Prop :=
  float < 2 * single.signBit ∧ single.magnitude float < single.infinity

/-- A finite number of single precision is the same after it was a `double`. -/
theorem toFloat_toDouble {float : Nat} (finite : FiniteFloat float) :
    convert double single (toDouble float) = float := by
  have wide := convert_parts single double (by decide) float
  rw [convert, toDouble, wide.1, wide.2, single_widens_double.convert_convert finite.2]
  exact (single.bits_eq finite.1).symm

/-- A finite number of single precision is finite as a `double`. -/
theorem magnitude_toDouble {float : Nat} (finite : FiniteFloat float) :
    double.magnitude (toDouble float) < double.infinity := by
  have wide := convert_parts single double (by decide) float
  rw [toDouble, wide.2]
  exact (single_widens_double.units_convert finite.2).1

/-- A finite number of single precision is between the least and the largest one. -/
theorem order_toDouble {float : Nat} (finite : FiniteFloat float) :
    double.order (toDouble floatLowest) ≤ double.order (toDouble float) ∧
      double.order (toDouble float) ≤ double.order (toDouble floatMax) := by
  -- Magnitudes keep their order, and the largest finite one is that of both ends.
  have wide := convert_parts single double (by decide) float
  have within : single.magnitude float ≤ 0x7f7fffff := Nat.le_of_lt_succ finite.2
  have le := single_widens_double.convertMagnitude_le within (by decide)
  have largest : convertMagnitude single double 0x7f7fffff = 0x47efffffe0000000 := by decide +kernel
  have low : double.order (toDouble floatLowest) = -0x47efffffe0000000 := by decide +kernel
  have high : double.order (toDouble floatMax) = 0x47efffffe0000000 := by decide +kernel
  rw [largest] at le
  rw [low, high, order, toDouble, wide.2]
  split <;> omega

/-- Every finite number of single precision passes the condition. -/
theorem fitsFloat_of_float {float : Nat} (finite : FiniteFloat float) {bits : UInt64}
    (same : toDouble float = bits.toNat) : fitsFloat bits = true := by
  have number : double.isNan (toDouble float) = false :=
    decide_eq_false (Nat.not_lt_of_lt (magnitude_toDouble finite))
  have ends : double.isNan (toDouble floatLowest) = false ∧
      double.isNan (toDouble floatMax) = false := by decide +kernel
  obtain ⟨low, high⟩ := order_toDouble finite
  rw [fitsFloat, toFloat, ← same, toFloat_toDouble finite]
  simp [lessEqual, equal, number, ends, low, high]

/-- `to_cbor` writes a number as a `float` exactly when it is a finite one. -/
theorem length_writeFloat_iff (bits : UInt64) :
    (writeFloat bits).length = 5 ↔
      ∃ float, FiniteFloat float ∧ toDouble float = bits.toNat := by
  -- Five bytes are written exactly when the number survives the conversion to a `float`.
  constructor
  · intro short
    rw [writeFloat] at short
    split at short
    · cases short
    split at short
    · cases short
    rename_i number finite
    rw [writeCompactFloat] at short
    split at short
    · rename_i fits
      have back := toDouble_toFloat fits
      have width : toFloat bits < 2 * single.signBit := toFloat_lt bits
      refine ⟨toFloat bits, ⟨width, ?_⟩, back⟩
      -- What is not finite as a float is not finite as a double either.
      by_contra above
      have parts := convert_parts single double (by decide) (toFloat bits)
      have magnitude : double.magnitude bits.toNat = _ := (congrArg _ back).symm.trans parts.2
      rw [convertMagnitude, if_neg above] at magnitude
      split at magnitude
      · exact finite (decide_eq_true magnitude)
      · dsimp only at magnitude
        simp only [isNan, isInf, decide_eq_true_eq] at number finite
        omega
    · simp [writeNumber] at short
  · intro exists_
    obtain ⟨float, finite, same⟩ := exists_
    have below := magnitude_toDouble finite
    rw [same] at below
    have number : double.isNan bits.toNat = false := decide_eq_false (Nat.not_lt_of_lt below)
    have notInf : double.isInf bits.toNat = false := decide_eq_false (Nat.ne_of_lt below)
    rw [writeFloat, number, notInf, writeCompactFloat, fitsFloat_of_float finite same]
    simp [writeNumber]

end Esme
