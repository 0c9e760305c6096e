import Mathlib.Algebra.Order.Ring.Nat
import Mathlib.Order.Monotone.Basic
import Mathlib.Tactic.Ring

/-! Numbers as bytes, most significant first, and the binary formats of floating-point numbers. -/

/-- The last `size` bytes of a number, the most significant one first. -/
def bigEndian : Nat → Nat → List UInt8
  | 0, _ => []
  | size + 1, number => UInt8.ofNat (number / 256 ^ size) :: bigEndian size number

/-- A number of `size` bytes has that many. -/
@[simp] theorem length_bigEndian (size number : Nat) : (bigEndian size number).length = size := by
  induction size with
  | zero => rfl
  | succ size ih => rw [bigEndian, List.length_cons, ih]

/-- Appending the bytes to a number shifts it and fills in what the bytes hold. -/
theorem foldl_bigEndian (size number start : Nat) :
    (bigEndian size number).foldl (fun number byte => number * 256 + byte.toNat) start =
      start * 256 ^ size + number % 256 ^ size := by
  -- The first byte is the digit in front of the remainder.
  induction size generalizing start with
  | zero => simp [bigEndian, Nat.mod_one]
  | succ size ih =>
    have digit : (UInt8.ofNat (number / 256 ^ size)).toNat = number / 256 ^ size % 256 := by
      simp
    rw [bigEndian, List.foldl_cons, ih, digit, Nat.pow_succ, Nat.mod_mul]
    ring

/-- A format of floating-point numbers: how wide its exponent and its fraction are. -/
structure BinaryFormat where
  exponent : Nat
  fraction : Nat

namespace BinaryFormat

/-- IEEE 754 half precision -/
def half : BinaryFormat := ⟨5, 10⟩

/-- IEEE 754 single precision -/
def single : BinaryFormat := ⟨8, 23⟩

/-- IEEE 754 double precision -/
def double : BinaryFormat := ⟨11, 52⟩

/-- The smallest positive number is two to minus this. -/
def scale (format : BinaryFormat) : Nat := 2 ^ (format.exponent - 1) + format.fraction - 2

/-- The magnitude that stands for infinity; what is above it is not a number. -/
def infinity (format : BinaryFormat) : Nat := (2 ^ format.exponent - 1) * 2 ^ format.fraction

/-- The weight of the sign bit. -/
def signBit (format : BinaryFormat) : Nat := 2 ^ (format.exponent + format.fraction)

/-- A number without its sign. -/
def magnitude (format : BinaryFormat) (bits : Nat) : Nat := bits % format.signBit

/-- Whether the sign bit of a number is set. -/
def negative (format : BinaryFormat) (bits : Nat) : Bool := bits / format.signBit % 2 == 1

/-- A finite magnitude as a multiple of the smallest positive number. -/
def units (format : BinaryFormat) (magnitude : Nat) : Nat :=
  -- Subnormal numbers have no leading one.
  let exponent := magnitude / 2 ^ format.fraction
  let fraction := magnitude % 2 ^ format.fraction
  if exponent = 0 then fraction else (2 ^ format.fraction + fraction) * 2 ^ (exponent - 1)

/-- A number without its last `drop` bits, rounded to the nearest, ties to even. -/
def roundHalfEven (number drop : Nat) : Nat :=
  let kept := number / 2 ^ drop
  let lost := number % 2 ^ drop
  if 2 ^ drop < 2 * lost ∨ 2 ^ drop = 2 * lost ∧ kept % 2 = 1 then kept + 1 else kept

/-- The magnitude nearest to `number` units over two to the `shift`. -/
def nearest (format : BinaryFormat) (number shift : Nat) : Nat :=
  -- The rounding may carry into the exponent, which is then right as well.
  let drop := max shift (number.log2 - format.fraction)
  min ((drop - shift) * 2 ^ format.fraction + roundHalfEven number drop) format.infinity

/-- A magnitude of one format in another one. -/
def convertMagnitude (source target : BinaryFormat) (magnitude : Nat) : Nat :=
  if magnitude < source.infinity then
    target.nearest (source.units magnitude * 2 ^ (target.scale - source.scale))
      (source.scale - target.scale)
  else if magnitude = source.infinity then target.infinity
  -- What is not a number keeps the front of its fraction and becomes quiet.
  else
    let fraction := magnitude % 2 ^ source.fraction
    target.infinity +
      ((2 ^ (target.fraction - 1)) ||| (fraction * 2 ^ target.fraction / 2 ^ source.fraction))

/-- The conversion of a number from one format to another, rounded to the nearest. -/
def convert (source target : BinaryFormat) (bits : Nat) : Nat :=
  (if source.negative bits then target.signBit else 0) +
    convertMagnitude source target (source.magnitude bits)

/-- Whether the bits are not a number. -/
def isNan (format : BinaryFormat) (bits : Nat) : Bool := format.infinity < format.magnitude bits

/-- Whether the bits are one of the two infinities. -/
def isInf (format : BinaryFormat) (bits : Nat) : Bool := format.magnitude bits = format.infinity

/-- Numbers in their order, both zeros alike. -/
def order (format : BinaryFormat) (bits : Nat) : Int :=
  if format.negative bits then -(format.magnitude bits : Int) else format.magnitude bits

/-- `<=`, which no comparison with what is not a number satisfies. -/
def lessEqual (format : BinaryFormat) (bits other : Nat) : Bool :=
  !format.isNan bits && !format.isNan other && decide (format.order bits ≤ format.order other)

/-- `==`, which no comparison with what is not a number satisfies. -/
def equal (format : BinaryFormat) (bits other : Nat) : Bool :=
  !format.isNan bits && !format.isNan other && decide (format.order bits = format.order other)

variable (format : BinaryFormat)

/-- The fields of a magnitude. -/
theorem units_fields (exponent fraction : Nat) (small : fraction < 2 ^ format.fraction) :
    format.units (exponent * 2 ^ format.fraction + fraction) =
      if exponent = 0 then fraction else (2 ^ format.fraction + fraction) * 2 ^ (exponent - 1) := by
  have positive : 0 < 2 ^ format.fraction := Nat.two_pow_pos _
  rw [units, Nat.add_comm, Nat.add_mul_div_right _ _ positive, Nat.add_mul_mod_self_right,
    Nat.div_eq_of_lt small, Nat.mod_eq_of_lt small, Nat.zero_add]

/-- Every magnitude has its two fields. -/
theorem magnitude_fields (magnitude : Nat) :
    ∃ exponent fraction, fraction < 2 ^ format.fraction ∧
      magnitude = exponent * 2 ^ format.fraction + fraction :=
  ⟨magnitude / 2 ^ format.fraction, magnitude % 2 ^ format.fraction,
    Nat.mod_lt _ (Nat.two_pow_pos _), by rw [Nat.mul_comm]; exact (Nat.div_add_mod _ _).symm⟩

/-- A larger magnitude stands for more. -/
theorem units_strictMono : StrictMono format.units := by
  -- It is enough to compare a magnitude with the next one.
  apply strictMono_nat_of_lt_succ
  intro magnitude
  obtain ⟨exponent, fraction, small, rfl⟩ := format.magnitude_fields magnitude
  rw [units_fields format exponent fraction small]
  have half : ∀ exponent, exponent ≠ 0 → 2 ^ exponent = 2 * 2 ^ (exponent - 1) := by
    intro exponent nonzero
    obtain ⟨less, rfl⟩ := Nat.exists_eq_succ_of_ne_zero nonzero
    exact Nat.pow_succ'
  by_cases last : fraction + 1 < 2 ^ format.fraction
  · -- The next fraction has the same exponent.
    rw [Nat.add_assoc, units_fields format exponent (fraction + 1) last]
    split
    · exact Nat.lt_succ_self _
    · exact Nat.mul_lt_mul_of_pos_right (by omega) (Nat.two_pow_pos _)
  · -- Behind the last fraction the exponent goes up and the fraction starts over.
    have full : exponent * 2 ^ format.fraction + fraction + 1 =
        (exponent + 1) * 2 ^ format.fraction + 0 := by
      rw [Nat.succ_mul]
      omega
    have carried : format.units ((exponent + 1) * 2 ^ format.fraction + 0) =
        2 ^ format.fraction * 2 ^ exponent := by
      rw [units_fields format (exponent + 1) 0 (Nat.two_pow_pos _), if_neg (Nat.succ_ne_zero _),
        Nat.add_sub_cancel, Nat.add_zero]
    rw [full, carried]
    split
    · rename_i zero
      rw [zero, Nat.pow_zero]
      omega
    · rename_i nonzero
      rw [half exponent nonzero, ← Nat.mul_assoc]
      exact Nat.mul_lt_mul_of_pos_right (by omega) (Nat.two_pow_pos _)

/-- Dropping bits that are all zero loses nothing. -/
theorem roundHalfEven_exact (number drop : Nat) :
    roundHalfEven (number * 2 ^ drop) drop = number := by
  have positive : 0 < 2 ^ drop := Nat.two_pow_pos _
  rw [roundHalfEven, Nat.mul_div_cancel _ positive, Nat.mul_mod_left]
  simp only [Nat.mul_zero, Nat.not_lt_zero, false_or]
  exact if_neg fun half => by omega

/-- Zeros behind a number that are dropped again do not change how it is rounded. -/
theorem roundHalfEven_shift (number drop zeros : Nat) :
    roundHalfEven (number * 2 ^ zeros) (drop + zeros) = roundHalfEven number drop := by
  have positive : 0 < 2 ^ zeros := Nat.two_pow_pos _
  unfold roundHalfEven
  rw [Nat.pow_add, Nat.mul_div_mul_right _ _ positive, Nat.mul_mod_mul_right]
  simp only [← Nat.mul_assoc, Nat.mul_lt_mul_right positive, Nat.mul_left_inj positive.ne']

/-- The length of a number with zeros behind it. -/
theorem log2_shift {number : Nat} (nonzero : number ≠ 0) (zeros : Nat) :
    (number * 2 ^ zeros).log2 = number.log2 + zeros := by
  rw [Nat.log2_eq_iff (Nat.mul_ne_zero nonzero (Nat.two_pow_pos _).ne'), Nat.pow_add,
    Nat.add_right_comm, Nat.pow_add]
  exact ⟨Nat.mul_le_mul_right _ (Nat.log2_self_le nonzero),
    Nat.mul_lt_mul_of_pos_right Nat.lt_log2_self (Nat.two_pow_pos _)⟩

/-- Only the quotient of number and shift counts. -/
theorem nearest_shift (number shift zeros : Nat) :
    format.nearest (number * 2 ^ zeros) (shift + zeros) = format.nearest number shift := by
  by_cases zero : number = 0
  · simp [nearest, zero, roundHalfEven]
  have drop : max (shift + zeros) ((number * 2 ^ zeros).log2 - format.fraction) =
      max shift (number.log2 - format.fraction) + zeros := by
    rw [log2_shift zero]
    omega
  simp only [nearest]
  rw [drop, roundHalfEven_shift, Nat.add_sub_add_right]

/-- A number that the format holds is found again without rounding. -/
theorem units_nearest {number : Nat} {significand zeros : Nat}
    (form : number = significand * 2 ^ zeros) (fits : significand < 2 ^ (format.fraction + 1))
    (finite : format.nearest number 0 < format.infinity) :
    format.units (format.nearest number 0) = number := by
  -- Rounding drops zeros only, and what is kept is the number in the units of the format.
  by_cases zero : number = 0
  · simp [nearest, zero, roundHalfEven, units]
  have significand_ne : significand ≠ 0 := fun none => zero (by rw [form, none, Nat.zero_mul])
  -- At most the zeros are dropped.
  have short : significand.log2 ≤ format.fraction :=
    Nat.lt_succ_iff.mp ((Nat.log2_lt significand_ne).mpr fits)
  have length : number.log2 = significand.log2 + zeros := by rw [form, log2_shift significand_ne]
  obtain ⟨drop, dropped⟩ : ∃ drop, number.log2 - format.fraction = drop := ⟨_, rfl⟩
  have few : drop ≤ zeros := by omega
  have split : number = significand * 2 ^ (zeros - drop) * 2 ^ drop := by
    rw [form, Nat.mul_assoc, ← Nat.pow_add, Nat.sub_add_cancel few]
  have rounded := roundHalfEven_exact (significand * 2 ^ (zeros - drop)) drop
  rw [← split] at rounded
  obtain ⟨kept, kept_eq⟩ : ∃ kept, significand * 2 ^ (zeros - drop) = kept := ⟨_, rfl⟩
  rw [kept_eq] at rounded split
  have value : format.nearest number 0 = drop * 2 ^ format.fraction + kept := by
    simp only [nearest, dropped, Nat.zero_max, rounded, Nat.sub_zero] at finite ⊢
    omega
  rw [value]
  -- What is kept has its leading one at the place of the fraction, or nothing was dropped.
  have kept_ne : kept ≠ 0 := fun none => zero (by rw [split, none, Nat.zero_mul])
  have kept_length : number.log2 = kept.log2 + drop := by
    conv_lhs => rw [split]
    exact log2_shift kept_ne drop
  have upper : kept < 2 ^ (format.fraction + 1) :=
    (Nat.log2_lt kept_ne).mp (by omega)
  rw [Nat.pow_succ] at upper
  by_cases leading : kept < 2 ^ format.fraction
  · have short := (Nat.log2_lt kept_ne).mpr leading
    obtain rfl : drop = 0 := by omega
    rw [units_fields format 0 kept leading, if_pos rfl, split, Nat.pow_zero, Nat.mul_one]
  · have fields : drop * 2 ^ format.fraction + kept =
        (drop + 1) * 2 ^ format.fraction + (kept - 2 ^ format.fraction) := by
      rw [Nat.add_mul]
      omega
    rw [fields, units_fields format (drop + 1) _ (by omega), if_neg (by omega),
      Nat.add_sub_cancel, split, Nat.add_sub_of_le (by omega)]

/-- What a finite magnitude stands for is nearest to itself. -/
theorem nearest_units {magnitude : Nat} (finite : magnitude < format.infinity) :
    format.nearest (format.units magnitude) 0 = magnitude := by
  -- Both fields of the magnitude are found again, those of a subnormal number as they are.
  obtain ⟨exponent, fraction, small, rfl⟩ := format.magnitude_fields magnitude
  have capped : ∀ number, number = exponent * 2 ^ format.fraction + fraction →
      min number format.infinity = exponent * 2 ^ format.fraction + fraction := by
    intro number same
    rw [same]
    exact Nat.min_eq_left (Nat.le_of_lt finite)
  rw [units_fields format exponent fraction small]
  simp only [nearest, Nat.zero_max, Nat.sub_zero]
  apply capped
  split
  · -- A subnormal number is shorter than the fraction, and nothing is dropped.
    rename_i zero
    have short : fraction.log2 - format.fraction = 0 := by
      by_cases empty : fraction = 0
      · simp [empty]
      · have := (Nat.log2_lt empty).mpr small
        omega
    have exact_ := roundHalfEven_exact fraction 0
    rw [Nat.pow_zero, Nat.mul_one] at exact_
    rw [short, zero, exact_]
  · -- A normal number has its leading one just in front of the fraction.
    rename_i nonzero
    have leading : (2 ^ format.fraction + fraction).log2 = format.fraction := by
      rw [Nat.log2_eq_iff (by have := Nat.two_pow_pos format.fraction; omega), Nat.pow_succ]
      omega
    have dropped : ((2 ^ format.fraction + fraction) * 2 ^ (exponent - 1)).log2 -
        format.fraction = exponent - 1 := by
      rw [log2_shift (by have := Nat.two_pow_pos format.fraction; omega), leading]
      omega
    rw [dropped, roundHalfEven_exact, Nat.sub_mul, Nat.one_mul]
    have := Nat.le_mul_of_pos_left (2 ^ format.fraction) (Nat.pos_of_ne_zero nonzero)
    omega

variable {source target : BinaryFormat}

/-- Infinity is below the sign bit. -/
theorem infinity_lt_signBit : format.infinity < format.signBit := by
  rw [infinity, signBit, Nat.pow_add]
  exact Nat.mul_lt_mul_of_pos_right (by have := Nat.two_pow_pos format.exponent; omega)
    (Nat.two_pow_pos _)

/-- A converted magnitude leaves the sign bit alone. -/
theorem convertMagnitude_lt (source : BinaryFormat) {target : BinaryFormat}
    (quiet : 0 < target.fraction) (magnitude : Nat) :
    convertMagnitude source target magnitude < target.signBit := by
  -- The branches are those of the conversion: a number, infinity, and what is not a number.
  have below := target.infinity_lt_signBit
  rw [convertMagnitude]
  split
  · exact Nat.lt_of_le_of_lt (Nat.min_le_right _ _) below
  split
  · exact below
  · -- What is not a number has a fraction behind the exponent of infinity.
    have kept : magnitude % 2 ^ source.fraction * 2 ^ target.fraction / 2 ^ source.fraction <
        2 ^ target.fraction := by
      rw [Nat.div_lt_iff_lt_mul (Nat.two_pow_pos _), Nat.mul_comm]
      exact Nat.mul_lt_mul_of_pos_left (Nat.mod_lt _ (Nat.two_pow_pos _)) (Nat.two_pow_pos _)
    have bit : 2 ^ (target.fraction - 1) < 2 ^ target.fraction :=
      Nat.pow_lt_pow_right (by decide) (by omega)
    have fraction := Nat.or_lt_two_pow bit kept
    have whole : target.signBit = target.infinity + 2 ^ target.fraction := by
      rw [signBit, infinity, Nat.pow_add, Nat.sub_mul, Nat.one_mul, Nat.sub_add_cancel]
      exact Nat.le_mul_of_pos_left _ (Nat.two_pow_pos _)
    rw [whole]
    exact Nat.add_lt_add_left fraction _

/-- A number is its sign and its magnitude. -/
theorem bits_eq {bits : Nat} (width : bits < 2 * format.signBit) :
    bits = (if format.negative bits then format.signBit else 0) + format.magnitude bits := by
  have positive : 0 < format.signBit := Nat.two_pow_pos _
  rw [negative, magnitude]
  by_cases set : format.signBit ≤ bits
  · have quotient : bits / format.signBit = 1 := Nat.div_eq_of_lt_le (by omega) (by omega)
    have remainder : bits % format.signBit = bits - format.signBit := by
      rw [Nat.mod_eq_sub_mod set, Nat.mod_eq_of_lt (by omega)]
    rw [quotient, remainder, if_pos (by rfl), Nat.add_sub_of_le set]
  · have quotient : bits / format.signBit = 0 := Nat.div_eq_of_lt (by omega)
    have remainder : bits % format.signBit = bits := Nat.mod_eq_of_lt (by omega)
    rw [quotient, remainder, if_neg (by decide), Nat.zero_add]

/-- The parts of bits that were put together from a sign and a magnitude. -/
theorem parts_eq (sign : Bool) {magnitude : Nat} (small : magnitude < format.signBit) :
    format.negative ((if sign then format.signBit else 0) + magnitude) = sign ∧
      format.magnitude ((if sign then format.signBit else 0) + magnitude) = magnitude := by
  have positive : 0 < format.signBit := Nat.two_pow_pos _
  rw [negative, BinaryFormat.magnitude]
  cases sign with
  | true =>
    rw [if_pos rfl, Nat.add_mod_left, Nat.add_div_left _ positive, Nat.div_eq_of_lt small,
      Nat.mod_eq_of_lt small]
    exact ⟨rfl, rfl⟩
  | false =>
    rw [if_neg (by decide), Nat.zero_add, Nat.div_eq_of_lt small, Nat.mod_eq_of_lt small]
    exact ⟨rfl, rfl⟩

/-- A conversion keeps the sign and converts the magnitude. -/
theorem convert_parts (source target : BinaryFormat) (quiet : 0 < target.fraction) (bits : Nat) :
    target.negative (convert source target bits) = source.negative bits ∧
      target.magnitude (convert source target bits) =
        convertMagnitude source target (source.magnitude bits) :=
  target.parts_eq _ (convertMagnitude_lt source quiet _)

/-- Numbers that compare equal and have one sign are the same bits. -/
theorem eq_of_equal {bits other : Nat} (width : bits < 2 * format.signBit)
    (otherWidth : other < 2 * format.signBit) (equal : format.equal bits other = true)
    (sign : format.negative bits = format.negative other) : bits = other := by
  -- Only the two zeros compare equal with different signs.
  simp only [BinaryFormat.equal, Bool.and_eq_true, decide_eq_true_eq, order, sign] at equal
  have same : format.magnitude bits = format.magnitude other := by
    obtain ⟨-, order⟩ := equal
    split at order <;> omega
  rw [format.bits_eq width, format.bits_eq otherWidth, sign, same]

/-- One format holds everything that another one does. -/
structure Widens (source target : BinaryFormat) : Prop where
  fraction : source.fraction ≤ target.fraction
  scale : source.scale ≤ target.scale
  exponent : 2 ≤ target.exponent
  range : source.fraction + 2 ^ source.exponent + (target.scale - source.scale) + 1 <
    target.fraction + 2 ^ target.exponent

/-- A short number is far from infinity. -/
theorem nearest_lt {number length : Nat} (short : number < 2 ^ length)
    (wide : 2 ≤ format.exponent)
    (range : length + 2 < format.fraction + 2 ^ format.exponent) :
    format.nearest number 0 < format.infinity := by
  -- The exponent grows with the length of the number, and the range has room for both.
  have positive : 0 < 2 ^ format.fraction := Nat.two_pow_pos _
  have exponent : 2 ^ 2 ≤ 2 ^ format.exponent := Nat.pow_le_pow_right (by decide) wide
  -- The number of dropped bits is the exponent, and rounding may add one to it.
  obtain ⟨drop, dropped⟩ : ∃ drop, number.log2 - format.fraction = drop := ⟨_, rfl⟩
  have few : drop + format.fraction ≤ max (length - 1) format.fraction := by
    by_cases zero : number = 0
    · rw [zero, Nat.log2_zero] at dropped
      omega
    · have := (Nat.log2_lt zero).mpr short
      omega
  have kept : roundHalfEven number drop ≤ 2 * 2 ^ format.fraction := by
    have bound : number / 2 ^ drop < 2 * 2 ^ format.fraction := by
      rw [Nat.div_lt_iff_lt_mul (Nat.two_pow_pos _), ← Nat.pow_succ', ← Nat.pow_add]
      exact Nat.lt_of_lt_of_le Nat.lt_log2_self (Nat.pow_le_pow_right (by decide) (by omega))
    simp only [roundHalfEven]
    split <;> omega
  have small : drop * 2 ^ format.fraction + roundHalfEven number drop ≤
      (drop + 2) * 2 ^ format.fraction := by
    rw [Nat.add_mul]
    exact Nat.add_le_add_left kept _
  simp only [nearest, dropped, Nat.zero_max, Nat.sub_zero]
  refine Nat.lt_of_le_of_lt (Nat.min_le_left _ _) (Nat.lt_of_le_of_lt small ?_)
  exact Nat.mul_lt_mul_of_pos_right (by omega) positive

/-- A wider format holds a finite magnitude exactly. -/
theorem Widens.units_convert (widens : Widens source target) {magnitude : Nat}
    (finite : magnitude < source.infinity) :
    convertMagnitude source target magnitude < target.infinity ∧
      target.units (convertMagnitude source target magnitude) =
        source.units magnitude * 2 ^ (target.scale - source.scale) := by
  -- The wider format has room for the significand, so that the conversion does not round.
  have exponent : 0 < 2 ^ source.exponent := Nat.two_pow_pos _
  have value : convertMagnitude source target magnitude =
      target.nearest (source.units magnitude * 2 ^ (target.scale - source.scale)) 0 := by
    rw [convertMagnitude, if_pos finite, Nat.sub_eq_zero_of_le widens.scale]
  -- The units are a short significand in front of zeros.
  obtain ⟨exponent, fraction, small, fields⟩ := source.magnitude_fields magnitude
  obtain ⟨significand, zeros, form, fits, few⟩ : ∃ significand zeros,
      source.units magnitude = significand * 2 ^ zeros ∧
        significand < 2 ^ (source.fraction + 1) ∧ zeros ≤ exponent - 1 := by
    rw [fields, source.units_fields exponent fraction small, Nat.pow_succ]
    split
    · exact ⟨fraction, 0, by rw [Nat.pow_zero, Nat.mul_one], by omega, Nat.zero_le _⟩
    · exact ⟨_, _, rfl, by omega, Nat.le_refl _⟩
  have low : exponent + 1 < 2 ^ source.exponent := by
    by_contra high
    have reached : (2 ^ source.exponent - 1) * 2 ^ source.fraction ≤
        exponent * 2 ^ source.fraction := Nat.mul_le_mul_right _ (by omega)
    rw [fields, infinity] at finite
    omega
  have wide : source.units magnitude * 2 ^ (target.scale - source.scale) =
      significand * 2 ^ (zeros + (target.scale - source.scale)) := by
    rw [form, Nat.mul_assoc, Nat.pow_add]
  have short : source.units magnitude * 2 ^ (target.scale - source.scale) <
      2 ^ (source.fraction + 1 + (zeros + (target.scale - source.scale))) := by
    rw [wide, Nat.pow_add _ (source.fraction + 1)]
    exact Nat.mul_lt_mul_of_pos_right fits (Nat.two_pow_pos _)
  have range := widens.range
  have below := target.nearest_lt short widens.exponent (by omega)
  rw [value]
  refine ⟨below, target.units_nearest wide (Nat.lt_of_lt_of_le fits ?_) below⟩
  exact Nat.pow_le_pow_right (by decide) (Nat.succ_le_succ widens.fraction)

/-- A wider format gives a finite magnitude back. -/
theorem Widens.convert_convert (widens : Widens source target) {magnitude : Nat}
    (finite : magnitude < source.infinity) :
    convertMagnitude target source (convertMagnitude source target magnitude) = magnitude := by
  obtain ⟨below, units⟩ := widens.units_convert finite
  -- The zeros that widening puts behind the number are dropped again.
  rw [convertMagnitude, if_pos below, units, Nat.sub_eq_zero_of_le widens.scale, Nat.pow_zero,
    Nat.mul_one]
  have shifted := source.nearest_shift (source.units magnitude) 0 (target.scale - source.scale)
  rw [Nat.zero_add] at shifted
  rw [shifted, source.nearest_units finite]

/-- Widening keeps the order of finite magnitudes. -/
theorem Widens.convertMagnitude_le (widens : Widens source target) {magnitude other : Nat}
    (le : magnitude ≤ other) (finite : other < source.infinity) :
    convertMagnitude source target magnitude ≤ convertMagnitude source target other := by
  -- Larger magnitudes stand for more in both formats.
  rw [← target.units_strictMono.le_iff_le,
    (widens.units_convert (Nat.lt_of_le_of_lt le finite)).2, (widens.units_convert finite).2]
  exact Nat.mul_le_mul_right _ (source.units_strictMono.monotone le)

/-- Double precision holds everything that single precision does. -/
theorem single_widens_double : Widens single double := ⟨by decide, by decide, by decide, by decide⟩

end BinaryFormat
