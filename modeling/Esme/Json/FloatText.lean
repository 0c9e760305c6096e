import Esme.Json.Lexemes

/-! How `dump` writes floating-point numbers: `dump_float`, with the digits of `grisu2` given. -/

namespace Esme

open BinaryFormat

/-- `'0'` -/
def zero : UInt8 := 0x30

/--
What `grisu2` makes of a number that is neither zero nor negative: `digits * 10^exponent`.

The digits have no zero in front, and the exponents of the numbers of a `double` are small.
-/
structure Decimal where
  digits : List UInt8
  exponent : Int
  first_ne_zero : ∃ first others, digits = first :: others ∧ first ≠ zero
  each : ∀ digit ∈ digits, digit ∈ decimalDigits
  small : -1000 < digits.length + exponent - 1 ∧ digits.length + exponent - 1 < 1000

/-- `append_exponent` -/
def appendExponent (exponent : Int) : List UInt8 :=
  let digit (value : Nat) : UInt8 := UInt8.ofNat (0x30 + value)
  let k := exponent.natAbs
  -- There are two digits at least.
  (if exponent < 0 then 0x2d else 0x2b) ::
    if k < 10 then [zero, digit k]
    else if k < 100 then [digit (k / 10), digit (k % 10)]
    else [digit (k / 100), digit (k % 100 / 10), digit (k % 100 % 10)]

/-- `format_buffer` with its arguments -4 and 15 -/
def formatBuffer (buffer : Decimal) : List UInt8 :=
  let k : Int := buffer.digits.length
  let n : Int := k + buffer.exponent
  if k ≤ n ∧ n ≤ 15 then buffer.digits ++ List.replicate (n - k).toNat zero ++ [0x2e, zero]
  else if 0 < n ∧ n ≤ 15 then
    buffer.digits.take n.toNat ++ 0x2e :: buffer.digits.drop n.toNat
  else if -4 < n ∧ n ≤ 0 then zero :: 0x2e :: (List.replicate (-n).toNat zero ++ buffer.digits)
  else if k = 1 then buffer.digits ++ 0x65 :: appendExponent (n - 1)
  else
    buffer.digits.take 1 ++ 0x2e :: buffer.digits.drop 1 ++ 0x65 :: appendExponent (n - 1)

/-- `to_chars` of a finite number -/
def toChars (grisu2 : UInt64 → Decimal) (bits : UInt64) : List UInt8 :=
  let magnitude := double.magnitude bits.toNat
  (if double.negative bits.toNat then [0x2d] else []) ++
    if magnitude = 0 then [zero, 0x2e, zero] else formatBuffer (grisu2 (UInt64.ofNat magnitude))

/-- `dump_float` -/
def dumpFloat (grisu2 : UInt64 → Decimal) (bits : UInt64) : List UInt8 :=
  if isFinite bits then toChars grisu2 bits else ascii ['n', 'u', 'l', 'l']

/-- A number that may have a minus sign in front. -/
def SignedFloat (word : List UInt8) : Prop :=
  ∀ sign, sign = [] ∨ sign = [0x2d] → ∃ label, NumberWord label .float (sign ++ word)

/-- The digits in front of a point make a number, with or without a minus sign. -/
theorem IntegerPart.signed {label : NumberState} {word : List UInt8}
    (part : IntegerPart label word) {sign : List UInt8} (signs : sign = [] ∨ sign = [0x2d]) :
    (∃ type, NumberWord label type (sign ++ word)) ∧ (label = .zero ∨ label = .any1) := by
  refine ⟨?_, by cases part <;> simp⟩
  -- Without a minus sign the number is an unsigned one so far.
  rcases signs with rfl | rfl
  · exact ⟨_, .unsigned part⟩
  · exact ⟨_, .integer part⟩

/-- A point between digits makes a floating-point number. -/
theorem IntegerPart.fraction {label : NumberState} {whole digits : List UInt8}
    (part : IntegerPart label whole) (behind : DigitsWord digits) {sign : List UInt8}
    (signs : sign = [] ∨ sign = [0x2d]) :
    NumberWord .decimal2 .float (sign ++ (whole ++ 0x2e :: digits)) := by
  obtain ⟨⟨type, number⟩, kind⟩ := part.signed signs
  rw [← List.append_assoc]
  exact .fraction number kind behind

/-- A few zeros are digits. -/
theorem replicate_digits (count : Nat) :
    ∀ digit ∈ List.replicate count zero, digit ∈ decimalDigits :=
  fun digit member => by
    rw [List.eq_of_mem_replicate member]
    exact List.mem_cons_self

/-- One digit of an exponent. -/
theorem ofNat_mem_decimalDigits {value : Nat} (small : value < 10) :
    UInt8.ofNat (0x30 + value) ∈ decimalDigits := by
  have digits : ∀ value < 10, UInt8.ofNat (0x30 + value) ∈ decimalDigits := by decide
  exact digits value small

/-- An exponent is a sign and digits. -/
theorem appendExponent_eq {exponent : Int} (least : -1000 < exponent) (most : exponent < 1000) :
    ∃ sign digits, appendExponent exponent = sign :: digits ∧ (sign = 0x2b ∨ sign = 0x2d) ∧
      DigitsWord digits := by
  rw [appendExponent]
  refine ⟨_, _, rfl, by split <;> simp, ?_⟩
  split
  · -- Less than ten is written with a zero in front.
    exact ⟨List.cons_ne_nil _ _, List.forall_mem_cons.mpr ⟨List.mem_cons_self,
      List.forall_mem_singleton.mpr (ofNat_mem_decimalDigits ‹_›)⟩⟩
  split
  · exact ⟨List.cons_ne_nil _ _, List.forall_mem_cons.mpr ⟨ofNat_mem_decimalDigits (by omega),
      List.forall_mem_singleton.mpr (ofNat_mem_decimalDigits (by omega))⟩⟩
  · exact ⟨List.cons_ne_nil _ _, List.forall_mem_cons.mpr ⟨ofNat_mem_decimalDigits (by omega),
      List.forall_mem_cons.mpr ⟨ofNat_mem_decimalDigits (by omega),
        List.forall_mem_singleton.mpr (ofNat_mem_decimalDigits (by omega))⟩⟩⟩

/-- An exponent behind a number makes a floating-point number. -/
theorem NumberWord.scaled {label : NumberState} {type : NumberType} {word : List UInt8}
    (number : NumberWord label type word) (none_ : label ≠ .any2) {exponent : Int}
    (least : -1000 < exponent) (most : exponent < 1000) :
    NumberWord .any2 .float (word ++ 0x65 :: appendExponent exponent) := by
  obtain ⟨sign, digits, same, signs, behind⟩ := appendExponent_eq least most
  rw [same]
  have signed : [sign] = [] ∨ [sign] = [0x2b] ∨ [sign] = [0x2d] :=
    .inr (signs.imp (by rintro rfl; rfl) (by rintro rfl; rfl))
  exact .exponent number none_ List.mem_cons_self signed behind

/-- What `format_buffer` writes is a floating-point number. -/
theorem signedFloat_formatBuffer (buffer : Decimal) : SignedFloat (formatBuffer buffer) := by
  -- The branches are those of `format_buffer`, by where the point is among the digits.
  obtain ⟨digits, exponent, ⟨first, others, rfl, nonzero⟩, each, least, most⟩ := buffer
  obtain ⟨digit, behind⟩ := List.forall_mem_cons.mp each
  have part : ∀ digits : List UInt8, (∀ digit ∈ digits, digit ∈ decimalDigits) →
      IntegerPart .any1 (first :: digits) := fun _ digits => .any1 digit nonzero digits
  rw [formatBuffer]
  dsimp only
  split
  · -- `digits[000].0`
    rw [List.cons_append, List.cons_append]
    have zeros := List.forall_mem_append.mpr ⟨behind, replicate_digits
      ((((first :: others).length : Int) + exponent - (first :: others).length).toNat)⟩
    exact fun sign signs => ⟨.decimal2, (part _ zeros).fraction
      ⟨List.cons_ne_nil _ _, List.forall_mem_singleton.mpr List.mem_cons_self⟩ signs⟩
  split
  · -- `dig.its`
    rename_i outside inside
    obtain ⟨count, same⟩ : ∃ count, (((first :: others).length : Int) + exponent).toNat =
        count + 1 := Nat.exists_eq_succ_of_ne_zero (by omega)
    have fewer : count < others.length := by
      rw [List.length_cons] at *
      omega
    rw [same, List.take_succ_cons, List.drop_succ_cons]
    have front : ∀ digit ∈ others.take count, digit ∈ decimalDigits := fun digit member =>
      behind digit (List.mem_of_mem_take member)
    have back : DigitsWord (others.drop count) :=
      ⟨List.ne_nil_of_length_pos (by rw [List.length_drop]; omega),
        fun digit member => behind digit (List.mem_of_mem_drop member)⟩
    exact fun sign signs => ⟨.decimal2, (part _ front).fraction back signs⟩
  split
  · -- `0.[000]digits`
    have fraction := List.forall_mem_append.mpr ⟨replicate_digits
      (-(((first :: others).length : Int) + exponent)).toNat, each⟩
    exact fun sign signs => ⟨.decimal2, IntegerPart.zero.fraction ⟨by simp, fraction⟩ signs⟩
  split
  · -- `dE+123`
    intro sign signs
    obtain ⟨⟨type, number⟩, kind⟩ := (part _ behind).signed signs
    refine ⟨.any2, ?_⟩
    rw [← List.append_assoc]
    exact number.scaled nofun least most
  · -- `d.igitsE+123`
    rename_i several
    have more : others ≠ [] := by
      rintro rfl
      exact several rfl
    intro sign signs
    have number := (part [] nofun).fraction ⟨more, behind⟩ signs
    refine ⟨.any2, ?_⟩
    rw [← List.append_assoc]
    exact number.scaled nofun least most

/-- What `to_chars` writes is a floating-point number. -/
theorem numberWord_toChars (grisu2 : UInt64 → Decimal) (bits : UInt64) :
    ∃ label, NumberWord label .float (toChars grisu2 bits) := by
  rw [toChars]
  have signs : (if double.negative bits.toNat then [(0x2d : UInt8)] else []) = [] ∨
      (if double.negative bits.toNat then [(0x2d : UInt8)] else []) = [0x2d] := by
    split
    · exact .inr rfl
    · exact .inl rfl
  -- Zero is not given to `grisu2`.
  by_cases none_ : double.magnitude bits.toNat = 0
  · rw [if_pos none_]
    exact ⟨.decimal2, IntegerPart.zero.fraction
      ⟨List.cons_ne_nil _ _, List.forall_mem_singleton.mpr List.mem_cons_self⟩ signs⟩
  · rw [if_neg none_]
    exact signedFloat_formatBuffer _ _ signs

/-- Digits hold no newline. -/
theorem DigitsWord.no_newline {word : List UInt8} (digits : ∀ digit ∈ word, digit ∈ decimalDigits) :
    newline ∉ word :=
  fun member => absurd (digits newline member) (by decide)

/-- A number holds no newline. -/
theorem NumberWord.no_newline {label : NumberState} {type : NumberType} {word : List UInt8}
    (number : NumberWord label type word) : newline ∉ word := by
  -- A number is made of digits, a point, signs and an exponent letter.
  have whole : ∀ {label : NumberState} {word : List UInt8}, IntegerPart label word →
      newline ∉ word := fun part => by
    cases part with
    | zero => decide
    | any1 digit _ digits =>
      exact DigitsWord.no_newline (List.forall_mem_cons.mpr ⟨digit, digits⟩)
  -- The induction is on the parts of the number.
  induction number with
  | unsigned part => exact whole part
  | integer part => exact List.not_mem_cons_of_ne_of_not_mem (by decide) (whole part)
  | fraction _ _ behind ih =>
    exact List.not_mem_append ih
      (List.not_mem_cons_of_ne_of_not_mem (by decide) (DigitsWord.no_newline behind.2))
  | @exponent label type word sign digits letter _ _ mark signed behind ih =>
    have letter : newline ≠ letter := by
      rintro rfl
      exact absurd mark (by decide)
    refine List.not_mem_append ih (List.not_mem_cons_of_ne_of_not_mem letter
      (List.not_mem_append ?_ (DigitsWord.no_newline behind.2)))
    rcases signed with rfl | rfl | rfl <;> decide

/-- No floating-point number is dumped with a newline. -/
theorem newline_not_mem_dumpFloat (grisu2 : UInt64 → Decimal) (bits : UInt64) :
    newline ∉ dumpFloat grisu2 bits := by
  rw [dumpFloat]
  split
  · -- A finite number is written as a number, and the others as `null`.
    obtain ⟨label, number⟩ := numberWord_toChars grisu2 bits
    exact number.no_newline
  · decide

end Esme
