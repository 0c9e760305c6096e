import Esme.Json.Lexemes

/-! The words that `dump` writes for strings and integers. -/

namespace Esme

/-- A digit that was written is read as its value. -/
theorem hexDigit_mem {value : Nat} (small : value < 16) :
    (hexDigit value, value) ∈ hexDigits := by
  have digits : ∀ value < 16, (hexDigit value, value) ∈ hexDigits := by decide
  exact digits value small

/-- An ASCII character is written as what stands for it. -/
theorem stringPiece_single {byte : UInt8} (small : byte ≤ 0x7f) :
    StringPiece (escapeCodepoint byte.toUInt32 byte) [byte] := by
  -- The characters with a letter of their own come first, then the other control characters.
  have letter : ∀ (value : UInt8) {letter : UInt8}, escaped letter = some value →
      byte.toUInt32 = value.toUInt32 → StringPiece [0x5c, letter] [byte] :=
    fun value _ known same => by
      rw [UInt8.toUInt32_inj.mp same]
      exact .escape (.letter (escaped_iff.mp known))
  rw [escapeCodepoint]
  split
  · exact letter 0x08 rfl ‹_›
  split
  · exact letter 0x09 rfl ‹_›
  split
  · exact letter 0x0a rfl ‹_›
  split
  · exact letter 0x0c rfl ‹_›
  split
  · exact letter 0x0d rfl ‹_›
  split
  · exact letter 0x22 rfl ‹_›
  split
  · exact letter 0x5c rfl ‹_›
  rename_i quote backslash
  split
  · -- The other control characters have an escape with four digits.
    rename_i control
    have bound : byte.toNat ≤ 0x1f := by
      have := UInt32.le_iff_toNat_le.mp control
      rwa [UInt8.toNat_toUInt32] at this
    have digits : HexDigits 4 [0x30, 0x30, hexDigit (byte.toNat / 16), hexDigit (byte.toNat % 16)]
        (0 * 2 ^ (4 * 3) + (0 * 2 ^ (4 * 2) + (byte.toNat / 16 * 2 ^ (4 * 1) +
          (byte.toNat % 16 * 2 ^ (4 * 0) + 0)))) :=
      .cons List.mem_cons_self (.cons List.mem_cons_self (.cons (hexDigit_mem (by omega))
        (.cons (hexDigit_mem (by omega)) .nil)))
    have number : 0 * 2 ^ (4 * 3) + (0 * 2 ^ (4 * 2) + (byte.toNat / 16 * 2 ^ (4 * 1) +
        (byte.toNat % 16 * 2 ^ (4 * 0) + 0))) = byte.toNat := by omega
    rw [number] at digits
    have written := EscapeWord.codepoint digits (by omega)
    rw [codepointBytes, if_pos (by omega), UInt8.ofNat_toNat] at written
    rw [UInt8.toNat_toUInt32]
    exact .escape written
  · -- Anything else of ASCII stands for itself.
    rename_i control
    refine .plain (.single small) fun other same => ?_
    obtain rfl : byte = other := (List.cons.inj same).1
    refine ⟨?_, fun same => quote ?_, fun same => backslash ?_⟩
    · rw [UInt32.not_le, UInt32.lt_iff_toNat_lt, UInt8.toNat_toUInt32] at control
      exact UInt8.lt_iff_toNat_lt.mpr control
    · rw [same]
      rfl
    · rw [same]
      rfl

/-- The least code point so far that a state can have. -/
def leastCodepoint : Nat → Nat
  | 2 => 2
  | 3 | 5 | 7 | 8 => 1
  | _ => 0

/-- What the code point so far is at least and less than. -/
def CodepointBounds (state : Nat) (codepoint : UInt32) : Prop :=
  leastCodepoint state ≤ codepoint.toNat ∧
    codepoint.toNat * 2 ^ (6 * (stateRanges state).length) < 2 ^ 27

/-- A byte behind the first one adds six bits. -/
theorem utf8Codepoint_toNat {state : Nat} (inside : state ≠ utf8Accept) {codepoint : UInt32}
    (small : codepoint.toNat < 2 ^ 26) (byte : UInt8) :
    (utf8Codepoint state codepoint byte).toNat = 2 ^ 6 * codepoint.toNat + byte.toNat % 2 ^ 6 := by
  -- The mask takes the lower six bits.
  have low : byte.toNat &&& 0x3f = byte.toNat % 2 ^ 6 := Nat.and_two_pow_sub_one_eq_mod _ 6
  rw [utf8Codepoint, if_pos inside, UInt32.toNat_or, UInt32.toNat_and, UInt32.toNat_shiftLeft,
    UInt8.toNat_toUInt32, Nat.shiftLeft_eq]
  have shifted : codepoint.toNat * 2 ^ ((6 : UInt32).toNat % 32) % 2 ^ 32 =
      2 ^ 6 * codepoint.toNat := by
    rw [Nat.mod_eq_of_lt (by show codepoint.toNat * 2 ^ 6 < _; omega)]
    exact Nat.mul_comm _ _
  rw [shifted, show ((0x3f : UInt32).toNat) = 0x3f from rfl, low, Nat.or_comm,
    Nat.two_pow_add_eq_or_of_lt (Nat.mod_lt _ (by decide))]

/-- The bounds after a first byte that is not ASCII. -/
theorem codepointBounds_first (byte : UInt8) (large : ¬byte ≤ 0x7f)
    (alive : utf8Next utf8Accept byte ≠ utf8Reject) (codepoint : UInt32) :
    CodepointBounds (utf8Next utf8Accept byte) (utf8Codepoint utf8Accept codepoint byte) ∧
      stateRanges (utf8Next utf8Accept byte) ≠ [] := by
  rw [utf8Codepoint, if_neg (by simp), CodepointBounds]
  -- The state and the codepoint depend on the one byte only.
  simp only [utf8Next, utf8Type_eq] at alive ⊢
  revert byte
  exact forall_byte (by decide +kernel)

/-- The state that expects nothing, one byte or two bytes behind another one. -/
theorem state_eq {state : Nat} (row : state < 9) (alive : state ≠ utf8Reject) :
    (stateRanges state = [] → state = 0) ∧ (stateRanges state = [(0x80, 0xbf)] → state = 2) ∧
      (stateRanges state = [(0x80, 0xbf), (0x80, 0xbf)] → state = 3) := by
  have rows : ∀ state < 9, state ≠ utf8Reject →
      (stateRanges state = [] → state = 0) ∧ (stateRanges state = [(0x80, 0xbf)] → state = 2) ∧
        (stateRanges state = [(0x80, 0xbf), (0x80, 0xbf)] → state = 3) := by decide
  exact rows state row alive

/-- The bounds after a byte that a state expects. -/
theorem codepointBounds_next {state : Nat} (row : state < 9) {range : UInt8 × UInt8}
    {ranges : List (UInt8 × UInt8)} (expected : stateRanges state = range :: ranges)
    {codepoint : UInt32} (bounds : CodepointBounds state codepoint) {byte : UInt8}
    (inside : range.1 ≤ byte ∧ byte ≤ range.2) :
    CodepointBounds (utf8Next state byte) (utf8Codepoint state codepoint byte) ∧
      (ranges = [] → 0x80 ≤ (utf8Codepoint state codepoint byte).toNat) := by
  -- The byte adds its bits to what the state knows of the code point.
  have next := utf8Next_within row expected byte
  rw [if_pos inside] at next
  obtain ⟨alive, others⟩ := next
  obtain ⟨accept, one, two⟩ := state_eq (utf8Next_lt state byte) alive
  -- The state tells how large the codepoint can be so far.
  obtain ⟨least, most⟩ := bounds
  have lower := UInt8.le_iff_toNat_le.mp inside.1
  have upper := UInt8.le_iff_toNat_le.mp inside.2
  have accepting : state ≠ utf8Accept := by
    rintro rfl
    cases expected
  have number := @utf8Codepoint_toNat _ accepting codepoint
  -- The bounds are numbers once the state is known.
  obtain rfl | rfl | rfl | rfl | rfl | rfl | rfl : state = 2 ∨ state = 3 ∨ state = 4 ∨
      state = 5 ∨ state = 6 ∨ state = 7 ∨ state = 8 := by
    have rows : ∀ state < 9, stateRanges state ≠ [] → state = 2 ∨ state = 3 ∨ state = 4 ∨
      state = 5 ∨ state = 6 ∨ state = 7 ∨ state = 8 := by decide
    exact rows state row (by rw [expected]; exact List.cons_ne_nil _ _)
  all_goals
    cases expected
    simp only [leastCodepoint, stateRanges, List.length_cons, List.length_nil, Nat.reduceAdd,
      Nat.reduceMul, Nat.reducePow, UInt8.reduceToNat] at least most lower upper
    have number := number (by omega) byte
  · -- The last byte completes the codepoint.
    rw [accept others, CodepointBounds, number]
    simp only [leastCodepoint, stateRanges, List.length_nil, Nat.mul_zero, Nat.pow_zero,
      Nat.reducePow]
    exact ⟨⟨by omega, by omega⟩, fun _ => by omega⟩
  iterate 3
    · rw [one others, CodepointBounds, number]
      simp only [leastCodepoint, stateRanges, List.length_cons, List.length_nil, Nat.reduceAdd,
        Nat.reduceMul, Nat.reducePow]
      exact ⟨⟨by omega, by omega⟩, nofun⟩
  iterate 3
    · rw [two others, CodepointBounds, number]
      simp only [leastCodepoint, stateRanges, List.length_cons, List.length_nil, Nat.reduceAdd,
        Nat.reduceMul, Nat.reducePow]
      have few : 64 * codepoint.toNat + byte.toNat % 64 < 2 ^ 15 := by omega
      exact ⟨⟨by omega, Nat.mul_lt_mul_of_pos_right few (by decide)⟩, nofun⟩

/-- A code point that is not ASCII is written as it is. -/
theorem escapeCodepoint_large {codepoint : UInt32} (large : 0x80 ≤ codepoint.toNat) (byte : UInt8) :
    escapeCodepoint codepoint byte = [byte] := by
  -- It is none of the characters that are escaped.
  have differs : ∀ value : UInt32, value.toNat < 0x80 → codepoint ≠ value := by
    rintro value small rfl
    omega
  have above : ¬codepoint ≤ 0x1f := by
    simp only [UInt32.le_iff_toNat_le, UInt32.reduceToNat]
    omega
  simp only [escapeCodepoint, if_neg (differs 0x08 (by decide)), if_neg (differs 0x09 (by decide)),
    if_neg (differs 0x0a (by decide)), if_neg (differs 0x0c (by decide)),
    if_neg (differs 0x0d (by decide)), if_neg (differs 0x22 (by decide)),
    if_neg (differs 0x5c (by decide)), if_neg above]

/-- Something put in front twice is put in front at once. -/
theorem map_append_map {front other : List UInt8} (result : Except JsonException (List UInt8)) :
    (result.map (other ++ ·)).map (front ++ ·) = result.map (front ++ other ++ ·) := by
  cases result with
  | error error => rfl
  | ok text => exact congrArg Except.ok (List.append_assoc front other text).symm

/-- The bytes that a state expects are written as they are. -/
theorem dumpEscapedFrom_others {state : Nat} (row : state < 9) (some_ : stateRanges state ≠ [])
    {codepoint : UInt32} (bounds : CodepointBounds state codepoint) (index : Nat)
    (lastByte : UInt8) {others : List UInt8} (inside : InRanges (stateRanges state) others)
    (rest : List UInt8) :
    ∃ codepoint' later last, dumpEscapedFrom state codepoint index lastByte (others ++ rest) =
      (dumpEscapedFrom utf8Accept codepoint' later last rest).map (others ++ ·) := by
  -- The bounds tell that the code point is not ASCII when the last byte completes it.
  induction others generalizing state codepoint index lastByte with
  | nil => exact absurd (List.forall₂_nil_right_iff.mp inside) some_
  | cons byte others ih =>
    obtain ⟨range, ranges, first, later, expected⟩ := List.forall₂_cons_right_iff.mp inside
    have next := utf8Next_within row expected byte
    rw [if_pos first] at next
    obtain ⟨bounded, complete⟩ := codepointBounds_next row expected bounds first
    have nil_iff := stateRanges_eq_nil (utf8Next_lt state byte) next.1
    cases ranges with
    -- The last byte of the sequence is written with the codepoint that it completes.
    | nil =>
      cases later
      have accepting := nil_iff.mp next.2
      refine ⟨utf8Codepoint state codepoint byte, index + 1, byte, ?_⟩
      rw [List.cons_append, dumpEscapedFrom, if_pos accepting,
        escapeCodepoint_large (complete rfl), accepting]
      rfl
    -- A byte in between is written and leaves the automaton in the next state.
    | cons range ranges =>
      have some_ : stateRanges (utf8Next state byte) ≠ [] := by
        rw [next.2]
        exact List.cons_ne_nil _ _
      have unfinished : utf8Next state byte ≠ utf8Accept := fun same => some_ (nil_iff.mpr same)
      obtain ⟨codepoint', later, last, same⟩ := ih (utf8Next_lt state byte) some_ bounded
        (index + 1) byte (by rw [next.2]; exact later)
      refine ⟨codepoint', later, last, ?_⟩
      rw [List.cons_append, dumpEscapedFrom, if_neg unfinished, if_neg next.1, same]
      exact @map_append_map [byte] others _

/-- An ASCII character is its own code point. -/
theorem utf8Codepoint_single (codepoint : UInt32) (byte : UInt8) (small : byte ≤ 0x7f) :
    utf8Codepoint utf8Accept codepoint byte = byte.toUInt32 := by
  rw [utf8Codepoint, if_neg (by simp), utf8Type_eq]
  revert byte
  exact forall_byte (by decide +kernel)

/-- A code point is written as what stands for it. -/
theorem dumpEscapedFrom_word {word : List UInt8} (one : CodepointWord word) (codepoint : UInt32)
    (index : Nat) (lastByte : UInt8) (rest : List UInt8) :
    ∃ written codepoint' later last, StringPiece written word ∧
      dumpEscapedFrom utf8Accept codepoint index lastByte (word ++ rest) =
        (dumpEscapedFrom utf8Accept codepoint' later last rest).map (written ++ ·) := by
  cases one with
  -- A character of ASCII is written at once, perhaps escaped.
  | @single byte small =>
    have next := utf8Next_single byte small
    refine ⟨_, byte.toUInt32, index + 1, byte, stringPiece_single small, ?_⟩
    rw [List.singleton_append, dumpEscapedFrom, if_pos next,
      utf8Codepoint_single codepoint byte small, next]
  -- The first byte of a sequence is written before the codepoint is complete.
  | @sequence first ranges others known inside =>
    have large := utf8Ranges_large known
    have next := utf8Next_first first large
    rw [known] at next
    split at next
    · cases next
    · rename_i alive
      obtain rfl := Option.some.inj next
      obtain ⟨bounds, some_⟩ := codepointBounds_first first large alive codepoint
      obtain ⟨codepoint', later, last, same⟩ := dumpEscapedFrom_others (utf8Next_lt _ _) some_
        bounds (index + 1) first inside rest
      have unfinished : utf8Next utf8Accept first ≠ utf8Accept := fun same =>
        some_ ((stateRanges_eq_nil (utf8Next_lt _ _) alive).mpr same)
      refine ⟨_, codepoint', later, last, .plain (.sequence known inside) ?_, ?_⟩
      · intro byte single
        obtain ⟨rfl, rfl⟩ := List.cons.inj single
        exact absurd (List.forall₂_nil_right_iff.mp inside) some_
      · rw [List.cons_append, dumpEscapedFrom, if_neg unfinished, if_neg alive, same]
        exact @map_append_map [first] others _

/-- A text is written as what stands for its code points. -/
theorem stringBody_dumpEscaped {text written : List UInt8} (done : dumpEscaped text = .ok written) :
    StringBody written text := by
  -- A text that is written is valid, so it is made of code points.
  have valid : utf8Valid text = true := by
    rw [← dumpEscaped_isOk, done]
    rfl
  have body : ∀ codepoint index lastByte, ∃ written,
      dumpEscapedFrom utf8Accept codepoint index lastByte text = .ok written ∧
        StringBody written text := by
    -- The induction is on the codepoints of the text; what the loop carries along may be anything.
    refine utf8Valid_induction (motive := fun text => ∀ codepoint index lastByte, ∃ written,
      dumpEscapedFrom utf8Accept codepoint index lastByte text = .ok written ∧
        StringBody written text) (fun _ _ _ => ⟨[], rfl, .nil⟩) ?_ text valid
    intro word rest one ih codepoint index lastByte
    obtain ⟨piece, codepoint', later, last, stands, same⟩ :=
      dumpEscapedFrom_word one codepoint index lastByte rest
    obtain ⟨others, rest_, body⟩ := ih codepoint' later last
    exact ⟨piece ++ others, by rw [same, rest_]; rfl, .append stands body⟩
  obtain ⟨other, same, body⟩ := body 0 0 0
  obtain rfl : other = written := Except.ok.inj (same.symm.trans done)
  exact body

/-- One more digit makes ten times as much, and the digit. -/
theorem decimal_append (digits : List UInt8) (digit : UInt8) :
    decimal (digits ++ [digit]) = decimal digits * 10 + (digit.toNat - 0x30) := by
  rw [decimal, List.foldl_append]
  rfl

/-- The digits of a number are those of a number that was written, and stand for it. -/
theorem integerPart_toDigits (number : Nat) :
    (∃ label, IntegerPart label (ascii (Nat.toDigits 10 number))) ∧
      decimal (ascii (Nat.toDigits 10 number)) = number := by
  -- The induction is on the number, whose last digit is the remainder by ten.
  induction number using Nat.strongRecOn with
  | ind number ih =>
    by_cases single : number < 10
    · have digits : ∀ number < 10, decimal (ascii [number.digitChar]) = number ∧
          UInt8.ofNat number.digitChar.toNat ∈ decimalDigits ∧
          (number ≠ 0 → UInt8.ofNat number.digitChar.toNat ≠ 0x30) := by decide
      obtain ⟨value, digit, nonzero⟩ := digits number single
      rw [Nat.toDigits_of_lt_base single]
      refine ⟨?_, value⟩
      by_cases none_ : number = 0
      · subst none_
        exact ⟨.zero, .zero⟩
      · exact ⟨.any1, .any1 digit (nonzero none_) nofun⟩
    · -- The digits in front of the last one are those of a tenth of the number.
      have last : ∀ digit < 10, (UInt8.ofNat digit.digitChar.toNat).toNat - 0x30 = digit ∧
          UInt8.ofNat digit.digitChar.toNat ∈ decimalDigits := by decide
      obtain ⟨value, digit⟩ := last (number % 10) (Nat.mod_lt _ (by decide))
      obtain ⟨⟨label, part⟩, front⟩ := ih (number / 10) (by omega)
      have appended : ascii (Nat.toDigits 10 number) = ascii (Nat.toDigits 10 (number / 10)) ++
          [UInt8.ofNat (number % 10).digitChar.toNat] := by
        rw [Nat.toDigits_of_base_le (by decide) (by omega), ascii, ascii, List.map_append]
        rfl
      rw [appended]
      refine ⟨⟨.any1, ?_⟩, by rw [decimal_append, front, value]; omega⟩
      generalize ascii (Nat.toDigits 10 (number / 10)) = digits at part front
      cases part with
      | zero =>
        -- A single zero is no more than zero.
        have none_ : 0 = number / 10 := front
        omega
      | @any1 first others head nonzero digits =>
        exact .any1 head nonzero (List.forall_mem_append.mpr
          ⟨digits, List.forall_mem_singleton.mpr digit⟩)

/-- A number that is not negative is written as the word of the token that it is read as. -/
theorem lexeme_unsigned (strtod : List UInt8 → UInt64) (number : UInt64) :
    ∃ label, NumberWord label .unsigned (dumpInteger number.toNat) ∧
      numberToken strtod .unsigned (dumpInteger number.toNat) = .valueUnsigned number := by
  obtain ⟨⟨label, part⟩, value⟩ := integerPart_toDigits number.toNat
  have written : dumpInteger number.toNat = ascii (Nat.toDigits 10 number.toNat) := by
    rw [dumpInteger, if_neg (by omega), Int.natAbs_natCast]
  rw [written]
  refine ⟨label, .unsigned part, ?_⟩
  rw [numberToken, strtoull, value, if_pos number.toNat_lt, UInt64.ofNat_toNat]
  rfl

/-- A negative number is written as the word of the token that it is read as. -/
theorem lexeme_integer (strtod : List UInt8 → UInt64) {number : Int64}
    (negative : number.toInt < 0) :
    ∃ label, NumberWord label .integer (dumpInteger number.toInt) ∧
      numberToken strtod .integer (dumpInteger number.toInt) = .valueInteger number := by
  obtain ⟨⟨label, part⟩, value⟩ := integerPart_toDigits number.toInt.natAbs
  -- The least number has no positive counterpart in 64 bits, and fits all the same.
  have bound : number.toInt.natAbs ≤ 2 ^ 63 := by
    have := number.le_toInt
    omega
  rw [dumpInteger, if_pos negative]
  refine ⟨label, .integer part, ?_⟩
  rw [numberToken, strtoll, List.tail_cons, value, if_pos bound]
  have same : -(number.toInt.natAbs : Int) = number.toInt := by omega
  rw [same, Int64.ofInt_toInt]
  rfl

end Esme
