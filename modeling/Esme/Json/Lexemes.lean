import Esme.Json.Parsing

/-! The words that JSON has for tokens, and that the lexer takes them. -/

namespace Esme

open Reading

/-- The characters that may stand around words: space, tab, line feed and carriage return. -/
def whitespace : List UInt8 := [0x20, 0x09, 0x0a, 0x0d]

/-- The letters that may stand behind a backslash, with the byte that each means. -/
def escapes : List (UInt8 × UInt8) :=
  [(0x22, 0x22), (0x5c, 0x5c), (0x2f, 0x2f), (0x62, 0x08), (0x66, 0x0c), (0x6e, 0x0a),
    (0x72, 0x0d), (0x74, 0x09)]

/-- The letters in front of an exponent, `e` and `E`. -/
def exponentLetters : List UInt8 := [0x65, 0x45]

/-- The digits from `0` to `9`. -/
def decimalDigits : List UInt8 :=
  [0x30, 0x31, 0x32, 0x33, 0x34, 0x35, 0x36, 0x37, 0x38, 0x39]

/-- The hexadecimal digits of either case, with the number that each stands for. -/
def hexDigits : List (UInt8 × Nat) :=
  [(0x30, 0), (0x31, 1), (0x32, 2), (0x33, 3), (0x34, 4), (0x35, 5), (0x36, 6), (0x37, 7),
    (0x38, 8), (0x39, 9), (0x41, 10), (0x42, 11), (0x43, 12), (0x44, 13), (0x45, 14), (0x46, 15),
    (0x61, 10), (0x62, 11), (0x63, 12), (0x64, 13), (0x65, 14), (0x66, 15)]

/-- What would go on with a number that ends with a part of one of these kinds. -/
def NumberState.goesOn : NumberState → List UInt8
  -- Behind a zero in front there is no other digit.
  | .zero => 0x2e :: exponentLetters
  | .any1 => decimalDigits ++ 0x2e :: exponentLetters
  | .decimal2 => decimalDigits ++ exponentLetters
  | .any2 => decimalDigits
  -- No number ends there.
  | .minus | .decimal1 | .exponent | .sign => []

/-- Hexadecimal digits and the number that they stand for. -/
inductive HexDigits : Nat → List UInt8 → Nat → Prop where
  | nil : HexDigits 0 [] 0
  | cons {letter : UInt8} {digit count value : Nat} {letters : List UInt8}
      (known : (letter, digit) ∈ hexDigits) (others : HexDigits count letters value) :
      HexDigits (count + 1) (letter :: letters) (digit * 2 ^ (4 * count) + value)

/-- What may stand behind a backslash, and the bytes that are meant. -/
inductive EscapeWord : List UInt8 → List UInt8 → Prop where
  | letter {letter byte : UInt8} (known : (letter, byte) ∈ escapes) : EscapeWord [letter] [byte]
  | codepoint {letters : List UInt8} {codepoint : Nat} (digits : HexDigits 4 letters codepoint)
      (scalar : ¬(0xd800 ≤ codepoint ∧ codepoint ≤ 0xdfff)) :
      EscapeWord (0x75 :: letters) (codepointBytes codepoint)
  | surrogates {letters others : List UInt8} {high low : Nat} (first : HexDigits 4 letters high)
      (second : HexDigits 4 others low) (isHigh : 0xd800 ≤ high ∧ high ≤ 0xdbff)
      (isLow : 0xdc00 ≤ low ∧ low ≤ 0xdfff) :
      EscapeWord (0x75 :: (letters ++ 0x5c :: 0x75 :: others))
        (codepointBytes (high * 2 ^ 10 + low - 0x35fdc00))

/-- What may stand in a string for one code point, and the bytes of the code point. -/
inductive StringPiece : List UInt8 → List UInt8 → Prop where
  | plain {word : List UInt8} (one : CodepointWord word)
      (free : ∀ byte, word = [byte] → 0x1f < byte ∧ byte ≠ 0x22 ∧ byte ≠ 0x5c) :
      StringPiece word word
  | escape {written added : List UInt8} (one : EscapeWord written added) :
      StringPiece (0x5c :: written) added

/-- What may stand between two quotes, and the text that is meant. -/
inductive StringBody : List UInt8 → List UInt8 → Prop where
  | nil : StringBody [] []
  | append {written text others rest : List UInt8} (first : StringPiece written text)
      (later : StringBody others rest) : StringBody (written ++ others) (text ++ rest)

/-- Digits, one of them at least. -/
def DigitsWord (word : List UInt8) : Prop := word ≠ [] ∧ ∀ digit ∈ word, digit ∈ decimalDigits

/-- The digits in front of a point, and the label that is behind them. -/
inductive IntegerPart : NumberState → List UInt8 → Prop where
  | zero : IntegerPart .zero [0x30]
  | any1 {first : UInt8} {others : List UInt8} (digit : first ∈ decimalDigits)
      (nonzero : first ≠ 0x30) (digits : ∀ digit ∈ others, digit ∈ decimalDigits) :
      IntegerPart .any1 (first :: others)

/-- A number with its type, and the label that is behind it. -/
inductive NumberWord : NumberState → NumberType → List UInt8 → Prop where
  | unsigned {label : NumberState} {word : List UInt8} (part : IntegerPart label word) :
      NumberWord label .unsigned word
  | integer {label : NumberState} {word : List UInt8} (part : IntegerPart label word) :
      NumberWord label .integer (0x2d :: word)
  | fraction {label : NumberState} {type : NumberType} {word digits : List UInt8}
      (number : NumberWord label type word) (whole : label = .zero ∨ label = .any1)
      (behind : DigitsWord digits) : NumberWord .decimal2 .float (word ++ 0x2e :: digits)
  | exponent {label : NumberState} {type : NumberType} {word sign digits : List UInt8}
      {letter : UInt8} (number : NumberWord label type word) (none_ : label ≠ .any2)
      (mark : letter ∈ exponentLetters) (signed : sign = [] ∨ sign = [0x2b] ∨ sign = [0x2d])
      (behind : DigitsWord digits) :
      NumberWord .any2 .float (word ++ letter :: (sign ++ digits))

/-- The word of a token, and what may not stand behind it. -/
inductive Lexeme (strtod : List UInt8 → UInt64) : List UInt8 → Token → (UInt8 → Prop) → Prop where
  | beginArray : Lexeme strtod [0x5b] .beginArray fun _ => False
  | endArray : Lexeme strtod [0x5d] .endArray fun _ => False
  | beginObject : Lexeme strtod [0x7b] .beginObject fun _ => False
  | endObject : Lexeme strtod [0x7d] .endObject fun _ => False
  | nameSeparator : Lexeme strtod [0x3a] .nameSeparator fun _ => False
  | valueSeparator : Lexeme strtod [0x2c] .valueSeparator fun _ => False
  | literalTrue : Lexeme strtod (ascii ['t', 'r', 'u', 'e']) .literalTrue fun _ => False
  | literalFalse : Lexeme strtod (ascii ['f', 'a', 'l', 's', 'e']) .literalFalse fun _ => False
  | literalNull : Lexeme strtod (ascii ['n', 'u', 'l', 'l']) .literalNull fun _ => False
  | string {written text : List UInt8} (body : StringBody written text) :
      Lexeme strtod (0x22 :: (written ++ [0x22])) (.valueString text) fun _ => False
  | number {label : NumberState} {type : NumberType} {word : List UInt8}
      (number : NumberWord label type word) :
      Lexeme strtod word (numberToken strtod type word) fun byte => byte ∈ label.goesOn

/-- The lexer skips exactly those characters. -/
theorem isWhitespace_iff (byte : UInt8) : isWhitespace byte = true ↔ byte ∈ whitespace := by
  simp [isWhitespace, whitespace, or_assoc]

/-- The lexer knows exactly those letters. -/
theorem escaped_iff {letter byte : UInt8} :
    escaped letter = some byte ↔ (letter, byte) ∈ escapes := by
  have listed : ∀ letter,
      ((escaped letter).all fun byte => decide ((letter, byte) ∈ escapes)) = true :=
    forall_byte (by decide +kernel)
  have known : ∀ pair ∈ escapes, escaped pair.1 = some pair.2 := by simp [escapes, escaped]
  refine ⟨fun same => ?_, known (letter, byte)⟩
  have member := listed letter
  rw [same] at member
  exact of_decide_eq_true member

/-- The lexer knows exactly those hexadecimal digits. -/
theorem hexValue_iff {letter : UInt8} {digit : Nat} :
    hexValue letter = some digit ↔ (letter, digit) ∈ hexDigits := by
  have listed : ∀ letter, ∀ digit ∈ hexValue letter, (letter, digit) ∈ hexDigits :=
    forall_byte (by decide +kernel)
  have known : ∀ pair ∈ hexDigits, hexValue pair.1 = some pair.2 := by simp [hexDigits, hexValue]
  exact ⟨listed letter digit, known (letter, digit)⟩

/-- The lexer takes exactly those digits. -/
theorem isDigit_iff (byte : UInt8) : isDigit byte = true ↔ byte ∈ decimalDigits := by
  simp only [isDigit, decimalDigits, Bool.and_eq_true, decide_eq_true_eq, List.mem_cons,
    List.not_mem_nil, or_false, UInt8.le_iff_toNat_le, ← UInt8.toNat_inj, UInt8.reduceToNat]
  omega

/-- The lexer takes exactly those two letters for the mark of an exponent. -/
theorem isExponent_iff (byte : UInt8) : isExponent byte = true ↔ byte ∈ exponentLetters := by
  simp [isExponent, exponentLetters]

/-- Hexadecimal digits are added to what there is. -/
theorem HexDigits.takes {count value : Nat} {letters : List UInt8}
    (digits : HexDigits count letters value) (codepoint : Nat) :
    Takes (getCodepointFrom count codepoint) letters (some (codepoint + value)) := by
  -- The induction is on the digits, with the value of those in front.
  induction digits generalizing codepoint with
  | nil => exact .pure _
  | @cons letter digit count value letters known others ih =>
    rw [getCodepointFrom]
    refine .next ?_
    simp only [Option.bind_some, hexValue_iff.mpr known]
    rw [← Nat.add_assoc]
    exact ih _

/-- A code point behind `\u` is taken, or two surrogates. -/
theorem EscapeWord.takes {written added : List UInt8} (one : EscapeWord written added) :
    Takes scanEscape written (some added) := by
  -- One case for each form that an escape sequence has.
  cases one with
  | @letter letter byte known =>
    refine .next ?_
    have known := escaped_iff.mpr known
    rw [if_neg (fun same => by rw [Option.some.inj same] at known; cases known)]
    rw [Option.bind_some, known]
    exact .pure _
  -- One group of digits, which is no surrogate.
  | @codepoint letters codepoint digits scalar =>
    refine .next ?_
    rw [if_pos rfl]
    have taken : Takes scanCodepoint letters (some codepoint) := by
      rw [← List.append_nil letters]
      refine Takes.bind (digits.takes 0) ?_
      rw [Nat.zero_add]
      dsimp only
      rw [if_neg (by omega), if_neg (by omega)]
      exact .pure _
    rw [← List.append_nil letters]
    exact Takes.bind taken (.pure _)
  -- Two groups of digits, a high surrogate and a low one behind another `\u`.
  | @surrogates letters others high low first second isHigh isLow =>
    refine .next ?_
    rw [if_pos rfl]
    have taken : Takes scanCodepoint (letters ++ 0x5c :: 0x75 :: others)
        (some (high * 2 ^ 10 + low - 0x35fdc00)) := by
      refine Takes.bind (first.takes 0) ?_
      rw [Nat.zero_add]
      dsimp only
      rw [if_pos isHigh]
      refine .next ?_
      rw [if_pos rfl]
      refine .next ?_
      rw [if_pos rfl, ← List.append_nil others]
      refine Takes.bind (second.takes 0) ?_
      rw [Nat.zero_add]
      dsimp only
      rw [if_pos isLow]
      exact .pure _
    rw [← List.append_nil (letters ++ 0x5c :: 0x75 :: others)]
    exact Takes.bind taken (.pure _)

/-- Bytes in the ranges are added to what there is. -/
theorem takes_nextByteInRange {ranges : List (UInt8 × UInt8)} {others : List UInt8}
    (inside : InRanges ranges others) (added : List UInt8) :
    Takes (nextByteInRange ranges added) others (some (added ++ others)) := by
  induction inside generalizing added with
  | nil =>
    rw [List.append_nil]
    exact .pure _
  | @cons range byte ranges others first later ih =>
    rw [nextByteInRange]
    refine .next ?_
    dsimp only
    rw [if_pos first]
    have taken := ih (added ++ [byte])
    rwa [List.append_assoc, List.singleton_append] at taken

/-- A turn of `scan_string` takes what stands for one code point. -/
theorem StringPiece.takes {written text : List UInt8} (one : StringPiece written text)
    (buffer : List UInt8) : Takes (scanStringTurn buffer) written (.inl (buffer ++ text)) := by
  cases one with
  -- Bytes that stand for themselves are those of one codepoint.
  | plain one free =>
    cases one with
    | @single byte small =>
      obtain ⟨control, quote, backslash⟩ := free byte rfl
      refine .next ?_
      dsimp only
      rw [if_neg quote, if_neg backslash, if_neg (UInt8.not_le.mpr control), if_pos small]
      exact .pure _
    | @sequence first ranges others known inside =>
      -- A byte that starts a sequence is none of the others.
      have large := utf8Ranges_large known
      have quote : first ≠ 0x22 := by
        rintro rfl
        exact large (by decide)
      have backslash : first ≠ 0x5c := by
        rintro rfl
        exact large (by decide)
      have control : ¬first ≤ 0x1f := fun small => large (UInt8.le_trans small (by decide))
      refine .next ?_
      dsimp only
      rw [if_neg quote, if_neg backslash, if_neg control, if_neg large, known]
      dsimp only
      rw [← List.append_nil others]
      refine Takes.bind (takes_nextByteInRange inside [first]) ?_
      rw [List.append_nil]
      exact .pure _
  -- An escape sequence stands for the bytes that it adds.
  | @escape written added one =>
    refine .next ?_
    dsimp only
    rw [if_neg (by decide), if_pos rfl, ← List.append_nil written]
    exact Takes.bind one.takes (.pure _)

/-- The turns of `scan_string` take what stands for a text. -/
theorem StringBody.reaches {written text : List UInt8} (body : StringBody written text)
    (buffer : List UInt8) (asked : Nat) (rest : List UInt8) :
    Reaches scanStringTurn (buffer, ⟨asked, written ++ rest⟩)
      (buffer ++ text, ⟨asked + written.length, rest⟩) := by
  -- The induction is on the codepoints of the text, with the buffer in front of them.
  induction body generalizing buffer asked with
  | nil =>
    rw [List.append_nil]
    exact .refl
  | @append written text others rest_ first later ih =>
    have taken := first.takes buffer asked (others ++ rest)
    have more := ih (buffer ++ text) (asked + written.length)
    rw [List.append_assoc, List.length_append, ← Nat.add_assoc, ← List.append_assoc buffer]
    exact reaches_turn taken more

/-- A string is taken with its closing quote. -/
theorem StringBody.takes {written text : List UInt8} (body : StringBody written text) :
    Takes scanString (written ++ [0x22]) (.valueString text) := by
  intro asked rest
  have run := body.reaches [] asked (0x22 :: rest)
  rw [List.append_assoc, List.length_append, ← Nat.add_assoc]
  -- The closing quote ends the loop, which has turns enough for every byte.
  exact Upholds.repeated_done (AtMost _ fun buffer => utf8Valid buffer = true)
    (fun _ _ holds => lexes_scanStringTurn holds.1 holds.2) ⟨Nat.le_refl _, rfl⟩ run rfl

section

variable (strtod : List UInt8 → UInt64)

/-- A character that leads to another label is put in the buffer. -/
theorem scanNumberTurn_go {label next : NumberState} {byte : UInt8}
    (leads : label.next byte = .go next) (type : NumberType) (buffer : List UInt8) (asked : Nat)
    (rest : List UInt8) :
    scanNumberTurn strtod ⟨label, type, buffer⟩ ⟨asked, byte :: rest⟩ =
      .ok (.inl ⟨next, label.type type, buffer ++ [byte]⟩, ⟨asked + 1, rest⟩) := by
  rw [scanNumberTurn, bind_eq]
  simp only [Reading.next, leads]
  rfl

/-- Labels that digits lead back to. -/
def NumberState.Loops (label : NumberState) : Prop :=
  (∀ digit ∈ decimalDigits, label.next digit = .go label) ∧ ∀ type, label.type type = type

theorem loops_any1 : NumberState.any1.Loops :=
  ⟨fun digit holds => by rw [NumberState.next, if_pos ((isDigit_iff digit).mpr holds)],
    fun _ => rfl⟩

theorem loops_decimal2 : NumberState.decimal2.Loops :=
  ⟨fun digit holds => by rw [NumberState.next, if_pos ((isDigit_iff digit).mpr holds)],
    fun _ => rfl⟩

theorem loops_any2 : NumberState.any2.Loops :=
  ⟨fun digit holds => by rw [NumberState.next, if_pos ((isDigit_iff digit).mpr holds)],
    fun _ => rfl⟩

/-- A loop puts all digits in the buffer. -/
theorem NumberState.Loops.reaches {label : NumberState} (loops : label.Loops) {digits : List UInt8}
    (each : ∀ digit ∈ digits, digit ∈ decimalDigits) (type : NumberType) (buffer : List UInt8)
    (asked : Nat) (rest : List UInt8) :
    Reaches (scanNumberTurn strtod) (⟨label, type, buffer⟩, ⟨asked, digits ++ rest⟩)
      (⟨label, type, buffer ++ digits⟩, ⟨asked + digits.length, rest⟩) := by
  induction digits generalizing buffer asked with
  | nil =>
    rw [List.append_nil]
    exact .refl
  -- Each digit leads back to the same state.
  | cons digit digits ih =>
    obtain ⟨first, others⟩ := List.forall_mem_cons.mp each
    have turn := scanNumberTurn_go strtod (loops.1 digit first) type buffer asked
      (digits ++ rest)
    rw [loops.2] at turn
    have more := ih others (buffer ++ [digit]) (asked + 1)
    rw [List.append_assoc, List.singleton_append, Nat.add_assoc, Nat.add_comm 1] at more
    exact reaches_turn turn more

/-- A label that the first digit leads from to a loop. -/
theorem reaches_digits {label next : NumberState} (loops : next.Loops)
    (leads : ∀ digit ∈ decimalDigits, label.next digit = .go next) {digits : List UInt8}
    (behind : DigitsWord digits) (type : NumberType) (buffer : List UInt8) (asked : Nat)
    (rest : List UInt8) :
    Reaches (scanNumberTurn strtod) (⟨label, type, buffer⟩, ⟨asked, digits ++ rest⟩)
      (⟨next, label.type type, buffer ++ digits⟩, ⟨asked + digits.length, rest⟩) := by
  obtain ⟨some_, each⟩ := behind
  cases digits with
  | nil => exact absurd rfl some_
  -- The first digit leads into the loop, and the others stay in it.
  | cons digit digits =>
    obtain ⟨first, others⟩ := List.forall_mem_cons.mp each
    have more := loops.reaches strtod others (label.type type) (buffer ++ [digit])
      (asked + 1) rest
    rw [List.append_assoc, List.singleton_append, Nat.add_assoc, Nat.add_comm 1] at more
    exact reaches_turn (scanNumberTurn_go strtod (leads digit first) type buffer asked _) more

/-- The labels that a number may end at. -/
theorem NumberWord.label {label : NumberState} {type : NumberType} {word : List UInt8}
    (number : NumberWord label type word) :
    label = .zero ∨ label = .any1 ∨ label = .decimal2 ∨ label = .any2 := by
  cases number with
  | unsigned part => cases part <;> simp
  | integer part => cases part <;> simp
  | fraction => simp
  | exponent => simp

/-- The lexer ends a number in front of exactly what does not go on with it. -/
theorem NumberWord.done_iff {label : NumberState} {type : NumberType} {word : List UInt8}
    (number : NumberWord label type word) (byte : UInt8) :
    label.next byte = .done ↔ byte ∉ label.goesOn := by
  -- There are four labels behind which a number may end.
  have digit := isDigit_iff byte
  have mark := isExponent_iff byte
  rcases number.label with rfl | rfl | rfl | rfl
  all_goals simp only [NumberState.next, NumberState.goesOn, List.mem_append, List.mem_cons,
    ← digit, ← mark]
  · grind
  · grind
  · grind
  · grind

/-- The turns of `scan_number` take a number up to its last label. -/
def NumberReached (label : NumberState) (type : NumberType)
    (word : List UInt8) : Prop :=
  ∃ first others before, word = first :: others ∧ (first = 0x2d ∨ first ∈ decimalDigits) ∧
    label.type before = type ∧ ∀ asked rest,
      Reaches (scanNumberTurn strtod)
        (⟨numberStart first, .unsigned, [first]⟩, ⟨asked, others ++ rest⟩)
        (⟨label, before, word⟩, ⟨asked + others.length, rest⟩)

variable {strtod}

/-- More of a number is reached behind what was reached. -/
theorem NumberReached.append {label next : NumberState} {type other : NumberType}
    {word behind : List UInt8} (before : NumberType)
    (reached : NumberReached strtod label type word)
    (same : next.type before = other)
    (more : ∀ current, label.type current = type → ∀ asked rest,
      Reaches (scanNumberTurn strtod) (⟨label, current, word⟩, ⟨asked, behind ++ rest⟩)
        (⟨next, before, word ++ behind⟩, ⟨asked + behind.length, rest⟩)) :
    NumberReached strtod next other (word ++ behind) := by
  obtain ⟨first, others, current, rfl, start, kind, reaches⟩ := reached
  refine ⟨first, others ++ behind, before, rfl, start, same, fun asked rest => ?_⟩
  have front := reaches asked (behind ++ rest)
  have back := more current kind (asked + others.length) rest
  rw [List.append_assoc, List.length_append, ← Nat.add_assoc]
  exact front.trans back

/-- The digits in front of a point are reached behind a minus sign as well as by themselves. -/
theorem IntegerPart.reached {label : NumberState} {word : List UInt8}
    (part : IntegerPart label word) :
    NumberReached strtod label .unsigned word ∧
      NumberReached strtod label .integer (0x2d :: word) := by
  cases part with
  -- No digit may stand behind a leading zero.
  | zero =>
    refine ⟨⟨0x30, [], .unsigned, rfl, .inr List.mem_cons_self, rfl, fun _ _ => .refl⟩,
      ⟨0x2d, [0x30], .integer, rfl, .inl rfl, rfl, fun asked rest => ?_⟩⟩
    exact reaches_turn (scanNumberTurn_go strtod rfl .unsigned [0x2d] asked rest) .refl
  | @any1 first others digit nonzero digits =>
    have minus : first ≠ 0x2d := by
      rintro rfl
      exact absurd digit (by decide)
    have start : numberStart first = .any1 := by rw [numberStart, if_neg minus, if_neg nonzero]
    refine ⟨⟨first, others, .unsigned, rfl, .inr digit, rfl, fun asked rest => ?_⟩,
      ⟨0x2d, first :: others, .integer, rfl, .inl rfl, rfl, fun asked rest => ?_⟩⟩
    · rw [start]
      exact loops_any1.reaches strtod digits .unsigned [first] asked rest
    · have leads : NumberState.minus.next first = .go .any1 := by
        rw [NumberState.next, if_neg nonzero, if_pos ((isDigit_iff first).mpr digit)]
      have more := loops_any1.reaches strtod digits .integer [0x2d, first]
        (asked + 1) rest
      rw [Nat.add_assoc, Nat.add_comm 1] at more
      exact reaches_turn (scanNumberTurn_go strtod leads .unsigned [0x2d] asked _) more

/-- A number is reached from its first character on. -/
theorem NumberWord.reached {label : NumberState} {type : NumberType} {word : List UInt8}
    (number : NumberWord label type word) : NumberReached strtod label type word := by
  -- The induction is on the parts of the number, each of which ends at a label of its own.
  induction number with
  | unsigned part => exact part.reached.1
  | integer part => exact part.reached.2
  | @fraction label type word digits number whole behind ih =>
    -- The point leads away from both labels that the digits in front of it may end at.
    have leads : label.next 0x2e = .go .decimal1 := by rcases whole with rfl | rfl <;> rfl
    refine ih.append .float rfl fun current kind asked rest => ?_
    have point : ∀ digit ∈ decimalDigits,
        NumberState.decimal1.next digit = .go .decimal2 := fun digit holds => by
      rw [NumberState.next, if_pos ((isDigit_iff digit).mpr holds)]
    have more := reaches_digits strtod loops_decimal2 point behind (label.type current)
      (word ++ [0x2e]) (asked + 1) rest
    rw [List.append_assoc, List.singleton_append, Nat.add_assoc, Nat.add_comm 1] at more
    exact reaches_turn (scanNumberTurn_go strtod leads current word asked _) more
  | @exponent label type word sign digits letter number none_ mark signed behind ih =>
    -- The letter leads to the exponent unless there is one already.
    have leads : label.next letter = .go .exponent := by
      have letters : letter = 0x65 ∨ letter = 0x45 := by
        simpa [exponentLetters] using mark
      rcases number.label with rfl | rfl | rfl | rfl
      · rcases letters with rfl | rfl <;> rfl
      · rcases letters with rfl | rfl <;> rfl
      · rcases letters with rfl | rfl <;> rfl
      · exact absurd rfl none_
    refine ih.append .float rfl fun current kind asked rest => ?_
    refine reaches_turn (scanNumberTurn_go strtod leads current word asked _) ?_
    -- Digits may stand directly behind the letter, or a sign does.
    rcases signed with rfl | sign_
    · have digit_ : ∀ digit ∈ decimalDigits,
          NumberState.exponent.next digit = .go .any2 := fun digit holds => by
        have unsigned : ¬(digit = 0x2b ∨ digit = 0x2d) := by
          rintro (rfl | rfl) <;> exact absurd holds (by decide)
        rw [NumberState.next, if_neg unsigned, if_pos ((isDigit_iff digit).mpr holds)]
      have more := reaches_digits strtod loops_any2 digit_ behind (label.type current)
        (word ++ [letter]) (asked + 1) rest
      rw [List.append_assoc, List.singleton_append, Nat.add_assoc, Nat.add_comm 1] at more
      exact more
    · obtain ⟨byte, rfl, marks⟩ : ∃ byte, sign = [byte] ∧ (byte = 0x2b ∨ byte = 0x2d) := by
        rcases sign_ with rfl | rfl
        · exact ⟨_, rfl, .inl rfl⟩
        · exact ⟨_, rfl, .inr rfl⟩
      have signed : NumberState.exponent.next byte = .go .sign := by
        rw [NumberState.next, if_pos marks]
      have first : ∀ digit ∈ decimalDigits,
          NumberState.sign.next digit = .go .any2 := fun digit holds => by
        rw [NumberState.next, if_pos ((isDigit_iff digit).mpr holds)]
      have more := reaches_digits strtod loops_any2 first behind .float
        (word ++ [letter] ++ [byte]) (asked + 1 + 1) rest
      have turn := scanNumberTurn_go strtod signed (label.type current)
        (word ++ [letter]) (asked + 1) (digits ++ rest)
      have whole := reaches_turn turn more
      simp only [List.append_assoc, List.cons_append, List.nil_append, List.length_cons,
        Nat.add_assoc, Nat.add_comm 1] at whole ⊢
      exact whole

/-- A number is taken up to a character that does not go on with it. -/
theorem NumberWord.takes {label : NumberState} {type : NumberType} {word : List UInt8}
    (number : NumberWord label type word) :
    ∃ first others, word = first :: others ∧ (first = 0x2d ∨ first ∈ decimalDigits) ∧
      ∀ asked rest, (∀ byte ∈ rest.head?, label.next byte = .done) →
        scanNumber strtod first ⟨asked, others ++ rest⟩ =
          .ok (numberToken strtod type word, ⟨asked + others.length, rest⟩) := by
  -- The turns reach the last label of the number, and what follows there ends the loop.
  obtain ⟨first, others, before, same, start, kind, reaches⟩ :=
    @NumberWord.reached strtod _ _ _ number
  refine ⟨first, others, same, start, fun asked rest ended => ?_⟩
  refine Upholds.repeated_done (AtMost _ fun _ => True)
    (fun scan _ holds => lexes_scanNumberTurn scan holds.1) ⟨Nat.le_refl _, trivial⟩
    (reaches asked rest) ?_
  -- The digits are all in the buffer, and what is behind them ends the loop.
  rw [← kind, scanNumberTurn, bind_eq]
  cases rest with
  | nil =>
    have done : label.atEnd = .done := by
      rcases number.label with rfl | rfl | rfl | rfl <;> rfl
    simp only [Reading.next, done]
    rfl
  | cons byte rest =>
    have done : label.next byte = .done := ended byte rfl
    simp only [Reading.next, done]
    rfl

/-- Whitespace in front of something else is skipped. -/
theorem skipFrom_blank {blank : List UInt8} (blanks : ∀ byte ∈ blank, byte ∈ whitespace)
    (asked : Nat) (rest : List UInt8) :
    skipFrom isWhitespace asked (blank ++ rest) =
      skipFrom isWhitespace (asked + blank.length) rest := by
  induction blank generalizing asked with
  | nil => rfl
  | cons byte blank ih =>
    obtain ⟨first, others⟩ := List.forall_mem_cons.mp blanks
    rw [List.cons_append, skipFrom, if_pos ((isWhitespace_iff byte).mpr first), ih others,
      List.length_cons, Nat.add_assoc, Nat.add_comm 1]

/-- What is no byte order mark is scanned alike wherever it stands. -/
theorem scan_eq {cursor : Cursor UInt8}
    (other : cursor.asked = 0 → cursor.rest.head? ≠ some 0xef) :
    scan strtod cursor = scanToken strtod (skipFrom isWhitespace cursor.asked cursor.rest).1
      (skipFrom isWhitespace cursor.asked cursor.rest).2 := by
  obtain ⟨asked, rest⟩ := cursor
  -- Only in front of everything could there be a mark.
  have skipped : (if asked = 0 then skipBom ⟨asked, rest⟩ else .ok (true, ⟨asked, rest⟩)) =
      .ok (true, ⟨asked, rest⟩) := by
    split
    · rename_i front
      have differs : rest.head? ≠ some 0xef := other front
      subst front
      cases rest with
      | nil => rfl
      | cons first rest =>
        rw [List.head?_cons] at differs
        rw [skipBom, bind_eq]
        simp only [Reading.next]
        rw [if_neg differs]
        rfl
    · rfl
  rw [scan, bind_eq]
  dsimp only
  rw [skipped]
  rfl

/-- The first character of a number is none of the others. -/
theorem scanToken_number {first : UInt8} (start : first = 0x2d ∨ first ∈ decimalDigits) :
    scanToken strtod (some first) = scanNumber strtod first := by
  have others : ∀ byte ∈ 0x2d :: decimalDigits,
      byte ≠ 0x5b ∧ byte ≠ 0x5d ∧ byte ≠ 0x7b ∧ byte ≠ 0x7d ∧ byte ≠ 0x3a ∧ byte ≠ 0x2c ∧
        byte ≠ 0x74 ∧ byte ≠ 0x66 ∧ byte ≠ 0x6e ∧ byte ≠ 0x22 := by simp [decimalDigits]
  obtain ⟨array, arrayEnd, object, objectEnd, colon, comma, true_, false_, null, quote⟩ :=
    others first (List.mem_cons.mpr start)
  simp only [scanToken, if_neg array, if_neg arrayEnd, if_neg object, if_neg objectEnd,
    if_neg colon, if_neg comma, if_neg true_, if_neg false_, if_neg null, if_neg quote]
  exact if_pos (start.imp_right (isDigit_iff first).mpr)

/-- The letters of a literal are taken. -/
theorem takes_scanLiteral (token : Token) (letters : List UInt8) :
    Takes (scanLiteral token letters) letters token := by
  induction letters with
  | nil => exact .pure token
  | cons letter letters ih =>
    rw [scanLiteral]
    refine .next ?_
    rw [if_pos rfl]
    exact ih

/-- A word is taken from its first character on, which is no whitespace. -/
theorem Lexeme.takes {word : List UInt8} {token : Token} {follow : UInt8 → Prop}
    (lexeme : Lexeme strtod word token follow) :
    ∃ first others, word = first :: others ∧ isWhitespace first = false ∧ first ≠ 0xef ∧
      ∀ asked rest, (∀ byte ∈ rest.head?, ¬follow byte) →
        scanToken strtod (some first) ⟨asked, others ++ rest⟩ =
          .ok (token, ⟨asked + others.length, rest⟩) := by
  cases lexeme with
  -- The closing quote ends the string, whatever follows.
  | string body =>
    exact ⟨0x22, _, rfl, rfl, by decide, fun asked rest _ => body.takes asked rest⟩
  | @number label type word number =>
    obtain ⟨first, others, rfl, start, taken⟩ := @NumberWord.takes strtod _ _ _ number
    have plain : ∀ byte ∈ 0x2d :: decimalDigits, isWhitespace byte = false ∧ byte ≠ 0xef := by
      simp [decimalDigits, isWhitespace]
    obtain ⟨solid, unmarked⟩ := plain first (List.mem_cons.mpr start)
    refine ⟨first, others, rfl, solid, unmarked,
      fun asked rest ended => ?_⟩
    -- The number ends in front of what does not go on with it.
    rw [scanToken_number start]
    exact taken asked rest fun byte head => (number.done_iff byte).mpr (ended byte head)
  | literalTrue | literalFalse | literalNull =>
    exact ⟨_, _, rfl, rfl, by decide, fun asked rest _ => takes_scanLiteral _ _ asked rest⟩
  | _ => exact ⟨_, [], rfl, rfl, by decide, fun _ _ _ => rfl⟩

/-- A word is scanned as its token, behind any whitespace. -/
theorem Lexeme.scans {word : List UInt8} {token : Token} {follow : UInt8 → Prop}
    (lexeme : Lexeme strtod word token follow) (blank : List UInt8)
    (blanks : ∀ byte ∈ blank, byte ∈ whitespace) (asked : Nat) {rest : List UInt8}
    (ended : ∀ byte ∈ rest.head?, ¬follow byte) :
    scan strtod ⟨asked, blank ++ (word ++ rest)⟩ =
      .ok (token, ⟨asked + (blank ++ word).length, rest⟩) := by
  obtain ⟨first, others, rfl, solid, plain, taken⟩ := lexeme.takes
  -- Neither whitespace nor the first byte of a word starts a mark.
  have front : (blank ++ (first :: others ++ rest)).head? ≠ some 0xef := by
    cases blank with
    | nil => exact fun same => plain (Option.some.inj same)
    | cons byte blank =>
      rintro same
      obtain rfl := Option.some.inj same
      exact absurd (blanks _ List.mem_cons_self) (by decide)
  rw [scan_eq fun _ => front, skipFrom_blank blanks, List.cons_append, skipFrom,
    if_neg (Bool.not_eq_true _ ▸ solid), taken _ _ ended]
  simp only [List.length_append, List.length_cons, Nat.add_assoc, Nat.add_comm 1]

end

end Esme
