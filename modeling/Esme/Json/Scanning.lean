import Esme.Json.Lexemes

/-! That the lexer takes nothing but the words that JSON has for tokens. -/

namespace Esme

open Reading

variable {cursor : Cursor UInt8}

/-- What is asked for was in front of what is left. -/
theorem ensures_next : Ensures (next : ByteReading (Option UInt8)) cursor fun symbol after =>
    cursor.rest = symbol.toList ++ after.rest := by
  intro symbol after same
  obtain ⟨asked, rest⟩ := cursor
  cases rest with
  | nil => cases same; rfl
  | cons first rest => cases same; rfl

/-- Where there is nothing to ask for, nothing is left. -/
theorem rest_of_next {after : Cursor UInt8}
    (none_ : (next : ByteReading (Option UInt8)) cursor = .ok (none, after)) :
    cursor.rest = [] ∧ after.rest = [] := by
  obtain ⟨asked, rest⟩ := cursor
  cases rest with
  | nil => cases none_; exact ⟨rfl, rfl⟩
  | cons first rest => cases none_

/-- A number comes from hexadecimal digits. -/
theorem ensures_getCodepointFrom (count codepoint : Nat) :
    Ensures (getCodepointFrom count codepoint) cursor fun result after => ∀ number,
      result = some number → ∃ letters value, HexDigits count letters value ∧
        number = codepoint + value ∧ cursor.rest = letters ++ after.rest := by
  -- The induction is on the digits that are still to come.
  induction count generalizing codepoint cursor with
  | zero => exact .pure fun number same => ⟨[], 0, .nil, (Option.some.inj same).symm, rfl⟩
  | succ count ih =>
    refine ensures_next.bind fun symbol between front => ?_
    cases known : symbol.bind hexValue with
    | none => exact .pure nofun
    | some digit =>
      obtain ⟨letter, rfl, known⟩ := Option.bind_eq_some_iff.mp known
      intro result after same number some_
      obtain ⟨letters, value, digits, rfl, rest⟩ :=
        ih (codepoint + digit * 2 ^ (4 * count)) result after same number some_
      exact ⟨letter :: letters, _, .cons (hexValue_iff.mp known) digits, Nat.add_assoc _ _ _,
        by rw [front, rest]; rfl⟩

/-- A code point comes from what may stand behind `\u`. -/
theorem ensures_scanCodepoint :
    Ensures scanCodepoint cursor fun result after => ∀ codepoint, result = some codepoint →
      ∃ letters, EscapeWord (0x75 :: letters) (codepointBytes codepoint) ∧
        cursor.rest = letters ++ after.rest := by
  -- Whatever is returned as a code point was one group of digits or two surrogates.
  refine (ensures_getCodepointFrom 4 0).bind fun codepoint1 between first => ?_
  cases codepoint1 with
  | none => exact .pure nofun
  | some codepoint1 =>
    obtain ⟨letters, value, digits, rfl, front⟩ := first _ rfl
    rw [Nat.zero_add]
    dsimp only
    split
    · -- Behind a high surrogate another `\u` and a low surrogate are required.
      rename_i high
      refine ensures_next.bind fun symbol next_ backslash => ?_
      split
      · rename_i same
        subst same
        refine ensures_next.bind fun symbol letter u => ?_
        split
        · rename_i same
          subst same
          refine (ensures_getCodepointFrom 4 0).bind fun codepoint2 last second => ?_
          cases codepoint2 with
          | none => exact .pure nofun
          | some codepoint2 =>
            obtain ⟨others, low, more, rfl, back⟩ := second _ rfl
            rw [Nat.zero_add]
            dsimp only
            split
            · rename_i isLow
              refine .pure fun codepoint same => ?_
              obtain rfl := Option.some.inj same
              exact ⟨letters ++ 0x5c :: 0x75 :: others, .surrogates digits more high isLow,
                by rw [front, backslash, u, back]; simp⟩
            · exact .pure nofun
        · exact .pure nofun
      · exact .pure nofun
    split
    · -- A low surrogate by itself is an error.
      exact .pure nofun
    · refine .pure fun codepoint same => ?_
      obtain rfl := Option.some.inj same
      exact ⟨letters, .codepoint digits (by omega), front⟩

/-- What is added for an escape comes from one. -/
theorem ensures_scanEscape :
    Ensures scanEscape cursor fun result after => ∀ added, result = some added →
      ∃ written, EscapeWord written added ∧ cursor.rest = written ++ after.rest := by
  refine ensures_next.bind fun symbol between front => ?_
  split
  · rename_i same
    subst same
    refine ensures_scanCodepoint.bind fun codepoint after scanned => .pure fun added same => ?_
    obtain ⟨value, known, rfl⟩ := Option.map_eq_some_iff.mp same
    obtain ⟨letters, word, back⟩ := scanned value known
    exact ⟨0x75 :: letters, word, by rw [front, back]; rfl⟩
  · refine .pure fun added same => ?_
    obtain ⟨byte, known, rfl⟩ := Option.map_eq_some_iff.mp same
    obtain ⟨letter, rfl, known⟩ := Option.bind_eq_some_iff.mp known
    exact ⟨[letter], .letter (escaped_iff.mp known), front⟩

/-- What is added behind a first byte comes from bytes in the ranges. -/
theorem ensures_nextByteInRange (ranges : List (UInt8 × UInt8)) (added : List UInt8) :
    Ensures (nextByteInRange ranges added) cursor fun result after => ∀ word,
      result = some word → ∃ others, InRanges ranges others ∧ word = added ++ others ∧
        cursor.rest = others ++ after.rest := by
  -- The induction is on the ranges that are still to come.
  induction ranges generalizing added cursor with
  | nil =>
    exact .pure fun word same => ⟨[], .nil, by rw [List.append_nil, Option.some.inj same], rfl⟩
  | cons range ranges ih =>
    refine ensures_next.bind fun symbol between front => ?_
    cases symbol with
    | none => exact .pure nofun
    | some current =>
      dsimp only
      split
      · rename_i first
        intro result after same word some_
        obtain ⟨others, inside, rfl, rest⟩ := ih (added ++ [current]) result after same word some_
        exact ⟨current :: others, .cons first inside,
          by rw [List.append_assoc, List.singleton_append], by rw [front, rest]; rfl⟩
      · exact .pure nofun

/-- A turn of `scan_string` takes what stands for one code point, or the closing quote. -/
theorem ensures_scanStringTurn (buffer : List UInt8) :
    Ensures (scanStringTurn buffer) cursor fun result after =>
      match result with
      | .inl longer => ∃ written text, StringPiece written text ∧ longer = buffer ++ text ∧
          cursor.rest = written ++ after.rest
      | .inr token => token = .parseError ∨
          token = .valueString buffer ∧ cursor.rest = 0x22 :: after.rest := by
  -- The branches are those of the switch on the character.
  refine ensures_next.bind fun symbol between front => ?_
  cases symbol with
  | none => exact .pure (.inl rfl)
  | some current =>
    dsimp only
    split
    · rename_i quote
      subst quote
      -- The quote ends the string with what is in the buffer.
      exact .pure (.inr ⟨rfl, front⟩)
    rename_i quote
    split
    · rename_i backslash
      subst backslash
      refine ensures_scanEscape.bind fun added after escape => ?_
      cases added with
      | none => exact .pure (.inl rfl)
      | some added =>
        obtain ⟨written, word, back⟩ := escape added rfl
        exact .pure ⟨0x5c :: written, added, .escape word, rfl, by rw [front, back]; rfl⟩
    rename_i backslash
    split
    · -- A control character is an error.
      exact .pure (.inl rfl)
    rename_i control
    split
    · rename_i small
      refine .pure ⟨[current], [current], .plain (.single small) ?_, rfl, front⟩
      rintro byte same
      obtain rfl : current = byte := (List.cons.inj same).1
      exact ⟨UInt8.not_le.mp control, quote, backslash⟩
    rename_i large
    -- The byte is the first of a sequence of UTF-8, or it is an error.
    cases known : utf8Ranges current with
    | none => exact .pure (.inl rfl)
    | some ranges =>
      refine (ensures_nextByteInRange ranges [current]).bind fun word after sequence => ?_
      cases word with
      | none => exact .pure (.inl rfl)
      | some word =>
        obtain ⟨others, inside, rfl, back⟩ := sequence word rfl
        refine .pure ⟨_, _, .plain (.sequence known inside) ?_, rfl, by rw [front, back]; rfl⟩
        rintro byte same
        obtain ⟨rfl, _⟩ := List.cons.inj same
        exact ⟨UInt8.not_le.mp control, quote, backslash⟩

/-- One more piece of a string. -/
theorem StringBody.snoc {written text piece added : List UInt8} (body : StringBody written text)
    (last : StringPiece piece added) : StringBody (written ++ piece) (text ++ added) := by
  -- The induction is on the pieces in front of the last one.
  induction body with
  | nil =>
    have single := StringBody.append last .nil
    rwa [List.append_nil, List.append_nil] at single
  | append first _ ih =>
    rw [List.append_assoc, List.append_assoc]
    exact .append first ih

/-- A string token comes from a string. -/
theorem ensures_scanString :
    Ensures scanString cursor fun token after => token = .parseError ∨
      ∃ written text, token = .valueString text ∧ StringBody written text ∧
        cursor.rest = written ++ 0x22 :: after.rest := by
  -- The buffer always holds what the bytes taken so far stand for.
  refine .repeated (fun buffer between => ∃ written, StringBody written buffer ∧
    cursor.rest = written ++ between.rest) (fun buffer between taken => ?_) ⟨[], .nil, rfl⟩
  obtain ⟨written, body, front⟩ := taken
  intro result after same
  have turn := ensures_scanStringTurn buffer result after same
  cases result with
  | inl longer =>
    obtain ⟨piece, text, stands, rfl, back⟩ := turn
    exact ⟨written ++ piece, body.snoc stands, by rw [front, back, List.append_assoc]⟩
  | inr token =>
    rcases turn with rfl | ⟨rfl, back⟩
    · exact .inl rfl
    · exact .inr ⟨written, buffer, rfl, body, by rw [front, back]⟩

/-- What has been scanned of a number at a label. -/
def NumberScan.HasScanned (scan : NumberScan) : Prop :=
  match scan.label with
  | .minus => scan.buffer = [0x2d]
  | .decimal1 => ∃ label type word, NumberWord label type word ∧
      (label = .zero ∨ label = .any1) ∧ scan.buffer = word ++ [0x2e]
  | .exponent => ∃ label type word letter, NumberWord label type word ∧ label ≠ .any2 ∧
      letter ∈ exponentLetters ∧ scan.buffer = word ++ [letter]
  | .sign => scan.type = .float ∧ ∃ label type word letter mark, NumberWord label type word ∧
      label ≠ .any2 ∧ letter ∈ exponentLetters ∧ (mark = 0x2b ∨ mark = 0x2d) ∧
      scan.buffer = word ++ [letter, mark]
  | label => NumberWord label (label.type scan.type) scan.buffer

/-- A digit is one. -/
theorem digitsWord_singleton {digit : UInt8} (holds : digit ∈ decimalDigits) : DigitsWord [digit] :=
  ⟨List.cons_ne_nil _ _, List.forall_mem_singleton.mpr holds⟩

/-- More digits are digits. -/
theorem DigitsWord.snoc {digits : List UInt8} {digit : UInt8} (word : DigitsWord digits)
    (holds : digit ∈ decimalDigits) : DigitsWord (digits ++ [digit]) :=
  ⟨by simp, List.forall_mem_append.mpr ⟨word.2, List.forall_mem_singleton.mpr holds⟩⟩

/-- A number that ends with digits goes on with another one. -/
theorem NumberWord.digit {label : NumberState} {type : NumberType} {word : List UInt8}
    (number : NumberWord label type word) (more : label ≠ .zero) {digit : UInt8}
    (holds : digit ∈ decimalDigits) : NumberWord label type (word ++ [digit]) := by
  -- Behind a leading zero there is no digit, and behind other digits there may be.
  have part : ∀ {label : NumberState} {word : List UInt8}, IntegerPart label word →
      label ≠ .zero → IntegerPart label (word ++ [digit]) := fun part more => by
    cases part with
    | zero => exact absurd rfl more
    | any1 first nonzero digits =>
      exact .any1 first nonzero (List.forall_mem_append.mpr
        ⟨digits, List.forall_mem_singleton.mpr holds⟩)
  cases number with
  | unsigned whole => exact .unsigned (part whole more)
  | integer whole => exact .integer (part whole more)
  | fraction number whole behind =>
    rw [List.append_assoc]
    exact .fraction number whole (behind.snoc holds)
  | exponent number none_ mark signed behind =>
    rw [List.append_assoc, List.cons_append, List.append_assoc]
    exact .exponent number none_ mark signed (behind.snoc holds)

/-- A number that has no exponent yet goes on with one. -/
theorem hasScanned_exponent {label : NumberState} {type current : NumberType} {word : List UInt8}
    (number : NumberWord label type word) (none_ : label ≠ .any2) {letter : UInt8}
    (mark : letter ∈ exponentLetters) :
    NumberScan.HasScanned ⟨.exponent, current, word ++ [letter]⟩ :=
  ⟨label, type, word, letter, number, none_, mark, rfl⟩

/-- What has been scanned goes on with a character that leads to another label. -/
theorem hasScanned_go {label next : NumberState} {type : NumberType} {buffer : List UInt8}
    {byte : UInt8} (scanned : NumberScan.HasScanned ⟨label, type, buffer⟩)
    (leads : label.next byte = .go next) :
    NumberScan.HasScanned ⟨next, label.type type, buffer ++ [byte]⟩ := by
  -- One case for each label, with the characters that lead away from it.
  cases label with
  | minus =>
    obtain rfl : buffer = [0x2d] := scanned
    rw [NumberState.next] at leads
    split at leads
    · rename_i zero
      cases leads
      subst zero
      exact NumberWord.integer .zero
    split at leads
    · rename_i nonzero digit
      cases leads
      exact NumberWord.integer
        (.any1 ((isDigit_iff byte).mp digit) nonzero (List.forall_mem_nil _))
    · cases leads
  | zero =>
    rw [NumberState.next] at leads
    split at leads
    · rename_i point
      cases leads
      exact ⟨_, _, buffer, scanned, .inl rfl, by rw [point]⟩
    split at leads
    · rename_i mark
      cases leads
      exact hasScanned_exponent scanned (by simp) ((isExponent_iff byte).mp mark)
    · cases leads
  | any1 =>
    rw [NumberState.next] at leads
    split at leads
    · rename_i digit
      cases leads
      exact NumberWord.digit scanned (by simp) ((isDigit_iff byte).mp digit)
    split at leads
    · rename_i point
      cases leads
      exact ⟨_, _, buffer, scanned, .inr rfl, by rw [point]⟩
    split at leads
    · rename_i mark
      cases leads
      exact hasScanned_exponent scanned (by simp) ((isExponent_iff byte).mp mark)
    · cases leads
  | decimal1 =>
    obtain ⟨label, type, word, number, whole, rfl⟩ := scanned
    rw [NumberState.next] at leads
    split at leads
    · rename_i digit
      cases leads
      -- The first digit behind the point makes a fraction.
      rw [List.append_assoc]
      exact NumberWord.fraction number whole
        (digitsWord_singleton ((isDigit_iff byte).mp digit))
    · cases leads
  | decimal2 =>
    rw [NumberState.next] at leads
    split at leads
    · rename_i digit
      cases leads
      exact NumberWord.digit scanned (by simp) ((isDigit_iff byte).mp digit)
    split at leads
    · rename_i mark
      cases leads
      exact hasScanned_exponent scanned (by simp) ((isExponent_iff byte).mp mark)
    · cases leads
  | exponent =>
    obtain ⟨label, type, word, letter, number, none_, mark, rfl⟩ := scanned
    rw [NumberState.next] at leads
    split at leads
    · rename_i sign
      cases leads
      exact ⟨rfl, label, type, word, letter, byte, number, none_, mark, sign, by simp⟩
    split at leads
    · rename_i digit
      cases leads
      -- A digit directly behind the letter is one of the exponent.
      rw [List.append_assoc]
      exact NumberWord.exponent number none_ mark (.inl rfl)
        (digitsWord_singleton ((isDigit_iff byte).mp digit))
    · cases leads
  | sign =>
    obtain ⟨rfl, label, type, word, letter, sign, number, none_, mark, signs, rfl⟩ := scanned
    rw [NumberState.next] at leads
    split at leads
    · rename_i digit
      cases leads
      rw [List.append_assoc]
      -- The sign is the one that was scanned.
      have signed : [sign] = [] ∨ [sign] = [0x2b] ∨ [sign] = [0x2d] :=
        .inr (signs.imp (by rintro rfl; rfl) (by rintro rfl; rfl))
      exact NumberWord.exponent number none_ mark signed
        (digitsWord_singleton ((isDigit_iff byte).mp digit))
    · cases leads
  | any2 =>
    rw [NumberState.next] at leads
    split at leads
    · rename_i digit
      cases leads
      exact NumberWord.digit scanned (by simp) ((isDigit_iff byte).mp digit)
    · cases leads

/-- Where a number is done, all of it has been scanned. -/
theorem hasScanned_done {scan : NumberScan} (scanned : scan.HasScanned)
    (done : scan.label.atEnd = .done) :
    NumberWord scan.label (scan.label.type scan.type) scan.buffer := by
  obtain ⟨label, type, buffer⟩ := scan
  cases label with
  -- At these labels what has been scanned is a number.
  | zero | any1 | decimal2 | any2 => exact scanned
  | minus | decimal1 | exponent | sign => cases done

/-- A label that a character ends the number at is one that the input may end at. -/
theorem atEnd_of_done {label : NumberState} {byte : UInt8} (done : label.next byte = .done) :
    label.atEnd = .done := by
  cases label with
  | zero | any1 | decimal2 | any2 => rfl
  | minus | decimal1 | exponent | sign =>
    simp only [NumberState.next] at done
    split at done
    · cases done
    first
    | cases done
    | split at done <;> cases done

variable {strtod : List UInt8 → UInt64}

/-- A number token comes from a number, in front of something that does not go on with it. -/
theorem ensures_scanNumber {first : UInt8} (start : first = 0x2d ∨ first ∈ decimalDigits) :
    Ensures (scanNumber strtod first) cursor fun token after => token = .parseError ∨
      ∃ label type word, token = numberToken strtod type word ∧ NumberWord label type word ∧
        (∀ byte ∈ after.rest.head?, label.next byte = .done) ∧
        first :: cursor.rest = word ++ after.rest := by
  -- The invariant of the loop: the buffer is what has been scanned, and the rest is behind it.
  refine .repeated (fun scan between => scan.HasScanned ∧
    first :: cursor.rest = scan.buffer ++ between.rest) (fun scan between taken => ?_) ⟨?_, rfl⟩
  · obtain ⟨scanned, front⟩ := taken
    refine (Ensures.refl _).bind fun symbol after asked => ?_
    have behind := ensures_next symbol after asked
    cases symbol with
    | none =>
      -- The input ends, and the number with it if it may end here.
      obtain ⟨-, empty⟩ := rest_of_next asked
      dsimp only
      cases done : scan.label.atEnd with
      | done =>
        refine (Ensures.refl _).bind fun _ last given => .pure (.inr ?_)
        cases given
        refine ⟨_, _, _, rfl, hasScanned_done scanned done, ?_, by rw [front, behind]⟩
        rintro byte head
        rw [empty] at head
        cases head
      | go label => exact .pure (.inl rfl)
      | refused => exact .pure (.inl rfl)
    | some byte =>
      dsimp only
      cases leads : scan.label.next byte with
      | go label =>
        exact .pure ⟨hasScanned_go scanned leads, by
          rw [front, behind, List.append_assoc]; rfl⟩
      | done =>
        -- The byte is not part of the number, and is given back.
        refine (Ensures.refl _).bind fun _ last given => .pure (.inr ?_)
        cases given
        refine ⟨_, _, _, rfl, hasScanned_done scanned (atEnd_of_done leads), ?_, ?_⟩
        · rintro other head
          obtain rfl : byte = other := Option.some.inj head
          exact leads
        · rw [front, behind]
      | refused => exact .pure (.inl rfl)
  · -- The first character is scanned before the loop begins.
    rw [numberStart]
    split
    · rename_i minus
      exact congrArg (fun byte => [byte]) minus
    rename_i minus
    have digit := start.resolve_left minus
    split
    · rename_i zero
      subst zero
      exact NumberWord.unsigned .zero
    · rename_i nonzero
      exact NumberWord.unsigned (.any1 digit nonzero (List.forall_mem_nil _))

/-- A literal comes from its letters. -/
theorem ensures_scanLiteral (token : Token) (letters : List UInt8) :
    Ensures (scanLiteral token letters) cursor fun result after => result = .parseError ∨
      result = token ∧ cursor.rest = letters ++ after.rest := by
  induction letters generalizing cursor with
  | nil => exact .pure (.inr ⟨rfl, rfl⟩)
  -- Each letter must be the next byte.
  | cons letter letters ih =>
    refine ensures_next.bind fun symbol between front => ?_
    split
    · rename_i same
      subst same
      intro result after same
      rcases ih result after same with failed | ⟨whole, rest⟩
      · exact .inl failed
      · exact .inr ⟨whole, by rw [front, rest]; rfl⟩
    · exact .pure (.inl rfl)

/-- What the switch of `scan` makes of the text from a first character on. -/
def Scanned.From (strtod : List UInt8 → UInt64) (text : List UInt8) (token : Token)
    (after : Cursor UInt8) : Prop :=
  token = .parseError ∨ (token = .endOfInput ∧ text.head? = some 0) ∨
    ∃ word follow, Lexeme strtod word token follow ∧ (∀ byte ∈ after.rest.head?, ¬follow byte) ∧
      text = word ++ after.rest

/-- The switch of `scan` takes a word, or finds the null byte, or fails. -/
theorem ensures_scanToken (first : UInt8) :
    Ensures (scanToken strtod (some first)) cursor
      (Scanned.From strtod (first :: cursor.rest)) := by
  -- A character that is a token by itself.
  have plain : ∀ byte token, Lexeme strtod [byte] token (fun _ => False) → first = byte →
      Ensures (pure token : ByteReading Token) cursor
        (Scanned.From strtod (first :: cursor.rest)) := by
    rintro byte token lexeme rfl
    exact .pure (.inr (.inr ⟨_, _, lexeme, fun _ _ => not_false, rfl⟩))
  -- A letter that only one literal begins with.
  have literal : ∀ byte token letters,
      Lexeme strtod (byte :: letters) token (fun _ => False) → first = byte →
      Ensures (scanLiteral token letters) cursor
        (Scanned.From strtod (first :: cursor.rest)) := by
    rintro byte token letters lexeme rfl result after same
    rcases ensures_scanLiteral token letters result after same with failed | ⟨rfl, rest⟩
    · exact .inl failed
    · exact .inr (.inr ⟨_, _, lexeme, fun _ _ => not_false, by rw [rest]; rfl⟩)
  refine .ite (plain _ _ .beginArray) fun _ => .ite (plain _ _ .endArray) fun _ =>
    .ite (plain _ _ .beginObject) fun _ => .ite (plain _ _ .endObject) fun _ =>
    .ite (plain _ _ .nameSeparator) fun _ => .ite (plain _ _ .valueSeparator) fun _ =>
    .ite (literal _ _ _ .literalTrue) fun _ => .ite (literal _ _ _ .literalFalse) fun _ =>
    .ite (literal _ _ _ .literalNull) fun _ => .ite (fun quote => ?_) fun _ =>
    .ite (fun start => ?_) fun _ => .ite (fun null => ?_) fun _ => .pure (.inl rfl)
  · intro token after same
    rcases ensures_scanString token after same with failed | ⟨written, text, rfl, body, front⟩
    · exact .inl failed
    · exact .inr (.inr ⟨_, _, .string body, fun _ _ => not_false, by rw [quote, front]; simp⟩)
  · intro token after same
    rcases ensures_scanNumber (start.imp_right (isDigit_iff first).mp) token after same with
      failed | ⟨label, type, word, rfl, number, ended, front⟩
    · exact .inl failed
    · exact .inr (.inr ⟨word, _, .number number,
        fun byte head => (number.done_iff byte).mp (ended byte head), front⟩)
  · exact .pure (.inr (.inl ⟨rfl, congrArg some null⟩))

/-- What is skipped is in front of what is found. -/
theorem skipFrom_front (asked : Nat) (text : List UInt8) :
    ∃ blank, (∀ byte ∈ blank, byte ∈ whitespace) ∧
      text = blank ++ ((skipFrom isWhitespace asked text).1.toList ++
        (skipFrom isWhitespace asked text).2.rest) := by
  induction text generalizing asked with
  | nil => exact ⟨[], nofun, rfl⟩
  | cons byte rest ih =>
    rw [skipFrom]
    split
    · rename_i skipped
      obtain ⟨blank, blanks, front⟩ := ih (asked + 1)
      exact ⟨byte :: blank, List.forall_mem_cons.mpr ⟨(isWhitespace_iff byte).mp skipped, blanks⟩,
        congrArg (byte :: ·) front⟩
    · exact ⟨[], nofun, rfl⟩

end Esme
