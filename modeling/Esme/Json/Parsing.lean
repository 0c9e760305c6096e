import Esme.Json.Parser
import Esme.Json.Utf8

/-! What `parse` does on every input: which values it returns and what it throws. -/

namespace Esme

open Reading

/-- A lexer that never throws. -/
abbrev Lexes {β : Type} (left : Nat) (reader : ByteReading β) (good : β → Nat → Prop) : Prop :=
  Upholds (fun _ _ => True) (fun _ => False) left reader good

/-- The text of a string token is valid UTF-8, and signed numbers are those with a minus sign. -/
def Token.Valid : Token → Prop
  | .valueString text => utf8Valid text = true
  | .valueInteger value => value.toInt ≤ 0
  | _ => True

/-- Some bytes at most are left behind a value that is good by itself. -/
def AtMost {β : Type} (most : Nat) (good : β → Prop) (value : β) (less : Nat) : Prop :=
  less ≤ most ∧ good value

variable {left most : Nat}

/-- A hexadecimal digit is less than sixteen. -/
theorem hexValue_lt {current : UInt8} {digit : Nat} (known : hexValue current = some digit) :
    digit < 16 := by
  -- Each of the three ranges of digits has a bound of its own.
  simp only [hexValue, UInt8.le_iff_toNat_le] at known
  split at known
  · obtain rfl := Option.some.inj known
    rename_i bounds
    have := bounds.2
    simp only [UInt8.reduceToNat] at this
    omega
  split at known
  · obtain rfl := Option.some.inj known
    rename_i bounds
    have := bounds.2
    simp only [UInt8.reduceToNat] at this
    omega
  split at known
  · obtain rfl := Option.some.inj known
    rename_i bounds
    have := bounds.2
    simp only [UInt8.reduceToNat] at this
    omega
  · cases known

/-- Each digit adds less than what is left for the number. -/
theorem lexes_getCodepointFrom (digits codepoint : Nat) (few : left ≤ most) :
    Lexes left (getCodepointFrom digits codepoint) (AtMost most fun result =>
      ∀ value, result = some value → value < codepoint + 16 ^ digits) := by
  -- The induction is on the digits that are still to come.
  induction digits generalizing codepoint left with
  | zero => exact .pure ⟨few, fun value same => by cases same; simp⟩
  | succ digits ih =>
    refine .ask (fun symbol less taken => ?_) fun _ => .pure ⟨Nat.zero_le _, nofun⟩
    simp only [Option.bind_some]
    cases known : hexValue symbol with
    | none => exact .pure ⟨by omega, nofun⟩
    | some digit =>
      refine (ih (codepoint + digit * 2 ^ (4 * digits)) (by omega)).mono fun result rest holds =>
        ⟨holds.1, fun value same => ?_⟩
      have small := hexValue_lt known
      have bound := holds.2 value same
      have power : 2 ^ (4 * digits) = 16 ^ digits := by rw [Nat.pow_mul]
      have most : digit * 16 ^ digits ≤ 15 * 16 ^ digits := Nat.mul_le_mul_right _ (by omega)
      rw [power] at bound
      rw [Nat.pow_succ]
      omega

/-- What a code point satisfies that is not refused. -/
def Scalar (codepoint : Nat) : Prop :=
  codepoint < 0x110000 ∧ ¬(0xd800 ≤ codepoint ∧ codepoint ≤ 0xdfff)

/-- Four digits make a number of sixteen bits. -/
theorem lexes_getCodepoint (few : left ≤ most) :
    Lexes left getCodepoint
      (AtMost most fun result => ∀ value, result = some value → value < 0x10000) :=
  (lexes_getCodepointFrom 4 0 few).mono fun _ _ holds =>
    ⟨holds.1, fun value same => by simpa using holds.2 value same⟩

/-- Surrogates are refused, or put together into one code point. -/
theorem lexes_scanCodepoint (few : left ≤ most) :
    Lexes left scanCodepoint
      (AtMost most fun result => ∀ value, result = some value → Scalar value) := by
  -- The branches are those of `get_codepoint`, with a second group behind a high surrogate.
  refine (lexes_getCodepoint few).bind fun codepoint1 less holds => ?_
  obtain ⟨few, bound⟩ := holds
  cases codepoint1 with
  | none => exact .pure ⟨few, nofun⟩
  | some codepoint1 =>
    have bound := bound codepoint1 rfl
    dsimp only
    split
    · rename_i high
      refine .ask (fun symbol less taken => ?_) fun _ => .pure ⟨Nat.zero_le _, nofun⟩
      split
      · refine .ask (fun symbol less taken => ?_) fun _ => .pure ⟨Nat.zero_le _, nofun⟩
        split
        · refine (@lexes_getCodepoint _ most (by omega)).bind fun codepoint2 less holds => ?_
          cases codepoint2 with
          | none => exact .pure ⟨holds.1, nofun⟩
          | some codepoint2 =>
            dsimp only
            split
            · rename_i low
              refine .pure ⟨holds.1, fun value same => ?_⟩
              obtain rfl := Option.some.inj same
              rw [Scalar]
              omega
            · exact .pure ⟨holds.1, nofun⟩
        · exact .pure ⟨by omega, nofun⟩
      · exact .pure ⟨by omega, nofun⟩
    split
    · exact .pure ⟨few, nofun⟩
    · refine .pure ⟨few, fun value same => ?_⟩
      obtain rfl := Option.some.inj same
      rw [Scalar]
      omega

/-- What is added for an escape is valid. -/
theorem lexes_scanEscape (few : left ≤ most) :
    Lexes left scanEscape (AtMost most fun result =>
      ∀ added, result = some added → utf8Valid added = true) := by
  -- A code point of four digits or more is encoded, and the others stand for one byte of ASCII.
  refine .ask (fun symbol less taken => ?_) fun _ => .pure ⟨Nat.zero_le _, nofun⟩
  split
  · refine (lexes_scanCodepoint (by omega)).bind fun codepoint rest holds =>
      .pure ⟨holds.1, fun added same => ?_⟩
    obtain ⟨value, known, rfl⟩ := Option.map_eq_some_iff.mp same
    have word := codepointWord_codepointBytes (holds.2 value known).1 (holds.2 value known).2
    rw [← List.append_nil (codepointBytes value), word.utf8Valid_append]
    rfl
  · refine .pure ⟨by omega, fun added same => ?_⟩
    have escapes : ∀ byte, (escaped byte).all (fun letter => utf8Valid [letter]) = true :=
      forall_byte (by decide +kernel)
    obtain ⟨letter, known, rfl⟩ := Option.map_eq_some_iff.mp same
    have valid := escapes symbol
    rwa [show escaped symbol = some letter from known] at valid

/-- What is added behind a first byte is in the ranges. -/
theorem lexes_nextByteInRange (ranges : List (UInt8 × UInt8)) (added : List UInt8)
    (few : left ≤ most) :
    Lexes left (nextByteInRange ranges added) (AtMost most fun result =>
      ∀ word, result = some word → ∃ others, word = added ++ others ∧ InRanges ranges others) := by
  induction ranges generalizing added left with
  | nil =>
    exact .pure ⟨few, fun word same => ⟨[], by rw [List.append_nil, Option.some.inj same], .nil⟩⟩
  | cons range ranges ih =>
    refine .ask (fun symbol less taken => ?_) fun _ => .pure ⟨Nat.zero_le _, nofun⟩
    dsimp only
    split
    · rename_i inside
      refine (ih (added ++ [symbol]) (by omega)).mono fun result rest holds =>
        ⟨holds.1, fun word same => ?_⟩
      obtain ⟨others, rfl, later⟩ := holds.2 word same
      exact ⟨symbol :: others, by rw [List.append_assoc, List.singleton_append], .cons inside later⟩
    · exact .pure ⟨by omega, nofun⟩

/-- What a turn of `scan_string` leaves. -/
abbrev StringTurn (most left : Nat) : List UInt8 ⊕ Token → Nat → Prop :=
  TurnUpholds (fun _ left => left) (AtMost most fun buffer => utf8Valid buffer = true)
    (AtMost most Token.Valid) [] left

/-- Every turn of `scan_string` takes a byte and keeps the buffer valid. -/
theorem lexes_scanStringTurn {buffer : List UInt8} (few : left ≤ most)
    (valid : utf8Valid buffer = true) :
    Lexes left (scanStringTurn buffer) (StringTurn most left) := by
  -- The branches are those of the switch on the character.
  have failed : ∀ less ≤ most, Lexes less (pure (.inr .parseError)) (StringTurn most left) :=
    fun less few => .pure ⟨few, trivial⟩
  refine .ask (fun symbol less taken => ?_) fun _ => failed 0 (Nat.zero_le _)
  have fewer : less < left := by omega
  dsimp only
  split
  · -- The closing quote ends the string.
    exact .pure ⟨by omega, valid⟩
  split
  · -- An escape sequence adds the bytes of one codepoint, or it is an error.
    refine (lexes_scanEscape (Nat.le_refl less)).bind fun added rest holds => ?_
    cases added with
    | none => exact failed rest (Nat.le_trans holds.1 (by omega))
    | some added =>
      exact .pure ⟨Nat.lt_of_le_of_lt holds.1 fewer, Nat.le_trans holds.1 (by omega),
        utf8Valid_append valid (holds.2 added rfl)⟩
  split
  · -- A control character must be escaped.
    exact failed less (by omega)
  split
  · -- A byte of ASCII is a codepoint by itself.
    rename_i small
    refine .pure ⟨fewer, by omega, utf8Valid_append valid ?_⟩
    exact (CodepointWord.single small).utf8Valid_append []
  · -- Any other byte is the first of a sequence, whose others must be in their ranges.
    cases known : utf8Ranges symbol with
    | none => exact failed less (by omega)
    | some ranges =>
      refine (lexes_nextByteInRange ranges [symbol] (Nat.le_refl less)).bind
        fun word rest holds => ?_
      cases word with
      | none => exact failed rest (Nat.le_trans holds.1 (by omega))
      | some word =>
        obtain ⟨others, rfl, inside⟩ := holds.2 word rfl
        refine .pure ⟨Nat.lt_of_le_of_lt holds.1 fewer, Nat.le_trans holds.1 (by omega),
          utf8Valid_append valid ?_⟩
        have valid := (CodepointWord.sequence known inside).utf8Valid_append []
        rwa [List.append_nil] at valid

/-- A string token is valid, wherever the string ends. -/
theorem lexes_scanString (few : left ≤ most) :
    Lexes left scanString (AtMost most Token.Valid) :=
  .repeated (AtMost most fun buffer => utf8Valid buffer = true)
    (fun _ _ holds => lexes_scanStringTurn holds.1 holds.2) ⟨few, rfl⟩

section

variable {strtod : List UInt8 → UInt64}

/-- What is read behind a minus sign is not positive. -/
theorem strtoll_nonpos {text : List UInt8} {value : Int64} (known : strtoll text = some value) :
    value.toInt ≤ 0 := by
  rw [strtoll] at known
  split at known
  · obtain rfl := Option.some.inj known
    rw [Int64.toInt_ofInt_of_le (by omega) (by omega)]
    omega
  · cases known

/-- A number token is valid, whatever its digits. -/
theorem valid_numberToken (type : NumberType) (buffer : List UInt8) :
    (numberToken strtod type buffer).Valid := by
  cases type with
  | unsigned => rw [numberToken]; cases strtoull buffer <;> exact trivial
  | integer =>
    rw [numberToken]
    cases known : strtoll buffer with
    | none => exact trivial
    | some value => exact strtoll_nonpos known
  | float => exact trivial

/-- Every turn of `scan_number` takes a byte or gives it back and is done. -/
theorem lexes_scanNumberTurn (scan : NumberScan) (few : left ≤ most) :
    Lexes left (scanNumberTurn strtod scan)
      (TurnUpholds (fun _ left => left) (AtMost most fun _ => True) (AtMost most Token.Valid)
        scan left) := by
  -- Where the number ends, the character behind it is given back.
  refine .ask (fun symbol less taken => ?_) fun ended => ?_
  · dsimp only
    cases scan.label.next symbol with
    | go label => exact .pure ⟨by show less < left; omega, by omega, trivial⟩
    | done =>
      -- The byte behind the number is given back to the next scan.
      exact .unget (.pure ⟨by
        rw [Option.toList_some, List.length_singleton]
        omega, valid_numberToken _ _⟩)
    | refused => exact .pure ⟨by omega, trivial⟩
  · dsimp only
    cases scan.label.atEnd with
    | done => exact .unget (.pure ⟨Nat.zero_le _, valid_numberToken _ _⟩)
    | go label => exact .pure ⟨Nat.zero_le _, trivial⟩
    | refused => exact .pure ⟨Nat.zero_le _, trivial⟩

/-- A number gives back what is not part of it. -/
theorem lexes_scanNumber (first : UInt8) (few : left ≤ most) :
    Lexes left (scanNumber strtod first) (AtMost most Token.Valid) :=
  .repeated (AtMost most fun _ => True) (fun scan _ holds => lexes_scanNumberTurn scan holds.1)
    ⟨few, trivial⟩

/-- A literal is the token that it stands for, or none. -/
theorem lexes_scanLiteral {token : Token} (valid : token.Valid) (letters : List UInt8)
    (few : left ≤ most) : Lexes left (scanLiteral token letters) (AtMost most Token.Valid) := by
  induction letters generalizing left with
  | nil => exact .pure ⟨few, valid⟩
  | cons letter letters ih =>
    refine .ask (fun symbol less taken => ?_) fun _ => ?_
    · split
      · exact ih (by omega)
      · exact .pure ⟨by omega, trivial⟩
    · rw [if_neg nofun]
      exact .pure ⟨Nat.zero_le _, trivial⟩

/-- What a token leaves: only the end of the input needs no byte. -/
def Scanned (left : Nat) (token : Token) (less : Nat) : Prop :=
  less ≤ left ∧ (token = .endOfInput ∨ less < left) ∧ token.Valid

/-- What is behind the whitespace is a token, or the end. -/
theorem lexes_scanToken (symbol : UInt8) (some_ : left < most) :
    Lexes left (scanToken strtod (some symbol)) (Scanned most) := by
  -- The byte in front has been taken, so what follows leaves less than there was.
  have scanned : ∀ {reader : ByteReading Token}, Lexes left reader (AtMost left Token.Valid) →
      Lexes left reader (Scanned most) := fun lexes =>
    lexes.mono fun _ _ holds => ⟨Nat.le_trans holds.1 some_.le,
      .inr (Nat.lt_of_le_of_lt holds.1 some_), holds.2⟩
  have plain : ∀ {token : Token}, token.Valid → Lexes left (pure token) (Scanned most) :=
    fun valid => scanned (.pure ⟨Nat.le_refl _, valid⟩)
  have literal : ∀ token : Token, token.Valid → ∀ letters,
      Lexes left (scanLiteral token letters) (Scanned most) :=
    fun _ valid letters => scanned (lexes_scanLiteral valid letters (Nat.le_refl _))
  exact .ite (plain trivial) <| .ite (plain trivial) <| .ite (plain trivial) <|
    .ite (plain trivial) <| .ite (plain trivial) <| .ite (plain trivial) <|
    .ite (literal .literalTrue trivial _) <| .ite (literal .literalFalse trivial _) <|
    .ite (literal .literalNull trivial _) <|
    .ite (scanned (lexes_scanString (Nat.le_refl _))) <|
    .ite (scanned (lexes_scanNumber symbol (Nat.le_refl _))) <|
    .ite (plain trivial) (plain trivial)

/-- The byte order mark is skipped, or something else is left alone. -/
theorem lexes_skipBom :
    Lexes left skipBom fun skipped less => less ≤ left ∧ (skipped = true ∨ less < left) := by
  -- The three bytes of the mark are asked for one after the other.
  refine .ask (fun symbol less taken => ?_) fun ended => ?_
  · split
    · refine .ask (fun _ fewer taken => ?_) fun _ => ?_
      · split
        · refine .ask (fun _ rest taken => ?_) fun _ => ?_
          · split
            · exact .pure ⟨by omega, .inl rfl⟩
            · exact .pure ⟨by omega, .inr (by omega)⟩
          · rw [if_neg nofun]
            exact .pure ⟨by omega, .inr (by omega)⟩
        · exact .pure ⟨by omega, .inr (by omega)⟩
      · rw [if_neg nofun]
        exact .pure ⟨by omega, .inr (by omega)⟩
    · exact .unget (.pure ⟨by rw [Option.toList_some, List.length_singleton]; omega, .inl rfl⟩)
  · rw [if_neg nofun]
    exact .unget (.pure ⟨Nat.zero_le _, .inl rfl⟩)

/-- The lexer never throws, and every token but the end of the input takes a byte. -/
theorem lexes_scan : Lexes left (scan strtod) (Scanned left) := by
  have front : Lexes left
      (fun cursor => if cursor.asked = 0 then skipBom cursor else .ok (true, cursor))
      fun skipped less => less ≤ left ∧ (skipped = true ∨ less < left) := by
    -- The byte order mark is looked for at the front of the input only.
    intro cursor count rest
    dsimp only
    by_cases first : cursor.asked = 0
    · rw [if_pos first]
      exact lexes_skipBom cursor count rest
    · rw [if_neg first]
      exact ⟨trivial, rest.le, .inl rfl⟩
  refine front.bind fun skipped less holds => ?_
  split
  · refine Upholds.skip (fun symbol rest fewer => lexes_scanToken symbol (by omega)) ?_
    exact .pure ⟨Nat.zero_le _, .inl rfl, trivial⟩
  · rename_i failed
    have fewer := holds.2.resolve_left failed
    exact .pure ⟨holds.1, .inr fewer, trivial⟩

/-- What a value that `parse` returns satisfies by itself. -/
def Json.textual : Json → Bool
  | .object members =>
    decide (Sorted.Ascending members) && members.all fun member => utf8Valid member.1
  | .string text => utf8Valid text
  | .numberInteger value => value.toInt ≤ 0
  | .numberFloat bits => isFinite bits
  | .binary _ _ | .discarded => false
  | _ => true

/-- What a container satisfies while its values are parsed. -/
def Container.Good : Container → Prop
  | .array elements => ∀ element ∈ elements, element.all Json.textual = true
  | .object members key =>
    Sorted.Ascending members ∧
      (∀ member ∈ members, utf8Valid member.1 = true ∧ member.2.all Json.textual = true) ∧
      utf8Valid key = true

/-- What every state of the parser satisfies. -/
def ParserState.Good (state : ParserState) (_ : Nat) : Prop :=
  match state with
  | .parsing lastToken states => lastToken.Valid ∧ ∀ container ∈ states, container.Good
  | .evaluating value states =>
    value.all Json.textual = true ∧ ∀ container ∈ states, container.Good

/-- What `parse` throws. -/
def ParseThrown : ReadError → Prop
  | .parseError id _ => id = 101
  | .outOfRange id => id = 406
  | .unfinished => False

/-- What a turn of the parser keeps. -/
abbrev ParserTurn (state : ParserState) (left : Nat) : ParserState ⊕ Json → Nat → Prop :=
  TurnUpholds ParserState.weight ParserState.Good (fun value _ => value.all Json.textual = true)
    state left

/-- A reader of the parser. -/
abbrev Parses {β : Type} (left : Nat) (reader : ByteReading β) (good : β → Nat → Prop) : Prop :=
  Upholds (fun _ _ => True) ParseThrown left reader good

/-- The lexer throws nothing that the parser may not throw. -/
theorem parses_scan : Parses left (scan strtod) (Scanned left) :=
  lexes_scan.allow fun _ never => never.elim

/-- A syntax error is thrown. -/
theorem parses_syntaxError {β : Type} {good : β → Nat → Prop} :
    Parses left syntaxError good :=
  .fail fun _ _ => rfl

/-- The weight of a state at a token that was just scanned. -/
theorem weight_parsing {token : Token} (states : List Container) {less : Nat}
    (scanned : Scanned left token less) :
    (ParserState.parsing token states).weight less ≤ 2 * left := by
  rw [ParserState.weight]
  split
  · -- A scan may find the end of the input again and again.
    have := scanned.1
    omega
  · -- Any other token has taken a byte.
    rename_i more
    have := scanned.2.1.resolve_left more
    omega

/-- A key and what is between it and its value take a byte, and leave a state that is good. -/
theorem parses_parseKey {state : ParserState} {members : List (List UInt8 × Json)}
    {states : List Container} {token : Token} (less : 2 * left ≤ state.weight most)
    (valid : token.Valid)
    (good : ∀ key, utf8Valid key = true → (Container.object members key).Good)
    (others : ∀ container ∈ states, container.Good) :
    Parses left (parseKey strtod members states token) (ParserTurn state most) := by
  cases token with
  | valueString key =>
    refine parses_scan.bind fun separator rest scanned => ?_
    split
    · rename_i same
      -- The separator is no end of the input, so it took a byte.
      have fewer := scanned.2.1.resolve_left (by rw [same]; nofun)
      refine parses_scan.bind fun token after scanned => .pure ⟨?_, scanned.2.2, ?_⟩
      · have := weight_parsing (.object members key :: states) scanned
        omega
      · exact List.forall_mem_cons.mpr ⟨good key valid, others⟩
    · exact parses_syntaxError
  | _ => exact parses_syntaxError

/-- An object that has just begun is good with any valid key. -/
theorem good_object_nil (key : List UInt8) (valid : utf8Valid key = true) :
    (Container.object [] key).Good :=
  ⟨.nil, fun _ member => absurd member List.not_mem_nil, valid⟩

/-- A value that is a single token is good when the token is, floats aside. -/
theorem textual_leaf {token : Token} {value : Json} (valid : token.Valid)
    (known : token.leaf = some value) (float : ∀ bits, token ≠ .valueFloat bits) :
    value.all Json.textual = true := by
  cases token with
  | valueFloat bits => exact absurd rfl (float bits)
  | valueInteger number =>
    cases known
    exact decide_eq_true valid
  | valueString text =>
    cases known
    exact valid
  | _ => cases known <;> rfl

/-- A value is begun or taken. -/
theorem parses_parseValue {states : List Container} {lastToken : Token} (valid : lastToken.Valid)
    (others : ∀ container ∈ states, container.Good) :
    Parses left (parseValue strtod states lastToken)
      (ParserTurn (.parsing lastToken states) left) := by
  -- One case for each token: a container is begun, or the value is taken at once.
  have weight : lastToken ≠ .endOfInput →
      (ParserState.parsing lastToken states).weight left = 2 * left + 1 := fun more => by
    rw [ParserState.weight, if_neg more]
  -- A value that is a single token needs no more bytes.
  have taken : ∀ value, lastToken ≠ .endOfInput → value.all Json.textual = true →
      Parses left (pure (.inl (.evaluating value states)))
        (ParserTurn (.parsing lastToken states) left) := fun value more good =>
    .pure ⟨by rw [weight more]; exact Nat.lt_succ_self _, good, others⟩
  -- A token that stands for no value is an error.
  have leaf : (∀ bits, lastToken ≠ .valueFloat bits) →
      Parses left (parseLeaf states lastToken)
        (ParserTurn (.parsing lastToken states) left) := fun float => by
    rw [parseLeaf]
    cases known : lastToken.leaf with
    | none => exact parses_syntaxError
    | some value =>
      exact taken value (by rintro rfl; cases known) (textual_leaf valid known float)
  cases lastToken with
  | beginObject =>
    have weight := weight (by simp)
    -- The object may end at once, or a key comes.
    refine parses_scan.bind fun token less scanned => ?_
    have few := scanned.1
    split
    · exact .pure ⟨by rw [weight, ParserState.weight]; omega, rfl, others⟩
    · exact parses_parseKey (by omega) scanned.2.2 good_object_nil others
  | beginArray =>
    have weight := weight (by simp)
    -- The array may end at once, or the first element comes.
    refine parses_scan.bind fun token less scanned => ?_
    have few := scanned.1
    split
    · exact .pure ⟨by rw [weight, ParserState.weight]; omega, rfl, others⟩
    · have fewer := weight_parsing (.array [] :: states) scanned
      exact .pure ⟨by omega, scanned.2.2, List.forall_mem_cons.mpr ⟨List.forall_mem_nil _, others⟩⟩
  | valueFloat bits =>
    rw [parseValue]
    split
    · rename_i finite
      exact taken _ (by simp) finite
    · -- A number too large for a float is out of range.
      exact .fail fun _ _ => rfl
  | _ => exact leaf (by simp)

/-- A value is put into the container around it, which ends or goes on. -/
theorem parses_evaluateStates {value : Json} {states : List Container}
    (good : value.all Json.textual = true) (others : ∀ container ∈ states, container.Good) :
    Parses left (evaluateStates strtod value states)
      (ParserTurn (.evaluating value states) left) := by
  cases states with
  -- Nothing is around the value, so it is the result.
  | nil => exact .pure good
  | cons container states =>
    obtain ⟨inner, outer⟩ := List.forall_mem_cons.mp others
    cases container with
    | array elements =>
      have extended : (Container.array (elements ++ [value])).Good :=
        List.forall_mem_append.mpr ⟨inner, List.forall_mem_singleton.mpr good⟩
      refine parses_scan.bind fun token less scanned => ?_
      split
      · rename_i same
        -- A comma has taken a byte, and the token behind it begins the next element.
        have fewer := scanned.2.1.resolve_left (by rw [same]; nofun)
        refine parses_scan.bind fun token rest scanned => .pure ⟨?_, scanned.2.2, ?_⟩
        · have := weight_parsing (.array (elements ++ [value]) :: states) scanned
          show _ < 2 * left
          omega
        · exact List.forall_mem_cons.mpr ⟨extended, outer⟩
      split
      · rename_i same
        have fewer := scanned.2.1.resolve_left (by rw [same]; nofun)
        -- The array ends, and it is the value from here on.
        exact .pure ⟨by simp only [ParserState.weight]; omega,
          Json.all_array.mpr ⟨rfl, extended⟩, outer⟩
      · exact parses_syntaxError
    | object members key =>
      obtain ⟨ascending, parts, valid⟩ := inner
      have put : ∀ member ∈ Sorted.insert key value members,
          utf8Valid member.1 = true ∧ member.2.all Json.textual = true := fun member inside => by
        rcases Sorted.mem_insert inside with rfl | old
        · exact ⟨valid, good⟩
        · exact parts member old
      refine parses_scan.bind fun token less scanned => ?_
      split
      · rename_i same
        -- Behind a comma comes the next key.
        have fewer := scanned.2.1.resolve_left (by rw [same]; nofun)
        refine parses_scan.bind fun token rest scanned => ?_
        refine parses_parseKey ?_ scanned.2.2 (fun key valid => ?_) outer
        · rw [ParserState.weight]
          have := scanned.1
          omega
        · exact ⟨Sorted.ascending_insert ascending, put, valid⟩
      split
      · rename_i same
        have fewer := scanned.2.1.resolve_left (by rw [same]; nofun)
        -- The object ends, and it is the value from here on.
        refine .pure ⟨by simp only [ParserState.weight]; omega,
          Json.all_object.mpr ⟨?_, ?_⟩, outer⟩
        · simp only [Json.textual, Bool.and_eq_true, decide_eq_true_eq, List.all_eq_true]
          exact ⟨Sorted.ascending_insert ascending, fun member inside => (put member inside).1⟩
        · exact fun member inside => (put member inside).2
      · exact parses_syntaxError

/-- Every turn of the parser leaves a good state of less weight. -/
theorem parses_parseTurn (state : ParserState) (left : Nat) (good : state.Good left) :
    Parses left (parseTurn strtod state) (ParserTurn state left) := by
  cases state with
  | parsing lastToken states => exact parses_parseValue good.1 good.2
  | evaluating value states => exact parses_evaluateStates good.1 good.2

/-- A whole text is parsed, with what is behind the value looked at as well. -/
theorem parses_whole : Parses left (parser strtod) fun value _ =>
    value.all Json.textual = true := by
  -- Behind the value only the end of the input is allowed.
  refine parses_scan.bind fun token less scanned => ?_
  refine Upholds.bind (Upholds.repeated ParserState.Good parses_parseTurn
    ⟨scanned.2.2, List.forall_mem_nil _⟩)
    fun value rest good => parses_scan.bind fun token last _ => ?_
  split
  · exact .pure good
  · exact parses_syntaxError

/--
What `parse` makes of any text.

A value that it returns holds valid texts, finite numbers and objects with ascending keys, and
nothing that JSON has no notation for. What it throws is `parse_error` 101 or `out_of_range` 406.
-/
theorem parse_result (strtod : List UInt8 → UInt64) (data : List UInt8) :
    match parse strtod data with
    | .ok value => value.all Json.textual = true
    | .error error => ParseThrown error := by
  have kept := @parses_whole _ strtod ⟨0, data⟩ trivial rfl
  rw [parse]
  cases read : parser strtod ⟨0, data⟩ with
  | error error =>
    rw [read] at kept
    exact kept
  | ok result =>
    rw [read] at kept
    exact kept.2

/-- The texts of an array are those of its elements. -/
theorem textsValid_array {elements : List Json} :
    (Json.array elements).textsValid = true ↔ ∀ element ∈ elements, element.textsValid = true := by
  rw [Json.textsValid]
  induction elements with
  | nil => simp [elementsValid]
  | cons element rest ih => rw [elementsValid, Bool.and_eq_true, ih, List.forall_mem_cons]

/-- The texts of an object are its keys and those of its values. -/
theorem textsValid_object {members : List (List UInt8 × Json)} :
    (Json.object members).textsValid = true ↔
      ∀ member ∈ members, utf8Valid member.1 = true ∧ member.2.textsValid = true := by
  rw [Json.textsValid]
  induction members with
  | nil => simp [membersValid]
  | cons member rest ih =>
    rw [membersValid, Bool.and_eq_true, Bool.and_eq_true, ih, List.forall_mem_cons]

/-- What `parse` returns can be dumped, since its texts are valid. -/
theorem textsValid_of_textual {value : Json} (textual : value.all Json.textual = true) :
    value.textsValid = true := by
  -- The induction is on the value with all its elements and members.
  induction value using Json.nested with
  | object members ih =>
    obtain ⟨self, inside⟩ := Json.all_object.mp textual
    simp only [Json.textual, Bool.and_eq_true, List.all_eq_true] at self
    exact textsValid_object.mpr fun member origin =>
      ⟨self.2 member origin, ih member origin (inside member origin)⟩
  | array elements ih =>
    obtain ⟨-, inside⟩ := Json.all_array.mp textual
    exact textsValid_array.mpr fun element origin => ih element origin (inside element origin)
  | leaf value notObject notArray =>
    cases value with
    | object members => exact absurd rfl (notObject members)
    | array elements => exact absurd rfl (notArray elements)
    | string text => exact textual
    | _ => rfl

end

end Esme
