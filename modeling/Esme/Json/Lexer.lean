import Esme.Json.Value
import Esme.Memory.Numbers
import Esme.Stream.Turns

/-! The lexer of `json.hpp`. -/

namespace Esme

open Reading

/-- `token_type`, each token with the value that the lexer holds for it -/
inductive Token where
  | literalTrue
  | literalFalse
  | literalNull
  | valueString (text : List UInt8)
  | valueUnsigned (value : UInt64)
  | valueInteger (value : Int64)
  | valueFloat (bits : UInt64)
  | beginArray
  | beginObject
  | endArray
  | endObject
  | nameSeparator
  | valueSeparator
  | parseError
  | endOfInput
  deriving DecidableEq

/-- What a hexadecimal digit stands for. -/
def hexValue (current : UInt8) : Option Nat :=
  if 0x30 ≤ current ∧ current ≤ 0x39 then some (current.toNat - 0x30)
  else if 0x41 ≤ current ∧ current ≤ 0x46 then some (current.toNat - 0x37)
  else if 0x61 ≤ current ∧ current ≤ 0x66 then some (current.toNat - 0x57)
  else none

/-- The loop of `get_codepoint` over the factors that are left, without a value for -1. -/
def getCodepointFrom : Nat → Nat → ByteReading (Option Nat)
  | 0, codepoint => pure (some codepoint)
  | digits + 1, codepoint => do
    match (← next).bind hexValue with
    | some digit => getCodepointFrom digits (codepoint + digit * 2 ^ (4 * digits))
    | none => pure none

/-- `get_codepoint` -/
def getCodepoint : ByteReading (Option Nat) := getCodepointFrom 4 0

/-- The bytes that a code point is translated into. -/
def codepointBytes (codepoint : Nat) : List UInt8 :=
  let continuation (shift : Nat) : UInt8 := UInt8.ofNat (0x80 + codepoint / 2 ^ shift % 0x40)
  if codepoint < 0x80 then [UInt8.ofNat codepoint]
  else if codepoint ≤ 0x7ff then [UInt8.ofNat (0xc0 + codepoint / 2 ^ 6), continuation 0]
  else if codepoint ≤ 0xffff then
    [UInt8.ofNat (0xe0 + codepoint / 2 ^ 12), continuation 6, continuation 0]
  else
    [UInt8.ofNat (0xf0 + codepoint / 2 ^ 18), continuation 12, continuation 6, continuation 0]

/-- The code point behind `\u`, a surrogate pair taken together; nothing if it is refused. -/
def scanCodepoint : ByteReading (Option Nat) := do
  match ← getCodepoint with
  | none => pure none
  | some codepoint1 =>
    if 0xd800 ≤ codepoint1 ∧ codepoint1 ≤ 0xdbff then
      -- The second `get` is only made when the first one gave a backslash.
      if (← next) = some 0x5c then
        if (← next) = some 0x75 then
          match ← getCodepoint with
          | none => pure none
          | some codepoint2 =>
            if 0xdc00 ≤ codepoint2 ∧ codepoint2 ≤ 0xdfff then
              pure (some (codepoint1 * 2 ^ 10 + codepoint2 - 0x35fdc00))
            else pure none
        else pure none
      else pure none
    else if 0xdc00 ≤ codepoint1 ∧ codepoint1 ≤ 0xdfff then pure none
    else pure (some codepoint1)

/-- What is added for the character behind a backslash other than `u`. -/
def escaped (current : UInt8) : Option UInt8 :=
  if current = 0x22 then some 0x22
  else if current = 0x5c then some 0x5c
  else if current = 0x2f then some 0x2f
  else if current = 0x62 then some 0x08
  else if current = 0x66 then some 0x0c
  else if current = 0x6e then some 0x0a
  else if current = 0x72 then some 0x0d
  else if current = 0x74 then some 0x09
  else none

/-- What is added for an escape; nothing if it is refused. -/
def scanEscape : ByteReading (Option (List UInt8)) := do
  let current ← next
  if current = some 0x75 then return (← scanCodepoint).map codepointBytes
  else return (current.bind escaped).map fun byte => [byte]

/-- The ranges of the bytes behind the first byte of a code point that is not ASCII. -/
def utf8Ranges (current : UInt8) : Option (List (UInt8 × UInt8)) :=
  if 0xc2 ≤ current ∧ current ≤ 0xdf then some [(0x80, 0xbf)]
  else if current = 0xe0 then some [(0xa0, 0xbf), (0x80, 0xbf)]
  else if current = 0xed then some [(0x80, 0x9f), (0x80, 0xbf)]
  else if 0xe1 ≤ current ∧ current ≤ 0xef then some [(0x80, 0xbf), (0x80, 0xbf)]
  else if current = 0xf0 then some [(0x90, 0xbf), (0x80, 0xbf), (0x80, 0xbf)]
  else if 0xf1 ≤ current ∧ current ≤ 0xf3 then some [(0x80, 0xbf), (0x80, 0xbf), (0x80, 0xbf)]
  else if current = 0xf4 then some [(0x80, 0x8f), (0x80, 0xbf), (0x80, 0xbf)]
  else none

/-- The loop of `next_byte_in_range`, behind what it has added; nothing if a byte is refused. -/
def nextByteInRange : List (UInt8 × UInt8) → List UInt8 → ByteReading (Option (List UInt8))
  | [], added => pure (some added)
  | range :: ranges, added => do
    match ← next with
    | none => pure none
    | some current =>
      if range.1 ≤ current ∧ current ≤ range.2 then nextByteInRange ranges (added ++ [current])
      else pure none

/-- One turn of `scan_string`, from the buffer to a longer one or to the token. -/
def scanStringTurn (buffer : List UInt8) : ByteReading (List UInt8 ⊕ Token) := do
  match ← next with
  | none => pure (.inr .parseError)
  | some current =>
    if current = 0x22 then pure (.inr (.valueString buffer))
    else if current = 0x5c then
      match ← scanEscape with
      | some added => pure (.inl (buffer ++ added))
      | none => pure (.inr .parseError)
    -- Control characters have to be escaped.
    else if current ≤ 0x1f then pure (.inr .parseError)
    else if current ≤ 0x7f then pure (.inl (buffer ++ [current]))
    else
      match utf8Ranges current with
      | none => pure (.inr .parseError)
      | some ranges =>
        match ← nextByteInRange ranges [current] with
        | some added => pure (.inl (buffer ++ added))
        | none => pure (.inr .parseError)

/-- `scan_string`, behind the opening quote -/
def scanString : ByteReading Token :=
  repeated .unfinished (fun _ left => left) scanStringTurn []

/-- The labels of `scan_number` that ask for a character. -/
inductive NumberState where
  | minus
  | zero
  | any1
  | decimal1
  | decimal2
  | exponent
  | sign
  | any2
  deriving DecidableEq

/-- `number_type` -/
inductive NumberType where
  | unsigned
  | integer
  | float
  deriving DecidableEq

/-- Where a character leads from a label. -/
inductive NumberNext where
  | go (label : NumberState)
  | done
  | refused
  deriving DecidableEq

/-- The characters `0` to `9` -/
def isDigit (current : UInt8) : Bool := 0x30 ≤ current && current ≤ 0x39

/-- The characters `e` and `E` -/
def isExponent (current : UInt8) : Bool := current = 0x65 || current = 0x45

/-- The switch behind each label. -/
def NumberState.next (label : NumberState) (current : UInt8) : NumberNext :=
  match label with
  | .minus =>
    if current = 0x30 then .go .zero else if isDigit current then .go .any1 else .refused
  | .zero =>
    if current = 0x2e then .go .decimal1 else if isExponent current then .go .exponent else .done
  | .any1 =>
    if isDigit current then .go .any1
    else if current = 0x2e then .go .decimal1
    else if isExponent current then .go .exponent
    else .done
  | .decimal1 => if isDigit current then .go .decimal2 else .refused
  | .decimal2 =>
    if isDigit current then .go .decimal2
    else if isExponent current then .go .exponent
    else .done
  | .exponent =>
    if current = 0x2b ∨ current = 0x2d then .go .sign
    else if isDigit current then .go .any2
    else .refused
  | .sign => if isDigit current then .go .any2 else .refused
  | .any2 => if isDigit current then .go .any2 else .done

/-- What the end of the input leads to, like any character that no case is for. -/
def NumberState.atEnd : NumberState → NumberNext
  | .minus | .decimal1 | .exponent | .sign => .refused
  | .zero | .any1 | .decimal2 | .any2 => .done

/-- `number_type` behind a label -/
def NumberState.type (label : NumberState) (type : NumberType) : NumberType :=
  match label with
  | .minus => .integer
  | .decimal1 | .exponent => .float
  | _ => type

/-- What a sequence of digits stands for. -/
def decimal (digits : List UInt8) : Nat :=
  digits.foldl (fun number digit => number * 10 + (digit.toNat - 0x30)) 0

/-- `std::strtoull` of digits, without a value when it sets `errno` -/
def strtoull (digits : List UInt8) : Option UInt64 :=
  if decimal digits < 2 ^ 64 then some (UInt64.ofNat (decimal digits)) else none

/-- `std::strtoll` of a minus sign and digits, without a value when it sets `errno` -/
def strtoll (text : List UInt8) : Option Int64 :=
  if decimal text.tail ≤ 2 ^ 63 then some (Int64.ofInt (-(decimal text.tail : Int))) else none

/-- The token for a number that has been scanned; `std::strtod` is given. -/
def numberToken (strtod : List UInt8 → UInt64) (type : NumberType) (buffer : List UInt8) : Token :=
  -- An integer that does not fit is read as a floating-point number.
  match type with
  | .unsigned => ((strtoull buffer).map .valueUnsigned).getD (.valueFloat (strtod buffer))
  | .integer => ((strtoll buffer).map .valueInteger).getD (.valueFloat (strtod buffer))
  | .float => .valueFloat (strtod buffer)

/-- The variables of `scan_number` at a label. -/
structure NumberScan where
  label : NumberState
  type : NumberType
  buffer : List UInt8

/-- What is done at a label: one `get`, and where it leads. -/
def scanNumberTurn (strtod : List UInt8 → UInt64) (scan : NumberScan) :
    ByteReading (NumberScan ⊕ Token) := do
  let type := scan.label.type scan.type
  let current ← next
  match current with
  | some byte =>
    match scan.label.next byte with
    | .go label => pure (.inl ⟨label, type, scan.buffer ++ [byte]⟩)
    | .done => do
      unget current
      pure (.inr (numberToken strtod type scan.buffer))
    | .refused => pure (.inr .parseError)
  | none =>
    match scan.label.atEnd with
    | .done => do
      unget current
      pure (.inr (numberToken strtod type scan.buffer))
    | _ => pure (.inr .parseError)

/-- The label that the first character of a number leads to. -/
def numberStart (first : UInt8) : NumberState :=
  if first = 0x2d then .minus else if first = 0x30 then .zero else .any1

/-- `scan_number`, behind the first character -/
def scanNumber (strtod : List UInt8 → UInt64) (first : UInt8) : ByteReading Token :=
  repeated .unfinished (fun _ left => left) (scanNumberTurn strtod)
    ⟨numberStart first, .unsigned, [first]⟩

/-- `scan_literal`, for the letters behind the first one -/
def scanLiteral (token : Token) : List UInt8 → ByteReading Token
  | [] => pure token
  | letter :: rest => do
    if (← next) = some letter then scanLiteral token rest else pure .parseError

/-- `skip_bom`, which gives back what is no byte order mark -/
def skipBom : ByteReading Bool := do
  let current ← next
  if current = some 0xef then
    if (← next) = some 0xbb then
      if (← next) = some 0xbf then pure true else pure false
    else pure false
  else
    unget current
    pure true

/-- The characters that `skip_whitespace` skips. -/
def isWhitespace (current : UInt8) : Bool :=
  current = 0x20 || current = 0x09 || current = 0x0a || current = 0x0d

/-- The switch of `scan` on the first character that is no whitespace. -/
def scanToken (strtod : List UInt8 → UInt64) (current : Option UInt8) : ByteReading Token :=
  match current with
  | none => pure .endOfInput
  | some first =>
    if first = 0x5b then pure .beginArray
    else if first = 0x5d then pure .endArray
    else if first = 0x7b then pure .beginObject
    else if first = 0x7d then pure .endObject
    else if first = 0x3a then pure .nameSeparator
    else if first = 0x2c then pure .valueSeparator
    else if first = 0x74 then scanLiteral .literalTrue (ascii ['r', 'u', 'e'])
    else if first = 0x66 then scanLiteral .literalFalse (ascii ['a', 'l', 's', 'e'])
    else if first = 0x6e then scanLiteral .literalNull (ascii ['u', 'l', 'l'])
    else if first = 0x22 then scanString
    else if first = 0x2d ∨ isDigit first then scanNumber strtod first
    -- The null byte counts as the end of the input.
    else if first = 0x00 then pure .endOfInput
    else pure .parseError

/-- `scan`, with comments not ignored -/
def scan (strtod : List UInt8 → UInt64) : ByteReading Token := do
  let skipped ← fun cursor => if cursor.asked = 0 then skipBom cursor else .ok (true, cursor)
  if skipped then skipWhile isWhitespace >>= scanToken strtod else pure .parseError

end Esme
