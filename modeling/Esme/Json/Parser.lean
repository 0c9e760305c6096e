import Esme.Json.Lexer

/-! The parser of `json.hpp`: tokens put together into a value, with a stack of its own. -/

namespace Esme

open BinaryFormat Reading

/-- A structured value that has been begun, an entry of `states` and of `ref_stack` -/
inductive Container where
  | array (elements : List Json)
  /-- an object with the key whose value is parsed -/
  | object (members : List (List UInt8 × Json)) (key : List UInt8)

/-- Where the loop of `sax_parse_internal` stands, with the innermost container first. -/
inductive ParserState where
  /-- a value begins with `last_token` -/
  | parsing (lastToken : Token) (states : List Container)
  /-- a value has ended, and the state around it is evaluated -/
  | evaluating (value : Json) (states : List Container)

/-- `parse_error` 101 -/
def syntaxError {β : Type} : ByteReading β := fail (.parseError 101)

/-- `std::isfinite` -/
def isFinite (bits : UInt64) : Bool := double.magnitude bits.toNat < double.infinity

/-- A value that is a single token. -/
def Token.leaf : Token → Option Json
  | .literalTrue => some (.boolean true)
  | .literalFalse => some (.boolean false)
  | .literalNull => some .null
  | .valueString text => some (.string text)
  | .valueUnsigned value => some (.numberUnsigned value)
  | .valueInteger value => some (.numberInteger value)
  | .valueFloat bits => some (.numberFloat bits)
  | _ => none

section

variable (strtod : List UInt8 → UInt64)

/-- The key from its token on, `name_separator`, and the first token of the value. -/
def parseKey (members : List (List UInt8 × Json)) (states : List Container) :
    Token → ByteReading (ParserState ⊕ Json)
  | .valueString key => do
    if (← scan strtod) = .nameSeparator then
      return .inl (.parsing (← scan strtod) (.object members key :: states))
    else syntaxError
  | _ => syntaxError

/-- The cases for tokens that are a value by themselves, and for those that begin none. -/
def parseLeaf (states : List Container) (lastToken : Token) : ByteReading (ParserState ⊕ Json) :=
  match lastToken.leaf with
  | some value => pure (.inl (.evaluating value states))
  -- Lexer errors and tokens that begin no value have the same exception.
  | none => syntaxError

/-- The switch on `last_token`. -/
def parseValue (states : List Container) (lastToken : Token) :
    ByteReading (ParserState ⊕ Json) :=
  match lastToken with
  | .beginObject => do
    let token ← scan strtod
    if token = .endObject then pure (.inl (.evaluating (.object []) states))
    else parseKey strtod [] states token
  | .beginArray => do
    let token ← scan strtod
    if token = .endArray then pure (.inl (.evaluating (.array []) states))
    else pure (.inl (.parsing token (.array [] :: states)))
  | .valueFloat bits =>
    if isFinite bits then pure (.inl (.evaluating (.numberFloat bits) states))
    else fail fun _ => .outOfRange 406
  | token => parseLeaf states token

/-- The evaluation of the state around a value. -/
def evaluateStates (value : Json) : List Container → ByteReading (ParserState ⊕ Json)
  | [] => pure (.inr value)
  | .array elements :: states => do
    let token ← scan strtod
    if token = .valueSeparator then
      return .inl (.parsing (← scan strtod) (.array (elements ++ [value]) :: states))
    else if token = .endArray then
      pure (.inl (.evaluating (.array (elements ++ [value])) states))
    else syntaxError
  | .object members key :: states => do
    let token ← scan strtod
    if token = .valueSeparator then
      parseKey strtod (Sorted.insert key value members) states (← scan strtod)
    else if token = .endObject then
      pure (.inl (.evaluating (.object (Sorted.insert key value members)) states))
    else syntaxError

/-- One turn of the loop of `sax_parse_internal`. -/
def parseTurn : ParserState → ByteReading (ParserState ⊕ Json)
  | .parsing lastToken states => parseValue strtod states lastToken
  | .evaluating value states => evaluateStates strtod value states

/-- What a state still has to do, against the bytes that are left. -/
def ParserState.weight : ParserState → Nat → Nat
  | .parsing lastToken _, left => 2 * left + if lastToken = .endOfInput then 0 else 1
  | .evaluating _ _, left => 2 * left

/-- `sax_parse_internal` from a state on -/
def saxParseInternal (state : ParserState) : ByteReading Json :=
  repeated .unfinished ParserState.weight (parseTurn strtod) state

/-- `parser::parse` in strict mode, with exceptions and without a callback -/
def parser : ByteReading Json := do
  let value ← saxParseInternal strtod (.parsing (← scan strtod) [])
  if (← scan strtod) = .endOfInput then pure value else syntaxError

/-- `parse` -/
def parse (data : List UInt8) : Except ReadError Json := (parser strtod ⟨0, data⟩).map Prod.fst

end

end Esme
