import Esme.Json.Value
import Esme.Memory.Numbers

/-! `to_cbor` and `from_cbor` of `json.hpp`. -/

namespace Esme

open BinaryFormat Reading

/-- `write_number` of the last `size` bytes of a number, in network order -/
def writeNumber (size number : Nat) : List UInt8 := bigEndian size number

/-- The initial byte of an item and the number behind it, one cascade for all types. -/
def writeInitial (type : UInt8) (number : Nat) : List UInt8 :=
  -- Numbers up to 0x17 are part of the initial byte.
  if number ≤ 0x17 then writeNumber 1 (type.toNat + number)
  else if number ≤ 0xff then (type + 0x18) :: writeNumber 1 number
  else if number ≤ 0xffff then (type + 0x19) :: writeNumber 2 number
  else if number ≤ 0xffffffff then (type + 0x1a) :: writeNumber 4 number
  else (type + 0x1b) :: writeNumber 8 number

/-- The tag a subtype is written as. -/
def writeTag (subtype : Nat) : List UInt8 :=
  if subtype ≤ 0xff then 0xd8 :: writeNumber 1 subtype
  else if subtype ≤ 0xffff then 0xd9 :: writeNumber 2 subtype
  else if subtype ≤ 0xffffffff then 0xda :: writeNumber 4 subtype
  else 0xdb :: writeNumber 8 subtype

/-- `std::numeric_limits<float>::max()` -/
def floatMax : Nat := 0x7f7fffff

/-- `std::numeric_limits<float>::lowest()` -/
def floatLowest : Nat := 0xff7fffff

/-- `static_cast<float>` -/
def toFloat (bits : UInt64) : Nat := convert double single bits.toNat

/-- `static_cast<double>` of a `float` -/
def toDouble (bits : Nat) : Nat := convert single double bits

/-- The condition of `write_compact_float` for four bytes. -/
def fitsFloat (bits : UInt64) : Bool :=
  double.lessEqual (toDouble floatLowest) bits.toNat &&
    double.lessEqual bits.toNat (toDouble floatMax) &&
    double.equal (toDouble (toFloat bits)) bits.toNat

/-- `write_compact_float` -/
def writeCompactFloat (bits : UInt64) : List UInt8 :=
  if fitsFloat bits then 0xfa :: writeNumber 4 (toFloat bits)
  else 0xfb :: writeNumber 8 bits.toNat

/-- The branch of `write_cbor` for floating-point numbers. -/
def writeFloat (bits : UInt64) : List UInt8 :=
  -- What is not a number is always written as the same one.
  if double.isNan bits.toNat then [0xf9, 0x7e, 0x00]
  else if double.isInf bits.toNat then
    [0xf9, if double.negative bits.toNat then 0xfc else 0x7c, 0x00]
  else writeCompactFloat bits

mutual

/-- `write_cbor` -/
def writeCbor : Json → List UInt8
  | .null => [0xf6]
  | .boolean true => [0xf5]
  | .boolean false => [0xf4]
  | .numberInteger value =>
    -- A number that is not negative is written as if it were unsigned.
    if 0 ≤ value then writeInitial 0x00 value.toInt.toNat
    else writeInitial 0x20 (-1 - value).toInt.toNat
  | .numberUnsigned value => writeInitial 0x00 value.toNat
  | .numberFloat bits => writeFloat bits
  | .string text => writeInitial 0x60 text.length ++ text
  | .array elements => writeInitial 0x80 elements.length ++ writeElements elements
  | .binary bytes subtype =>
    (match subtype with
      | some subtype => writeTag subtype.toNat
      | none => []) ++
      (writeInitial 0x40 bytes.length ++ bytes)
  | .object members => writeInitial 0xa0 members.length ++ writeMembers members
  -- Nothing is written for a value that was discarded.
  | .discarded => []

/-- The elements of an array, one after the other. -/
def writeElements : List Json → List UInt8
  | [] => []
  | element :: rest => writeCbor element ++ writeElements rest

/-- The members of an object, each key as a string before its value. -/
def writeMembers : List (List UInt8 × Json) → List UInt8
  | [] => []
  | (key, value) :: rest =>
    (writeInitial 0x60 key.length ++ key) ++ writeCbor value ++ writeMembers rest

end

/-- `to_cbor` -/
def toCbor (value : Json) : List UInt8 := writeCbor value

/-- `get` and `unexpect_eof` -/
def expect : ByteReading UInt8 := do
  match ← next with
  | some byte => pure byte
  | none => fail (.parseError 110)

/-- `get_number` of a big-endian number of `size` bytes -/
def getNumber (size : Nat) : ByteReading Nat :=
  -- The bytes are put in the array backwards, so that the first one is the most significant.
  loop (fun number => do
    let byte ← expect
    pure (number * 256 + byte.toNat)) size 0

/-- The loop of `get_string` and of `get_binary`. -/
def getBytes (length : Nat) : ByteReading (List UInt8) :=
  loop (fun bytes => do
    let byte ← expect
    pure (bytes ++ [byte])) length []

/-- What the last five bits of an initial byte say. -/
inductive Argument where
  /-- a number in the byte itself or in the bytes that follow -/
  | known (number : ByteReading Nat)
  /-- an item that goes on up to a break -/
  | indefinite
  | invalid

/-- The cases that the switches have for each type of item. -/
def argument (current : UInt8) : Argument :=
  let low := current.toNat % 32
  if low ≤ 0x17 then .known (pure low)
  else if low = 0x18 then .known (getNumber 1)
  else if low = 0x19 then .known (getNumber 2)
  else if low = 0x1a then .known (getNumber 4)
  else if low = 0x1b then .known (getNumber 8)
  else if low = 0x1f then .indefinite
  else .invalid

/-- `get_cbor_string` and `get_cbor_binary`, which differ in the type of the initial byte. -/
def getCborBytes (type : Nat) : Nat → Option UInt8 → ByteReading (List UInt8)
  | 0, _ => fail fun _ => .unfinished
  | _ + 1, none => fail (.parseError 110)
  | bound + 1, some current =>
    if current.toNat / 32 = type then
      match argument current with
      | .known length => do getBytes (← length)
      -- The chunks have the same type, and may be indefinite themselves.
      | .indefinite =>
        loopUntil .unfinished 0xff (fun bytes current => do
          let chunk ← getCborBytes type bound current
          pure (bytes ++ chunk)) (bound + 1) []
      | .invalid => fail (.parseError 113)
    else fail (.parseError 113)

/-- `get_cbor_binary`, for initial bytes from 0x40 on -/
def getCborBinary : Nat → Option UInt8 → ByteReading (List UInt8) := getCborBytes 2

/-- `get_cbor_string`, for initial bytes from 0x60 on -/
def getCborString : Nat → Option UInt8 → ByteReading (List UInt8) := getCborBytes 3

/-- `static_cast<std::size_t>(-1)`, the length that stands for an indefinite one -/
def indefiniteLength : Nat := 2 ^ 64 - 1

/-- `start_array` and `start_object`: a length beyond what the container holds is refused. -/
def startContainer (length limit : Nat) : ByteReading Unit :=
  if length ≠ indefiniteLength ∧ limit < length then fail fun _ => .outOfRange 408 else pure ()

/-- The loop over the items of a container, with a known length or up to a break. -/
def getItems {σ : Type} (item : σ → Option UInt8 → ByteReading σ) (bound length : Nat)
    (state : σ) : ByteReading σ :=
  if length ≠ indefiniteLength then loop (fun state => next >>= item state) length state
  else loopUntil .unfinished 0xff item bound state

/-- One element, which is put behind the others. -/
def getElement (parse : Option UInt8 → ByteReading Json) (elements : List Json)
    (current : Option UInt8) : ByteReading (List Json) := do
  let value ← parse current
  pure (elements ++ [value])

/-- `get_cbor_array`, given how to read an element from its initial byte -/
def getCborArray (containers : Containers) (parse : Option UInt8 → ByteReading Json)
    (bound length : Nat) : ByteReading Json := do
  startContainer length containers.arrayMax
  let elements ← getItems (getElement parse) bound length []
  pure (.array elements)

/-- One member, whose value replaces what is there at its key. -/
def getMember (getKey : Option UInt8 → ByteReading (List UInt8))
    (parse : Option UInt8 → ByteReading Json) (members : List (List UInt8 × Json))
    (current : Option UInt8) : ByteReading (List (List UInt8 × Json)) := do
  let key ← getKey current
  let value ← next >>= parse
  pure (Sorted.insert key value members)

/-- `get_cbor_object`, given how to read a key and a value from their initial bytes -/
def getCborObject (containers : Containers) (getKey : Option UInt8 → ByteReading (List UInt8))
    (parse : Option UInt8 → ByteReading Json) (bound length : Nat) : ByteReading Json := do
  startContainer length containers.objectMax
  let members ← getItems (getMember getKey parse) bound length []
  pure (.object members)

/-- `std::ldexp` of a number that is not negative -/
def ldexp (number : Nat) (exponent : Int) : Nat :=
  double.nearest (number * 2 ^ (exponent + double.scale).toNat) (-(exponent + double.scale)).toNat

/-- `std::numeric_limits<double>::quiet_NaN()` -/
def quietNan : Nat := 0x7ff8000000000000

/-- The number that a half-precision float stands for. -/
def decodeHalf (half : Nat) : Nat :=
  let exponent : Nat := half / 2 ^ 10 % 2 ^ 5
  let mantissa : Nat := half % 2 ^ 10
  let value :=
    if exponent = 0 then ldexp mantissa (-24)
    else if exponent = 31 then if mantissa = 0 then double.infinity else quietNan
    else ldexp (mantissa + 1024) ((exponent : Int) - 25)
  -- Negation sets the sign bit.
  if half / 0x8000 % 2 ≠ 0 then double.signBit + value else value

/-- The cases of `parse_cbor_internal` from 0xe0 on. -/
def getSimple (current : UInt8) : ByteReading Json :=
  if current = 0xf4 then pure (.boolean false)
  else if current = 0xf5 then pure (.boolean true)
  else if current = 0xf6 then pure .null
  else if current = 0xf9 then do
    let byte1 ← expect
    let byte2 ← expect
    pure (.numberFloat (UInt64.ofNat (decodeHalf (byte1.toNat * 2 ^ 8 + byte2.toNat))))
  else if current = 0xfa then do
    let number ← getNumber 4
    pure (.numberFloat (UInt64.ofNat (toDouble number)))
  else if current = 0xfb then do
    let number ← getNumber 8
    pure (.numberFloat (UInt64.ofNat number))
  else fail (.parseError 112)

/-- `parse_cbor_internal` from the byte that was read last, with tags being errors -/
def parseCborInternal (containers : Containers) : Nat → Option UInt8 → ByteReading Json
  | 0, _ => fail fun _ => .unfinished
  | _ + 1, none => fail (.parseError 110)
  | bound + 1, some current =>
    match current.toNat / 32, argument current with
    | 0, .known number => do
      pure (.numberUnsigned (UInt64.ofNat (← number)))
    | 1, .known number => do
      -- Numbers from 2 to the 63 on wrap when they are made signed.
      pure (.numberInteger (-1 - (UInt64.ofNat (← number)).toInt64))
    | 2, .known _ | 2, .indefinite => do
      pure (.binary (← getCborBinary (bound + 1) (some current)) none)
    | 3, .known _ | 3, .indefinite => do
      pure (.string (← getCborString (bound + 1) (some current)))
    | 4, .known length => do
      getCborArray containers (parseCborInternal containers bound) (bound + 1) (← length)
    | 4, .indefinite =>
      getCborArray containers (parseCborInternal containers bound) (bound + 1) indefiniteLength
    | 5, .known length => do
      getCborObject containers (getCborString bound) (parseCborInternal containers bound)
        (bound + 1) (← length)
    | 5, .indefinite =>
      getCborObject containers (getCborString bound) (parseCborInternal containers bound)
        (bound + 1) indefiniteLength
    | 7, _ => getSimple current
    -- Tags and bytes that start nothing are refused alike.
    | _, _ => fail (.parseError 112)

/-- `sax_parse` in strict mode: a value, and then the end of the input -/
def saxParseCbor (containers : Containers) (bound : Nat) : ByteReading Json := do
  let value ← parseCborInternal containers bound (← next)
  match ← next with
  | none => pure value
  | some _ => fail (.parseError 110)

/-- `from_cbor` -/
def fromCbor (containers : Containers) (data : List UInt8) : Except ReadError Json :=
  (saxParseCbor containers (data.length + 1) ⟨0, data⟩).map Prod.fst

end Esme
