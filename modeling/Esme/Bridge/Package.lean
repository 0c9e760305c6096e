import Esme.Json.Dump

/-! `processPackage` and what the bridge uses of `json.hpp` besides `dump`. -/

namespace Esme

/-- The functions of `json.hpp` that turn bytes into values and values into bytes. -/
structure JsonLibrary where
  /-- `from_cbor`, which throws on malformed CBOR -/
  fromCbor : List UInt8 → Except JsonException Json
  /-- `parse`, which throws on invalid JSON -/
  parse : List UInt8 → Except JsonException Json
  /-- `to_cbor` -/
  toCbor : Json → List UInt8
  /-- `dump_float` -/
  dumpFloat : UInt64 → List UInt8
  /-- A number is written on one line. -/
  dumpFloat_no_newline : ∀ bits, newline ∉ dumpFloat bits

/-- `processPackage`: an empty or malformed package becomes null. -/
def processPackage (json : JsonLibrary) (data : List UInt8) : Json :=
  -- The catch-all turns every exception into null, but what is returned is not checked.
  if 0 < data.length then
    match json.fromCbor data with
    | .ok jFromCbor => jFromCbor
    | .error _ => .null
  else .null

/-- `from_cbor` on small unsigned integers, short texts and null. -/
def smallFromCbor : List UInt8 → Except JsonException Json
  | [] => .error (.parseError 110)
  | initial :: rest =>
    if initial ≤ 0x17 ∧ rest = [] then .ok (.numberUnsigned initial.toUInt64)
    else if 0x60 ≤ initial ∧ initial ≤ 0x77 ∧ rest.length = initial.toNat - 0x60 then
      -- The bytes of a text are copied without being validated.
      .ok (.string rest)
    else if initial = 0xf6 ∧ rest = [] then .ok .null
    else .error (.parseError 112)

/-- `parse` on the literals. -/
def smallParse (text : List UInt8) : Except JsonException Json :=
  if text = ascii ['n', 'u', 'l', 'l'] then .ok .null
  else if text = ascii ['t', 'r', 'u', 'e'] then .ok (.boolean true)
  else if text = ascii ['f', 'a', 'l', 's', 'e'] then .ok (.boolean false)
  else .error (.parseError 101)

/-- `to_cbor` on the literals. -/
def smallToCbor : Json → List UInt8
  | .boolean false => [0xf4]
  | .boolean true => [0xf5]
  | _ => [0xf6]

/-- A library that does what `json.hpp` does on these few values. -/
def JsonLibrary.small : JsonLibrary where
  fromCbor := smallFromCbor
  parse := smallParse
  toCbor := smallToCbor
  dumpFloat _ := ascii ['0', '.', '0']
  dumpFloat_no_newline _ := by decide

end Esme
