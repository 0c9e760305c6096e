import Esme.Stream.Framing

/-! The SLIP bytes of `tcpbridge.h` and `slipEncoding`. -/

namespace Esme

/-- `SLIP_END` -/
def slipEnd : UInt8 := 0xc0

/-- `SLIP_ESC` -/
def slipEsc : UInt8 := 0xdb

/-- `SLIP_ESC_END` -/
def slipEscEnd : UInt8 := 0xdc

/-- `SLIP_ESC_ESC` -/
def slipEscEsc : UInt8 := 0xdd

/-- One turn of the loop of `slipEncoding`: what is pushed to the output for a value. -/
def slipPush (output : List UInt8) (value : UInt8) : List UInt8 :=
  -- The three cases of the switch.
  if value = slipEnd then output ++ [slipEsc] ++ [slipEscEnd]
  else if value = slipEsc then output ++ [slipEsc] ++ [slipEscEsc]
  else output ++ [value]

/-- `slipEncoding` -/
def slipEncoding (data : List UInt8) : List UInt8 :=
  data.foldl slipPush [slipEnd] ++ [slipEnd]

/-- SLIP is byte stuffing with these four bytes. -/
def slip : Framing.Stuffing UInt8 where
  -- `END` itself never occurs inside an escape pair, which is all that stuffing needs.
  fin := slipEnd
  esc := slipEsc
  escFin := slipEscEnd
  escEsc := slipEscEsc
  esc_ne_fin := by decide
  escFin_ne_fin := by decide
  escFin_ne_esc := by decide
  escEsc_ne_fin := by decide
  escEsc_ne_esc := by decide
  escEsc_ne_escFin := by decide

/-- The loop appends the escapes of the values to what was there. -/
theorem foldl_slipPush (data output : List UInt8) :
    data.foldl slipPush output = output ++ data.flatMap slip.escape := by
  -- The output grows with every value, so it stays quantified over.
  induction data generalizing output with
  | nil => simp
  | cons value rest ih =>
    have pushed : slipPush output value = output ++ slip.escape value := by
      unfold slipPush Framing.Stuffing.escape
      by_cases ends : value = slipEnd
      · simp [ends, slip]
      by_cases escapes : value = slipEsc
      · simp [escapes, slip, slipEsc, slipEnd]
      · simp [ends, escapes, slip]
    rw [List.foldl_cons, ih, pushed, List.flatMap_cons, List.append_assoc]

/-- `slipEncoding` stuffs the payload. -/
theorem slipEncoding_eq (data : List UInt8) : slipEncoding data = slip.encode data := by
  rw [slipEncoding, foldl_slipPush]
  rfl

end Esme
