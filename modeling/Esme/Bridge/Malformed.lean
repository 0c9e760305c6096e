import Esme.Bridge.Packets
import Esme.Stream.Escapes

/-! Packets between two `END` bytes that no call of `slipEncoding` has produced. -/

namespace Esme

open Framing Transducer

/-- The encoder puts the escapes of a payload between two `END` bytes. -/
theorem slipEncoding_between {payload between : List UInt8} :
    slipEncoding payload = slipEnd :: (between ++ [slipEnd]) ↔
      payload.flatMap slip.escape = between := by
  rw [slipEncoding_eq, Stuffing.encode]
  -- Both have an `END` in front and one behind.
  simp [slip]

/-- The bytes between two `END` bytes without the escapes that stand for nothing. -/
def wellEscaped (w : List UInt8) : List UInt8 := slip.dropMalformed false w

/--
A packet is encoded as what was received, without the escapes that stand for nothing.

What was received is left as it is exactly when the encoder can have sent it, and if nothing of it
is left there is no packet.
-/
theorem packets_between (host : Host) {history events : List EpollEvent} {v : BridgeVars}
    (reached : (eventLoop host).final (.ok .initial) history = .ok v) (empty : v.rxPacket = [])
    {w : List UInt8} (inside : slipEnd ∉ w)
    (received : ((eventLoop host).output (.ok v) events).flatMap Action.clientBytes =
      slipEnd :: (w ++ [slipEnd])) :
    let packets := ((eventLoop host).output (.ok v) events).flatMap Action.packets
    (∀ p ∈ packets, slipEncoding p = slipEnd :: (wellEscaped w ++ [slipEnd])) ∧
      (wellEscaped w = w ↔ ∃ payload, slipEncoding payload = slipEnd :: (w ++ [slipEnd])) ∧
      (wellEscaped w = [] → packets = []) := by
  -- At most one payload is decoded between the two bytes, and it is sent as `wellEscaped w`.
  intro packets
  have boundary := eventLoop_boundary host BridgeVars.initial_boundary reached
  -- Whatever is handed on was decoded from the bytes received.
  have front := (eventLoop_packets host boundary events).front
  obtain ⟨payload, written, sent⟩ := slip.decoder_between inside
    (show v.decoder.packet = [] from empty)
  rw [received, show slipEnd = slip.fin from rfl, written] at front
  refine ⟨fun p handed => ?_, ?_, fun nothing => ?_⟩
  · have same : p = payload := by
      simpa using (flush_sublist payload).subset (front.subset handed)
    rw [same, slipEncoding_between]
    exact sent
  · simp only [slipEncoding_between]
    exact (slip.dropMalformed_eq_iff inside).trans (exists_congr fun _ => eq_comm)
  · -- Every byte of a payload is sent as something.
    have none : payload = [] := by
      cases payload with
      | nil => rfl
      | cons byte rest =>
        rw [wellEscaped] at nothing
        rw [nothing, List.flatMap_cons, List.append_eq_nil_iff] at sent
        exact absurd sent.1 (slip.escape_ne_nil byte)
    rw [none, flush_nil, List.prefix_nil] at front
    exact front

/-- Behind another packet, two escapes between `END` bytes stand for nothing and one for a byte. -/
theorem packets_between_malformed :
    let w : List UInt8 := [0x61, 0xdb, 0x01, 0x62, 0xdb, 0xdb, 0xdc, 0xdb, 0xdc]
    let before := (eventLoop Host.small).final (.ok .initial)
      [acceptEvent Host.small 8, dataEvent 8 { bytes := [0x05, 0xdb, 0xc0] }]
    let packets := ((eventLoop Host.small).output before
      [dataEvent 8 { bytes := [0xc0, 0x61, 0xdb, 0x01, 0x62] },
        dataEvent 8 { bytes := [0xdb, 0xdb, 0xdc, 0xdb, 0xdc, 0xc0] }]).flatMap Action.packets
    (∀ p ∈ packets, slipEncoding p = slipEnd :: (wellEscaped w ++ [slipEnd])) ∧
      (wellEscaped w = w ↔ ∃ payload, slipEncoding payload = slipEnd :: (w ++ [slipEnd])) ∧
      (wellEscaped w = [] → packets = []) :=
  @packets_between Host.small
    [acceptEvent Host.small 8, dataEvent 8 { bytes := [0x05, 0xdb, 0xc0] }] _ _ rfl rfl _
    (by decide) (by decide +kernel)

/-- An escape that stands for nothing is dropped with its byte, and the packet is handed on. -/
theorem malformed_handed_on :
    let actions := (eventLoop Host.small).output (.ok .initial)
      [acceptEvent Host.small 8, dataEvent 8 { bytes := [0xc0, 0x61, 0xdb, 0x01, 0x62, 0xc0] }]
    actions.flatMap Action.clientBytes = slipEnd :: ([0x61, 0xdb, 0x01, 0x62] ++ [slipEnd]) ∧
      actions.flatMap Action.packets = [[0x61, 0x62]] ∧
      slipEncoding [0x61, 0x62] ≠ slipEnd :: ([0x61, 0xdb, 0x01, 0x62] ++ [slipEnd]) := by
  decide +kernel

end Esme
