import Esme.Bridge.Loop
import Mathlib.Computability.Language

/-! What can be read off the actions of the bridge, and what each step of its loops can do. -/

namespace Esme

open Framing Transducer

/-- What a peer understands: values dumped on one line each, or SLIP frames. -/
def Peer.language (host : Host) : Peer → Language UInt8
  | .miso => {message | ∃ value str,
      dump host.json.dumpFloat value = .ok str ∧ message = str ++ [newline]}
  | .client => {message | ∃ payload, message = slipEncoding payload}

namespace Action

/-- The bytes received from any client. -/
def clientBytes : Action → List UInt8
  | .received _ _ bytes => bytes
  | _ => []

/-- The bytes received on one connection. -/
def clientBytesOn (connection : Nat) : Action → List UInt8
  | .received other _ bytes => if other = connection then bytes else []
  | _ => []

/-- The packets handed to `processPackage`. -/
def packets : Action → List (List UInt8)
  | .processed _ packet => [packet]
  | _ => []

/-- The packets handed to `processPackage` while one connection was the current one. -/
def packetsOn (connection : Nat) : Action → List (List UInt8)
  | .processed other packet => if other = connection then [packet] else []
  | _ => []

/-- The bytes read from `mosi.fifo`, each with whether it was kept. -/
def mosiBytes : Action → List (UInt8 × Bool)
  | .readMosi kept bytes => bytes.map fun byte => (byte, kept)
  | _ => []

/-- The bytes read from `mosi.fifo` and kept. -/
def mosiKept : Action → List UInt8
  | .readMosi true bytes => bytes
  | _ => []

/-- The lines passed to `json::parse`. -/
def lines : Action → List (List UInt8)
  | .parsed text => [text]
  | _ => []

/-- The messages written to a peer, whole. -/
def messages (peer : Peer) : Action → List (List UInt8)
  | .wrote _ other _ _ message _ _ => if other = peer then [message] else []
  | _ => []

/-- The bytes a peer took. -/
def taken (peer : Peer) : Action → List UInt8
  | .wrote _ other _ _ _ taken _ => if other = peer then taken else []
  | _ => []

/-- Whatever is written to a peer is taken whole. -/
def Whole (peer : Peer) : Action → Prop
  | .wrote _ other _ _ message taken _ => other = peer → taken = message
  | _ => True

instance (peer : Peer) : DecidablePred (Whole peer)
  | .wrote _ other _ _ message taken _ =>
    inferInstanceAs (Decidable (other = peer → taken = message))
  | .accepted _ _ | .closed _ | .registered _ _ | .received _ _ _ | .processed _ _
  | .readMosi _ _ | .parsed _ | .readPassive _ => isTrue trivial

/-- What is written to a peer is a message for it, and is taken as its calls of `write` say. -/
def Forwarded (host : Host) : Action → Prop
  | .wrote index peer _ _ message taken returned => message ∈ peer.language host ∧
      writeAllNonblocking (host.writes index) message = (taken, returned)
  | _ => True

/-- Neither a packet that cannot be dumped nor a line that cannot be parsed. -/
def Sound (host : Host) : Action → Prop
  | .processed _ packet => (processPackage host.json packet).textsValid = true
  | .parsed text => (host.json.parse text).isOk = true
  | _ => True

end Action

/-- The decoder the bridge keeps in two of its variables. -/
def BridgeVars.decoder (v : BridgeVars) : Stuffing.Decoder UInt8 := ⟨v.rxPacket, v.slipEscaped⟩

/-- The variables as they are between two events, with nothing left in `buffer2`. -/
def BridgeVars.AtBoundary (v : BridgeVars) : Prop := v.buffer2 = []

/-- The loop starts at a boundary. -/
theorem BridgeVars.initial_boundary : BridgeVars.initial.AtBoundary := rfl

/-- The line a packet is written to miso as, if it can be dumped. -/
def misoLine (host : Host) (packet : List UInt8) : List (List UInt8) :=
  -- A packet that cannot be dumped has no line.
  match dump host.json.dumpFloat (processPackage host.json packet) with
  | .ok str => [str ++ [newline]]
  | .error _ => []

/-- The frame a line is sent to the client as, if it can be parsed. -/
def clientFrame (host : Host) (line : List UInt8) : List (List UInt8) :=
  -- A line that cannot be parsed has no frame.
  match host.json.parse line with
  | .ok j => [slipEncoding (host.json.toCbor j)]
  | .error _ => []

section

variable (host : Host) (v : BridgeVars)

/-- The write of a message to miso while these variables are current. -/
def wroteMiso (message : List UInt8) : Action :=
  (writeMessage host v .miso host.fifoMiso message).2

/-- The write of a message to the client while these variables are current. -/
def wroteClient (message : List UInt8) : Action :=
  (writeMessage host v .client v.clientFd.fd message).2

/-- A packet is handed on and then either ends the process or becomes one line. -/
theorem forwardPacket_cases :
    (∃ error, dump host.json.dumpFloat (processPackage host.json v.rxPacket) = .error error ∧
        forwardPacket host v = (.error error, [.processed v.connection v.rxPacket])) ∨
      ∃ str, dump host.json.dumpFloat (processPackage host.json v.rxPacket) = .ok str ∧
        forwardPacket host v = (.ok { v with rxPacket := [], messages := v.messages + 1 },
          [.processed v.connection v.rxPacket, wroteMiso host v (str ++ [newline])]) := by
  -- What `dump` returns decides between the two.
  unfold forwardPacket
  dsimp only
  cases dumped : dump host.json.dumpFloat (processPackage host.json v.rxPacket) with
  | error error => exact .inl ⟨error, rfl, rfl⟩
  | ok str => exact .inr ⟨str, rfl, rfl⟩

/--
A received byte moves the decoder, and hands on what the decoder hands on.

Handing on a packet either ends the process or writes the packet's line.
-/
theorem receiveByte_cases (byte : UInt8) :
    (∃ packet escaped, receiveByte host v byte =
          (.ok { v with rxPacket := packet, slipEscaped := escaped }, []) ∧
        slip.decoder.step v.decoder byte = (⟨packet, escaped⟩, [])) ∨
      (slip.decoder.step v.decoder byte = (.fresh, [v.rxPacket]) ∧
        ((∃ error, dump host.json.dumpFloat (processPackage host.json v.rxPacket) = .error error ∧
            receiveByte host v byte = (.error error, [.processed v.connection v.rxPacket])) ∨
          ∃ str, dump host.json.dumpFloat (processPackage host.json v.rxPacket) = .ok str ∧
            receiveByte host v byte =
              (.ok { v with rxPacket := [], slipEscaped := false, messages := v.messages + 1 },
                [.processed v.connection v.rxPacket,
                  wroteMiso host v (str ++ [newline])]))) := by
  -- The cases are those of the loop: an escape, an end byte, and every other byte.
  by_cases escape : byte = slipEsc
  · exact .inl ⟨v.rxPacket, true, by rw [receiveByte, if_pos escape],
      by simp [slip, Stuffing.decoder, escape, BridgeVars.decoder]⟩
  by_cases ends : byte = slipEnd
  · -- Only an end byte behind a packet hands anything on.
    have moved : slip.decoder.step v.decoder byte = (.fresh, flush v.rxPacket) := by
      rw [ends]
      exact slip.decoder_step_fin v.decoder
    by_cases empty : v.rxPacket = []
    · refine .inl ⟨[], false, ?_, by rw [moved, empty]; rfl⟩
      simp [receiveByte, receiveUnescaped, ends, empty, slipEnd, slipEsc, Except.map]
    · refine .inr ⟨by rw [moved, flush_nonempty empty], ?_⟩
      have step : receiveByte host v byte =
          ((forwardPacket host v).1.map fun v => { v with slipEscaped := false },
            (forwardPacket host v).2) := by
        simp [receiveByte, receiveUnescaped, ends, List.length_pos_iff, empty, slipEnd, slipEsc]
      rw [step]
      rcases forwardPacket_cases host v with ⟨error, dumped, forwarded⟩ | ⟨str, dumped, forwarded⟩
      · exact .inl ⟨error, dumped, by rw [forwarded]; rfl⟩
      · exact .inr ⟨str, dumped, by rw [forwarded]; rfl⟩
  · -- Every other byte is appended, or stands for what the escape before it says.
    cases pending : v.slipEscaped with
    | false =>
      refine .inl ⟨v.rxPacket ++ [byte], false, ?_, ?_⟩
      · simp [receiveByte, receiveUnescaped, escape, ends, pending, Except.map]
      · simp [slip, Stuffing.decoder, escape, ends, pending, BridgeVars.decoder]
    | true =>
      refine .inl ⟨v.rxPacket ++ slip.unescape byte, false, ?_, ?_⟩
      · by_cases standsForEnd : byte = slipEscEnd
        · simp [receiveByte, receiveUnescaped, standsForEnd, pending, Except.map,
            Stuffing.unescape, slip, slipEscEnd, slipEsc, slipEnd]
        by_cases standsForEsc : byte = slipEscEsc
        · simp [receiveByte, receiveUnescaped, standsForEsc, pending, Except.map,
            Stuffing.unescape, slip, slipEscEnd, slipEscEsc, slipEsc, slipEnd]
        · simp [receiveByte, receiveUnescaped, escape, ends, standsForEnd, standsForEsc, pending,
            Except.map, Stuffing.unescape, slip]
      · simp [slip, Stuffing.decoder, escape, ends, pending, BridgeVars.decoder]

/-- A complete line is passed on and then either ends the process or becomes one frame. -/
theorem forwardLine_cases :
    (∃ error, host.json.parse v.txPacket = .error error ∧
        forwardLine host v = (.error error, [.parsed v.txPacket])) ∨
      ∃ j, host.json.parse v.txPacket = .ok j ∧
        forwardLine host v = (.ok { v with txPacket := [], messages := v.messages + 1 },
          [.parsed v.txPacket, wroteClient host v (slipEncoding (host.json.toCbor j))]) := by
  -- What `parse` returns decides between the two.
  unfold forwardLine
  cases text : host.json.parse v.txPacket with
  | error error => exact .inl ⟨error, rfl, rfl⟩
  | ok j => exact .inr ⟨j, rfl, rfl⟩

/--
A byte from mosi moves the line reader, and passes on what the reader hands on.

Passing on a line either ends the process or writes the line's frame.
-/
theorem mosiByte_cases (byte : UInt8) :
    (∃ line, mosiByte host v byte = (.ok { v with txPacket := line }, []) ∧
        (lineReader newline).step v.txPacket byte = (line, [])) ∨
      ((lineReader newline).step v.txPacket byte = ([], [v.txPacket]) ∧
        ((∃ error, host.json.parse v.txPacket = .error error ∧
            mosiByte host v byte = (.error error, [.parsed v.txPacket])) ∨
          ∃ j, host.json.parse v.txPacket = .ok j ∧
            mosiByte host v byte = (.ok { v with txPacket := [], messages := v.messages + 1 },
              [.parsed v.txPacket, wroteClient host v (slipEncoding (host.json.toCbor j))]))) := by
  -- A newline behind something is the only byte that passes anything on.
  by_cases ends : byte = newline
  · by_cases empty : v.txPacket = []
    · exact .inl ⟨v.txPacket, by rw [mosiByte, if_pos ends, if_neg (by simp [empty])],
        by simp [lineReader, ends, empty]⟩
    · refine .inr ⟨by simp [lineReader, ends, flush_nonempty empty], ?_⟩
      have step : mosiByte host v byte = forwardLine host v := by
        simp [mosiByte, ends, List.length_pos_iff, empty]
      rw [step]
      exact forwardLine_cases host v
  · exact .inl ⟨v.txPacket ++ [byte], by simp [mosiByte, ends], by simp [lineReader, ends]⟩

/-- Between two events there is nothing in `buffer2`, so a read leaves exactly its bytes there. -/
theorem readInto_eq (chunk : Chunk) (boundary : v.AtBoundary) :
    readInto v chunk =
      { v with buffer := v.buffer.blit 0 chunk.bytes, buffer2 := chunk.bytes } := by
  -- A chunk fits into `buffer`, so what is read back from there is all of it.
  have inside : 0 + chunk.bytes.length ≤ bufferSize := by
    rw [Nat.zero_add]
    exact chunk.fits
  have filled := v.buffer.take_blit inside
  rw [Nat.zero_add, List.take_zero, List.nil_append] at filled
  rw [BridgeVars.AtBoundary] at boundary
  rw [readInto, filled, boundary]
  rfl

/-- What an event can do: nothing but to `buffer`, a client more or less, or one chunk. -/
theorem handleEvent_cases (event : EpollEvent) :
    (∃ buffer actions, handleEvent host v event = (.ok { v with buffer := buffer }, actions) ∧
        (actions = [] ∨ ∃ bytes, actions = [.readPassive bytes])) ∨
      (event.fd = host.serverFd ∧ 0 ≤ event.accept ∧
        handleEvent host v event = acceptClient v event.accept) ∨
      handleEvent host v event = dropClient v ∨
      (∃ chunk, event.read = .data chunk ∧ handleEvent host v event = mosiChunk host v chunk) ∨
      ∃ chunk, event.read = .data chunk ∧ v.clientFd.valid = true ∧
        handleEvent host v event = receiveChunk host v chunk := by
  -- The descriptors are compared in the order of the source, and then what the call returned.
  by_cases server : event.fd = host.serverFd
  · by_cases opened : 0 ≤ event.accept
    · exact .inr (.inl ⟨server, opened, by rw [handleEvent, if_pos server]⟩)
    · exact .inl ⟨v.buffer, [], by rw [handleEvent, if_pos server, acceptClient, if_neg opened],
        .inl rfl⟩
  by_cases mosi : event.fd = host.fifoMosi
  · have branch : handleEvent host v event = mosiEvent host v event := by
      rw [handleEvent, if_neg server, if_pos mosi]
    rw [branch, mosiEvent]
    cases result : event.read with
    | data chunk => exact .inr (.inr (.inr (.inl ⟨chunk, rfl, rfl⟩)))
    | eof => exact .inl ⟨v.buffer, [], rfl, .inl rfl⟩
    | failed errno => exact .inl ⟨v.buffer, [], rfl, .inl rfl⟩
  by_cases client : v.clientFd.valid ∧ event.fd = v.clientFd.fd
  · have branch : handleEvent host v event = clientEvent host v event := by
      rw [handleEvent, if_neg server, if_neg mosi, if_pos client]
    rw [branch, clientEvent]
    split
    · exact .inr (.inr (.inl rfl))
    cases result : event.read with
    | data chunk => exact .inr (.inr (.inr (.inr ⟨chunk, rfl, client.1, rfl⟩)))
    | eof => exact .inr (.inr (.inl rfl))
    | failed errno => exact .inl ⟨v.buffer, [], rfl, .inl rfl⟩
  by_cases passive : event.fd = host.fifoPassive
  · have branch : handleEvent host v event = passiveEvent v event := by
      rw [handleEvent, if_neg server, if_neg mosi, if_neg client, if_pos passive]
    rw [branch, passiveEvent]
    cases result : event.read with
    | data chunk => exact .inl ⟨_, _, rfl, .inr ⟨chunk.bytes, rfl⟩⟩
    | eof => exact .inl ⟨v.buffer, [], rfl, .inl rfl⟩
    | failed errno => exact .inl ⟨v.buffer, [], rfl, .inl rfl⟩
  · exact .inl ⟨v.buffer, [], by
      rw [handleEvent, if_neg server, if_neg mosi, if_neg client, if_neg passive], .inl rfl⟩

end

end Esme
