import Esme.Bridge.Runs

/-! What becomes of the packets a client sends: decoding them, dumping them, and going on. -/

namespace Esme

open Framing Transducer

/-- A bridge beside the small library, with every write taken whole. -/
def Host.small : Host where
  json := .small
  serverFd := 3
  fifoMosi := 4
  fifoMiso := 5
  fifoPassive := 6
  writes _ _ := .accepted bufferSize

/-- A new client on a descriptor. -/
def acceptEvent (host : Host) (fd : Int) : EpollEvent where
  fd := host.serverFd
  evmask := epollIn
  accept := fd
  read := .eof

/-- Some bytes on a descriptor. -/
def dataEvent (fd : Int) (chunk : Chunk) : EpollEvent where
  fd := fd
  evmask := epollIn
  accept := -1
  read := .data chunk

/-- The other side of a descriptor is closed. -/
def hangupEvent (fd : Int) : EpollEvent where
  fd := fd
  evmask := epollIn ||| epollRdhup
  accept := -1
  read := .eof

variable (host : Host) {v : BridgeVars}

/-- The client branch on one chunk after another. -/
def receiveChunks : Transducer Outcome Chunk Action := .stopping (receiveChunk host)

/-- A chunk that goes on ends at a boundary. -/
theorem receiveChunk_boundary (v : BridgeVars) (chunk : Chunk) (next : BridgeVars)
    (boundary : v.AtBoundary) (going : (receiveChunk host v chunk).1 = .ok next) :
    next.AtBoundary := by
  obtain ⟨result, actions, step, -, ends⟩ := receiveChunk_consumes host boundary chunk
  rw [step] at going
  exact ends next going

/-- The client branch decodes the chunks it is given, wherever they are cut. -/
theorem receiveChunks_packets (boundary : v.AtBoundary) (chunks : List Chunk) :
    Decodes slip.decoder BridgeVars.decoder v.decoder (chunks.flatMap Chunk.bytes)
      ((receiveChunks host).final (.ok v) chunks)
      (((receiveChunks host).output (.ok v) chunks).flatMap Action.packets) := by
  -- The chunks are consumed one by one, and decoding goes on where it was.
  refine decodes_inputs (receiveChunk_boundary host) (fun state chunk inv => ?_) boundary chunks
  obtain ⟨result, actions, step, consumes, -⟩ := receiveChunk_consumes host inv chunk
  rw [step]
  exact consumes.decodes

/-- The client branch passes no line on. -/
theorem receiveChunks_lines (boundary : v.AtBoundary) (chunks : List Chunk) :
    ((receiveChunks host).output (.ok v) chunks).flatMap Action.lines = [] := by
  -- All that happens comes from the loop over received bytes.
  refine List.flatMap_eq_nil_iff.mpr (forall_mem_going (receiveChunk_boundary host)
    (fun state chunk inv => ?_) boundary chunks)
  obtain ⟨result, actions, step, consumes, -⟩ := receiveChunk_consumes host inv chunk
  rw [step, List.forall_mem_cons]
  exact ⟨rfl, fun action member =>
    (Action.FromClient.silent (consumes.origin action member)).2.lines⟩

/-- The client branch goes on exactly while the packets it decodes dump. -/
theorem receiveChunks_going_iff (boundary : v.AtBoundary) (chunks : List Chunk) :
    (∃ last, (receiveChunks host).final (.ok v) chunks = .ok last) ↔
      ∀ packet ∈ slip.decoder.output v.decoder (chunks.flatMap Chunk.bytes),
        (processPackage host.json packet).textsValid = true := by
  -- With no lines in the trace, only its packets can stop it.
  have each : ∀ state chunk, BridgeVars.AtBoundary state →
      ((∃ next, (receiveChunk host state chunk).1 = .ok next) ↔
        ∀ action ∈ (receiveChunk host state chunk).2, action.Sound host) := by
    intro state chunk inv
    obtain ⟨result, actions, step, consumes, -⟩ := receiveChunk_consumes host inv chunk
    rw [step, consumes.going, List.forall_mem_cons]
    exact (and_iff_right trivial).symm
  have going := going_iff_good (receiveChunk_boundary host) each boundary chunks
  have silent := receiveChunks_lines host boundary chunks
  rw [receiveChunks] at silent
  rw [sound_iff, silent] at going
  exact (receiveChunks_packets host boundary chunks).going_iff
    (going.trans (and_iff_left (by simp)))

/--
Chunks made of the frames of some payloads lead to those payloads.

The packet left over from before comes first, and nothing is left over behind the frames.
-/
def DeliversPayloads (v : BridgeVars) (payloads : List (List UInt8)) (chunks : List Chunk) :
    Prop :=
  ((receiveChunks host).output (.ok v) chunks).flatMap Action.packets =
      flush v.rxPacket ++ payloads.filter (fun payload => !payload.isEmpty) ∧
    ∃ last, (receiveChunks host).final (.ok v) chunks = .ok last ∧
      last.rxPacket = [] ∧ last.slipEscaped = false

/-- Frames lead to their payloads from any state, exactly when every packet dumps. -/
theorem delivers_payloads_iff (boundary : v.AtBoundary) {payloads : List (List UInt8)}
    (nonempty : payloads ≠ []) {chunks : List Chunk}
    (cut : chunks.flatMap Chunk.bytes = payloads.flatMap slipEncoding) :
    DeliversPayloads host v payloads chunks ↔
      ∀ packet ∈ flush v.rxPacket ++ payloads.filter (fun payload => !payload.isEmpty),
        (processPackage host.json packet).textsValid = true := by
  -- All the frames together empty the decoder, whatever was in it.
  obtain ⟨moved, handed⟩ := slip.decoder_frames v.decoder nonempty
  have frames : chunks.flatMap Chunk.bytes = payloads.flatMap slip.encode :=
    cut.trans (congrArg payloads.flatMap (funext slipEncoding_eq))
  have decodes := receiveChunks_packets host boundary chunks
  have going := receiveChunks_going_iff host boundary chunks
  rw [frames] at decodes going
  rw [flatMap_flush] at handed
  rw [handed] at going
  rw [← show flush v.decoder.packet = flush v.rxPacket from rfl, ← going]
  constructor
  · intro delivered
    obtain ⟨-, last, reached, -⟩ := delivered
    exact ⟨last, reached⟩
  · intro running
    obtain ⟨last, reached⟩ := running
    obtain ⟨fresh, written⟩ := decodes.going last reached
    rw [moved] at fresh
    exact ⟨written.trans handed, last, reached, congrArg Stuffing.Decoder.packet fresh,
      congrArg Stuffing.Decoder.escaped fresh⟩

/-- A bridge with a client that has left a packet behind, and with the start of a line. -/
def BridgeVars.busy : BridgeVars :=
  { BridgeVars.initial with
    clientFd := ⟨8⟩
    rxPacket := [0x05]
    txPacket := ascii ['n', 'u']
    slipEscaped := true
    connection := 2 }

/-- It is between two events. -/
theorem BridgeVars.busy_boundary : BridgeVars.busy.AtBoundary := rfl

/-- Payloads with bytes that are escaped, cut between the two bytes of an escape. -/
theorem delivers_payloads_iff_cut :
    DeliversPayloads Host.small .busy
      [[0xc0, 0xdb], [], [0x62, 0x61, 0x62], [0xdb, 0x01, 0xc0]]
      [{ bytes := [0xc0, 0xdb] }, { bytes := [0xdc, 0xdb] },
        { bytes := [0xdd, 0xc0, 0xc0, 0xc0, 0xc0, 0x62, 0x61] },
        { bytes := [0x62, 0xc0, 0xc0, 0xdb, 0xdd, 0x01, 0xdb] }, { bytes := [0xdc, 0xc0] }] :=
  (delivers_payloads_iff Host.small BridgeVars.busy_boundary (by decide) (by decide)).mpr
    (by decide)

/-- A text that is not valid ends the process before the next payload is handed on. -/
theorem payload_lost :
    [({ bytes := [0xc0, 0x61, 0xff, 0xc0, 0xc0, 0x01, 0xc0] } : Chunk)].flatMap
        Chunk.bytes = [[0x61, 0xff], [0x01]].flatMap slipEncoding ∧
      ¬DeliversPayloads Host.small .initial [[0x61, 0xff], [0x01]]
        [{ bytes := [0xc0, 0x61, 0xff, 0xc0, 0xc0, 0x01, 0xc0] }] := by
  -- The list of packets ends with the one that could not be dumped.
  refine ⟨by decide, fun delivered => ?_⟩
  exact absurd delivered.1 (by decide +kernel)

/-- A packet's message is its value dumped on one line. -/
def IsLineOf (packet message : List UInt8) : Prop :=
  ∃ str, dump host.json.dumpFloat (processPackage host.json packet) = .ok str ∧
    newline ∉ str ∧ message = str ++ [newline]

/-- A packet whose texts are valid has a line, and no other message. -/
theorem misoLine_spec {packet : List UInt8}
    (valid : (processPackage host.json packet).textsValid = true) :
    ∃ message, misoLine host packet = [message] ∧ IsLineOf host packet message := by
  -- Valid texts are what `dump` needs to succeed.
  rw [← dump_isOk host.json.dumpFloat] at valid
  unfold misoLine IsLineOf
  cases dumped : dump host.json.dumpFloat (processPackage host.json packet) with
  | error error =>
    rw [dumped] at valid
    cases valid
  | ok str =>
    exact ⟨_, rfl, str, rfl, dump_no_newline host.json.dumpFloat_no_newline _ _ dumped, rfl⟩

/-- Packets whose texts are valid have one line each, in order. -/
theorem misoLines_spec {packets : List (List UInt8)}
    (valid : ∀ packet ∈ packets, (processPackage host.json packet).textsValid = true) :
    List.Forall₂ (IsLineOf host) packets (packets.flatMap (misoLine host)) := by
  -- The induction pairs each packet with its line.
  induction packets with
  | nil => exact .nil
  | cons packet rest ih =>
    obtain ⟨first, others⟩ := List.forall_mem_cons.mp valid
    obtain ⟨message, written, line⟩ := misoLine_spec host first
    rw [List.flatMap_cons, written]
    exact .cons line (ih others)

/-- The run goes on, and every packet its clients complete becomes one line for miso. -/
def SurvivesPackets (v : BridgeVars) (events : List EpollEvent) : Prop :=
  (∃ last, (eventLoop host).final (.ok v) events = .ok last) ∧
    List.Forall₂ (IsLineOf host)
      (slip.decoder.output v.decoder
        (((eventLoop host).output (.ok v) events).flatMap Action.clientBytes))
      (((eventLoop host).output (.ok v) events).flatMap (Action.messages .miso))

/--
Packets are survived exactly when they dump.

The other way for a run to end is a line of edgesoft that does not parse.
-/
theorem survives_packets_iff (boundary : v.AtBoundary) (events : List EpollEvent) :
    SurvivesPackets host v events ↔
      (∀ packet ∈ slip.decoder.output v.decoder
        (((eventLoop host).output (.ok v) events).flatMap Action.clientBytes),
        (processPackage host.json packet).textsValid = true) ∧
      ∀ line ∈ (lineReader newline).output v.txPacket
        (((eventLoop host).output (.ok v) events).flatMap Action.mosiKept),
        (host.json.parse line).isOk = true := by
  rw [← eventLoop_going_iff host boundary events]
  apply and_iff_left_of_imp
  intro running
  obtain ⟨last, reached⟩ := running
  -- A run that goes on has handed on every packet, and each of them was dumped.
  have valid := ((eventLoop_going_iff host boundary events).mp ⟨last, reached⟩).1
  rw [eventLoop_wrote_miso host boundary events,
    ((eventLoop_packets host boundary events).going last reached).2]
  exact misoLines_spec host valid

/-- Three packets, one of them left behind by the client before, beside a line of edgesoft. -/
theorem survives_packets_iff_several : SurvivesPackets Host.small .busy
    [acceptEvent Host.small 9, dataEvent 9 { bytes := [0xc0, 0xc0, 0xdb] },
      dataEvent 4 { bytes := ascii ['l', 'l', '\n'] },
      dataEvent 9 { bytes := [0xdc, 0xdb, 0xdd, 0xc0, 0xc0, 0x62, 0x61] },
      dataEvent 9 { bytes := [0x62, 0xc0, 0xc0] }, hangupEvent 9] :=
  (survives_packets_iff Host.small BridgeVars.busy_boundary _).mpr (by decide +kernel)

/-- A client that sends a text that is not valid ends the process. -/
theorem client_ends_process : ¬SurvivesPackets Host.small .initial
    [acceptEvent Host.small 8,
      dataEvent 8 { bytes := [0xc0, 0x61, 0xff, 0xc0] }] := by
  -- The run ends with an exception, so it has no last state.
  intro survives
  obtain ⟨⟨last, reached⟩, -⟩ := survives
  have stopped : ((eventLoop Host.small).final (.ok .initial)
      [acceptEvent Host.small 8,
        dataEvent 8 { bytes := [0xc0, 0x61, 0xff, 0xc0] }]).isOk = false := by
    decide +kernel
  rw [reached] at stopped
  cases stopped

end Esme
