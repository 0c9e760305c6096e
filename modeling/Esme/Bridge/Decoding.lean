import Esme.Bridge.Trace

/-! The two loops over bytes decode the chunk they are given and leave the other side alone. -/

namespace Esme

open Framing Transducer

namespace Action

/-- What the loop over received bytes does while one connection is the current one. -/
def FromClient (connection : Nat) : Action → Prop
  | .processed other _ => other = connection
  | .wrote _ peer other _ _ _ _ => peer = .miso ∧ other = connection
  | _ => False

/-- What the loop over the bytes from mosi does while one connection is the current one. -/
def FromMosi (connection : Nat) : Action → Prop
  | .parsed _ => True
  | .wrote _ peer other _ _ _ _ => peer = .client ∧ other = connection
  | _ => False

/-- What concerns descriptors and `passive.fifo` only. -/
def Bookkeeping : Action → Prop
  | .accepted _ _ => True
  | .closed _ => True
  | .registered _ _ => True
  | .readPassive _ => True
  | _ => False

/-- No client comes or goes. -/
def Steady : Action → Prop
  | .accepted _ _ => False
  | .closed _ => False
  | _ => True

instance : DecidablePred Steady
  | .accepted _ _ | .closed _ => isFalse id
  | .registered _ _ | .received _ _ _ | .processed _ _ | .readMosi _ _ | .parsed _
  | .wrote _ _ _ _ _ _ _ | .readPassive _ => isTrue trivial

end Action

/-- One of the two loops over bytes, with the total machine it follows and where its results go. -/
structure Side (τ ρ : Type) where
  /-- one turn of the loop -/
  step : Host → BridgeVars → UInt8 → Outcome × List Action
  /-- the machine that cuts the bytes into pieces -/
  spec : Transducer τ UInt8 (List UInt8)
  /-- the variables of the loop -/
  own : BridgeVars → τ
  /-- the variables of the other loop -/
  other : BridgeVars → ρ
  /-- what the loop may do while one connection is the current one -/
  origin : Nat → Action → Prop
  /-- the pieces handed on -/
  pieces : Action → List (List UInt8)
  /-- where the messages made of them go -/
  peer : Peer
  /-- the message made of a piece, if there is one -/
  message : Host → List UInt8 → List (List UInt8)

/--
What a list of bytes leads to: the actions of the loop and the variables it leaves.

The bytes are cut into pieces, each piece becomes a message, and the other side is left alone.
-/
structure Side.Consumes {τ ρ : Type} (side : Side τ ρ) (host : Host) (v : BridgeVars)
    (bytes : List UInt8) (result : Outcome) (actions : List Action) : Prop where
  origin : ∀ action ∈ actions, side.origin v.connection action
  decodes : Decodes side.spec side.own (side.own v) bytes result (actions.flatMap side.pieces)
  frame : ∀ last, result = .ok last → last.clientFd = v.clientFd ∧
    last.connection = v.connection ∧ side.other last = side.other v
  going : (∃ last, result = .ok last) ↔ ∀ action ∈ actions, action.Sound host
  stops : ∀ error, result = .error error → EndsBad (Action.Sound host) actions
  forwarded : ∀ action ∈ actions, action.Forwarded host
  written : actions.flatMap (Action.messages side.peer) =
    actions.flatMap fun action => (side.pieces action).flatMap (side.message host)

section

variable {τ ρ : Type} {side : Side τ ρ} {host : Host} {v last : BridgeVars} {byte : UInt8}
  {handed wrote : Action} {piece : List UInt8}

/-- A turn that only moves its own variables consumes its byte. -/
theorem Side.consumes_quiet (moved : side.spec.step (side.own v) byte = (side.own last, []))
    (frame : last.clientFd = v.clientFd ∧ last.connection = v.connection ∧
      side.other last = side.other v) :
    side.Consumes host v [byte] (.ok last) [] := by
  -- Nothing is done, so all that is asked of actions holds of none.
  refine ⟨by simp, .ok ?_ ?_, ?_, by simp, by simp, by simp, rfl⟩
  · rw [final_cons, moved]
    rfl
  · rw [output_cons, moved]
    rfl
  · intro next reached
    cases reached
    exact frame

/-- A turn that hands a piece on and then stops consumes its byte. -/
theorem Side.consumes_stopped {state : τ} {error : JsonException}
    (moved : side.spec.step (side.own v) byte = (state, [piece]))
    (origin : side.origin v.connection handed) (pieces : side.pieces handed = [piece])
    (unsound : ¬handed.Sound host) (forwarded : handed.Forwarded host)
    (silent : handed.messages side.peer = []) (none : side.message host piece = []) :
    side.Consumes host v [byte] (.error error) [handed] := by
  -- The piece is all of the one action, and there is no message to be made of it.
  refine ⟨by simpa using origin, .error ?_, ?_, ?_, ?_, by simpa using forwarded, ?_⟩
  · simp [moved, pieces]
  · intro next reached
    cases reached
  · simpa using unsound
  · exact fun _ _ => ⟨[], handed, rfl, List.forall_mem_nil _, unsound⟩
  · simp [silent, pieces, none]

/-- A turn that hands a piece on and writes its message consumes its byte. -/
theorem Side.consumes_handed
    (moved : side.spec.step (side.own v) byte = (side.own last, [piece]))
    (frame : last.clientFd = v.clientFd ∧ last.connection = v.connection ∧
      side.other last = side.other v)
    (origin : side.origin v.connection handed ∧ side.origin v.connection wrote)
    (pieces : side.pieces handed = [piece] ∧ side.pieces wrote = [])
    (sound : handed.Sound host ∧ wrote.Sound host)
    (forwarded : handed.Forwarded host ∧ wrote.Forwarded host)
    (messages : handed.messages side.peer = [] ∧
      wrote.messages side.peer = side.message host piece) :
    side.Consumes host v [byte] (.ok last) [handed, wrote] := by
  -- The first action hands the piece on, and the second writes the message made of it.
  refine ⟨by simpa using origin, .ok ?_ ?_, ?_, ?_, by simp, by simpa using forwarded, ?_⟩
  · rw [final_cons, moved]
    rfl
  · rw [output_cons, moved]
    simp [pieces]
  · intro next reached
    cases reached
    exact frame
  · simpa using sound
  · simp [messages, pieces]

end

/-- A loop consumes its bytes when each turn consumes its one byte. -/
theorem Side.loop_consumes {τ ρ : Type} {side : Side τ ρ} {host : Host}
    (each : ∀ v byte, side.Consumes host v [byte] (side.step host v byte).1
      (side.step host v byte).2) (v : BridgeVars) (bytes : List UInt8) :
    side.Consumes host v bytes ((stopping (side.step host)).final (.ok v) bytes)
      ((stopping (side.step host)).output (.ok v) bytes) := by
  -- The descriptor, the connection and the other side are the invariant of the loop.
  have kept : ∀ (state : BridgeVars) (input : UInt8) (next : BridgeVars),
      (state.clientFd = v.clientFd ∧ state.connection = v.connection ∧
        side.other state = side.other v) → (side.step host state input).1 = .ok next →
      next.clientFd = v.clientFd ∧ next.connection = v.connection ∧
        side.other next = side.other v := by
    intro state input next inv result
    obtain ⟨fd, connection, other⟩ := inv
    obtain ⟨sameFd, sameConnection, sameOther⟩ := (each state input).frame next result
    exact ⟨sameFd.trans fd, sameConnection.trans connection, sameOther.trans other⟩
  refine ⟨?_, ?_, ?_, ?_, ?_, ?_, ?_⟩
  · refine forall_mem_going kept (fun state input inv => ?_) ⟨rfl, rfl, rfl⟩ bytes
    have origin := (each state input).origin
    rw [inv.2.1] at origin
    exact origin
  · have decodes : Decodes side.spec side.own (side.own v) (bytes.flatMap fun byte => [byte]) _ _ :=
      decodes_inputs (fun _ _ _ (_ : True) _ => trivial)
        (fun state input _ => (each state input).decodes) trivial bytes
    rwa [List.flatMap_singleton'] at decodes
  · exact fun last going => going_preserves kept ⟨rfl, rfl, rfl⟩ going
  · exact going_iff_good (fun _ _ _ (_ : True) _ => trivial)
      (fun state input _ => (each state input).going) trivial bytes
  · exact fun _ stopped => stopped_endsBad (fun _ _ _ (_ : True) _ => trivial)
      (fun state input next _ going => (each state input).going.mp ⟨next, going⟩)
      (fun state input error _ => (each state input).stops error) trivial stopped
  · exact forall_mem_going (fun _ _ _ (_ : True) _ => trivial)
      (fun state input _ => (each state input).forwarded) trivial bytes
  · exact going_flatMap_congr (fun _ _ _ (_ : True) _ => trivial)
      (fun state input _ => (each state input).written) trivial bytes

/-- What a loop consumes it still consumes when `buffer` and `buffer2` change around it. -/
theorem Side.Consumes.cleared {τ ρ : Type} {side : Side τ ρ} {host : Host} {v w : BridgeVars}
    {bytes : List UInt8} {result : Outcome} {actions : List Action}
    (consumes : side.Consumes host w bytes result actions)
    (ownKept : ∀ v, side.own (clearBuffer2 v) = side.own v)
    (otherKept : ∀ v, side.other (clearBuffer2 v) = side.other v)
    (own : side.own w = side.own v) (other : side.other w = side.other v)
    (fd : w.clientFd = v.clientFd) (connection : w.connection = v.connection) :
    side.Consumes host v bytes (result.map clearBuffer2) actions := by
  -- The loop runs between a read and `clear`, which change neither side.
  obtain ⟨origin, decodes, frame, going, stops, forwarded, written⟩ := consumes
  rw [connection] at origin
  rw [own] at decodes
  rw [fd, connection, other] at frame
  refine ⟨origin, decodes.map ownKept, ?_, ?_, ?_, forwarded, written⟩
  · intro last cleared
    obtain ⟨before, reached, rfl⟩ := map_eq_ok cleared
    rw [otherKept]
    exact frame before reached
  · rw [← going]
    cases result <;> simp [Except.map]
  · intro error cleared
    cases result with
    | error before => exact stops before rfl
    | ok last => cases cleared

/-- The side from the client to miso. -/
def toMiso : Side (Stuffing.Decoder UInt8) (List UInt8) where
  step := receiveByte
  spec := slip.decoder
  own := BridgeVars.decoder
  other := BridgeVars.txPacket
  origin := Action.FromClient
  pieces := Action.packets
  peer := .miso
  message := misoLine

/-- The side from mosi to the client. -/
def toClient : Side (List UInt8) (Stuffing.Decoder UInt8) where
  step := mosiByte
  spec := lineReader newline
  own := BridgeVars.txPacket
  other := BridgeVars.decoder
  origin := Action.FromMosi
  pieces := Action.lines
  peer := .client
  message := clientFrame

section

variable (host : Host)

/-- A value that dumps has only valid texts. -/
theorem textsValid_of_dump {value : Json} {str : List UInt8}
    (dumped : dump host.json.dumpFloat value = .ok str) : value.textsValid = true := by
  -- `dump` succeeds exactly on values with valid texts.
  rw [← dump_isOk host.json.dumpFloat, dumped]
  rfl

/-- A value that throws when dumped has a text that is not valid. -/
theorem not_textsValid_of_dump {value : Json} {error : JsonException}
    (dumped : dump host.json.dumpFloat value = .error error) : ¬value.textsValid = true := by
  rw [← dump_isOk host.json.dumpFloat, dumped]
  simp [Except.isOk, Except.toBool]

/-- One turn of the loop over received bytes consumes its byte. -/
theorem receiveByte_consumes (v : BridgeVars) (byte : UInt8) :
    toMiso.Consumes host v [byte] (receiveByte host v byte).1 (receiveByte host v byte).2 := by
  -- One case for each thing that a turn can do: go on, throw, or hand a line on to miso.
  rcases receiveByte_cases host v byte with
    ⟨packet, escaped, step, moved⟩ | ⟨moved, ⟨error, dumped, step⟩ | ⟨str, dumped, step⟩⟩
  · rw [step]
    exact toMiso.consumes_quiet moved ⟨rfl, rfl, rfl⟩
  · -- The packet is handed on, and dumping it ends the process.
    rw [step]
    refine toMiso.consumes_stopped moved rfl rfl ?_ trivial rfl ?_
    · exact not_textsValid_of_dump host dumped
    · simp [toMiso, misoLine, dumped]
  · -- The packet is handed on and written as a line.
    rw [step]
    refine toMiso.consumes_handed moved ⟨rfl, rfl, rfl⟩ ⟨rfl, rfl, rfl⟩ ⟨rfl, rfl⟩ ?_ ?_ ⟨rfl, ?_⟩
    · exact ⟨textsValid_of_dump host dumped, trivial⟩
    · exact ⟨trivial, ⟨_, str, dumped, rfl⟩, rfl⟩
    · simp [toMiso, Action.messages, misoLine, dumped, wroteMiso, writeMessage]

/-- A received chunk is consumed from an event boundary, and ends at one. -/
theorem receiveChunk_consumes {v : BridgeVars} (boundary : v.AtBoundary) (chunk : Chunk) :
    ∃ result actions, receiveChunk host v chunk =
        (result, .received v.connection v.clientFd.fd chunk.bytes :: actions) ∧
      toMiso.Consumes host v chunk.bytes result actions ∧
      ∀ last, result = .ok last → last.AtBoundary := by
  -- The read fills `buffer2` with the chunk, the loop consumes it, and `clear` ends it.
  rw [receiveChunk, readInto_eq v chunk boundary]
  refine ⟨_, _, rfl, ?_, ?_⟩
  · exact (toMiso.loop_consumes (receiveByte_consumes host) _ chunk.bytes).cleared
      (fun _ => rfl) (fun _ => rfl) rfl rfl rfl rfl
  · intro last result
    obtain ⟨before, -, rfl⟩ := map_eq_ok result
    rfl

/-- One turn of the loop over the bytes from mosi consumes its byte. -/
theorem mosiByte_consumes (v : BridgeVars) (byte : UInt8) :
    toClient.Consumes host v [byte] (mosiByte host v byte).1 (mosiByte host v byte).2 := by
  -- One case for each thing that a turn can do: go on, throw, or hand a packet on to the client.
  rcases mosiByte_cases host v byte with
    ⟨line, step, moved⟩ | ⟨moved, ⟨error, parsed, step⟩ | ⟨j, parsed, step⟩⟩
  · rw [step]
    exact toClient.consumes_quiet moved ⟨rfl, rfl, rfl⟩
  · -- The line is handed on, and parsing it ends the process.
    rw [step]
    refine toClient.consumes_stopped moved trivial rfl ?_ trivial rfl ?_
    · simp [Action.Sound, parsed, Except.isOk, Except.toBool]
    · simp [toClient, clientFrame, parsed]
  · -- The line is handed on and written as a frame.
    rw [step]
    refine toClient.consumes_handed moved ⟨rfl, rfl, rfl⟩ ⟨trivial, rfl, rfl⟩ ⟨rfl, rfl⟩ ?_ ?_
      ⟨rfl, ?_⟩
    · simp [Action.Sound, wroteClient, writeMessage, parsed, Except.isOk, Except.toBool]
    · exact ⟨trivial, ⟨_, rfl⟩, rfl⟩
    · simp [toClient, Action.messages, clientFrame, parsed, wroteClient, writeMessage]

/-- A chunk read for a connected client is consumed from an event boundary, and ends at one. -/
theorem mosiChunk_consumes {v : BridgeVars} (boundary : v.AtBoundary)
    (connected : v.clientFd.valid = true) (chunk : Chunk) :
    ∃ result actions, mosiChunk host v chunk = (result, .readMosi true chunk.bytes :: actions) ∧
      toClient.Consumes host v chunk.bytes result actions ∧
      ∀ last, result = .ok last → last.AtBoundary := by
  -- As for received bytes, but only for a connected client.
  rw [mosiChunk, if_pos connected, readInto_eq v chunk boundary]
  refine ⟨_, _, rfl, ?_, ?_⟩
  · exact (toClient.loop_consumes (mosiByte_consumes host) _ chunk.bytes).cleared
      (fun _ => rfl) (fun _ => rfl) rfl rfl rfl rfl
  · intro last result
    obtain ⟨before, -, rfl⟩ := map_eq_ok result
    rfl

/-- What an event between two boundaries does: at most one chunk, of at most one side. -/
inductive Handles (v : BridgeVars) (event : EpollEvent) : Outcome → List Action → Prop where
  /-- descriptors and `passive.fifo` only, with at most one client more -/
  | bookkept (last : BridgeVars) (actions : List Action)
      (same : last = { v with
        clientFd := last.clientFd
        buffer := last.buffer
        connection := last.connection })
      (bookkeeping : ∀ action ∈ actions, action.Bookkeeping)
      (connection : last.connection = v.connection ∨
        event.fd = host.serverFd ∧ 0 ≤ event.accept ∧ last.connection = v.connection + 1)
      (stays : v.clientFd.valid = true → (∀ action ∈ actions, action.Steady) →
        last.clientFd = v.clientFd) : Handles v event (.ok last) actions
  /-- bytes from mosi without a client -/
  | discarded (buffer : Buffer UInt8 bufferSize) (bytes : List UInt8)
      (absent : v.clientFd.valid = false) :
      Handles v event (.ok { v with buffer := buffer }) [.readMosi false bytes]
  /-- bytes from mosi for the client -/
  | passed (bytes : List UInt8) (result : Outcome) (actions : List Action)
      (connected : v.clientFd.valid = true)
      (consumes : toClient.Consumes host v bytes result actions)
      (boundary : ∀ last, result = .ok last → last.AtBoundary) :
      Handles v event result (.readMosi true bytes :: actions)
  /-- bytes from the client -/
  | received (fd : Int) (bytes : List UInt8) (result : Outcome) (actions : List Action)
      (consumes : toMiso.Consumes host v bytes result actions)
      (boundary : ∀ last, result = .ok last → last.AtBoundary) :
      Handles v event result (.received v.connection fd bytes :: actions)

/-- Closing a descriptor is bookkeeping, and of a valid one it is noticed. -/
theorem close_spec (descriptor : FileDescriptor) :
    (∀ action ∈ descriptor.close, action.Bookkeeping) ∧
      (descriptor.valid = true → ¬∀ action ∈ descriptor.close, action.Steady) := by
  -- An invalid descriptor is not closed, so there is nothing to notice.
  unfold FileDescriptor.close
  split
  · simp [Action.Bookkeeping, Action.Steady]
  · rename_i invalid
    exact ⟨by simp, fun valid => absurd valid invalid⟩

/-- Every event from a boundary does one of these. -/
theorem handleEvent_handles {v : BridgeVars} (boundary : v.AtBoundary) (event : EpollEvent) :
    Handles host v event (handleEvent host v event).1 (handleEvent host v event).2 := by
  -- Each kind of event is one of the constructors, mosi with and without a client.
  obtain ⟨closes, noticed⟩ := close_spec v.clientFd
  rcases handleEvent_cases host v event with
    ⟨buffer, actions, step, passive⟩ | ⟨server, newfd, step⟩ | step |
      ⟨chunk, -, step⟩ | ⟨chunk, -, -, step⟩
  · rw [step]
    refine .bookkept _ actions rfl ?_ (.inl rfl) fun _ _ => rfl
    rcases passive with rfl | ⟨bytes, rfl⟩ <;> simp [Action.Bookkeeping]
  · rw [step, acceptClient, if_pos newfd]
    refine .bookkept _ _ rfl ?_ (.inr ⟨server, newfd, rfl⟩)
      fun _ steady => absurd (steady _ (List.mem_cons_self ..)) id
    simp only [List.cons_append, List.mem_cons, List.mem_append, List.not_mem_nil, or_false]
    intro action member
    rcases member with rfl | closed | rfl
    · trivial
    · exact closes action closed
    · trivial
  · rw [step]
    exact .bookkept _ _ rfl closes (.inl rfl) fun valid steady => absurd steady (noticed valid)
  · rw [step]
    cases connected : v.clientFd.valid with
    | false =>
      rw [mosiChunk, if_neg (by simp [connected])]
      exact .discarded _ chunk.bytes connected
    | true =>
      obtain ⟨result, actions, same, consumes, ends⟩ :=
        mosiChunk_consumes host boundary connected chunk
      rw [same]
      exact .passed chunk.bytes result actions connected consumes ends
  · rw [step]
    obtain ⟨result, actions, same, consumes, ends⟩ := receiveChunk_consumes host boundary chunk
    rw [same]
    exact .received _ chunk.bytes result actions consumes ends

end

end Esme
