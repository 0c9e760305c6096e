import Esme.Bridge.Packets

/-! What the bridge makes of its two streams does not depend on how they arrive. -/

namespace Esme

open Framing Transducer

/-- An event that leaves the client in place reads mosi for it, and keeps it. -/
theorem Handles.steady {host : Host} {v : BridgeVars} {event : EpollEvent} {result : Outcome}
    {actions : List Action} (handles : Handles host v event result actions)
    (connected : v.clientFd.valid = true) (steady : ∀ action ∈ actions, action.Steady) :
    (∀ read ∈ actions.flatMap Action.mosiBytes, read.2 = true) ∧
      ∀ last, result = .ok last → last.clientFd.valid = true := by
  -- Bytes are discarded only without a client, which is excluded.
  cases handles with
  | bookkept next actions same bookkeeping connection stays =>
    rw [flatMap_silent bookkeeping fun _ origin => origin.silent.2.bytes]
    refine ⟨by simp, ?_⟩
    intro last reached
    cases reached
    rw [stays connected steady]
    exact connected
  | discarded buffer bytes absent =>
    rw [absent] at connected
    cases connected
  | passed bytes result actions present consumes ends =>
    rw [List.flatMap_cons,
      flatMap_silent consumes.origin fun _ origin => (Action.FromMosi.silent origin).1.1,
      List.append_nil]
    refine ⟨by simp [Action.mosiBytes], fun last going => ?_⟩
    rw [(consumes.frame last going).1]
    exact connected
  | received fd bytes result actions consumes ends =>
    rw [List.flatMap_cons,
      flatMap_silent consumes.origin fun _ origin => (Action.FromClient.silent origin).2.bytes]
    refine ⟨by simp [Action.mosiBytes], fun last going => ?_⟩
    rw [(consumes.frame last going).1]
    exact connected

variable (host : Host) {v : BridgeVars}

/-- While one client stays connected, everything read from mosi is kept for it. -/
theorem steady_keeps (boundary : v.AtBoundary) (connected : v.clientFd.valid = true)
    {events : List EpollEvent}
    (steady : ∀ action ∈ (eventLoop host).output (.ok v) events, action.Steady) :
    ∀ read ∈ ((eventLoop host).output (.ok v) events).flatMap Action.mosiBytes,
      read.2 = true := by
  -- The induction carries the boundary and the connected client along.
  induction events generalizing v with
  | nil => simp
  | cons event rest ih =>
    rw [eventLoop, output_cons, stopping_step_ok, List.forall_mem_append] at steady
    rw [eventLoop, output_cons, stopping_step_ok, List.flatMap_append, List.forall_mem_append]
    have handles := handleEvent_handles host boundary event
    obtain ⟨first, stays⟩ := handles.steady connected steady.1
    refine ⟨first, ?_⟩
    cases result : (handleEvent host v event).1 with
    | ok next =>
      rw [result] at steady
      exact ih (handles.boundary boundary result) (stays next result) steady.2
    | error error => simp

/-- All bytes a run receives from its client. -/
def receivedStream (v : BridgeVars) (events : List EpollEvent) : List UInt8 :=
  ((eventLoop host).output (.ok v) events).flatMap Action.clientBytes

/-- All bytes a run reads from `mosi.fifo`. -/
def mosiStream (v : BridgeVars) (events : List EpollEvent) : List UInt8 :=
  (((eventLoop host).output (.ok v) events).flatMap Action.mosiBytes).map Prod.fst

/--
A run without disturbances.

One client stays connected, every write is taken whole, every line parses and every packet dumps.
-/
structure SteadyRun (v : BridgeVars) (events : List EpollEvent) : Prop where
  connected : v.clientFd.valid = true
  steady : ∀ action ∈ (eventLoop host).output (.ok v) events, action.Steady
  miso : ∀ action ∈ (eventLoop host).output (.ok v) events, action.Whole .miso
  client : ∀ action ∈ (eventLoop host).output (.ok v) events, action.Whole .client
  dumps : ∀ packet ∈ slip.decoder.output v.decoder (receivedStream host v events),
    (processPackage host.json packet).textsValid = true
  parses : ∀ line ∈ (lineReader newline).output v.txPacket (mosiStream host v events),
    (host.json.parse line).isOk = true

/-- What an undisturbed run does is a function of its two streams. -/
theorem SteadyRun.outcome {host : Host} {events : List EpollEvent} (run : SteadyRun host v events)
    (boundary : v.AtBoundary) :
    ∃ last, (eventLoop host).final (.ok v) events = .ok last ∧
      last.decoder = slip.decoder.final v.decoder (receivedStream host v events) ∧
      last.txPacket = (lineReader newline).final v.txPacket (mosiStream host v events) ∧
      ((eventLoop host).output (.ok v) events).flatMap (Action.taken .miso) =
        ((slip.decoder.output v.decoder (receivedStream host v events)).flatMap
          (misoLine host)).flatten ∧
      ((eventLoop host).output (.ok v) events).flatMap (Action.taken .client) =
        (((lineReader newline).output v.txPacket (mosiStream host v events)).flatMap
          (clientFrame host)).flatten := by
  -- All that is read from mosi is kept, so the streams of the two sides are these two.
  have kept : ((eventLoop host).output (.ok v) events).flatMap Action.mosiKept =
      mosiStream host v events := by
    rw [mosiKept_eq, mosiStream,
      List.filter_eq_self.mpr (steady_keeps host boundary run.connected run.steady)]
  have packets := eventLoop_packets host boundary events
  have lines := eventLoop_lines host boundary events
  have going := eventLoop_going_iff host boundary events
  have miso := eventLoop_wrote_miso host boundary events
  have client := eventLoop_wrote_client host boundary events
  rw [kept] at lines going
  obtain ⟨last, reached⟩ := going.mpr ⟨run.dumps, run.parses⟩
  obtain ⟨decoder, handed⟩ := packets.going last reached
  obtain ⟨line, passed⟩ := lines.going last reached
  refine ⟨last, reached, decoder, line, ?_, ?_⟩
  · rw [taken_whole run.miso, miso, handed, receivedStream]
  · rw [taken_whole run.client, client, passed]

/--
Two undisturbed runs on the same streams end in the same state and write the same bytes.

How the streams are cut and interleaved does not matter, nor how the writes are split.
-/
theorem schedule_independent {first second : Host} (json : first.json = second.json)
    (boundary : v.AtBoundary) {events others : List EpollEvent}
    (run : SteadyRun first v events) (other : SteadyRun second v others)
    (received : receivedStream first v events = receivedStream second v others)
    (read : mosiStream first v events = mosiStream second v others) :
    ∃ last otherLast, (eventLoop first).final (.ok v) events = .ok last ∧
      (eventLoop second).final (.ok v) others = .ok otherLast ∧
      ((eventLoop first).output (.ok v) events).flatMap (Action.taken .miso) =
        ((eventLoop second).output (.ok v) others).flatMap (Action.taken .miso) ∧
      ((eventLoop first).output (.ok v) events).flatMap (Action.taken .client) =
        ((eventLoop second).output (.ok v) others).flatMap (Action.taken .client) ∧
      last.rxPacket = otherLast.rxPacket ∧ last.txPacket = otherLast.txPacket ∧
      last.slipEscaped = otherLast.slipEscaped := by
  -- Both outcomes are the same function of the streams, and of the library.
  have sameLine : misoLine first = misoLine second := by
    unfold misoLine
    rw [json]
  have sameFrame : clientFrame first = clientFrame second := by
    unfold clientFrame
    rw [json]
  obtain ⟨last, reached, decoder, line, miso, client⟩ := run.outcome boundary
  obtain ⟨otherLast, otherReached, otherDecoder, otherLine, otherMiso, otherClient⟩ :=
    other.outcome boundary
  rw [received, ← otherDecoder] at decoder
  refine ⟨last, otherLast, reached, otherReached, ?_, ?_,
    congrArg Stuffing.Decoder.packet decoder, ?_, congrArg Stuffing.Decoder.escaped decoder⟩
  · rw [miso, otherMiso, received, sameLine]
  · rw [client, otherClient, read, sameFrame]
  · rw [line, otherLine, read]

/-- One packet and one line, cut and interleaved in two ways. -/
theorem schedule_independent_cut :
    let v : BridgeVars := { BridgeVars.initial with
      clientFd := ⟨8⟩
      connection := 1 }
    let events := [dataEvent 8 { bytes := [0xc0] },
      dataEvent 4 { bytes := ascii ['n', 'u', 'l', 'l'] ++ [newline] },
      dataEvent 8 { bytes := [0x01, 0xc0] }]
    let others := [dataEvent 4 { bytes := ascii ['n', 'u'] },
      dataEvent 8 { bytes := [0xc0, 0x01, 0xc0] },
      dataEvent 6 { bytes := [0x78] },
      dataEvent 4 { bytes := ascii ['l', 'l'] ++ [newline] }]
    ((eventLoop Host.small).output (.ok v) events).flatMap (Action.taken .miso) =
        ((eventLoop Host.small).output (.ok v) others).flatMap (Action.taken .miso) ∧
      ((eventLoop Host.small).output (.ok v) events).flatMap (Action.taken .client) =
        ((eventLoop Host.small).output (.ok v) others).flatMap (Action.taken .client) := by
  -- Both runs are evaluated to see that nothing disturbs them.
  intro v events others
  have boundary : v.AtBoundary := rfl
  have run : SteadyRun Host.small v events :=
    ⟨by decide, by decide +kernel, by decide +kernel, by decide +kernel, by decide +kernel,
      by decide +kernel⟩
  have other : SteadyRun Host.small v others :=
    ⟨by decide, by decide +kernel, by decide +kernel, by decide +kernel, by decide +kernel,
      by decide +kernel⟩
  obtain ⟨-, -, -, -, miso, client, -⟩ := schedule_independent rfl boundary run other
    (by decide +kernel) (by decide +kernel)
  exact ⟨miso, client⟩

end Esme
