import Esme.Bridge.Packets

/-! When the packets of one connection are made of the bytes of that connection alone. -/

namespace Esme

open Framing Transducer

namespace Action

/-- The lines written to miso while one connection was the current one. -/
def misoLinesOn (connection : Nat) : Action → List (List UInt8)
  | .wrote _ .miso other _ message _ _ => if other = connection then [message] else []
  | _ => []

/-- An action that shows nothing of the side to miso shows nothing of it on any connection. -/
theorem OffMiso.on {action : Action} (off : action.OffMiso) (connection : Nat) :
    action.clientBytesOn connection = [] ∧ action.packetsOn connection = [] ∧
      action.misoLinesOn connection = [] := by
  obtain ⟨bytes, packets, messages⟩ := off
  cases action with
  | received other fd received =>
    rw [clientBytes] at bytes
    exact ⟨by simp [clientBytesOn, bytes], rfl, rfl⟩
  | processed other packet => cases packets
  | wrote index peer other fd message taken returned =>
    cases peer with
    | miso => cases messages
    | client => exact ⟨rfl, rfl, rfl⟩
  | _ => exact ⟨rfl, rfl, rfl⟩

/-- The loop over received bytes shows everything on the current connection. -/
theorem FromClient.on {current : Nat} {action : Action} (origin : action.FromClient current)
    (connection : Nat) :
    action.clientBytesOn connection = [] ∧
      (action.packetsOn connection = if current = connection then action.packets else []) ∧
      (action.misoLinesOn connection =
        if current = connection then action.messages .miso else []) := by
  cases action with
  | processed other packet =>
    cases origin
    exact ⟨rfl, rfl, by simp [misoLinesOn, messages]⟩
  | wrote index peer other fd message taken returned =>
    obtain ⟨rfl, rfl⟩ := origin
    exact ⟨rfl, by simp [packetsOn, packets], rfl⟩
  | _ => cases origin

/-- What the loop over received bytes shows together, it shows on the current connection. -/
theorem flatMap_fromClient {current : Nat} {actions : List Action}
    (members : ∀ action ∈ actions, action.FromClient current) (connection : Nat) :
    actions.flatMap (clientBytesOn connection) = [] ∧
      (actions.flatMap (packetsOn connection) =
        if current = connection then actions.flatMap packets else []) ∧
      (actions.flatMap (misoLinesOn connection) =
        if current = connection then actions.flatMap (messages .miso) else []) := by
  have shows := fun action member => FromClient.on (members action member) connection
  refine ⟨List.flatMap_eq_nil_iff.mpr fun action member => (shows action member).1, ?_, ?_⟩
  · rw [List.flatMap_congr fun action member => (shows action member).2.1]
    split <;> simp
  · rw [List.flatMap_congr fun action member => (shows action member).2.2]
    split <;> simp

end Action

/-- The decoder as one connection knows it: fresh unless the connection is the current one. -/
def BridgeVars.decoderOn (connection : Nat) (v : BridgeVars) : Stuffing.Decoder UInt8 :=
  if v.connection = connection then v.decoder else .fresh

/-- A new client is accepted only when nothing is left in the decoder. -/
def AcceptsClean (host : Host) : Outcome → EpollEvent → Prop
  | .ok v, event => event.fd = host.serverFd → 0 ≤ event.accept → v.decoder = .fresh
  | .error _, _ => True

instance (host : Host) : ∀ outcome event, Decidable (AcceptsClean host outcome event)
  | .ok v, event => inferInstanceAs
    (Decidable (event.fd = host.serverFd → 0 ≤ event.accept → v.decoder = .fresh))
  | .error _, _ => isTrue trivial

section

variable {host : Host} {v : BridgeVars} {event : EpollEvent} {result : Outcome}
  {actions : List Action}

/-- With a clean decoder at every accept, an event decodes for each connection its own bytes. -/
theorem Handles.decodes_packetsOn (handles : Handles host v event result actions)
    (clean : AcceptsClean host (.ok v) event) (connection : Nat) :
    Decodes slip.decoder (BridgeVars.decoderOn connection) (v.decoderOn connection)
      (actions.flatMap (Action.clientBytesOn connection)) result
      (actions.flatMap (Action.packetsOn connection)) := by
  -- Only two cases matter: a new connection, and bytes of the current one.
  cases handles with
  | bookkept next actions same bookkeeping counted stays =>
    rw [flatMap_silent bookkeeping fun _ origin => (origin.silent.1.on connection).1,
      flatMap_silent bookkeeping fun _ origin => (origin.silent.1.on connection).2.1]
    have decoder : next.decoder = v.decoder := by rw [same]; rfl
    refine .ok ?_ rfl
    unfold BridgeVars.decoderOn
    rw [decoder, final_nil]
    rcases counted with equal | ⟨server, newfd, -⟩
    · rw [equal]
    · -- The decoder was fresh, so it makes no difference whose it is.
      rw [clean server newfd]
      simp
  | discarded buffer bytes absent => exact .ok rfl rfl
  | passed bytes result actions connected consumes ends =>
    rw [List.flatMap_cons, List.flatMap_cons,
      flatMap_silent consumes.origin fun _ origin =>
        ((Action.FromMosi.silent origin).2.on connection).1,
      flatMap_silent consumes.origin fun _ origin =>
        ((Action.FromMosi.silent origin).2.on connection).2.1]
    apply Decodes.idle
    intro last going
    obtain ⟨-, equal, decoder⟩ := consumes.frame last going
    unfold BridgeVars.decoderOn
    rw [equal, show last.decoder = v.decoder from decoder]
  | received fd bytes result actions consumes ends =>
    obtain ⟨silent, packets, -⟩ := Action.flatMap_fromClient consumes.origin connection
    rw [List.flatMap_cons, List.flatMap_cons, silent, packets]
    by_cases current : v.connection = connection
    · -- The bytes are those of the current connection, which decodes them.
      have own : ∀ last, result = .ok last → last.decoderOn connection = last.decoder := by
        intro last reached
        rw [BridgeVars.decoderOn, (consumes.frame last reached).2.1, if_pos current]
      rw [BridgeVars.decoderOn, if_pos current, if_pos current, Action.clientBytesOn,
        if_pos current, List.append_nil]
      refine ⟨consumes.decodes.front, fun last reached => ?_⟩
      rw [own last reached]
      exact consumes.decodes.going last reached
    · rw [if_neg current, Action.clientBytesOn, if_neg current]
      apply Decodes.idle
      intro last reached
      rw [BridgeVars.decoderOn, BridgeVars.decoderOn, (consumes.frame last reached).2.1,
        if_neg current, if_neg current]

/-- An event writes to miso, on each connection, the lines of its packets. -/
theorem Handles.wrote_misoOn (handles : Handles host v event result actions) (connection : Nat) :
    actions.flatMap (Action.misoLinesOn connection) =
      (actions.flatMap (Action.packetsOn connection)).flatMap (misoLine host) := by
  -- A line is written right behind its packet, so both are on the current connection.
  cases handles with
  | bookkept next actions same bookkeeping counted stays =>
    rw [flatMap_silent bookkeeping fun _ origin => (origin.silent.1.on connection).2.2,
      flatMap_silent bookkeeping fun _ origin => (origin.silent.1.on connection).2.1]
    rfl
  | discarded buffer bytes absent => rfl
  | passed bytes result actions connected consumes ends =>
    rw [List.flatMap_cons, List.flatMap_cons,
      flatMap_silent consumes.origin fun _ origin =>
        ((Action.FromMosi.silent origin).2.on connection).2.2,
      flatMap_silent consumes.origin fun _ origin =>
        ((Action.FromMosi.silent origin).2.on connection).2.1]
    rfl
  | received fd bytes result actions consumes ends =>
    obtain ⟨-, packets, lines⟩ := Action.flatMap_fromClient consumes.origin connection
    rw [List.flatMap_cons, List.flatMap_cons, packets, lines]
    split
    · have written := consumes.written
      rw [← List.flatMap_assoc] at written
      exact written
    · rfl

end

variable (host : Host)

/--
Connections are isolated while every client is accepted with nothing left in the decoder.

The packets of each connection are then what its own bytes decode to from the start, and so are
the lines written for them.
-/
theorem connections_isolated {events : List EpollEvent}
    (clean : (eventLoop host).Along (AcceptsClean host) (.ok .initial) events)
    (connection : Nat) :
    let trace := (eventLoop host).output (.ok .initial) events
    let decoded := slip.decoder.output .fresh
      (trace.flatMap (Action.clientBytesOn connection))
    trace.flatMap (Action.packetsOn connection) <+: decoded ∧
      ((∃ last, (eventLoop host).final (.ok .initial) events = .ok last) →
        trace.flatMap (Action.packetsOn connection) = decoded) ∧
      trace.flatMap (Action.misoLinesOn connection) =
        (trace.flatMap (Action.packetsOn connection)).flatMap (misoLine host) := by
  -- Each event decodes for every connection its own bytes, by the condition on accepts.
  intro trace decoded
  have start : BridgeVars.initial.decoderOn connection = .fresh := by
    unfold BridgeVars.decoderOn
    split <;> rfl
  have decodes : Decodes slip.decoder (BridgeVars.decoderOn connection)
      (BridgeVars.initial.decoderOn connection)
      (trace.flatMap (Action.clientBytesOn connection)) _
      (trace.flatMap (Action.packetsOn connection)) :=
    decodes_along (fun state event next inv _ => handleEvent_boundary host state event next inv)
      (fun _ event inv permitted =>
        (handleEvent_handles host inv event).decodes_packetsOn permitted connection)
      BridgeVars.initial_boundary clean
  rw [start] at decodes
  refine ⟨decodes.front, ?_, ?_⟩
  · intro running
    obtain ⟨last, reached⟩ := running
    exact (decodes.going last reached).2
  · rw [List.flatMap_assoc]
    refine going_flatMap_congr (handleEvent_boundary host) (fun _ event inv => ?_)
      BridgeVars.initial_boundary events
    rw [← List.flatMap_assoc]
    exact (handleEvent_handles host inv event).wrote_misoOn connection

/-- A client that leaves behind a whole frame leaves nothing to the next one. -/
theorem connections_isolated_two :
    ((eventLoop Host.small).output (.ok .initial)
      [acceptEvent Host.small 8, dataEvent 8 { bytes := [0xc0, 0x01, 0xc0] },
        hangupEvent 8, acceptEvent Host.small 8,
        dataEvent 8 { bytes := [0x02, 0xc0] }]).flatMap (Action.packetsOn 2) <+:
      [[0x02]] :=
  (connections_isolated Host.small (by decide +kernel) 2).1.trans (by decide +kernel)

/-- A client that leaves inside a frame leaves its bytes to the next one. -/
theorem packet_inherited :
    let trace := (eventLoop Host.small).output (.ok .initial)
      [acceptEvent Host.small 8, dataEvent 8 { bytes := [0xc0, 0x01] },
        hangupEvent 8, acceptEvent Host.small 8,
        dataEvent 8 { bytes := [0x02, 0xc0] }]
    trace.flatMap (Action.packetsOn 2) = [[0x01, 0x02]] ∧
      ¬trace.flatMap (Action.packetsOn 2) <+:
        slip.decoder.output .fresh (trace.flatMap (Action.clientBytesOn 2)) := by
  -- The second client sends one byte of payload, and two are handed on.
  decide +kernel

end Esme
