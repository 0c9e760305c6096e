import Esme.Bridge.Decoding

/-! Runs of the main loop: what has been decoded, what was written, and when they stop. -/

namespace Esme

open Framing Transducer

/-- An action that shows nothing of the side from the client to miso. -/
structure Action.OffMiso (action : Action) : Prop where
  bytes : action.clientBytes = []
  packets : action.packets = []
  messages : action.messages .miso = []

/-- An action that shows nothing of the side from mosi to the client. -/
structure Action.OffClient (action : Action) : Prop where
  bytes : action.mosiBytes = []
  kept : action.mosiKept = []
  lines : action.lines = []
  messages : action.messages .client = []

/-- The loop over received bytes receives none itself, and shows nothing of the other side. -/
theorem Action.FromClient.silent {connection : Nat} {action : Action}
    (origin : action.FromClient connection) : action.clientBytes = [] ∧ action.OffClient := by
  -- The loop only hands packets on and writes to miso.
  cases action with
  | processed other packet => exact ⟨rfl, rfl, rfl, rfl, rfl⟩
  | wrote index peer other fd message taken returned =>
    obtain ⟨rfl, -⟩ := origin
    exact ⟨rfl, rfl, rfl, rfl, rfl⟩
  | _ => cases origin

/-- The loop over the bytes from mosi reads none itself, and shows nothing of the other side. -/
theorem Action.FromMosi.silent {connection : Nat} {action : Action}
    (origin : action.FromMosi connection) :
    (action.mosiBytes = [] ∧ action.mosiKept = []) ∧ action.OffMiso := by
  -- The loop only passes lines on and writes to the client.
  cases action with
  | parsed text => exact ⟨⟨rfl, rfl⟩, rfl, rfl, rfl⟩
  | wrote index peer other fd message taken returned =>
    obtain ⟨rfl, -⟩ := origin
    exact ⟨⟨rfl, rfl⟩, rfl, rfl, rfl⟩
  | _ => cases origin

/-- Descriptors and `passive.fifo` show nothing of either side. -/
theorem Action.Bookkeeping.silent {action : Action} (origin : action.Bookkeeping) :
    action.OffMiso ∧ action.OffClient := by
  -- None of these actions carries bytes of a stream that is decoded.
  cases action with
  | accepted _ _ | closed _ | registered _ _ | readPassive _ =>
    exact ⟨⟨rfl, rfl, rfl⟩, rfl, rfl, rfl, rfl⟩
  | _ => cases origin

/-- Actions are sound when the packets and the lines among them are. -/
theorem sound_iff {host : Host} {actions : List Action} :
    (∀ action ∈ actions, action.Sound host) ↔
      (∀ packet ∈ actions.flatMap Action.packets,
        (processPackage host.json packet).textsValid = true) ∧
      ∀ line ∈ actions.flatMap Action.lines, (host.json.parse line).isOk = true := by
  -- Each action is one packet, one line, or neither.
  induction actions with
  | nil => simp
  | cons action rest ih =>
    rw [List.forall_mem_cons, ih, List.flatMap_cons, List.flatMap_cons, List.forall_mem_append,
      List.forall_mem_append, and_and_and_comm]
    apply and_congr_left
    intro _
    cases action <;>
      simp only [Action.Sound, Action.packets, Action.lines, List.forall_mem_singleton,
        List.not_mem_nil, false_imp_iff, implies_true, and_true, true_and, and_self]

/-- A peer that takes every message whole takes all of them one after another. -/
theorem taken_whole {peer : Peer} {actions : List Action}
    (whole : ∀ action ∈ actions, action.Whole peer) :
    actions.flatMap (Action.taken peer) = (actions.flatMap (Action.messages peer)).flatten := by
  -- What is taken of each action is the message of it.
  induction actions with
  | nil => rfl
  | cons action rest ih =>
    obtain ⟨first, others⟩ := List.forall_mem_cons.mp whole
    rw [List.flatMap_cons, List.flatMap_cons, List.flatten_append, ih others]
    congr 1
    cases action with
    | wrote index other connection fd message taken returned =>
      by_cases same : other = peer
      · simp [Action.taken, Action.messages, same, first same]
      · simp [Action.taken, Action.messages, same]
    | _ => rfl

/-- The kept bytes are those read while a client was there. -/
theorem mosiKept_eq (actions : List Action) :
    actions.flatMap Action.mosiKept =
      ((actions.flatMap Action.mosiBytes).filter Prod.snd).map Prod.fst := by
  -- A read is kept as a whole or not at all.
  induction actions with
  | nil => rfl
  | cons action rest ih =>
    rw [List.flatMap_cons, List.flatMap_cons, List.filter_append, List.map_append, ← ih]
    congr 1
    cases action with
    | readMosi kept bytes =>
      cases kept <;>
        simp [Action.mosiKept, Action.mosiBytes, List.filter_map, Function.comp_def]
    | _ => rfl

section

variable {host : Host} {v : BridgeVars} {event : EpollEvent} {result : Outcome}
  {actions : List Action}

/-- An event ends where `buffer2` is empty again. -/
theorem Handles.boundary (handles : Handles host v event result actions)
    (boundary : v.AtBoundary) {last : BridgeVars} (going : result = .ok last) :
    last.AtBoundary := by
  -- The loops end at a boundary themselves, and the other cases do not touch `buffer2`.
  cases handles with
  | bookkept next actions same bookkeeping connection stays =>
    cases going
    rw [same]
    exact boundary
  | discarded buffer bytes absent =>
    cases going
    exact boundary
  | passed bytes result actions connected consumes ends => exact ends last going
  | received fd bytes result actions consumes ends => exact ends last going

/-- An event decodes the bytes it receives from the client. -/
theorem Handles.decodes_packets (handles : Handles host v event result actions) :
    Decodes slip.decoder BridgeVars.decoder v.decoder (actions.flatMap Action.clientBytes) result
      (actions.flatMap Action.packets) := by
  -- Only the last case moves the decoder, and the others show neither bytes nor packets.
  cases handles with
  | bookkept next actions same bookkeeping connection stays =>
    rw [flatMap_silent bookkeeping fun _ origin => origin.silent.1.bytes,
      flatMap_silent bookkeeping fun _ origin => origin.silent.1.packets]
    exact .ok (by rw [same]; rfl) rfl
  | discarded buffer bytes absent => exact .ok rfl rfl
  | passed bytes result actions connected consumes ends =>
    rw [List.flatMap_cons, List.flatMap_cons,
      flatMap_silent consumes.origin fun _ origin => (Action.FromMosi.silent origin).2.bytes,
      flatMap_silent consumes.origin fun _ origin => (Action.FromMosi.silent origin).2.packets]
    exact .idle fun last going => (consumes.frame last going).2.2
  | received fd bytes result actions consumes ends =>
    rw [List.flatMap_cons, List.flatMap_cons,
      flatMap_silent consumes.origin fun _ origin => (Action.FromClient.silent origin).1,
      List.append_nil]
    exact consumes.decodes

/-- An event cuts the bytes it keeps from mosi into lines. -/
theorem Handles.decodes_lines (handles : Handles host v event result actions) :
    Decodes (lineReader newline) BridgeVars.txPacket v.txPacket (actions.flatMap Action.mosiKept)
      result (actions.flatMap Action.lines) := by
  -- Only bytes kept for a client move the line, and the last case is about the other side.
  cases handles with
  | bookkept next actions same bookkeeping connection stays =>
    rw [flatMap_silent bookkeeping fun _ origin => origin.silent.2.kept,
      flatMap_silent bookkeeping fun _ origin => origin.silent.2.lines]
    exact .ok (by rw [same]; rfl) rfl
  | discarded buffer bytes absent => exact .ok rfl rfl
  | passed bytes result actions connected consumes ends =>
    rw [List.flatMap_cons, List.flatMap_cons,
      flatMap_silent consumes.origin fun _ origin => (Action.FromMosi.silent origin).1.2,
      List.append_nil]
    exact consumes.decodes
  | received fd bytes result actions consumes ends =>
    rw [List.flatMap_cons, List.flatMap_cons,
      flatMap_silent consumes.origin fun _ origin => (Action.FromClient.silent origin).2.kept,
      flatMap_silent consumes.origin fun _ origin => (Action.FromClient.silent origin).2.lines]
    exact .idle fun last going => (consumes.frame last going).2.2

/-- An event goes on exactly when all it hands on can be forwarded. -/
theorem Handles.going_iff (handles : Handles host v event result actions) :
    (∃ last, result = .ok last) ↔ ∀ action ∈ actions, action.Sound host := by
  -- Bookkeeping and discarded bytes always go on, and the loops say when they do.
  cases handles with
  | bookkept next actions same bookkeeping connection stays =>
    refine iff_of_true ⟨_, rfl⟩ fun action member => ?_
    have origin := bookkeeping action member
    cases action with
    | processed _ _ | parsed _ => cases origin
    | _ => trivial
  | discarded buffer bytes absent => simp [Action.Sound]
  | passed bytes result actions connected consumes ends => simp [consumes.going, Action.Sound]
  | received fd bytes result actions consumes ends => simp [consumes.going, Action.Sound]

/-- An event writes to miso the lines of the packets it hands on. -/
theorem Handles.wrote_miso (handles : Handles host v event result actions) :
    actions.flatMap (Action.messages .miso) =
      actions.flatMap fun action => action.packets.flatMap (misoLine host) := by
  -- Whatever is written to miso is written by the loop over received bytes.
  cases handles with
  | bookkept next actions same bookkeeping connection stays =>
    rw [flatMap_silent bookkeeping fun _ origin => origin.silent.1.messages,
      flatMap_silent bookkeeping fun _ origin => by rw [origin.silent.1.packets]; rfl]
  | discarded buffer bytes absent => rfl
  | passed bytes result actions connected consumes ends =>
    rw [List.flatMap_cons, List.flatMap_cons,
      flatMap_silent consumes.origin fun _ origin => (Action.FromMosi.silent origin).2.messages,
      flatMap_silent consumes.origin fun _ origin => by
        rw [(Action.FromMosi.silent origin).2.packets]; rfl]
    rfl
  | received fd bytes result actions consumes ends => exact consumes.written

/-- An event writes to the client the frames of the lines it hands on. -/
theorem Handles.wrote_client (handles : Handles host v event result actions) :
    actions.flatMap (Action.messages .client) =
      actions.flatMap fun action => action.lines.flatMap (clientFrame host) := by
  -- Whatever is written to the client is written by the loop over the bytes from mosi.
  cases handles with
  | bookkept next actions same bookkeeping connection stays =>
    rw [flatMap_silent bookkeeping fun _ origin => origin.silent.2.messages,
      flatMap_silent bookkeeping fun _ origin => by rw [origin.silent.2.lines]; rfl]
  | discarded buffer bytes absent => rfl
  | passed bytes result actions connected consumes ends => exact consumes.written
  | received fd bytes result actions consumes ends =>
    rw [List.flatMap_cons, List.flatMap_cons,
      flatMap_silent consumes.origin fun _ origin => (Action.FromClient.silent origin).2.messages,
      flatMap_silent consumes.origin fun _ origin => by
        rw [(Action.FromClient.silent origin).2.lines]; rfl]
    rfl

end

section

variable (host : Host) {v : BridgeVars}

/-- An event that goes on ends at a boundary. -/
theorem handleEvent_boundary (v : BridgeVars) (event : EpollEvent) (next : BridgeVars)
    (boundary : v.AtBoundary) (going : (handleEvent host v event).1 = .ok next) :
    next.AtBoundary :=
  (handleEvent_handles host boundary event).boundary boundary going

/-- Between two events there is nothing left in `buffer2`. -/
theorem eventLoop_boundary (boundary : v.AtBoundary) {events : List EpollEvent}
    {last : BridgeVars} (going : (eventLoop host).final (.ok v) events = .ok last) :
    last.AtBoundary :=
  going_preserves (handleEvent_boundary host) boundary going

/-- A run decodes the bytes it receives from its clients. -/
theorem eventLoop_packets (boundary : v.AtBoundary) (events : List EpollEvent) :
    Decodes slip.decoder BridgeVars.decoder v.decoder
      (((eventLoop host).output (.ok v) events).flatMap Action.clientBytes)
      ((eventLoop host).final (.ok v) events)
      (((eventLoop host).output (.ok v) events).flatMap Action.packets) :=
  decodes_trace (handleEvent_boundary host)
    (fun _ event inv => (handleEvent_handles host inv event).decodes_packets) boundary events

/-- A run cuts the bytes it keeps from mosi into lines. -/
theorem eventLoop_lines (boundary : v.AtBoundary) (events : List EpollEvent) :
    Decodes (lineReader newline) BridgeVars.txPacket v.txPacket
      (((eventLoop host).output (.ok v) events).flatMap Action.mosiKept)
      ((eventLoop host).final (.ok v) events)
      (((eventLoop host).output (.ok v) events).flatMap Action.lines) :=
  decodes_trace (handleEvent_boundary host)
    (fun _ event inv => (handleEvent_handles host inv event).decodes_lines) boundary events

/-- A run writes to miso the lines of the packets it hands on. -/
theorem eventLoop_wrote_miso (boundary : v.AtBoundary) (events : List EpollEvent) :
    ((eventLoop host).output (.ok v) events).flatMap (Action.messages .miso) =
      (((eventLoop host).output (.ok v) events).flatMap Action.packets).flatMap
        (misoLine host) := by
  rw [List.flatMap_assoc]
  exact going_flatMap_congr (handleEvent_boundary host)
    (fun _ event inv => (handleEvent_handles host inv event).wrote_miso) boundary events

/-- A run writes to the client the frames of the lines it hands on. -/
theorem eventLoop_wrote_client (boundary : v.AtBoundary) (events : List EpollEvent) :
    ((eventLoop host).output (.ok v) events).flatMap (Action.messages .client) =
      (((eventLoop host).output (.ok v) events).flatMap Action.lines).flatMap
        (clientFrame host) := by
  rw [List.flatMap_assoc]
  exact going_flatMap_congr (handleEvent_boundary host)
    (fun _ event inv => (handleEvent_handles host inv event).wrote_client) boundary events

/-- A run goes on exactly when every packet it completes dumps and every line parses. -/
theorem eventLoop_going_iff (boundary : v.AtBoundary) (events : List EpollEvent) :
    (∃ last, (eventLoop host).final (.ok v) events = .ok last) ↔
      (∀ packet ∈ slip.decoder.output v.decoder
        (((eventLoop host).output (.ok v) events).flatMap Action.clientBytes),
        (processPackage host.json packet).textsValid = true) ∧
      ∀ line ∈ (lineReader newline).output v.txPacket
        (((eventLoop host).output (.ok v) events).flatMap Action.mosiKept),
        (host.json.parse line).isOk = true := by
  -- Whether a run goes on can be read off what it hands on, and that is what its bytes complete.
  have packets := eventLoop_packets host boundary events
  have lines := eventLoop_lines host boundary events
  have going := going_iff_good (handleEvent_boundary host)
    (fun _ event inv => (handleEvent_handles host inv event).going_iff) boundary events
  rw [sound_iff] at going
  -- What is handed on is a front of what is decoded, and all of it as long as the run goes on.
  constructor
  · intro running
    obtain ⟨last, reached⟩ := running
    rw [← (packets.going last reached).2, ← (lines.going last reached).2]
    exact going.mp ⟨last, reached⟩
  · intro decoded
    obtain ⟨dumps, parses⟩ := decoded
    exact going.mpr ⟨fun packet member => dumps packet (packets.front.subset member),
      fun line member => parses line (lines.front.subset member)⟩

end

end Esme
