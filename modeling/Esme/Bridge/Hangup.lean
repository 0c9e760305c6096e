import Esme.Bridge.Packets
import Esme.Stream.Guarded

/-! What becomes of the bytes a client has sent when it closes its side of the connection. -/

namespace Esme

open Framing Transducer

/-- The event is handled in the branch for the connected client. -/
def ReachesClient (host : Host) (v : BridgeVars) (event : EpollEvent) : Prop :=
  -- The tests of the event loop in their order, each of which takes the event away.
  event.fd ≠ host.serverFd ∧ event.fd ≠ host.fifoMosi ∧ v.clientFd.valid = true ∧
    event.fd = v.clientFd.fd

instance (host : Host) (v : BridgeVars) : DecidablePred (ReachesClient host v) :=
  fun _ => inferInstanceAs (Decidable (_ ∧ _ ∧ _ ∧ _))

/-- The event tells of a hang-up. -/
def EpollEvent.HangsUp (event : EpollEvent) : Prop := event.evmask &&& epollRdhup ≠ 0

instance : DecidablePred EpollEvent.HangsUp := fun _ => inferInstanceAs (Decidable (_ ≠ _))

/-- The bytes that a read returns. -/
def ReadResult.bytes : ReadResult → List UInt8
  | .data chunk => chunk.bytes
  | .eof => []
  | .failed _ => []

/-- The bytes that an event makes the bridge receive from its client. -/
def receivedBytes (host : Host) (v : BridgeVars) (event : EpollEvent) : List UInt8 :=
  -- At a hang-up `recv` is not called at all.
  if ReachesClient host v event ∧ ¬event.HangsUp then event.read.bytes else []

/-- The bytes that an event makes the bridge read from mosi for its client. -/
def keptBytes (host : Host) (v : BridgeVars) (event : EpollEvent) : List UInt8 :=
  if event.fd ≠ host.serverFd ∧ event.fd = host.fifoMosi ∧ v.clientFd.valid = true then
    event.read.bytes
  else []

/-- The event makes the bridge drop its client. -/
def Drops (host : Host) (v : BridgeVars) (event : EpollEvent) : Prop :=
  -- A failed `recv` leaves the client where it is.
  ReachesClient host v event ∧ (event.HangsUp ∨ event.read = .eof)

instance (host : Host) (v : BridgeVars) : DecidablePred (Drops host v) :=
  fun _ => inferInstanceAs (Decidable (_ ∧ (_ ∨ _)))

/-- What a step receives, what it keeps from mosi, and whether it leaves the client there. -/
structure Brings (v : BridgeVars) (step : Outcome × List Action) (received kept : List UInt8)
    (stays : Prop) : Prop where
  received : step.2.flatMap Action.clientBytes = received
  kept : step.2.flatMap Action.mosiKept = kept
  valid : ∀ last, step.1 = .ok last →
    (last.clientFd.valid = true ↔ v.clientFd.valid = true ∧ stays)

section

variable {host : Host} {v : BridgeVars} {event : EpollEvent}

/-- A step that does nothing for the client leaves it there. -/
theorem brings_nothing {last : BridgeVars} {actions : List Action}
    (same : last.clientFd = v.clientFd)
    (silent : actions = [] ∨ ∃ bytes, actions = [.readPassive bytes]) :
    Brings v (.ok last, actions) [] [] True := by
  -- Reading the passive fifo is the only action without effect on either side.
  rcases silent with rfl | ⟨bytes, rfl⟩
  · exact ⟨rfl, rfl, fun next reached => by cases reached; rw [same, and_true]⟩
  · exact ⟨rfl, rfl, fun next reached => by cases reached; rw [same, and_true]⟩

/-- Dropping the client brings nothing. -/
theorem dropClient_brings (v : BridgeVars) : Brings v (dropClient v) [] [] False := by
  -- Closing a descriptor is no transfer of bytes.
  unfold dropClient FileDescriptor.close
  constructor
  · split <;> rfl
  · split <;> rfl
  · intro last reached
    cases reached
    simp [FileDescriptor.valid]

/-- The branch for mosi keeps what it reads for a client, who stays. -/
theorem mosiEvent_brings (boundary : v.AtBoundary) :
    Brings v (mosiEvent host v event) []
      (if v.clientFd.valid = true then event.read.bytes else []) True := by
  -- Lines are kept for a connected client only, and nothing here closes its descriptor.
  unfold mosiEvent
  cases read : event.read with
  | data chunk =>
    by_cases connected : v.clientFd.valid = true
    · obtain ⟨result, actions, step, consumes, -⟩ :=
        mosiChunk_consumes host boundary connected chunk
      rw [if_pos connected]
      dsimp only
      rw [step]
      constructor
      · rw [List.flatMap_cons,
          flatMap_silent consumes.origin fun _ origin => (Action.FromMosi.silent origin).2.bytes]
        rfl
      · rw [List.flatMap_cons,
          flatMap_silent consumes.origin fun _ origin => (Action.FromMosi.silent origin).1.2]
        exact List.append_nil _
      · intro last reached
        rw [(consumes.frame last reached).1, and_true]
    · rw [if_neg connected]
      dsimp only
      rw [mosiChunk, if_neg connected]
      exact ⟨rfl, rfl, fun last reached => by cases reached; rw [and_true]⟩
  | eof =>
    rw [ReadResult.bytes, ite_self]
    exact brings_nothing rfl (.inl rfl)
  | failed errno =>
    rw [ReadResult.bytes, ite_self]
    exact brings_nothing rfl (.inl rfl)

/-- The branch for the client drops it at a hang-up and at the end of the stream. -/
theorem clientEvent_brings (boundary : v.AtBoundary) :
    Brings v (clientEvent host v event) (if event.HangsUp then [] else event.read.bytes) []
      (¬(event.HangsUp ∨ event.read = .eof)) := by
  -- The hang-up is tested before anything is read.
  unfold clientEvent
  by_cases hangs : event.HangsUp
  · rw [if_pos hangs, if_pos (show event.evmask &&& epollRdhup ≠ 0 from hangs)]
    have brings := dropClient_brings v
    exact ⟨brings.received, brings.kept, by simpa [hangs] using brings.valid⟩
  rw [if_neg hangs, if_neg (show ¬event.evmask &&& epollRdhup ≠ 0 from hangs)]
  cases read : event.read with
  | data chunk =>
    obtain ⟨result, actions, step, consumes, -⟩ := receiveChunk_consumes host boundary chunk
    dsimp only
    rw [step]
    constructor
    · rw [List.flatMap_cons,
        flatMap_silent consumes.origin fun _ origin => (Action.FromClient.silent origin).1]
      exact List.append_nil _
    · rw [List.flatMap_cons,
        flatMap_silent consumes.origin fun _ origin => (Action.FromClient.silent origin).2.kept]
      rfl
    · intro last reached
      rw [(consumes.frame last reached).1]
      simp [hangs]
  | eof =>
    have brings := dropClient_brings v
    exact ⟨brings.received, brings.kept, by simpa using brings.valid⟩
  | failed errno =>
    exact ⟨rfl, rfl, fun last reached => by cases reached; simp [hangs]⟩

/-- What an event brings, as long as it brings no new client. -/
theorem handleEvent_brings (boundary : v.AtBoundary)
    (settled : event.fd = host.serverFd → event.accept < 0) :
    Brings v (handleEvent host v event) (receivedBytes host v event) (keptBytes host v event)
      (¬Drops host v event) := by
  -- The cases are the branches of the event loop.
  unfold handleEvent receivedBytes keptBytes Drops
  by_cases server : event.fd = host.serverFd
  · -- No client is accepted.
    have refused : ¬0 ≤ event.accept := by
      have negative := settled server
      omega
    have away : ¬ReachesClient host v event := fun reaches => reaches.1 server
    rw [if_pos server, acceptClient, if_neg refused, if_neg (fun reaches => away reaches.1),
      if_neg (fun mosi => mosi.1 server)]
    exact ⟨rfl, rfl, fun last reached => by cases reached; simp [away]⟩
  by_cases mosi : event.fd = host.fifoMosi
  · have away : ¬ReachesClient host v event := fun reaches => reaches.2.1 mosi
    have brings := @mosiEvent_brings host v event boundary
    rw [if_neg server, if_pos mosi, if_neg (fun reaches => away reaches.1)]
    refine ⟨brings.received, brings.kept.trans ?_, by simpa [away] using brings.valid⟩
    by_cases connected : v.clientFd.valid = true
    · rw [if_pos connected, if_pos ⟨server, mosi, connected⟩]
    · rw [if_neg connected, if_neg (fun kept => connected kept.2.2)]
  have kept : (if event.fd ≠ host.serverFd ∧ event.fd = host.fifoMosi ∧ v.clientFd.valid = true
      then event.read.bytes else []) = [] := if_neg fun kept => mosi kept.2.1
  rw [if_neg server, if_neg mosi, kept]
  by_cases client : v.clientFd.valid = true ∧ event.fd = v.clientFd.fd
  · have reaches : ReachesClient host v event := ⟨server, mosi, client⟩
    have brings := @clientEvent_brings host v event boundary
    rw [if_pos client]
    refine ⟨brings.received.trans ?_, brings.kept, by simpa [reaches] using brings.valid⟩
    by_cases hangs : event.HangsUp
    · rw [if_pos hangs, if_neg (fun both => both.2 hangs)]
    · rw [if_neg hangs, if_pos ⟨reaches, hangs⟩]
  have away : ¬ReachesClient host v event := fun reaches => client reaches.2.2
  have received : (if ReachesClient host v event ∧ ¬event.HangsUp then event.read.bytes else []) =
      [] := if_neg fun reaches => away reaches.1
  rw [if_neg client, received]
  split
  · unfold passiveEvent
    cases event.read with
    | data chunk => exact ⟨rfl, rfl, fun last reached => by cases reached; simp [away]⟩
    | eof => exact ⟨rfl, rfl, fun last reached => by cases reached; simp [away]⟩
    | failed errno => exact ⟨rfl, rfl, fun last reached => by cases reached; simp [away]⟩
  · exact ⟨rfl, rfl, fun last reached => by cases reached; simp [away]⟩

end

/-- The bridge and the socket of its client, with what the client has sent and what became of it. -/
structure Session where
  bridge : Outcome
  /-- in the receive buffer of the socket -/
  unread : List UInt8
  /-- the client has closed or half-closed its side -/
  shut : Bool
  sent : List UInt8
  /-- the packets handed to `processPackage` -/
  handed : List (List UInt8)

/-- A session from some state of the bridge on, with nothing sent yet. -/
def Session.start (v : BridgeVars) : Session where
  bridge := .ok v
  unread := []
  shut := false
  sent := []
  handed := []

/-- What the client does, and what `epoll_wait` returns. -/
inductive SessionEvent where
  | send (bytes : List UInt8)
  /-- `close` or `shutdown` of the client -/
  | close
  | epoll (event : EpollEvent)

/--
What the kernel may report: no new client, a hang-up only behind the end of what is sent, and
reads that return the next unread bytes.
-/
def Reports (host : Host) (s : Session) (v : BridgeVars) (event : EpollEvent) : Prop :=
  (event.fd = host.serverFd → event.accept < 0) ∧
    (ReachesClient host v event → (event.HangsUp → s.shut = true) ∧
      (¬event.HangsUp → event.read.bytes <+: s.unread ∧
        (event.read = .eof → s.unread = [] ∧ s.shut = true)))

instance (host : Host) (s : Session) (v : BridgeVars) : DecidablePred (Reports host s v) :=
  fun _ => inferInstanceAs (Decidable (_ ∧ (_ → (_ → _) ∧ (_ → _ ∧ (_ → _)))))

/-- The session behind an event that the bridge handles. -/
def Session.after (s : Session) (host : Host) (v : BridgeVars) (event : EpollEvent) : Session :=
  { s with
    bridge := (handleEvent host v event).1
    unread := s.unread.drop (receivedBytes host v event).length
    handed := s.handed ++ (handleEvent host v event).2.flatMap Action.packets }

/-- One step of the client or of the bridge. -/
def sessionStep (host : Host) (s : Session) : SessionEvent → Option (Session × List Empty)
  | .send bytes =>
    if s.shut = false then
      some ({ s with unread := s.unread ++ bytes, sent := s.sent ++ bytes }, [])
    else none
  | .close => some ({ s with shut := true }, [])
  | .epoll event =>
    match s.bridge with
    -- A process that has ended handles nothing.
    | .error _ => none
    | .ok v =>
      if Reports host s v event then some (s.after host v event, []) else none

/-- A client that sends and closes, beside the bridge. -/
def session (host : Host) : Transducer Session SessionEvent Empty := .guarded (sessionStep host)

/--
Once the bridge has dropped the client or has ended, every packet completed in what the client sent
has been handed on, decoded from the given state.
-/
def NothingLost (decoder : Stuffing.Decoder UInt8) (s : Session) : Prop :=
  match s.bridge with
  | .ok v => v.clientFd.valid = false → s.handed = slip.decoder.output decoder s.sent
  -- The connection ends with the process.
  | .error _ => s.handed = slip.decoder.output decoder s.sent

instance (decoder : Stuffing.Decoder UInt8) : DecidablePred (NothingLost decoder) := fun s =>
  match bridge : s.bridge with
  | .ok v => decidable_of_iff
      (v.clientFd.valid = false → s.handed = slip.decoder.output decoder s.sent)
      (by rw [NothingLost, bridge])
  | .error _ => decidable_of_iff (s.handed = slip.decoder.output decoder s.sent)
      (by rw [NothingLost, bridge])

/-- A running bridge is judged by the client that it has dropped. -/
theorem nothingLost_running {decoder : Stuffing.Decoder UInt8} {s : Session} {v : BridgeVars}
    (running : s.bridge = .ok v) :
    NothingLost decoder s ↔
      (v.clientFd.valid = false → s.handed = slip.decoder.output decoder s.sent) := by
  rw [NothingLost, running]

/-- A bridge that has ended has lost what it has not handed on. -/
theorem nothingLost_ended {decoder : Stuffing.Decoder UInt8} {s : Session} {error : JsonException}
    (ended : s.bridge = .error error) :
    NothingLost decoder s ↔ s.handed = slip.decoder.output decoder s.sent := by
  rw [NothingLost, ended]

/--
Nothing that an event does to the client comes before a packet that its unread bytes complete.

A hang-up is handled only when they complete none, a packet that does not dump is the last of them,
and a line that does not parse is handed on only when they complete none.
-/
def Drained (host : Host) (s : Session) (v : BridgeVars) (event : EpollEvent) : Prop :=
  (ReachesClient host v event → event.HangsUp → slip.decoder.output v.decoder s.unread = []) ∧
    (∀ packet ∈ (slip.decoder.output v.decoder (receivedBytes host v event)).take
        ((slip.decoder.output v.decoder s.unread).length - 1),
      (processPackage host.json packet).textsValid = true) ∧
    (slip.decoder.output v.decoder s.unread ≠ [] →
      ∀ line ∈ (lineReader newline).output v.txPacket (keptBytes host v event),
        (host.json.parse line).isOk = true)

instance (host : Host) (s : Session) (v : BridgeVars) : DecidablePred (Drained host s v) :=
  fun _ => inferInstanceAs (Decidable ((_ → _ → _) ∧ (∀ _ ∈ _, _) ∧ (_ → ∀ _ ∈ _, _)))

/--
Whatever the kernel reports, it finds the session drained, and no packet is completed by what a
client sends to a bridge that has ended.
-/
def DrainsFirst (host : Host) (decoder : Stuffing.Decoder UInt8) (s : Session) :
    SessionEvent → Prop
  | .epoll event =>
    match s.bridge with
    | .ok v => Reports host s v event → Drained host s v event
    | .error _ => True
  | .send bytes =>
    match s.bridge with
    | .ok _ => True
    | .error _ => s.shut = false →
        slip.decoder.output (slip.decoder.final decoder s.sent) bytes = []
  | .close => True

instance (host : Host) (decoder : Stuffing.Decoder UInt8) (s : Session) :
    DecidablePred (DrainsFirst host decoder s)
  | .epoll event =>
    match bridge : s.bridge with
    | .ok v => decidable_of_iff (Reports host s v event → Drained host s v event)
        (by simp only [DrainsFirst, bridge])
    | .error _ => isTrue (by simp only [DrainsFirst, bridge])
  | .send bytes =>
    match bridge : s.bridge with
    | .ok _ => isTrue (by simp only [DrainsFirst, bridge])
    | .error _ => decidable_of_iff (s.shut = false →
        slip.decoder.output (slip.decoder.final decoder s.sent) bytes = [])
        (by simp only [DrainsFirst, bridge])
  | .close => isTrue trivial

/-- The bytes handed on so far are those that have been read, and the rest is unread. -/
structure Tracks (decoder : Stuffing.Decoder UInt8) (s : Session) (v : BridgeVars) : Prop where
  running : s.bridge = .ok v
  boundary : v.AtBoundary
  connected : v.clientFd.valid = true → ∃ read, s.sent = read ++ s.unread ∧
    v.decoder = slip.decoder.final decoder read ∧ s.handed = slip.decoder.output decoder read
  dropped : v.clientFd.valid = false →
    s.shut = true ∧ s.handed = slip.decoder.output decoder s.sent

/-- The bridge has ended with every packet handed on that the client has completed. -/
structure Over (decoder : Stuffing.Decoder UInt8) (s : Session) : Prop where
  ended : ∃ error, s.bridge = .error error
  handed : s.handed = slip.decoder.output decoder s.sent

/-- The session is in order. -/
def InOrder (decoder : Stuffing.Decoder UInt8) (s : Session) : Prop :=
  (∃ v, Tracks decoder s v) ∨ Over decoder s

section

variable {host : Host} {v : BridgeVars} {decoder : Stuffing.Decoder UInt8} {s next : Session}
  {event : EpollEvent}

/-- An event goes on exactly when the packets and the lines that it completes do no harm. -/
theorem handleEvent_going_iff (boundary : v.AtBoundary)
    (settled : event.fd = host.serverFd → event.accept < 0) :
    (∃ last, (handleEvent host v event).1 = .ok last) ↔
      (∀ packet ∈ slip.decoder.output v.decoder (receivedBytes host v event),
        (processPackage host.json packet).textsValid = true) ∧
      ∀ line ∈ (lineReader newline).output v.txPacket (keptBytes host v event),
        (host.json.parse line).isOk = true := by
  -- The rule for whole runs, for a run of one event.
  have brings := handleEvent_brings boundary settled
  have going := eventLoop_going_iff host boundary [event]
  rw [eventLoop, final_cons, final_nil, output_cons, output_nil, List.append_nil,
    stopping_step_ok, brings.received, brings.kept] at going
  exact going

/-- The bytes that an event receives are the next unread ones. -/
theorem receivedBytes_front (reports : Reports host s v event) :
    receivedBytes host v event <+: s.unread := by
  -- Reads return what is next in the socket, and everything else returns nothing of it.
  unfold receivedBytes
  split
  · rename_i reaches
    exact ((reports.2 reaches.1).2 reaches.2).1
  · exact List.nil_prefix

/-- An event that goes on decodes the bytes that it receives, and hands their packets on. -/
theorem handleEvent_decodes (boundary : v.AtBoundary)
    (settled : event.fd = host.serverFd → event.accept < 0) {last : BridgeVars}
    (going : (handleEvent host v event).1 = .ok last) :
    last.decoder = slip.decoder.final v.decoder (receivedBytes host v event) ∧
      (handleEvent host v event).2.flatMap Action.packets =
        slip.decoder.output v.decoder (receivedBytes host v event) := by
  have decodes := (handleEvent_handles host boundary event).decodes_packets
  rw [(handleEvent_brings boundary settled).received] at decodes
  exact decodes.going last going

/-- A client that was there before an event and is not behind it has been dropped. -/
theorem drops_of_gone (boundary : v.AtBoundary)
    (settled : event.fd = host.serverFd → event.accept < 0) {last : BridgeVars}
    (going : (handleEvent host v event).1 = .ok last) (present : v.clientFd.valid = true)
    (gone : last.clientFd.valid = false) : Drops host v event := by
  have brings := handleEvent_brings boundary settled
  apply Decidable.byContradiction
  intro stays
  rw [(brings.valid last going).mpr ⟨present, stays⟩] at gone
  cases gone

/-- A client that is not there sends nothing on. -/
theorem Tracks.absent (tracks : Tracks decoder s v) (reports : Reports host s v event)
    {last : BridgeVars} (going : (handleEvent host v event).1 = .ok last)
    (absent : v.clientFd.valid = false) :
    s.shut = true ∧ (s.after host v event).handed = slip.decoder.output decoder s.sent := by
  -- No event reaches the branch for the client.
  obtain ⟨shut, handed⟩ := tracks.dropped absent
  obtain ⟨-, packets⟩ := handleEvent_decodes tracks.boundary reports.1 going
  have nothing : receivedBytes host v event = [] := by
    refine if_neg fun received => ?_
    rw [received.1.2.2.1] at absent
    cases absent
  rw [nothing, output_nil] at packets
  exact ⟨shut, by rw [Session.after, packets, List.append_nil, handed]⟩

/-- What has been read of a connected client grows by what the event receives. -/
theorem Tracks.present (tracks : Tracks decoder s v) (reports : Reports host s v event)
    {last : BridgeVars} (going : (handleEvent host v event).1 = .ok last)
    (present : v.clientFd.valid = true) :
    ∃ read, s.sent = read ++ (s.after host v event).unread ∧
      last.decoder = slip.decoder.final decoder read ∧
      (s.after host v event).handed = slip.decoder.output decoder read := by
  -- The bytes received move from the unread ones to those that are read.
  obtain ⟨read, sent, state, handed⟩ := tracks.connected present
  obtain ⟨moved, packets⟩ := handleEvent_decodes tracks.boundary reports.1 going
  have whole : receivedBytes host v event ++ (s.after host v event).unread = s.unread :=
    List.prefix_iff_eq_append.mp (receivedBytes_front reports)
  refine ⟨read ++ receivedBytes host v event, ?_, ?_, ?_⟩
  · rw [List.append_assoc, whole, sent]
  · rw [final_append, ← state, moved]
  · rw [output_append, ← state, ← packets, ← handed]
    rfl

/-- A running session in order has lost nothing so far. -/
theorem Tracks.nothingLost (tracks : Tracks decoder s v) : NothingLost decoder s :=
  (nothingLost_running tracks.running).mpr fun absent => (tracks.dropped absent).2

/--
An event that ends the process does so at a line, with no byte of the client received, or at the
last of the packets that it hands on.
-/
theorem Handles.ended {error : JsonException} {actions : List Action}
    (handles : Handles host v event (.error error) actions) :
    (actions.flatMap Action.clientBytes = [] ∧ actions.flatMap Action.packets = []) ∨
      actions.flatMap Action.mosiKept = [] ∧
        EndsBad (fun packet => (processPackage host.json packet).textsValid = true)
          (actions.flatMap Action.packets) := by
  -- The two kinds of bytes are handled apart, so what one kind ends leaves the other alone.
  cases handles with
  | passed bytes _ actions connected consumes ends =>
    left
    rw [List.flatMap_cons, List.flatMap_cons,
      flatMap_silent consumes.origin fun _ origin => (Action.FromMosi.silent origin).2.bytes,
      flatMap_silent consumes.origin fun _ origin => (Action.FromMosi.silent origin).2.packets]
    exact ⟨rfl, rfl⟩
  | received fd bytes _ actions consumes ends =>
    right
    rw [List.flatMap_cons,
      flatMap_silent consumes.origin fun _ origin => (Action.FromClient.silent origin).2.kept]
    refine ⟨rfl, ?_⟩
    obtain ⟨front, bad, rfl, valid, invalid⟩ := consumes.stops error rfl
    -- Of what the loop does only handing on a packet can end it.
    have origin := consumes.origin bad (by simp)
    cases bad with
    | processed connection packet =>
      refine ⟨front.flatMap Action.packets, packet, by simp [Action.packets], ?_, invalid⟩
      intro other member
      obtain ⟨action, early, packets⟩ := List.mem_flatMap.mp member
      have sound := valid action early
      cases action with
      | processed _ _ =>
        cases List.mem_singleton.mp packets
        exact sound
      | _ => cases packets
    | wrote _ _ _ _ _ _ _ => exact absurd trivial invalid
    | _ => cases origin

/-- Dropping a client loses nothing exactly when the unread bytes complete no packet. -/
theorem Tracks.drop_iff (tracks : Tracks decoder s v) (reports : Reports host s v event)
    {last : BridgeVars} (going : (handleEvent host v event).1 = .ok last)
    (drops : v.clientFd.valid = true ∧ Drops host v event) :
    (s.after host v event).handed = slip.decoder.output decoder s.sent ↔
      (event.HangsUp → slip.decoder.output v.decoder s.unread = []) := by
  -- What the client sent is what has been read and what is unread when it is dropped.
  obtain ⟨present, reaches, ends⟩ := drops
  obtain ⟨read, sent, state, handed⟩ := tracks.present reports going present
  obtain ⟨moved, -⟩ := handleEvent_decodes tracks.boundary reports.1 going
  rw [handed, sent, output_append, ← state, List.self_eq_append_right]
  by_cases hangs : event.HangsUp
  · -- Nothing is received at a hang-up.
    have nothing : receivedBytes host v event = [] := if_neg fun both => both.2 hangs
    rw [nothing, final_nil] at moved
    rw [moved, Session.after, nothing, List.length_nil, List.drop_zero]
    exact ⟨fun empty _ => empty, fun drained => drained hangs⟩
  · -- At the end of the stream there is nothing left to receive.
    have eof := ends.resolve_left hangs
    obtain ⟨empty, -⟩ := ((reports.2 reaches).2 hangs).2 eof
    rw [Session.after, empty, List.drop_nil, output_nil]
    exact iff_of_true rfl fun hang => absurd hang hangs

/-- A client that is not there brings no bytes to an event, from either side. -/
theorem silent_of_absent (absent : v.clientFd.valid = false) :
    receivedBytes host v event = [] ∧ keptBytes host v event = [] := by
  have invalid : ¬v.clientFd.valid = true := by simp [absent]
  exact ⟨if_neg fun received => invalid received.1.2.2.1, if_neg fun kept => invalid kept.2.2⟩

/-- A report of the kernel that goes on loses nothing exactly when it is no hang-up too early. -/
theorem Tracks.going_iff (tracks : Tracks decoder s v) (reports : Reports host s v event)
    {last : BridgeVars} (going : (handleEvent host v event).1 = .ok last) :
    NothingLost decoder (s.after host v event) ↔ Drained host s v event := by
  -- Where the process goes on, only a hang-up can leave bytes that are never read.
  obtain ⟨packets, lines⟩ := (handleEvent_going_iff tracks.boundary reports.1).mp ⟨last, going⟩
  have brings := handleEvent_brings tracks.boundary reports.1
  rw [nothingLost_running (show (s.after host v event).bridge = .ok last from going)]
  constructor
  · intro kept
    refine ⟨fun reaches hangs => ?_, fun packet member => packets packet
      (List.mem_of_mem_take member), fun _ => lines⟩
    have drops : Drops host v event := ⟨reaches, .inl hangs⟩
    have gone : last.clientFd.valid = false := by
      rw [Bool.eq_false_iff, ne_eq, brings.valid last going]
      exact fun stays => stays.2 drops
    exact (tracks.drop_iff reports going ⟨reaches.2.2.1, drops⟩).mp (kept gone) hangs
  · intro drained gone
    cases present : v.clientFd.valid with
    | false => exact (tracks.absent reports going present).2
    | true =>
      have drops := drops_of_gone tracks.boundary reports.1 going present gone
      exact (tracks.drop_iff reports going ⟨present, drops⟩).mpr (drained.1 drops.1)

/-- An event that ends the process is no hang-up, and there is a client. -/
theorem reads_of_ended (boundary : v.AtBoundary)
    (settled : event.fd = host.serverFd → event.accept < 0) {error : JsonException}
    (ended : (handleEvent host v event).1 = .error error) :
    v.clientFd.valid = true ∧ (ReachesClient host v event → ¬event.HangsUp) := by
  -- An event that brings nothing goes on.
  have brought : ¬(receivedBytes host v event = [] ∧ keptBytes host v event = []) := by
    rintro ⟨received, kept⟩
    obtain ⟨last, going⟩ := (handleEvent_going_iff boundary settled).mpr
      (by rw [received, kept]; exact ⟨by simp, by simp⟩)
    rw [ended] at going
    cases going
  refine ⟨?_, fun reaches hangs => brought ⟨?_, ?_⟩⟩
  · cases valid : v.clientFd.valid with
    | true => rfl
    | false => exact absurd (silent_of_absent valid) brought
  · exact if_neg fun both => both.2 hangs
  · exact if_neg fun both => reaches.2.1 both.2.1

/-- A report that ends the process loses nothing exactly when nothing is behind what ends it. -/
theorem Tracks.ended_iff (tracks : Tracks decoder s v) (reports : Reports host s v event)
    {error : JsonException} (ended : (handleEvent host v event).1 = .error error) :
    NothingLost decoder (s.after host v event) ↔ Drained host s v event := by
  -- Both sides say that the packets handed on at last are all that was still to come.
  obtain ⟨present, quiet⟩ := reads_of_ended tracks.boundary reports.1 ended
  obtain ⟨read, sent, state, handed⟩ := tracks.connected present
  -- Nothing is lost when what the event hands on is all that the unread bytes complete.
  have whole : NothingLost decoder (s.after host v event) ↔
      (handleEvent host v event).2.flatMap Action.packets =
        slip.decoder.output v.decoder s.unread := by
    rw [nothingLost_ended (show (s.after host v event).bridge = .error error from ended)]
    show s.handed ++ _ = slip.decoder.output decoder s.sent ↔ _
    rw [sent, output_append, ← state, ← handed]
    exact List.append_right_inj _
  have part : slip.decoder.output v.decoder (receivedBytes host v event) <+:
      slip.decoder.output v.decoder s.unread := by
    obtain ⟨rest, unread⟩ := receivedBytes_front reports
    rw [← unread, output_append]
    exact List.prefix_append _ _
  have brings := handleEvent_brings tracks.boundary reports.1
  have handles := handleEvent_handles host tracks.boundary event
  have front := handles.decodes_packets.front
  rw [brings.received] at front
  rw [ended] at handles
  have ends := handles.ended
  rw [brings.received, brings.kept] at ends
  rw [Drained, whole, and_iff_right fun reaches hangs => absurd hangs (quiet reaches)]
  rcases ends with ⟨received, packets⟩ | ⟨kept, ends⟩
  · -- A line ends the process, so there must be no packet at all.
    have broken : ¬∀ line ∈ (lineReader newline).output v.txPacket (keptBytes host v event),
        (host.json.parse line).isOk = true := by
      intro parse
      obtain ⟨last, going⟩ := (handleEvent_going_iff tracks.boundary reports.1).mpr
        ⟨by rw [received]; simp, parse⟩
      rw [ended] at going
      cases going
    rw [packets, received, output_nil, List.take_nil, and_iff_right (List.forall_mem_nil _)]
    exact ⟨fun none some => absurd none.symm some,
      fun drained => Decidable.byContradiction fun some => broken (drained (Ne.symm some))⟩
  · -- A packet ends the process, so it must be the last one.
    rw [ends.eq_iff front part, kept, output_nil]
    exact (and_iff_left fun _ => List.forall_mem_nil _).symm

/-- A report of the kernel loses nothing exactly when it finds the session drained. -/
theorem Tracks.after_iff (tracks : Tracks decoder s v) (reports : Reports host s v event) :
    NothingLost decoder (s.after host v event) ↔ Drained host s v event := by
  cases result : (handleEvent host v event).1 with
  | ok last => exact tracks.going_iff reports result
  | error error => exact tracks.ended_iff reports result

/-- A step of a running session loses nothing exactly when it finds the socket drained. -/
theorem Tracks.drainsFirst_iff (tracks : Tracks decoder s v) (input : SessionEvent) :
    DrainsFirst host decoder s input ↔
      NothingLost decoder ((session host).step s input).1 := by
  -- Only events are judged; what the client does loses nothing by itself.
  cases input with
  | send bytes =>
    refine iff_of_true (by simp only [DrainsFirst, tracks.running]) ?_
    unfold session
    cases shut : s.shut with
    | false =>
      rw [guarded_step_some (by rw [sessionStep, if_pos shut])]
      -- A client that has been dropped had closed its side before.
      refine (@nothingLost_running decoder _ v ?_).mpr fun absent => ?_
      · exact tracks.running
      rw [(tracks.dropped absent).1] at shut
      cases shut
    | true =>
      rw [guarded_step_none (by rw [sessionStep, if_neg (by simp [shut])])]
      exact tracks.nothingLost
  | close =>
    refine iff_of_true trivial ((@nothingLost_running decoder _ v ?_).mpr fun absent => ?_)
    · exact tracks.running
    · exact (tracks.dropped absent).2
  | epoll event =>
    unfold session
    by_cases reports : Reports host s v event
    · have stepped : sessionStep host s (.epoll event) = some (s.after host v event, []) := by
        simp only [sessionStep, tracks.running, if_pos reports]
      rw [guarded_step_some stepped, tracks.after_iff reports]
      simp only [DrainsFirst, tracks.running, forall_prop_of_true reports]
    · rw [guarded_step_none (by simp only [sessionStep, tracks.running, if_neg reports])]
      simp only [DrainsFirst, tracks.running]
      exact iff_of_true (fun reported => absurd reported reports) tracks.nothingLost

/-- A step of a session that is over loses nothing exactly when it completes no packet. -/
theorem Over.drainsFirst_iff (finished : Over decoder s) (input : SessionEvent) :
    DrainsFirst host decoder s input ↔
      NothingLost decoder ((session host).step s input).1 := by
  obtain ⟨⟨error, ended⟩, handed⟩ := finished
  -- Nothing is handed on any more.
  have kept : NothingLost decoder s := (nothingLost_ended ended).mpr handed
  cases input with
  | send bytes =>
    unfold session
    simp only [DrainsFirst, ended]
    cases shut : s.shut with
    | false =>
      rw [guarded_step_some (by rw [sessionStep, if_pos shut])]
      have longer := @nothingLost_ended decoder
        { s with unread := s.unread ++ bytes, sent := s.sent ++ bytes } error ended
      rw [longer, handed, output_append, List.self_eq_append_right]
      exact forall_prop_of_true rfl
    | true =>
      rw [guarded_step_none (by rw [sessionStep, if_neg (by simp [shut])])]
      exact iff_of_true (fun open' => absurd open' (by simp)) kept
  | close =>
    exact iff_of_true trivial
      ((@nothingLost_ended decoder { s with shut := true } error ended).mpr handed)
  | epoll event =>
    unfold session
    rw [guarded_step_none (by simp only [sessionStep, ended])]
    exact iff_of_true (by simp only [DrainsFirst, ended]) kept

/-- A step of a running session that loses nothing leaves it in order. -/
theorem tracks_step (tracks : Tracks decoder s v) {input : SessionEvent} {written : List Empty}
    (kept : NothingLost decoder next)
    (possible : sessionStep host s input = some (next, written)) : InOrder decoder next := by
  -- What is sent is unread at first, and an event reads some of it or drops the client.
  cases input with
  | send bytes =>
    simp only [sessionStep, Option.ite_none_right_eq_some, Option.some.injEq, Prod.mk.injEq]
      at possible
    obtain ⟨shut, rfl, -⟩ := possible
    refine .inl ⟨v, tracks.running, tracks.boundary, fun present => ?_, fun absent => ?_⟩
    · obtain ⟨read, sent, state, handed⟩ := tracks.connected present
      exact ⟨read, by rw [sent, List.append_assoc], state, handed⟩
    · rw [(tracks.dropped absent).1] at shut
      cases shut
  | close =>
    simp only [sessionStep, Option.some.injEq, Prod.mk.injEq] at possible
    obtain ⟨rfl, -⟩ := possible
    exact .inl ⟨v, tracks.running, tracks.boundary, tracks.connected,
      fun absent => ⟨rfl, (tracks.dropped absent).2⟩⟩
  | epoll event =>
    simp only [sessionStep, tracks.running, Option.ite_none_right_eq_some, Option.some.injEq,
      Prod.mk.injEq] at possible
    obtain ⟨reports, rfl, -⟩ := possible
    cases going : (handleEvent host v event).1 with
    | error error => exact .inr ⟨⟨error, going⟩, (nothingLost_ended going).mp kept⟩
    | ok last =>
      have handed := (@nothingLost_running decoder _ last going).mp kept
      have brings := handleEvent_brings tracks.boundary reports.1
      refine .inl ⟨last, going, handleEvent_boundary host v event last tracks.boundary going,
        fun present => ?_, fun absent => ⟨?_, handed absent⟩⟩
      · exact tracks.present reports going ((brings.valid last going).mp present).1
      · -- Only a client that has closed its side is dropped.
        show s.shut = true
        cases before : v.clientFd.valid with
        | false => exact (tracks.dropped before).1
        | true =>
          obtain ⟨reaches, hangs | eof⟩ :=
            drops_of_gone tracks.boundary reports.1 going before absent
          · exact (reports.2 reaches).1 hangs
          · by_cases hangs : event.HangsUp
            · exact (reports.2 reaches).1 hangs
            · exact (((reports.2 reaches).2 hangs).2 eof).2

/-- A step of a session that is over leaves it over, as long as it loses nothing. -/
theorem over_step (finished : Over decoder s) {input : SessionEvent} {written : List Empty}
    (kept : NothingLost decoder next)
    (possible : sessionStep host s input = some (next, written)) : Over decoder next := by
  obtain ⟨⟨error, ended⟩, handed⟩ := finished
  -- The process stays as it is, whatever the client does.
  cases input with
  | send bytes =>
    simp only [sessionStep, Option.ite_none_right_eq_some, Option.some.injEq, Prod.mk.injEq]
      at possible
    obtain ⟨-, rfl, -⟩ := possible
    refine ⟨⟨error, ended⟩, (@nothingLost_ended decoder _ error ?_).mp kept⟩
    exact ended
  | close =>
    simp only [sessionStep, Option.some.injEq, Prod.mk.injEq] at possible
    obtain ⟨rfl, -⟩ := possible
    exact ⟨⟨error, ended⟩, handed⟩
  | epoll event => simp [sessionStep, ended] at possible

/--
In exactly the sessions in which no hang-up and no exception comes before a packet that is unread,
every packet that the client has completed is handed on before it is dropped.
-/
theorem commands_kept_iff (host : Host) {v : BridgeVars} (boundary : v.AtBoundary)
    (connected : v.clientFd.valid = true) (inputs : List SessionEvent) :
    (session host).Along (DrainsFirst host v.decoder) (.start v) inputs ↔
      (session host).Along
        (fun s input => NothingLost v.decoder ((session host).step s input).1) (.start v)
        inputs := by
  have start : InOrder v.decoder (.start v) :=
    .inl ⟨v, rfl, boundary, fun _ => ⟨[], rfl, rfl, rfl⟩, fun absent => by
      rw [connected] at absent
      cases absent⟩
  -- As long as the session is in order, both conditions say the same of the next step.
  refine guarded_along_congr (fun held => ?_) (fun held drains possible => ?_) start
  · rcases held with ⟨last, tracks⟩ | finished
    · exact tracks.drainsFirst_iff _
    · exact finished.drainsFirst_iff _
  · rcases held with ⟨last, tracks⟩ | finished
    · have kept := (tracks.drainsFirst_iff _).mp drains
      unfold session at kept
      rw [guarded_step_some possible] at kept
      exact tracks_step tracks kept possible
    · have kept := (finished.drainsFirst_iff _).mp drains
      unfold session at kept
      rw [guarded_step_some possible] at kept
      exact .inr (over_step finished kept possible)

end

/-- The variables behind the first accept. -/
def BridgeVars.connected : BridgeVars :=
  { BridgeVars.initial with clientFd := ⟨8⟩, connection := 1 }

/-- A client whose packets are read in parts, and all of them before the hang-up is handled. -/
theorem commands_kept_iff_read :
    (session Host.small).Along
      (fun s input => NothingLost BridgeVars.connected.decoder
        ((session Host.small).step s input).1) (.start .connected)
      [.send [0xc0, 0x61], .epoll (dataEvent 8 { bytes := [0xc0] }),
        .send [0x62, 0xc0, 0xc0, 0xdb, 0xdc, 0xc0],
        .epoll (dataEvent 4 { bytes := ascii ['n', 'u', 'l', 'l', '\n'] }), .close,
        .epoll (dataEvent 8 { bytes := [0x61, 0x62, 0xc0, 0xc0, 0xdb] }),
        .epoll (dataEvent 8 { bytes := [0xdc, 0xc0] }), .epoll (hangupEvent 8)] :=
  (commands_kept_iff Host.small (v := .connected) rfl rfl _).mp (by decide +kernel)

/-- A client that closes right behind its packet, so that both are reported together. -/
theorem command_lost :
    ¬(session Host.small).Along
      (fun s input => NothingLost BridgeVars.connected.decoder
        ((session Host.small).step s input).1) (.start .connected)
      [.send [0xc0, 0x61, 0x62, 0xc0], .close, .epoll (hangupEvent 8)] := by
  decide +kernel

end Esme
