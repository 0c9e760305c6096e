import Esme.Bridge.Packets
import Esme.Stream.Truncation

/-! When the peers of the bridge are left with whole messages only. -/

namespace Esme

open Framing Transducer Computability

/-- The bytes taken by `miso.fifo`, or by the client socket of one connection. -/
def Action.takenAt (peer : Peer) (connection : Nat) : Action → List UInt8
  | .wrote _ other on _ _ taken _ =>
    if other = peer ∧ (peer = .client → on = connection) then taken else []
  | _ => []

variable (host : Host)

/-- No message is empty. -/
theorem Peer.language_nonempty {peer : Peer} {message : List UInt8}
    (member : message ∈ peer.language host) : message ≠ [] := by
  -- A line has its newline, and a frame its end bytes.
  cases peer with
  | miso =>
    obtain ⟨value, str, -, rfl⟩ := member
    simp
  | client =>
    obtain ⟨payload, rfl⟩ := member
    simp [slipEncoding_eq, Stuffing.encode]

/-- A message for miso ends with its only newline. -/
theorem Peer.miso_lines : ∀ line ∈ Peer.miso.language host,
    ∃ text, newline ∉ text ∧ line = text ++ [newline] := by
  intro line member
  obtain ⟨value, str, dumped, rfl⟩ := member
  exact ⟨str, dump_no_newline host.json.dumpFloat_no_newline value str dumped, rfl⟩

/-- A message for a client is the frame of a payload. -/
theorem Peer.client_frames : ∀ frame ∈ Peer.client.language host,
    ∃ payload, frame = slip.encode payload := by
  intro frame member
  obtain ⟨payload, rfl⟩ := member
  exact ⟨payload, slipEncoding_eq payload⟩

/--
A message that is cut short shows.

A dumped value holds no newline before its last byte, and a frame pairs its end bytes.
-/
theorem Peer.truncationShows (peer : Peer) : TruncationShows (peer.language host) := by
  cases peer with
  | miso => exact lines_truncationShows (Peer.miso_lines host)
  | client => exact slip.frames_truncationShows (Peer.client_frames host)

/-- A forwarded message is left whole or untouched exactly when its calls do so. -/
theorem forwarded_whole_iff {index connection : Nat} {peer : Peer} {fd : Int}
    {message taken : List UInt8} {returned : Bool}
    (forwarded : (Action.wrote index peer connection fd message taken returned).Forwarded host) :
    taken = [] ∨ taken ∈ peer.language host ↔
      WholeOrNothing (host.writes index) message.length := by
  -- What is taken is a front of the message, so it is whole or shows that it is not.
  obtain ⟨member, written⟩ := forwarded
  have part := writeAllNonblocking_prefix (host.writes index) message
  have whole : _ ↔ WholeOrNothing (host.writes index) message.length :=
    writeAllNonblocking_whole_iff (Peer.language_nonempty host member)
  rw [written] at part whole
  rw [(peer.truncationShows host).whole_iff member part]
  exact whole

/-- What a descriptor takes of an action is a front of a message for its peer. -/
theorem takenAt_front {action : Action} (forwarded : action.Forwarded host) (peer : Peer)
    (connection : Nat) :
    action.takenAt peer connection = [] ∨
      ∃ message ∈ peer.language host, action.takenAt peer connection <+: message := by
  -- Only a write to this peer and connection leaves anything there.
  cases action with
  | wrote index other on fd message taken returned =>
    obtain ⟨member, written⟩ := forwarded
    have part := writeAllNonblocking_prefix (host.writes index) message
    rw [written] at part
    rw [Action.takenAt]
    split
    · rename_i mine
      rw [← mine.1]
      exact .inr ⟨message, member, part⟩
    · exact .inl rfl
  | _ => exact .inl rfl

/-- Every write of an event is of a message for its peer and takes what its calls say. -/
theorem Handles.forwarded {v : BridgeVars} {event : EpollEvent} {result : Outcome}
    {actions : List Action} (handles : Handles host v event result actions) :
    ∀ action ∈ actions, action.Forwarded host := by
  -- Only the two loops write anything.
  cases handles with
  | bookkept next actions same bookkeeping counted stays =>
    intro action member
    have origin := bookkeeping action member
    cases action with
    | wrote _ _ _ _ _ _ _ => cases origin
    | _ => trivial
  | discarded buffer bytes absent => simp [Action.Forwarded]
  | passed bytes result actions connected consumes ends =>
    exact List.forall_mem_cons.mpr ⟨trivial, consumes.forwarded⟩
  | received fd bytes result actions consumes ends =>
    exact List.forall_mem_cons.mpr ⟨trivial, consumes.forwarded⟩

/--
At every point of a run, each peer has taken whole messages one after another.

The points are those between two actions, so after each forwarded message as well.
-/
def ForwardsWhole (events : List EpollEvent) : Prop :=
  ∀ front, front <+: (eventLoop host).output (.ok .initial) events →
    ∀ (peer : Peer) (connection : Nat),
      front.flatMap (Action.takenAt peer connection) ∈ (peer.language host)∗

/--
Peers are left with whole messages exactly when every message is taken whole or not at all.

A message is cut short when its first call of `write` takes some of it and a later one nothing
before the rest is taken.
-/
theorem forwards_whole_iff (events : List EpollEvent) :
    ForwardsWhole host events ↔
      ∀ index peer connection fd message taken returned,
        .wrote index peer connection fd message taken returned ∈
          (eventLoop host).output (.ok .initial) events →
        WholeOrNothing (host.writes index) message.length := by
  -- Every message is written by `writeFd`, which cuts it exactly when its calls do.
  have forwarded : ∀ action ∈ (eventLoop host).output (.ok .initial) events,
      action.Forwarded host :=
    forall_mem_going (handleEvent_boundary host)
      (fun _ event inv => (handleEvent_handles host inv event).forwarded)
      BridgeVars.initial_boundary events
  constructor
  · intro forwards index peer connection fd message taken returned member
    -- Look at the bytes of the descriptor that this message was written to.
    have row := (row_iff_whole (peer.truncationShows host) fun action written =>
      takenAt_front host (forwarded action written) peer connection).mp
        fun front part => forwards front part peer connection
    have mine := row _ member
    rw [Action.takenAt, if_pos ⟨rfl, fun _ => rfl⟩] at mine
    exact (forwarded_whole_iff host (forwarded _ member)).mp mine
  · intro whole front part peer connection
    apply flatMap_mem_kstar
    intro action member
    have written := part.subset member
    cases action with
    | wrote index other on fd message taken returned =>
      rw [Action.takenAt]
      split
      · rename_i mine
        rw [← mine.1]
        exact (forwarded_whole_iff host (forwarded _ written)).mpr
          (whole _ _ _ _ _ _ _ written)
      · exact .inl rfl
    | _ => exact .inl rfl

/--
A socket whose buffer is full behind the first byte of a frame is left with that byte in front of
the next frame, though `true` is returned.
-/
theorem frame_cut_short :
    let host : Host := { Host.small with
      writes := fun index call =>
        if index = 0 then if call = 0 then .accepted 1 else .failed eagain else .accepted 3 }
    let events := [acceptEvent host 8,
      dataEvent 4 { bytes := ascii ['n', 'u', 'l', 'l', '\n', 't', 'r', 'u', 'e', '\n'] }]
    ((eventLoop host).output (.ok .initial) events).flatMap (Action.takenAt .client 1) =
        [0xc0, 0xc0, 0xf5, 0xc0] ∧ ¬ForwardsWhole host events := by
  intro host events
  have taken : ((eventLoop host).output (.ok .initial) events).flatMap
      (Action.takenAt .client 1) = [0xc0, 0xc0, 0xf5, 0xc0] := by
    decide +kernel
  refine ⟨taken, fun forwards => ?_⟩
  -- Whole frames would have their `END` bytes in pairs.
  have row := forwards _ List.prefix_rfl .client 1
  have pairs := slip.even_count (Peer.client_frames host) row
  rw [taken] at pairs
  exact absurd pairs (by decide)

end Esme
