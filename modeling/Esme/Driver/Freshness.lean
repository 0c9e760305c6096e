import Esme.Driver.Calls

/-! When the reply that a call re-initialising the completion gives to the user is a fresh one. -/

namespace Esme

open Transducer

variable {layout : Layout} {trace written : List IoctlAction} {s next : IoctlState layout}
  {call : Nat} {command : Command} {pc : CallPc} {packet : ConfigPacket} {data : UserData}

/-- The config packets the callback has stored. -/
def IoctlAction.packets : IoctlAction → List ConfigPacket
  | .received packet => [packet]
  | _ => []

/--
A packet is the one most recently received, and it was received behind the `reinit_completion` of
a call.
-/
def FreshlyReceived (call : Nat) (packet : ConfigPacket) (trace : List IoctlAction) : Prop :=
  ∃ before between since,
    trace = before ++ .reinit call :: between ++ .received packet :: since ∧
      since.flatMap IoctlAction.packets = []

/-- A call read the fields of a freshly received packet. -/
def ReadFresh (call : Nat) (command : Command) (data : UserData) (trace : List IoctlAction) :
    Prop :=
  -- Everything in front of the read counts, and nothing that is stored behind it.
  ∃ front back packet, trace = front ++ .read call :: back ∧
    FreshlyReceived call packet front ∧ data = command.fields packet

/-- The places of a call that has read a part of the status only. -/
def CallPc.reading : CallPc → Bool
  | .readErrorReg _ | .readSyncCount _ _ => true
  | _ => false

/-- No call reads a part of the status only. -/
def NoneReading (s : IoctlState layout) : Prop := ∀ known ∈ s.calls, known.pc.reading = false

instance (s : IoctlState layout) : Decidable (NoneReading s) :=
  inferInstanceAs (Decidable (∀ known ∈ s.calls, known.pc.reading = false))

/-- The completion is not re-initialised, nor the status read, in the middle of an arrival. -/
def ArrivesApart (s : IoctlState layout) : IoctlEvent → Prop
  -- Between the store of a packet and its `complete` the counter must not be cleared.
  | .step _ .reinit => s.completing = false
  -- Between the three assignments of a status no packet must be stored.
  | .deliver => NoneReading s
  | .message data => IsConfigReply data → NoneReading s
  | _ => True

instance (s : IoctlState layout) : DecidablePred (ArrivesApart s)
  | .step _ .reinit => inferInstanceAs (Decidable (s.completing = false))
  | .deliver => inferInstanceAs (Decidable (NoneReading s))
  | .message data => inferInstanceAs (Decidable (IsConfigReply data → NoneReading s))
  | .step _ .send | .step _ (.sendFails _) | .step _ .pass | .step _ .interrupt | .step _ .read
  | .step _ .finish | .step _ .fault | .enter _ | .answer _ | .complete => isTrue trivial

/-- Actions behind a fresh packet that store no other leave it the most recent one. -/
theorem FreshlyReceived.grow (fresh : FreshlyReceived call packet trace)
    (silent : written.flatMap IoctlAction.packets = []) :
    FreshlyReceived call packet (trace ++ written) := by
  -- What comes behind the packet may grow as long as no packet is in it.
  obtain ⟨before, between, since, split, later⟩ := fresh
  refine ⟨before, between, since ++ written, ?_, ?_⟩
  · rw [split, List.append_assoc]
    rfl
  · rw [List.flatMap_append, later, silent, List.append_nil]

/-- A packet stored now is fresh for every call that has re-initialised the completion. -/
theorem freshlyReceived_now (reset : .reinit call ∈ trace) :
    FreshlyReceived call packet (trace ++ [.received packet]) := by
  -- The re-initialisation is somewhere before, and nothing comes behind the packet.
  obtain ⟨before, between, split⟩ := List.append_of_mem reset
  exact ⟨before, between, [], by rw [split], rfl⟩

/-- A call for which a packet is fresh has re-initialised the completion. -/
theorem FreshlyReceived.reset (fresh : FreshlyReceived call packet trace) :
    .reinit call ∈ trace := by
  obtain ⟨before, between, since, rfl, -⟩ := fresh
  simp

/-- What was read fresh stays so as the trace grows. -/
theorem ReadFresh.grow (read : ReadFresh call command data trace) (written : List IoctlAction) :
    ReadFresh call command data (trace ++ written) := by
  obtain ⟨front, back, packet, rfl, fresh, same⟩ := read
  exact ⟨front, back ++ written, packet, by simp, fresh, same⟩

/-- What was read fresh is of a packet that was received behind the `reinit_completion`. -/
theorem ReadFresh.received (read : ReadFresh call command data trace) :
    ∃ packet ∈ trace.flatMap IoctlAction.packets,
      List.Sublist [.reinit call, .received packet] trace ∧ data = command.fields packet := by
  obtain ⟨_, back, packet, rfl, ⟨before, between, since, rfl, -⟩, same⟩ := read
  refine ⟨packet, ?_, ?_, same⟩
  · simp [IoctlAction.packets]
  · -- The two actions are in the trace in this order, with others before, between and behind.
    have reset : List.Sublist [.reinit call, .received packet]
        (.reinit call :: between ++ .received packet :: since) :=
      ((List.nil_sublist between).append ((List.nil_sublist since).cons_cons _)).cons_cons _
    rw [List.append_assoc before]
    exact (reset.trans (List.sublist_append_right before _)).trans
      (List.sublist_append_left _ _)

/-- A waiting call can pass, now or once the callback completes what it has stored. -/
def Passable (s : IoctlState layout) : Prop :=
  0 < s.driver.rpmsgConfigGot ∨ s.completing = true

/-- What a call that re-initialises the completion may rely on, from place to place. -/
def PlaceFresh (trace : List IoctlAction) (s : IoctlState layout) (call : Nat)
    (command : Command) : CallPc → Prop
  | .entered => True
  -- A credit can only stem from a packet received since the re-initialisation.
  | .ready | .waiting => .reinit call ∈ trace ∧
      (Passable s → FreshlyReceived call s.driver.configPacket trace)
  | .woken => FreshlyReceived call s.driver.configPacket trace
  -- What has been read so far is of the packet that is still stored.
  | .readErrorReg errorReg => FreshlyReceived call s.driver.configPacket trace ∧
      errorReg = s.driver.configPacket.errorReg
  | .readSyncCount errorReg syncCount => FreshlyReceived call s.driver.configPacket trace ∧
      errorReg = s.driver.configPacket.errorReg ∧ syncCount = s.driver.configPacket.syncCount
  | .holding data => ReadFresh call command data trace
  | .returned => True

/-- Without a new packet a call keeps what it relies on, as long as no credit appears. -/
theorem PlaceFresh.grow (place : PlaceFresh trace s call command pc)
    (packet : next.driver.configPacket = s.driver.configPacket)
    (credit : Passable next → Passable s)
    (silent : written.flatMap IoctlAction.packets = []) :
    PlaceFresh (trace ++ written) next call command pc := by
  -- Each place relies on the packet, on a credit that stands for it, or on what was read.
  cases pc with
  | entered => trivial
  | ready | waiting =>
    obtain ⟨reset, fresh⟩ := place
    refine ⟨List.mem_append_left _ reset, fun more => ?_⟩
    rw [packet]
    exact (fresh (credit more)).grow silent
  | woken =>
    unfold PlaceFresh
    rw [packet]
    exact FreshlyReceived.grow place silent
  | readErrorReg errorReg | readSyncCount errorReg syncCount =>
    obtain ⟨fresh, same⟩ := place
    unfold PlaceFresh
    rw [packet]
    exact ⟨fresh.grow silent, same⟩
  | holding data => exact ReadFresh.grow place written
  | returned => trivial

/-- A new packet is fresh for every call behind its re-initialisation that has read nothing. -/
theorem PlaceFresh.store (place : PlaceFresh trace s call command pc)
    (whole : pc.reading = false) (stored : next.driver.configPacket = packet) :
    PlaceFresh (trace ++ [.received packet]) next call command pc := by
  -- The new packet takes the place of the one that was fresh before.
  cases pc with
  | entered => trivial
  | ready | waiting =>
    obtain ⟨reset, -⟩ := place
    refine ⟨List.mem_append_left _ reset, fun _ => ?_⟩
    rw [stored]
    exact freshlyReceived_now reset
  | woken =>
    unfold PlaceFresh
    rw [stored]
    exact freshlyReceived_now (FreshlyReceived.reset place)
  | readErrorReg errorReg | readSyncCount errorReg syncCount => cases whole
  | holding data => exact ReadFresh.grow place _
  | returned => trivial

/-- Every call that re-initialises the completion relies on fresh packets, and so did its result. -/
structure AllFresh (trace : List IoctlAction) (s : IoctlState layout) : Prop where
  calls : ∀ number known place, s.calls[number]? = some ⟨known, place⟩ →
    known.reinits = true → PlaceFresh trace s number known place
  results : ∀ number known data, .returned number known (.ok data) ∈ trace →
    known.reinits = true → ReadFresh number known data trace

/-- Results of before are still fresh when a step gives none. -/
theorem AllFresh.results_grow (fresh : AllFresh trace s)
    (quiet : ∀ number known data, .returned number known (.ok data) ∉ written) :
    ∀ number known data, .returned number known (.ok data) ∈ trace ++ written →
      known.reinits = true → ReadFresh number known data (trace ++ written) := by
  -- A result is in the old part of the trace, since the new part has none.
  intro number known data member reinits
  rcases List.mem_append.mp member with old | new
  · exact (fresh.results number known data old reinits).grow written
  · exact absurd new (quiet number known data)

/-- When a call moves and no packet is stored, it is enough to see where it arrives. -/
theorem AllFresh.moved (fresh : AllFresh trace s) {place : CallPc}
    (calls : next.calls = (s.move call command place).calls)
    (packet : next.driver.configPacket = s.driver.configPacket)
    (credit : Passable next → Passable s)
    (silent : written.flatMap IoctlAction.packets = [])
    (quiet : ∀ number known data, .returned number known (.ok data) ∉ written)
    (arrives : command.reinits = true →
      PlaceFresh (trace ++ written) next call command place) :
    AllFresh (trace ++ written) next := by
  -- The others keep what they rely on.
  refine ⟨?_, fresh.results_grow quiet⟩
  rw [calls]
  exact forall_move (fun number known place' _ found reinits =>
    (fresh.calls number known place' found reinits).grow packet credit silent) arrives

/-- When a packet is stored, every call that relies on one relies on this one from now on. -/
theorem AllFresh.stored (fresh : AllFresh trace s) (apart : NoneReading s)
    (calls : next.calls = s.calls) (arrived : next.driver.configPacket = packet) :
    AllFresh (trace ++ [.received packet]) next := by
  refine ⟨?_, fresh.results_grow (by simp)⟩
  rw [calls]
  intro number known place found reinits
  -- The packet that was read in part would not be the one that is stored now.
  have whole : place.reading = false := apart ⟨known, place⟩ (List.mem_of_getElem? found)
  exact (fresh.calls number known place found reinits).store whole arrived

/-- When neither a call moves nor a packet is stored, every call keeps what it relies on. -/
theorem AllFresh.stayed (fresh : AllFresh trace s) (calls : next.calls = s.calls)
    (packet : next.driver.configPacket = s.driver.configPacket)
    (credit : Passable next → Passable s)
    (silent : written.flatMap IoctlAction.packets = [])
    (quiet : ∀ number known data, .returned number known (.ok data) ∉ written) :
    AllFresh (trace ++ written) next := by
  refine ⟨?_, fresh.results_grow quiet⟩
  rw [calls]
  exact fun number known place found reinits =>
    (fresh.calls number known place found reinits).grow packet credit silent

/-- Every step keeps all calls and results fresh, when packets arrive apart from the calls. -/
theorem allFresh_step {event : IoctlEvent} (fresh : AllFresh trace s)
    (apart : ArrivesApart s event) (moves : IoctlMoves s event next written) :
    AllFresh (trace ++ written) next := by
  -- Behind the re-initialisation of a call there is no credit, and nothing that will be one, until
  -- the next packet is stored; and what is stored then is fresh for the call.
  cases moves with
  | enter command =>
    refine ⟨forall_enter (fun number known place found reinits => ?_) fun _ => trivial,
      fresh.results_grow (by simp)⟩
    exact (fresh.calls number known place found reinits).grow rfl id rfl
  | reinit call command known reinits =>
    have idle : s.completing = false := apart
    -- The counter is 0 now, and the callback has nothing that it still has to complete.
    have none : ¬Passable { s.move call command .ready with driver := reinitCompletion s.driver } :=
      not_or_intro (Nat.lt_irrefl 0) (by simp [IoctlState.move, idle])
    refine fresh.moved rfl rfl (fun more => absurd more none) rfl (by simp) fun _ => ?_
    exact ⟨by simp, fun more => absurd more none⟩
  | send call command known =>
    refine fresh.moved rfl rfl id rfl (by simp) fun reinits => ?_
    have place := fresh.calls call command _ known reinits
    unfold Command.sendsFrom at place
    rw [if_pos reinits] at place
    rw [List.append_nil]
    exact place
  | fail call command pc step errno known going other =>
    exact fresh.moved rfl rfl id rfl (by simp) fun _ => trivial
  | pass call command known more =>
    refine fresh.moved rfl rfl (fun _ => .inl more) rfl (by simp) fun reinits => ?_
    -- The credit that the call takes stands for a packet received since its own start.
    obtain ⟨-, credit⟩ := fresh.calls call command _ known reinits
    exact (credit (.inl more)).grow rfl
  | read call command known other =>
    refine fresh.moved rfl rfl id rfl (by simp) fun reinits => ?_
    -- The packet is fresh at the read, so the trace is cut right here.
    exact ⟨trace, [], _, rfl, fresh.calls call command _ known reinits, rfl⟩
  | readErrorReg call known =>
    refine fresh.moved rfl rfl id rfl (by simp) fun reinits => ?_
    have woken : FreshlyReceived call s.driver.configPacket trace := fresh.calls _ _ _ known reinits
    exact ⟨woken.grow rfl, rfl⟩
  | readSyncCount call errorReg known =>
    refine fresh.moved rfl rfl id rfl (by simp) fun reinits => ?_
    obtain ⟨woken, error⟩ := fresh.calls _ _ _ known reinits
    exact ⟨woken.grow rfl, error, rfl⟩
  | readSerialNumber call errorReg syncCount known =>
    refine fresh.moved rfl rfl id rfl (by simp) fun reinits => ?_
    -- All three fields are of the packet that is stored at the last of the reads.
    obtain ⟨woken, rfl, rfl⟩ := fresh.calls _ _ _ known reinits
    exact ⟨trace, [], _, rfl, woken, rfl⟩
  | finish call command data known =>
    refine ⟨forall_move (fun number known place _ found reinits => ?_) fun _ => trivial, ?_⟩
    · exact (fresh.calls number known place found reinits).grow rfl id rfl
    -- The result is what the call was holding.
    intro number known' data' member reinits
    rcases List.mem_append.mp member with old | new
    · exact (fresh.results number known' data' old reinits).grow _
    · cases List.mem_singleton.mp new
      exact ReadFresh.grow (fresh.calls call command _ known reinits) _
  | answer packet request rest first => exact fresh.stayed rfl rfl id rfl (by simp)
  | deliver reply rest idle first => exact fresh.stored apart rfl rfl
  | store data packet idle config => exact fresh.stored (apart config) rfl rfl
  | complete stored => exact fresh.stayed rfl rfl (fun _ => .inr stored) rfl (by simp)
  | spare data driver idle config spares =>
    refine fresh.stayed rfl spares.packet (fun more => ?_) rfl (by simp)
    exact more.imp_left fun counted => spares.counter ▸ counted

/--
Whatever a successful call of the two commands that re-initialise the completion copied to the
user, it read from the packet most recently received, which it received since, in every run in
which no completion is re-initialised and no status read in the middle of an arrival.
-/
theorem results_fresh (driver : DriverState layout) (events : List IoctlEvent)
    (apart : (ioctls layout).Along ArrivesApart (.probed driver) events) {call : Nat}
    {command : Command} {data : UserData} (reinits : command.reinits = true)
    (result : .returned call command (.ok data) ∈
      (ioctls layout).output (.probed driver) events) :
    ReadFresh call command data ((ioctls layout).output (.probed driver) events) := by
  -- Behind probe there is no call yet, and nothing has been written.
  have start : AllFresh [] (IoctlState.probed driver) := ⟨by simp [IoctlState.probed], by simp⟩
  have fresh : AllFresh ([] ++ (ioctls layout).output (.probed driver) events)
      ((ioctls layout).final (.probed driver) events) :=
    guarded_along (fun held allowed possible =>
      allFresh_step held allowed (ioctlStep_moves possible)) start apart
  rw [List.nil_append] at fresh
  exact fresh.results call command data result reinits

/-- Two replies of the MCU that have no field of the status in common. -/
def firstReply : ConfigPacket :=
  { ConfigPacket.zero with errorReg := 7, syncCount := 515, serialNumber := 9 }

/-- The second of them. -/
def secondReply : ConfigPacket :=
  { ConfigPacket.zero with errorReg := 8, syncCount := 516, serialNumber := 10 }

/--
Two calls that overlap: the second clears the credit that the first had from the reply to the
request of probe, and takes the reply to the request of the first.
-/
def overlappingGets : List IoctlEvent :=
  [.enter .getStatus, .step 0 .reinit, .answer .zero, .deliver, .enter .getConfig, .complete,
    .step 0 .send, .step 1 .reinit, .step 1 .send, .enter (.setConfig ConfigPacket.zero.config),
    .step 2 .send, .step 2 .interrupt, .answer firstReply, .answer secondReply, .deliver,
    .complete, .step 1 .pass, .step 1 .read, .message [], .deliver, .complete, .step 0 .pass,
    .step 0 .read, .step 0 .read, .step 0 .read, .step 1 .finish, .step 0 .finish]

/-- The first of the two calls gives the user the status of the second reply. -/
theorem results_fresh_overlap :
    ReadFresh 0 .getStatus (.status ⟨8, 516, 10⟩)
      ((ioctls lepton).output (.probed (DriverState.initial lepton)) overlappingGets) :=
  results_fresh (DriverState.initial lepton) overlappingGets (by decide +kernel) rfl
    (by decide +kernel)

/--
A call that re-initialises the completion between the store of a packet and its `complete` returns
that packet, and a status that is read while a packet is stored is of two packets.
-/
theorem results_not_fresh :
    let early := (ioctls lepton).output (.probed (DriverState.initial lepton))
      [.enter .getConfig, .answer firstReply, .deliver, .step 0 .reinit, .complete, .step 0 .send,
        .step 0 .pass, .step 0 .read, .step 0 .finish]
    let torn := (ioctls lepton).output (.probed (DriverState.initial lepton))
      [.enter .getStatus, .step 0 .reinit, .step 0 .send, .answer firstReply, .answer secondReply,
        .deliver, .complete, .step 0 .pass, .step 0 .read, .deliver, .step 0 .read, .step 0 .read,
        .step 0 .finish]
    (.returned 0 .getConfig (.ok (.config firstReply.config)) ∈ early ∧
        ¬ReadFresh 0 .getConfig (.config firstReply.config) early) ∧
      (.returned 0 .getStatus (.ok (.status ⟨7, 516, 10⟩)) ∈ torn ∧
        ¬ReadFresh 0 .getStatus (.status ⟨7, 516, 10⟩) torn) := by
  -- What is read fresh is of a packet of the trace, and there are only these two.
  refine ⟨⟨by decide +kernel, fun fresh => ?_⟩, ⟨by decide +kernel, fun fresh => ?_⟩⟩
  · exact absurd fresh.received (by decide +kernel)
  · exact absurd fresh.received (by decide +kernel)

end Esme
