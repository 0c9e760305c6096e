import Esme.Driver.Assembly
import Mathlib.Data.List.DropRight

/-! Which packets a published frame is made of, over every history of received messages. -/

namespace Esme

open Reassembly

variable {layout : Layout}

/-- The driver after a history of messages, from its initial state. -/
def afterMessages (layout : Layout) (history : List Message) : DriverState layout :=
  (rpmsgEsmeCb layout).final (DriverState.initial layout) history

/-- The frames published while one message is handled. -/
def publishedBy (s : DriverState layout) (message : Message) :
    List (Buffer UInt8 layout.frameSize) :=
  ((rpmsgEsmeCb layout).step s message).2.flatMap publishedFrame

/-- The frames published while some messages are handled one after another. -/
def publishedDuring (s : DriverState layout) (messages : List Message) :
    List (Buffer UInt8 layout.frameSize) :=
  ((rpmsgEsmeCb layout).output s messages).flatMap publishedFrame

/-- One more message publishes behind the others what it publishes from where they lead. -/
theorem publishedDuring_concat (driver : DriverState layout) (history : List Message)
    (data : Message) :
    publishedDuring driver (history ++ [data]) = publishedDuring driver history ++
      publishedBy ((rpmsgEsmeCb layout).final driver history) data := by
  -- The actions behind the others are those of the state the others leave.
  unfold publishedDuring publishedBy
  rw [Transducer.output_append, Transducer.output_cons, Transducer.output_nil, List.append_nil,
    List.flatMap_append]

/-- Every history leaves the driver in agreement with the reassembly of its frame packets. -/
theorem afterMessages_assembles (layout : Layout) (history : List Message) :
    Assembles (afterMessages layout history)
      ((frameAssembler layout).final none (framePackets layout history)) :=
  -- The callback and the reassembly start related and stay so over the whole history.
  (rpmsgEsmeCb_simulates layout).final (initial_assembles layout) history

/-- Packets of a longer history: those of the message come after those of the history. -/
theorem framePackets_concat (layout : Layout) (history : List Message) (message : Message) :
    framePackets layout (history ++ [message]) =
      framePackets layout history ++ framePacketOf layout message := by
  -- Frame packets are found message by message.
  simp [framePackets]

/-- A message publishes the frames of the windows the reassembly completes with its packet. -/
theorem publishedBy_map {s : DriverState layout} {state : Option (List (FramePacket layout))}
    (related : Assembles s state) (message : Message) :
    (publishedBy s message).map Buffer.toList =
      ((frameAssembler layout).output state (framePacketOf layout message)).map
        (frameBytes layout) := by
  -- One step of the callback shows what the reassembly shows on the packet of the message.
  have shows := (rpmsgEsmeCb_simulates layout).writes related message
  rw [publishedBy, List.map_flatMap, shows]
  exact List.map_eq_flatMap.symm

/-- Messages in a row publish the frames of the windows the reassembly completes with them. -/
theorem publishedDuring_map {s : DriverState layout} {state : Option (List (FramePacket layout))}
    (related : Assembles s state) (messages : List Message) :
    (publishedDuring s messages).map Buffer.toList =
      ((frameAssembler layout).output state (framePackets layout messages)).map
        (frameBytes layout) := by
  -- The same over a run, where the packets are those of all the messages.
  have shows := (rpmsgEsmeCb_simulates layout).output related messages
  rw [publishedDuring, List.map_flatMap, shows]
  exact List.map_eq_flatMap.symm

/-- A published frame comes from a window that the message's own packet completes. -/
theorem published_window {s : DriverState layout} {state : Option (List (FramePacket layout))}
    (related : Assembles s state) {message : Message}
    {frame : Buffer UInt8 layout.frameSize} (published : frame ∈ publishedBy s message) :
    ∃ packet window, framePacketOf layout message = [packet] ∧
      window ∈ ((frameAssembler layout).step state packet).2 ∧
      frame.toList = frameBytes layout window := by
  -- A message without a frame packet moves the reassembly by nothing, so it completes no window.
  have member : frame.toList ∈ (publishedBy s message).map Buffer.toList :=
    List.mem_map_of_mem published
  rw [publishedBy_map related] at member
  obtain ⟨window, completed, same⟩ := List.mem_map.mp member
  rcases rpmsgEsmeCb_cases s message with ⟨none, -⟩ | ⟨packet, one, -⟩ | ⟨none, -⟩
  · rw [none] at completed; simp at completed
  · rw [one] at completed
    simp only [Transducer.output_cons, Transducer.output_nil, List.append_nil] at completed
    exact ⟨packet, window, one, completed, same.symm⟩
  · rw [none] at completed; simp at completed

/-- The read-out buffer is written exactly when a frame is published, and holds that frame. -/
theorem step_readout (s : DriverState layout) (message : Message) :
    (publishedBy s message = [] ∧
        ((rpmsgEsmeCb layout).step s message).1.frameDataReadout = s.frameDataReadout) ∨
      publishedBy s message = [((rpmsgEsmeCb layout).step s message).1.frameDataReadout] := by
  -- Only the branch of `storePacket` that completes a frame writes the buffer, and it publishes.
  have stored : ∀ t : DriverState layout,
      ((storePacket t).2.flatMap publishedFrame = [] ∧
          (storePacket t).1.frameDataReadout = t.frameDataReadout) ∨
        (storePacket t).2.flatMap publishedFrame = [(storePacket t).1.frameDataReadout] := by
    intro t
    unfold storePacket
    dsimp only
    split
    · exact .inl ⟨rfl, rfl⟩
    split
    · exact .inl ⟨rfl, rfl⟩
    split
    · exact .inr rfl
    · exact .inl ⟨rfl, rfl⟩
  unfold publishedBy
  rcases rpmsgEsmeCb_cases s message with ⟨-, step⟩ | ⟨packet, -, step⟩ | ⟨-, step⟩
  · rw [step]; exact .inl ⟨rfl, rfl⟩
  · -- A stored packet writes the buffer only when it publishes, and a refused one does neither.
    rw [step]
    rcases receiveFramePacket_cases s packet with refused | ⟨t, kept, same⟩
    · rw [refused]
      exact .inl ⟨rfl, rfl⟩
    · obtain ⟨_, _, _, rfl⟩ := storedIn_eq kept
      rw [same]
      exact stored _
  · rw [step]; exact .inl ⟨rfl, rfl⟩

/-- A list's end of a given length is what `rtake` takes. -/
theorem suffix_eq_rtake {α : Type*} {back whole : List α} {count : Nat} (suffix : back <:+ whole)
    (sized : back.length = count) : back = whole.rtake count := by
  -- A suffix is determined by its length.
  rw [List.rtake, ← sized]
  exact List.suffix_iff_eq_drop.mp suffix

/-- A frame made of the last packets received, in order and in full. -/
structure FaithfulTo (received : List (FramePacket lepton)) (frame : List UInt8) : Prop where
  enough : 79 ≤ received.length
  /-- The packets carry the counters 0 to 78 in that order. -/
  counters : (received.rtake 79).map FramePacket.packetCounter = (List.range 79).map UInt8.ofNat
  /-- Full data of the first 78 packets, and the first 35 bytes of the last one. -/
  content : frame =
    ((received.rtake 79).take 78).flatMap (fun packet => packet.data.toList) ++
      ((received.rtake 79).drop 78).flatMap (fun packet => packet.data.toList.take 35)

/-- Packets numbered from zero carry their positions as counters. -/
theorem numbered_counters {window : List (FramePacket layout)}
    (numbered : Numbered FramePacket.number window) :
    window.map FramePacket.packetCounter = (List.range window.length).map UInt8.ofNat := by
  -- A counter is recovered from its value as a number.
  rw [← numbered, List.map_map]
  apply List.map_congr_left
  intro packet _
  simp [FramePacket.number]

/-- Counters that are the positions number the packets, as long as a byte can hold them. -/
theorem counters_numbered {window : List (FramePacket layout)} (small : window.length ≤ 256)
    (counters : window.map FramePacket.packetCounter =
      (List.range window.length).map UInt8.ofNat) : Numbered FramePacket.number window := by
  -- A position below 256 is not changed by being put into a byte.
  have values := congrArg (List.map UInt8.toNat) counters
  simp only [List.map_map] at values
  refine (show window.map FramePacket.number = _ from values).trans ?_
  refine (List.map_congr_left fun position inside => ?_).trans (List.map_id _)
  have bound := List.mem_range.mp inside
  simp only [Function.comp_apply, UInt8.toNat_ofNat', id]
  omega

/--
Every message either leaves the read-out buffer alone or overwrites it with the frame made of
the last 79 frame packets, none of which an earlier published frame was made of.
-/
theorem readout_faithful (history : List Message) (message : Message) :
    let s := afterMessages lepton history
    let next := ((rpmsgEsmeCb lepton).step s message).1
    (publishedBy s message = [] ∧ next.frameDataReadout = s.frameDataReadout) ∨
      (publishedBy s message = [next.frameDataReadout] ∧
        FaithfulTo (framePackets lepton (history ++ [message])) next.frameDataReadout.toList ∧
        ∀ earlier first between, history = earlier ++ first :: between →
          publishedBy (afterMessages lepton earlier) first ≠ [] →
          79 ≤ (framePackets lepton (between ++ [message])).length) := by
  -- What is published is a window of the reassembly, and windows do not share a packet.
  intro s next
  rcases step_readout s message with silent | published
  · exact .inl silent
  have member : next.frameDataReadout ∈ publishedBy s message := by
    rw [published]; exact List.mem_singleton_self _
  refine .inr ⟨published, ?_, ?_⟩
  -- The window behind the frame is the end of everything received.
  · obtain ⟨packet, window, one, completed, same⟩ :=
      published_window (afterMessages_assembles lepton history) member
    obtain ⟨full, numbered, suffix, -⟩ := run_window (.inl rfl) completed
    rw [← one, ← framePackets_concat] at suffix
    have sized : window.length = 79 := full
    have isEnd := suffix_eq_rtake suffix sized
    refine ⟨?_, ?_, ?_⟩
    · rw [← sized]; exact suffix.length_le
    · rw [← isEnd, numbered_counters numbered, sized]
    · rw [← isEnd]; exact same
  · -- After an earlier frame the reassembly starts over, so this window lies behind it.
    intro earlier first between split publishedEarly
    obtain ⟨early, earlyMember⟩ := List.exists_mem_of_ne_nil _ publishedEarly
    obtain ⟨firstPacket, earlyWindow, firstOne, earlyCompleted, -⟩ :=
      published_window (afterMessages_assembles lepton earlier) earlyMember
    obtain ⟨packet, window, one, completed, -⟩ :=
      published_window (afterMessages_assembles lepton history) member
    have packets : framePackets lepton history =
        framePackets lepton earlier ++ firstPacket :: framePackets lepton between := by
      rw [split, framePackets, List.flatMap_append, List.flatMap_cons, firstOne]
      rfl
    rw [packets] at completed
    have behind := run_windows_disjoint earlyCompleted completed
    have sized : window.length = 79 := (run_window (.inl rfl) completed).1
    rw [framePackets_concat, one, ← sized]
    exact behind.length_le

/-- A driver waiting for a frame, or at the start of one, publishes a frame received in order. -/
theorem consecutive_published {s : DriverState layout}
    (ready : s.packetResyncNeeded = true ∨ s.packetCounter = 0)
    {state : Option (List (FramePacket layout))} (related : Assembles s state)
    {front : List Message} {message : Message} {packet : FramePacket layout}
    (one : framePacketOf layout message = [packet])
    (numbered : Numbered FramePacket.number (framePackets layout front ++ [packet]))
    (full : (framePackets layout front).length = layout.totalFrameFullPackets) :
    publishedDuring s front = [] ∧
      (publishedBy ((rpmsgEsmeCb layout).final s front) message).map Buffer.toList =
        [frameBytes layout (framePackets layout front ++ [packet])] := by
  -- Being ready means for the reassembly that it waits or has collected nothing.
  have waiting : state = none ∨ state = some [] := by
    cases state with
    | none => exact .inl rfl
    | some collected =>
      have collecting : Collecting s collected := related
      rcases ready with flagged | start
      · rw [collecting.synced] at flagged; cases flagged
      · have empty : collected.length = 0 := by rw [← collecting.counter, start]; rfl
        exact .inr (by rw [List.length_eq_zero_iff.mp empty])
  obtain ⟨silent, handed⟩ := intact_handed waiting numbered full
  have moved := (rpmsgEsmeCb_simulates layout).final related front
  constructor
  · have none : (publishedDuring s front).map Buffer.toList = [] := by
      rw [publishedDuring_map related, frameAssembler, silent]
      rfl
    exact List.map_eq_nil_iff.mp none
  · rw [publishedBy_map moved, one, Transducer.output_cons, Transducer.output_nil,
      List.append_nil, frameAssembler]
    exact congrArg (List.map (frameBytes layout)) handed

/-- A driver in the middle of a frame publishes nothing while the next one is received in order. -/
theorem consecutive_refused {s : DriverState layout}
    (busy : s.packetResyncNeeded = false ∧ s.packetCounter ≠ 0)
    {state : Option (List (FramePacket layout))} (related : Assembles s state)
    {front : List Message} {message : Message} {packet : FramePacket layout}
    (one : framePacketOf layout message = [packet])
    (numbered : Numbered FramePacket.number (framePackets layout front ++ [packet])) :
    publishedBy ((rpmsgEsmeCb layout).final s front) message = [] := by
  -- Being busy means for the reassembly that it has collected something.
  cases state with
  | none =>
    have flagged : s.packetResyncNeeded = true := related
    rw [busy.1] at flagged
    cases flagged
  | some collected =>
    have collecting : Collecting s collected := related
    have occupied : collected ≠ [] := by
      rintro rfl
      exact busy.2 (collecting_nil.mp collecting).2
    obtain ⟨-, refused⟩ := intact_refused layout.totalFrameFullPackets occupied numbered
    have moved := (rpmsgEsmeCb_simulates layout).final related front
    have none : (publishedBy ((rpmsgEsmeCb layout).final s front) message).map Buffer.toList =
        [] := by
      rw [publishedBy_map moved, one, Transducer.output_cons, Transducer.output_nil,
        List.append_nil, frameAssembler]
      exact congrArg (List.map (frameBytes layout)) refused
    exact List.map_eq_nil_iff.mp none

/--
A packet taken into a frame already begun carries the frame counter of the packet before it.

The driver keeps the last packet it received in `framePacket`.
-/
def KeepsFrame (s : DriverState layout) (data : Message) : Prop :=
  ∀ packet ∈ framePacketOf layout data, s.packetResyncNeeded = false → s.packetCounter ≠ 0 →
    packet.packetCounter = s.packetCounter → packet.frameCounter = s.framePacket.frameCounter

/-- The driver's condition on a message is the reassembly's condition on its packet. -/
theorem keepsFrame_continues {s : DriverState layout}
    {state : Option (List (FramePacket layout))} (related : Assembles s state) {data : Message}
    {packet : FramePacket layout} (one : framePacketOf layout data = [packet])
    (kept : KeepsFrame s data) :
    Continues FramePacket.number FramePacket.frameCounter state packet := by
  -- Only a window in the making asks anything of the packet.
  cases state with
  | none => trivial
  | some collected =>
    have collecting : Collecting s collected := related
    intro next previous last
    -- A last packet exists only after the counter has left zero.
    have begun : s.packetCounter ≠ 0 := by
      intro zero
      have empty : collected.length = 0 := by rw [← collecting.counter, zero]; rfl
      rw [List.length_eq_zero_iff.mp empty] at last
      simp at last
    have matching : packet.packetCounter = s.packetCounter := by
      rw [← UInt8.toNat_inj, collecting.counter]; exact next
    rw [← collecting.latest previous last]
    exact kept packet (by rw [one]; simp) collecting.synced begun matching

/-- While every message keeps its frame, the collected packets carry one frame counter. -/
theorem keepsFrame_tagged {s : DriverState layout} {state : Option (List (FramePacket layout))}
    (related : Assembles s state) (tagged : Tagged FramePacket.frameCounter state)
    {messages : List Message} (kept : (rpmsgEsmeCb layout).Along KeepsFrame s messages) :
    Tagged FramePacket.frameCounter
      ((frameAssembler layout).final state (framePackets layout messages)) := by
  -- The driver's state moves along the messages, and the reassembly's state with it.
  induction messages generalizing s state with
  | nil => exact tagged
  | cons data rest ih =>
    obtain ⟨first, others⟩ := Transducer.along_cons.mp kept
    have moved := (rpmsgEsmeCb_simulates layout).moves related data
    rw [framePackets, List.flatMap_cons, Transducer.final_append]
    refine ih moved ?_ others
    rcases rpmsgEsmeCb_cases s data with ⟨none, -⟩ | ⟨packet, one, -⟩ | ⟨none, -⟩
    · rw [none]; exact tagged
    · rw [one]
      exact (step_tagged tagged (keepsFrame_continues related one first)).1
    · rw [none]; exact tagged

/-- A zeroed frame packet with the given counters. -/
def blankPacket (packetCounter frameCounter : UInt8) : FramePacket lepton where
  packetType := packetFrame
  packetCounter := packetCounter
  frameCounter := frameCounter
  data := Buffer.replicate _ 0

/-- The messages of the packets up to a number, with a frame counter chosen for each of them. -/
def blankMessages (frameCounterOf : Nat → UInt8) (count : Nat) : List Message :=
  (List.range count).map fun position =>
    (blankPacket (UInt8.ofNat position) (frameCounterOf position)).toBytes

/-- One more packet goes to the end. -/
theorem blankMessages_succ (frameCounterOf : Nat → UInt8) (count : Nat) :
    blankMessages frameCounterOf (count + 1) = blankMessages frameCounterOf count ++
      [(blankPacket (UInt8.ofNat count) (frameCounterOf count)).toBytes] := by
  -- The range of positions grows at its end.
  rw [blankMessages, List.range_succ, List.map_append]
  rfl

/-- A packet's own bytes are a well-formed frame packet. -/
theorem framePacketOf_toBytes {packet : FramePacket layout}
    (typed : packet.packetType = packetFrame) : framePacketOf layout packet.toBytes = [packet] := by
  have frame : packet.toBytes.length = FramePacket.size layout ∧
      packet.toBytes.getD 0 0 = packetFrame := ⟨packet.toBytes_length, typed⟩
  simp only [framePacketOf, dif_pos frame, FramePacket.ofBytes_toBytes]

/-- The packets of those messages. -/
theorem framePackets_blank (frameCounterOf : Nat → UInt8) (count : Nat) :
    framePackets lepton (blankMessages frameCounterOf count) =
      (List.range count).map fun position =>
        blankPacket (UInt8.ofNat position) (frameCounterOf position) := by
  -- Each message is the bytes of a packet, from which that packet is read back.
  rw [framePackets, blankMessages, List.flatMap_map]
  rw [List.map_eq_flatMap]
  exact List.flatMap_congr fun position _ => framePacketOf_toBytes rfl

/-- Those packets are numbered from zero, as long as a byte can count them. -/
theorem blank_numbered (frameCounterOf : Nat → UInt8) {count : Nat} (small : count ≤ 256) :
    Numbered FramePacket.number (framePackets lepton (blankMessages frameCounterOf count)) := by
  -- The counters are the positions by construction.
  apply counters_numbered
  · simp [framePackets_blank, small]
  · simp [framePackets_blank, List.map_map, Function.comp_def, blankPacket]

/-- A whole frame of those packets. -/
theorem blank_frame (frameCounterOf : Nat → UInt8) :
    framePackets lepton (blankMessages frameCounterOf 78 ++
        [(blankPacket 78 (frameCounterOf 78)).toBytes]) =
      (List.range 79).map fun position =>
        blankPacket (UInt8.ofNat position) (frameCounterOf position) := by
  -- The last of the 79 packets comes in a message of its own.
  have whole := blankMessages_succ frameCounterOf 78
  rw [← framePackets_blank, whole]
  rfl

/-- Its packets are numbered from zero to 78. -/
theorem blank_frame_numbered (frameCounterOf : Nat → UInt8) :
    Numbered FramePacket.number (framePackets lepton (blankMessages frameCounterOf 78) ++
      [blankPacket 78 (frameCounterOf 78)]) := by
  -- All 79 positions fit into a byte.
  have numbered := blank_numbered frameCounterOf (show 79 ≤ 256 by decide)
  rw [blankMessages_succ, framePackets_concat, framePacketOf_toBytes rfl] at numbered
  exact numbered

/-- The start of a frame leaves a fresh driver in the middle of it. -/
theorem blank_collecting (frameCounterOf : Nat → UInt8) {count : Nat} (short : count < 78) :
    Collecting (afterMessages lepton (blankMessages frameCounterOf (count + 1)))
      (framePackets lepton (blankMessages frameCounterOf (count + 1))) := by
  -- Fewer packets than a whole frame are all still in the making.
  have related := afterMessages_assembles lepton (blankMessages frameCounterOf (count + 1))
  have numbered := blank_numbered frameCounterOf (show count + 1 ≤ 256 by omega)
  have sized : (framePackets lepton (blankMessages frameCounterOf (count + 1))).length =
      count + 1 := by simp [framePackets_blank]
  cases packets : framePackets lepton (blankMessages frameCounterOf (count + 1)) with
  | nil => rw [packets] at sized; simp at sized
  | cons first rest =>
    rw [packets] at related numbered sized
    have bound : rest.length + 1 ≤ lepton.totalFrameFullPackets := by
      rw [List.length_cons] at sized
      rw [sized]
      exact short
    rw [frameAssembler, ready_collects (.inl rfl) numbered bound] at related
    exact related

/-- A frame published at this point is made of the last 79 packets, all of one frame counter. -/
def PublishesUnmixed (history : List Message) (message : Message) : Prop :=
  -- The window is found from the end of the history, where the frame was published.
  ∀ frame ∈ publishedBy (afterMessages lepton history) message,
    let window := (framePackets lepton (history ++ [message])).rtake 79
    frame.toList = frameBytes lepton window ∧ Uniform FramePacket.frameCounter window

/-- In every run whose messages keep their frames, no published frame is mixed. -/
theorem published_frame_unmixed {messages : List Message}
    (kept : (rpmsgEsmeCb lepton).Along KeepsFrame (DriverState.initial lepton) messages) :
    ∀ history message after, messages = history ++ message :: after →
      PublishesUnmixed history message := by
  intro history message after split frame published
  have related := afterMessages_assembles lepton history
  obtain ⟨packet, window, one, completed, same⟩ := published_window related published
  obtain ⟨full, -, suffix, -⟩ := run_window (.inl rfl) completed
  rw [← one, ← framePackets_concat] at suffix
  have isEnd := suffix_eq_rtake suffix full
  -- The condition holds up to this message, so what was collected so far is uniform.
  have before : (rpmsgEsmeCb lepton).Along KeepsFrame (DriverState.initial lepton) history :=
    Transducer.Along.front (split ▸ kept)
  have tagged := keepsFrame_tagged (initial_assembles lepton) trivial before
  have continues := keepsFrame_continues related one (kept history message after split)
  exact ⟨isEnd ▸ same, isEnd ▸ (step_tagged tagged continues).2 window completed⟩

/-- A frame packet becomes the last packet received, whatever else it does. -/
theorem receiveFramePacket_framePacket (s : DriverState layout) (packet : FramePacket layout) :
    (receiveFramePacket s packet).1.framePacket = packet := by
  -- No branch writes to the packet once it has been copied.
  have stored : ∀ t : DriverState layout, (storePacket t).1.framePacket = t.framePacket := by
    intro t
    unfold storePacket
    dsimp only
    split
    · rfl
    split
    · rfl
    split <;> rfl
  rcases receiveFramePacket_cases s packet with refused | ⟨t, kept, same⟩
  · rw [refused]
  · obtain ⟨_, _, _, rfl⟩ := storedIn_eq kept
    rw [same]
    exact stored _

/-- Messages whose packets all carry one frame counter keep their frame. -/
theorem uniform_keepsFrame {frameCounter : UInt8} {s : DriverState layout}
    (start : s.packetResyncNeeded = false → s.framePacket.frameCounter = frameCounter)
    {messages : List Message}
    (uniform : ∀ packet ∈ framePackets layout messages, packet.frameCounter = frameCounter) :
    (rpmsgEsmeCb layout).Along KeepsFrame s messages := by
  -- The packet before it carries the common frame counter, unless no frame is begun.
  induction messages generalizing s with
  | nil => intro before input after split; simp at split
  | cons data rest ih =>
    have uniformRest : ∀ packet ∈ framePackets layout rest,
        packet.frameCounter = frameCounter := fun packet member =>
      uniform packet (by rw [framePackets, List.flatMap_cons]; exact List.mem_append_right _ member)
    have uniformHere : ∀ packet ∈ framePacketOf layout data,
        packet.frameCounter = frameCounter := fun packet member =>
      uniform packet (by rw [framePackets, List.flatMap_cons]; exact List.mem_append_left _ member)
    refine Transducer.along_cons.mpr ⟨?_, ih ?_ uniformRest⟩
    · intro packet member synced _ _
      rw [uniformHere packet member, start synced]
    · rcases rpmsgEsmeCb_cases s data with ⟨-, step⟩ | ⟨packet, one, step⟩ | ⟨-, step⟩
      · rw [step]; exact start
      · rw [step, receiveFramePacket_framePacket]
        exact fun _ => uniformHere packet (by rw [one]; exact List.mem_singleton_self _)
      · rw [step]; exact start

/-- Blank packets of one frame counter keep their frame. -/
theorem blank_keepsFrame (frameCounter : UInt8) (count : Nat) :
    (rpmsgEsmeCb lepton).Along KeepsFrame (DriverState.initial lepton)
      (blankMessages (fun _ => frameCounter) count) := by
  -- All these packets carry the one frame counter.
  have start : (DriverState.initial lepton).packetResyncNeeded = false →
      (DriverState.initial lepton).framePacket.frameCounter = frameCounter :=
    fun synced => Bool.noConfusion synced
  exact uniform_keepsFrame start (by simp [framePackets_blank, blankPacket])

/-- A whole frame of one frame counter meets the condition, and its last packet publishes it. -/
theorem published_frame_unmixed_blank :
    PublishesUnmixed (blankMessages (fun _ => 5) 78) (blankPacket 78 5).toBytes :=
  published_frame_unmixed (blank_keepsFrame 5 79) (blankMessages (fun _ => 5) 78)
    (blankPacket 78 5).toBytes [] (blankMessages_succ (fun _ => 5) 78)

/-- Two frames with 79 packets lost across their border are published as one mixed frame. -/
theorem mixed_frame_published :
    ¬PublishesUnmixed (blankMessages (fun position => if position < 40 then 0 else 1) 78)
      (blankPacket 78 1).toBytes := by
  intro unmixed
  -- The counters are consecutive, so the driver publishes what it assembled.
  obtain ⟨-, published⟩ := consecutive_published (.inl rfl) (initial_assembles lepton)
    (framePacketOf_toBytes rfl)
    (blank_frame_numbered (fun position => if position < 40 then 0 else 1))
    (by rw [framePackets_blank, List.length_map, List.length_range]; rfl)
  obtain ⟨frame, member, -⟩ := List.exists_of_mem_map
    (show _ ∈ List.map Buffer.toList _ by rw [published]; exact List.mem_singleton_self _)
  -- The packets 0 and 78 of that frame carry different frame counters.
  obtain ⟨-, common, all⟩ := unmixed frame member
  have packets := blank_frame (fun position => if position < 40 then 0 else 1)
  rw [show (if (78 : Nat) < 40 then (0 : UInt8) else 1) = 1 from rfl] at packets
  rw [packets, List.rtake, List.length_map, List.length_range, Nat.sub_self, List.drop_zero] at all
  have first := all _ (List.mem_map_of_mem (List.mem_range.mpr (show 0 < 79 by decide)))
  have final := all _ (List.mem_map_of_mem (List.mem_range.mpr (show 78 < 79 by decide)))
  rw [← final] at first
  exact absurd first (by decide)

/-- The packets of one frame: counters 0 to 78 in order and one frame counter. -/
structure IntactFrame (packets : List (FramePacket lepton)) : Prop where
  counters : packets.map FramePacket.packetCounter = (List.range 79).map UInt8.ofNat
  oneFrame : Uniform FramePacket.frameCounter packets

/-- Handling some messages publishes exactly one frame, and with the last message. -/
def PublishesAtLast (s : DriverState lepton) (front : List Message) (message : Message)
    (frame : List UInt8) : Prop :=
  -- The messages before the last one may not publish, not even another frame.
  publishedDuring s front = [] ∧
    (publishedBy ((rpmsgEsmeCb lepton).final s front) message).map Buffer.toList = [frame]

/--
An intact frame is published, exactly and with its last packet, if and only if the messages
before it left the driver waiting for a frame or at the start of one.
-/
theorem intact_frame_published_iff (history front : List Message) (message : Message)
    (packet : FramePacket lepton) (lastPacket : framePacketOf lepton message = [packet])
    (intact : IntactFrame (framePackets lepton (front ++ [message]))) :
    PublishesAtLast (afterMessages lepton history) front message
        (frameBytes lepton (framePackets lepton (front ++ [message]))) ↔
      (afterMessages lepton history).packetResyncNeeded = true ∨
        (afterMessages lepton history).packetCounter = 0 := by
  -- The driver takes part in the frame exactly when the reassembly is at the start of a window.
  have related := afterMessages_assembles lepton history
  have sized : (framePackets lepton (front ++ [message])).length = 79 := by
    have lengths := congrArg List.length intact.counters
    simpa using lengths
  have numbered : Numbered FramePacket.number (framePackets lepton (front ++ [message])) :=
    counters_numbered (by omega) (by rw [sized]; exact intact.counters)
  rw [framePackets_concat, lastPacket] at sized numbered ⊢
  have full : (framePackets lepton front).length = 78 := by simpa using sized
  constructor
  · -- In the middle of another frame the last packet publishes nothing.
    intro published
    obtain ⟨-, published⟩ := published
    by_contra busy
    rw [not_or, Bool.not_eq_true] at busy
    rw [consecutive_refused busy related lastPacket numbered] at published
    cases published
  · intro ready
    exact consecutive_published ready related lastPacket numbered full

/-- Blank packets of one frame counter are an intact frame. -/
theorem blank_intact (frameCounter : UInt8) :
    IntactFrame (framePackets lepton
      (blankMessages (fun _ => frameCounter) 78 ++ [(blankPacket 78 frameCounter).toBytes])) := by
  -- The counters are the positions, and the frame counter is the same for all.
  rw [blank_frame (fun _ => frameCounter)]
  exact ⟨by simp [List.map_map, Function.comp_def, blankPacket],
    frameCounter, by simp [blankPacket]⟩

/-- An intact frame handed to a fresh driver. -/
theorem intact_frame_published_iff_blank :
    PublishesAtLast (afterMessages lepton []) (blankMessages (fun _ => 5) 78)
        (blankPacket 78 5).toBytes
        (frameBytes lepton (framePackets lepton
          (blankMessages (fun _ => 5) 78 ++ [(blankPacket 78 5).toBytes]))) ↔
      (afterMessages lepton []).packetResyncNeeded = true ∨
        (afterMessages lepton []).packetCounter = 0 :=
  intact_frame_published_iff [] (blankMessages (fun _ => 5) 78) (blankPacket 78 5).toBytes
    (blankPacket 78 5) (framePacketOf_toBytes rfl) (blank_intact 5)

/-- When a frame breaks off after its first 40 packets, the intact frame behind it is lost too. -/
theorem intact_frame_lost :
    ¬PublishesAtLast (afterMessages lepton (blankMessages (fun _ => 4) 40))
      (blankMessages (fun _ => 5) 78) (blankPacket 78 5).toBytes
      (frameBytes lepton (framePackets lepton
        (blankMessages (fun _ => 5) 78 ++ [(blankPacket 78 5).toBytes]))) := by
  -- The 40 packets leave the driver in the middle of a frame that never ends.
  intro published
  obtain ⟨-, published⟩ := published
  have collecting := blank_collecting (fun _ => 4) (show 39 < 78 by decide)
  have begun : (afterMessages lepton (blankMessages (fun _ => 4) 40)).packetCounter ≠ 0 := by
    intro zero
    have empty := collecting.counter
    rw [zero, framePackets_blank, List.length_map, List.length_range] at empty
    exact absurd empty (by decide)
  have refused := consecutive_refused ⟨collecting.synced, begun⟩
    (afterMessages_assembles lepton _) (framePacketOf_toBytes rfl)
    (blank_frame_numbered (fun _ => 5))
  rw [refused] at published
  cases published

end Esme
