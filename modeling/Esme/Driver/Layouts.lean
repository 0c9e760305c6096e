import Esme.Driver.Frames

/-! Frames cut into the number of packets the header defines, for every frame geometry. -/

namespace Esme

open Reassembly

variable {layout : Layout}

/-- What a packet of a frame carries: its share of the frame, and the rest left open. -/
structure FrameCut (frame : Buffer UInt8 layout.frameSize)
    (packets : List (FramePacket layout)) : Prop where
  count : packets.length = layout.totalFramePackets
  types : ∀ packet ∈ packets, packet.packetType = packetFrame
  counters : packets.map FramePacket.packetCounter = (List.range packets.length).map UInt8.ofNat
  /-- The last packet's data may be longer than what is left of the frame. -/
  content : ∀ position packet, packets[position]? = some packet →
    (frame.toList.drop (position * layout.framePacketDataSize)).take layout.framePacketDataSize <+:
      packet.data.toList

/-- A fresh driver publishes a frame with the last of some packets, and nothing before that. -/
def PublishedAtLast (frame : Buffer UInt8 layout.frameSize) (front : List (FramePacket layout))
    (packet : FramePacket layout) : Prop :=
  let messages := front.map FramePacket.toBytes
  publishedDuring (DriverState.initial layout) messages = [] ∧
    publishedBy (afterMessages layout messages) packet.toBytes = [frame]

/-- A list cut into slices of one size is put together again. -/
theorem take_slices {α : Type*} (whole : List α) (size count : Nat) :
    (List.range count).flatMap (fun position => (whole.drop (position * size)).take size) =
      whole.take (count * size) := by
  -- The induction adds the last slice, which goes on where the others end.
  induction count with
  | zero => simp
  | succ count ih =>
    rw [List.range_succ, List.flatMap_append, ih, Nat.succ_mul, List.take_add]
    simp

/-- Lists found at the positions of a list are put together in its order. -/
theorem flatMap_positions {α β : Type*} {items : List α} {part : α → List β}
    {slice : Nat → List β}
    (same : ∀ position item, items[position]? = some item → part item = slice position) :
    items.flatMap part = (List.range items.length).flatMap slice := by
  -- The last item has the last position, and the others keep theirs.
  induction items using List.reverseRecOn with
  | nil => rfl
  | append_singleton front last ih =>
    rw [List.length_append, List.length_singleton, List.range_succ, List.flatMap_append,
      List.flatMap_append, ih fun position item found => same position item ?_]
    · simp [same front.length last (by simp)]
    · obtain ⟨inside, -⟩ := List.getElem?_eq_some_iff.mp found
      rw [List.getElem?_append_left inside, found]

/-- The packets of a frame stand for it if there is one more than the full ones. -/
theorem FrameCut.frameBytes_eq {frame : Buffer UInt8 layout.frameSize}
    {front : List (FramePacket layout)} {packet : FramePacket layout}
    (cut : FrameCut frame (front ++ [packet]))
    (full : front.length = layout.totalFrameFullPackets) :
    frameBytes layout (front ++ [packet]) = frame.toList := by
  -- The data of the full packets are the slices of the frame, and the rest is in the last one.
  have size := layout.frameSize_eq
  have share := layout.lastFramePacketSize_lt
  have length := frame.length_eq
  -- Before the last packet, the data of each packet are a slice of the frame.
  have slices : front.flatMap (fun packet => packet.data.toList) =
      frame.toList.take (layout.totalFrameFullPackets * layout.framePacketDataSize) := by
    rw [← take_slices, ← full]
    apply flatMap_positions
    intro position item found
    obtain ⟨inside, -⟩ := List.getElem?_eq_some_iff.mp found
    have part := cut.content position item (by rw [List.getElem?_append_left inside, found])
    refine (part.eq_of_length ?_).symm
    have fits := fullPacket_fits (full ▸ inside)
    rw [List.length_take, List.length_drop, item.data.length_eq, length]
    omega
  -- The last one has what is left of it in front.
  have rest : packet.data.toList.take layout.lastFramePacketSize =
      frame.toList.drop (layout.totalFrameFullPackets * layout.framePacketDataSize) := by
    have part := cut.content front.length packet (by simp)
    rw [full, List.take_of_length_le (by rw [List.length_drop, length]; omega)] at part
    rw [List.prefix_iff_eq_take.mp part, List.length_drop, length]
    congr 1
    omega
  rw [frameBytes, List.take_left' full, List.drop_left' full, slices]
  simp [rest]

/-- The messages of some packets are read back as those packets. -/
theorem framePackets_toBytes {packets : List (FramePacket layout)}
    (types : ∀ packet ∈ packets, packet.packetType = packetFrame) :
    framePackets layout (packets.map FramePacket.toBytes) = packets := by
  rw [framePackets, List.flatMap_map]
  induction packets with
  | nil => rfl
  | cons packet rest ih =>
    obtain ⟨first, others⟩ := List.forall_mem_cons.mp types
    rw [List.flatMap_cons, framePacketOf_toBytes first, ih others]
    rfl

/--
The header's number of packets is the driver's if and only if the last packet is a partial one.

For a frame of full packets only, the driver goes on waiting for one more.
-/
theorem published_at_last_iff (frame : Buffer UInt8 layout.frameSize)
    (front : List (FramePacket layout)) (packet : FramePacket layout)
    (cut : FrameCut frame (front ++ [packet])) :
    PublishedAtLast frame front packet ↔ layout.lastFramePacketSize ≠ 0 := by
  -- The window of the driver has one packet behind the full ones, whatever is left for it.
  have fits : layout.totalFrameFullPackets ≤ 254 := layout.fits
  have count := cut.count
  rw [List.length_append, List.length_singleton, Layout.totalFramePackets] at count
  have numbered : Numbered FramePacket.number (front ++ [packet]) := by
    refine counters_numbered ?_ cut.counters
    rw [List.length_append, List.length_singleton, count]
    split <;> omega
  have types := List.forall_mem_append.mp cut.types
  have packets := framePackets_toBytes types.1
  have one := framePacketOf_toBytes (types.2 packet (List.mem_singleton_self _))
  have related := initial_assembles layout
  unfold PublishedAtLast
  by_cases whole : layout.lastFramePacketSize = 0
  · -- The window of the driver has room for one more packet.
    rw [if_pos whole] at count
    refine iff_of_false (fun published => ?_) (by simp [whole])
    have silent := publishedDuring_map related ((front ++ [packet]).map FramePacket.toBytes)
    rw [framePackets_toBytes cut.types, frameAssembler,
      ready_silent (.inl rfl) numbered (by simp [count])] at silent
    rw [List.map_nil, List.map_eq_nil_iff, List.map_append, List.map_singleton,
      publishedDuring_concat, List.append_eq_nil_iff] at silent
    obtain ⟨-, last⟩ := published
    cases silent.2.symm.trans last
  · rw [if_neg whole] at count
    refine iff_of_true ?_ whole
    have full : front.length = layout.totalFrameFullPackets := by omega
    obtain ⟨silent, published⟩ := consecutive_published (.inl rfl) related one
      (by rw [packets]; exact numbered) (by rw [packets, full])
    refine ⟨silent, ?_⟩
    rw [packets, cut.frameBytes_eq full] at published
    -- A buffer is known by its bytes.
    obtain ⟨other, only, same⟩ := List.map_eq_singleton_iff.mp published
    rw [afterMessages, only]
    cases other
    cases frame
    cases same
    rfl

/-- Three bytes in packets of two. -/
def threeInTwos : Layout where
  frameSize := 3
  framePacketDataSize := 2
  frameSize_pos := by decide
  framePacketDataSize_pos := by decide
  fits := by decide

/-- Two bytes in packets of one. -/
def twoInOnes : Layout where
  frameSize := 2
  framePacketDataSize := 1
  frameSize_pos := by decide
  framePacketDataSize_pos := by decide
  fits := by decide

/-- A frame with a partial last packet is published with it. -/
theorem published_at_last_iff_partial :
    @PublishedAtLast threeInTwos ⟨[1, 2, 3], rfl⟩ [⟨0, 0, 5, ⟨[1, 2], rfl⟩⟩]
        ⟨0, 1, 5, ⟨[3, 9], rfl⟩⟩ ↔
      threeInTwos.lastFramePacketSize ≠ 0 := by
  refine published_at_last_iff _ _ _ ⟨rfl, by decide, by decide, fun position packet found => ?_⟩
  match position with
  | 0 =>
    cases found
    decide
  | 1 =>
    cases found
    decide
  | _ + 2 => cases found

/-- A frame of two full packets is not published with the second one. -/
theorem full_packets_unpublished :
    let frame : Buffer UInt8 twoInOnes.frameSize := ⟨[1, 2], rfl⟩
    let front : List (FramePacket twoInOnes) := [⟨0, 0, 5, ⟨[1], rfl⟩⟩]
    let packet : FramePacket twoInOnes := ⟨0, 1, 5, ⟨[2], rfl⟩⟩
    FrameCut frame (front ++ [packet]) ∧ ¬PublishedAtLast frame front packet := by
  intro frame front packet
  refine ⟨⟨by decide, by decide, by decide, fun position packet found => ?_⟩, ?_⟩
  · match position with
    | 0 =>
      cases found
      decide
    | 1 =>
      cases found
      decide
    | _ + 2 => cases found
  · unfold PublishedAtLast
    decide

end Esme
