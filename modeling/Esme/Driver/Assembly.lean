import Esme.Driver.Callback
import Esme.Stream.Reassembly

/-! The callback assembles frames as an in-order reassembly of the packets it receives. -/

namespace Esme

open Reassembly

variable {layout : Layout}

/-- The number a frame packet carries within its frame. -/
def FramePacket.number (packet : FramePacket layout) : Nat := packet.packetCounter.toNat

/-- The frame a window of packets stands for: full packets, then the last one's share. -/
def frameBytes (layout : Layout) (window : List (FramePacket layout)) : List UInt8 :=
  -- The window has one packet more than there are full ones, and of that only a share is used.
  (window.take layout.totalFrameFullPackets).flatMap (fun packet => packet.data.toList) ++
    (window.drop layout.totalFrameFullPackets).flatMap
      (fun packet => packet.data.toList.take layout.lastFramePacketSize)

/-- The reassembly the driver performs: windows of the full packets and one more. -/
def frameAssembler (layout : Layout) :
    Transducer (Option (List (FramePacket layout))) (FramePacket layout)
      (List (FramePacket layout)) :=
  -- A window ends with the packet whose number is that of the full packets.
  assembler FramePacket.number layout.totalFrameFullPackets

/-- The driver's variables while some packets of a frame have been collected. -/
structure Collecting (s : DriverState layout) (collected : List (FramePacket layout)) : Prop where
  synced : s.packetResyncNeeded = false
  counter : s.packetCounter.toNat = collected.length
  bounded : collected.length ≤ layout.totalFrameFullPackets
  /-- The collected packets are the assembled prefix of the frame. -/
  assembled : s.frameData.toList.take (collected.length * layout.framePacketDataSize) =
    collected.flatMap (fun packet => packet.data.toList)
  /-- The last packet received is the last one collected. -/
  latest : ∀ previous ∈ collected.getLast?, s.framePacket = previous

/-- The driver's variables agree with a state of the reassembly. -/
def Assembles (s : DriverState layout) : Option (List (FramePacket layout)) → Prop
  | none => s.packetResyncNeeded = true
  | some collected => Collecting s collected

/-- A fresh driver waits for the start of a frame. -/
theorem initial_assembles (layout : Layout) : Assembles (DriverState.initial layout) none := rfl

/-- Nothing collected is the same as a synced driver at the start of a frame. -/
theorem collecting_nil {s : DriverState layout} :
    Collecting s [] ↔ s.packetResyncNeeded = false ∧ s.packetCounter = 0 := by
  -- The counter is a byte, so being zero is the same for it and for its value.
  constructor
  · intro collecting
    refine ⟨collecting.synced, UInt8.toNat_inj.mp ?_⟩
    simpa using collecting.counter
  · intro both
    obtain ⟨synced, start⟩ := both
    exact ⟨synced, by simp [start], Nat.zero_le _, by simp, by simp⟩

/-- The next full packet of a frame fits behind the packets before it. -/
theorem fullPacket_fits {count : Nat} (more : count < layout.totalFrameFullPackets) :
    count * layout.framePacketDataSize + layout.framePacketDataSize ≤ layout.frameSize := by
  -- One packet more than those before it is still at most the number of full packets.
  have whole := layout.frameSize_eq
  have scaled := Nat.mul_le_mul_right layout.framePacketDataSize more
  rw [Nat.succ_mul] at scaled
  omega

/-- What a packet adds to the frame being assembled: its data, and the frame after the last one. -/
theorem storePacket_extends {s : DriverState layout} {collected : List (FramePacket layout)}
    (synced : s.packetResyncNeeded = false) (counter : s.packetCounter.toNat = collected.length)
    (bounded : collected.length ≤ layout.totalFrameFullPackets)
    (assembled : s.frameData.toList.take (collected.length * layout.framePacketDataSize) =
      collected.flatMap (fun packet => packet.data.toList)) :
    Assembles (storePacket s).1
        (extend layout.totalFrameFullPackets collected s.framePacket).1 ∧
      (storePacket s).2.flatMap (fun action => (publishedFrame action).map Buffer.toList) =
        (extend layout.totalFrameFullPackets collected s.framePacket).2.map
          (frameBytes layout) := by
  -- The two branches of `storePacket` are the two of `extend`: the last packet, and the others.
  have unflagged : ¬(s.packetResyncNeeded = true) := by simp [synced]
  have dataSize := s.framePacket.data.length_eq
  simp only [storePacket, if_neg unflagged, counter, extend]
  by_cases full : collected.length = layout.totalFrameFullPackets
  · -- The last packet completes the frame up to its final byte.
    have share : (s.framePacket.data.toList.take layout.lastFramePacketSize).length =
        layout.lastFramePacketSize := by
      rw [List.length_take, dataSize, Nat.min_eq_left layout.lastFramePacketSize_lt.le]
    have ends : collected.length * layout.framePacketDataSize + layout.lastFramePacketSize =
        layout.frameSize := by rw [full]; exact layout.frameSize_eq
    have inside : collected.length * layout.framePacketDataSize +
        (s.framePacket.data.toList.take layout.lastFramePacketSize).length ≤ layout.frameSize := by
      rw [share, ends]
    have content := s.frameData.blit_toList inside
    rw [if_neg (by omega), if_pos full, if_pos full]
    refine ⟨collecting_nil.mpr ⟨synced, rfl⟩, ?_⟩
    -- Everything behind the last share lies past the end of the buffer.
    have past : s.frameData.toList.drop layout.frameSize = [] :=
      List.drop_of_length_le (by rw [s.frameData.length_eq])
    rw [share, ends, past, List.append_nil, assembled] at content
    simp only [publishedFrame, List.flatMap_cons, List.flatMap_nil, List.map_cons, List.map_nil,
      List.append_nil, List.nil_append, content, frameBytes]
    rw [List.take_left' full, List.drop_left' full]
    simp
  · -- A full packet lengthens the assembled prefix by its data.
    have more : collected.length < layout.totalFrameFullPackets := by omega
    have fits := layout.fits
    rw [if_pos more, if_neg full]
    refine ⟨⟨synced, ?_, ?_, ?_, ?_⟩, by simp [publishedFrame]⟩
    · have small : collected.length + 1 < 256 := by
        have bound : layout.totalFrameFullPackets ≤ 254 := fits
        omega
      simp only [UInt8.toNat_add, counter, List.length_append, List.length_singleton]
      exact Nat.mod_eq_of_lt small
    · simp only [List.length_append, List.length_singleton]
      omega
    · have inside : collected.length * layout.framePacketDataSize +
          s.framePacket.data.toList.length ≤ layout.frameSize := by
        rw [dataSize]; exact fullPacket_fits more
      have grown := s.frameData.take_blit inside
      rw [dataSize, assembled] at grown
      simp only [List.length_append, List.length_singleton, Nat.succ_mul,
        List.flatMap_append, List.flatMap_cons, List.flatMap_nil, List.append_nil]
      exact grown
    · simp

/-- One frame packet does to the driver what it does to the reassembly. -/
theorem receiveFramePacket_assembles {s : DriverState layout}
    {state : Option (List (FramePacket layout))} (related : Assembles s state)
    (packet : FramePacket layout) :
    Assembles (receiveFramePacket s packet).1 ((frameAssembler layout).step state packet).1 ∧
      (receiveFramePacket s packet).2.flatMap
          (fun action => (publishedFrame action).map Buffer.toList) =
        ((frameAssembler layout).step state packet).2.map (frameBytes layout) := by
  -- The case is split as the driver does: on the flag, and then on the counter of the packet.
  have isZero : packet.number = 0 ↔ packet.packetCounter = 0 := by
    rw [FramePacket.number, ← UInt8.toNat_inj]; rfl
  cases state with
  | none =>
    have flagged : s.packetResyncNeeded = true := related
    simp only [receiveFramePacket, flagged, and_true, frameAssembler, assembler, isZero]
    by_cases start : packet.packetCounter = 0
    · -- The start of a frame clears the flag and is stored at once.
      rw [if_pos start, if_pos start]
      exact storePacket_extends rfl (by simp [start]) (Nat.zero_le _) (by simp)
    · -- Any other packet leaves the flag set, whether or not it matches the kept counter.
      rw [if_neg start, if_neg start]
      split
      · exact ⟨rfl, rfl⟩
      · exact ⟨rfl, rfl⟩
  | some collected =>
    have collecting : Collecting s collected := related
    have unflagged : ¬(packet.packetCounter = 0 ∧ s.packetResyncNeeded = true) := by
      simp [collecting.synced]
    have matches_counter : packet.number = collected.length ↔
        packet.packetCounter = s.packetCounter := by
      rw [← collecting.counter, FramePacket.number, UInt8.toNat_inj]
    simp only [receiveFramePacket, if_neg unflagged, frameAssembler, assembler, matches_counter]
    by_cases next : packet.packetCounter = s.packetCounter
    · rw [if_neg (by simp [next]), if_pos next]
      exact storePacket_extends (s := { s with framePacket := packet }) collecting.synced
        collecting.counter collecting.bounded collecting.assembled
    · rw [if_pos next, if_neg next]
      exact ⟨rfl, rfl⟩

/-- The callback simulates the reassembly of the well-formed frame packets it is handed. -/
theorem rpmsgEsmeCb_simulates (layout : Layout) :
    (rpmsgEsmeCb layout).Simulates (frameAssembler layout) Assembles (framePacketOf layout)
      (fun action => (publishedFrame action).map Buffer.toList)
      (fun window => [frameBytes layout window]) := by
  -- Only a frame packet reaches the variables of the reassembly.
  constructor
  · intro s state related data
    rcases rpmsgEsmeCb_cases s data with ⟨none, step⟩ | ⟨packet, one, step⟩ | ⟨none, step⟩
    · -- A config reply leaves everything alone that the reassembly depends on.
      rw [none, step]
      cases state with
      | none => exact related
      | some collected =>
        have collecting : Collecting s collected := related
        exact ⟨collecting.synced, collecting.counter, collecting.bounded, collecting.assembled,
          collecting.latest⟩
    · rw [one, step]
      exact (receiveFramePacket_assembles related packet).1
    · rw [none, step]
      exact related
  · intro s state related data
    rcases rpmsgEsmeCb_cases s data with ⟨none, step⟩ | ⟨packet, one, step⟩ | ⟨none, step⟩
    · rw [none, step]; rfl
    · rw [one, step, (receiveFramePacket_assembles related packet).2]
      simp only [Transducer.output_cons, Transducer.output_nil, List.append_nil]
      exact List.map_eq_flatMap
    · rw [none, step]; rfl

end Esme
