import Esme.Driver.Layouts
import Esme.Stream.Loss

/-! What the driver publishes of a camera's frames when messages are lost on the way. -/

namespace Esme

open Reassembly

variable {layout : Layout}

/-- A camera that sends frame after frame, cut into packets as the header says. -/
structure Camera (layout : Layout) where
  frames : Nat → Buffer UInt8 layout.frameSize
  /-- all packets in the order in which they are sent -/
  packets : Nat → FramePacket layout
  cut : ∀ index, FrameCut (frames index) ((List.range layout.totalFramePackets).map fun offset =>
    packets (index * layout.totalFramePackets + offset))

/-- If the last packet is a partial one, the header counts the packets as the driver does. -/
theorem totalFramePackets_eq (uneven : layout.lastFramePacketSize ≠ 0) :
    layout.totalFramePackets = layout.totalFrameFullPackets + 1 := by
  rw [Layout.totalFramePackets, if_neg uneven]

/-- The packets of a frame are a window of the stream. -/
theorem Camera.cut_window (camera : Camera layout) (uneven : layout.lastFramePacketSize ≠ 0)
    (index : Nat) :
    FrameCut (camera.frames index)
      (windowAt layout.totalFrameFullPackets camera.packets index) := by
  have cut := camera.cut index
  rw [totalFramePackets_eq uneven] at cut
  exact cut

/-- A window of the stream stands for its frame. -/
theorem Camera.frameBytes_window (camera : Camera layout)
    (uneven : layout.lastFramePacketSize ≠ 0) (index : Nat) :
    frameBytes layout (windowAt layout.totalFrameFullPackets camera.packets index) =
      (camera.frames index).toList := by
  have cut := camera.cut_window uneven index
  -- The last packet of the window is the partial one.
  unfold windowAt at cut ⊢
  rw [List.range_succ, List.map_append] at cut ⊢
  exact cut.frameBytes_eq (by rw [List.length_map, List.length_range])

/-- The packets of the stream are counted frame by frame. -/
theorem Camera.counts (camera : Camera layout) (uneven : layout.lastFramePacketSize ≠ 0) :
    Counts FramePacket.number layout.totalFrameFullPackets camera.packets := by
  intro position
  have fits : layout.totalFrameFullPackets ≤ 254 := layout.fits
  have cut := camera.cut_window uneven (position / (layout.totalFrameFullPackets + 1))
  unfold windowAt at cut
  -- The counters of one frame are the offsets in it.
  have numbered := counters_numbered (by simp only [List.length_map, List.length_range]; omega)
    cut.counters
  rw [Numbered, List.length_map, List.length_range, List.map_map] at numbered
  have offsets := List.map_inj_left.mp (numbered.trans (List.map_id _).symm)
  have offset := offsets (position % (layout.totalFrameFullPackets + 1))
    (List.mem_range.mpr (Nat.mod_lt _ (Nat.succ_pos _)))
  rw [Function.comp_apply, Nat.mul_comm, Nat.div_add_mod] at offset
  exact offset

/-- Windows of the stream that are handed on are published as their frames. -/
theorem Camera.published_eq (camera : Camera layout) (uneven : layout.lastFramePacketSize ≠ 0)
    {messages : List Message} {positions indices : List Nat}
    (received : framePackets layout messages = positions.map camera.packets)
    (output : (frameAssembler layout).output none (positions.map camera.packets) =
      indices.map (windowAt layout.totalFrameFullPackets camera.packets)) :
    publishedDuring (DriverState.initial layout) messages = indices.map camera.frames := by
  have published := publishedDuring_map (initial_assembles layout) messages
  -- The bytes published are those of the windows, which the camera has cut of its frames.
  rw [received, output, List.map_map] at published
  -- Buffers with the same bytes are the same.
  apply List.map_injective_iff.mpr fun one other same => Buffer.ext same
  rw [published, List.map_map]
  exact List.map_congr_left fun index _ => camera.frameBytes_window uneven index

/-- Without longer losses, whatever is published are frames of the camera, in their order. -/
theorem Camera.publishes (camera : Camera layout) (uneven : layout.lastFramePacketSize ≠ 0)
    {messages : List Message} {positions : List Nat}
    (received : framePackets layout messages = positions.map camera.packets)
    (bounded : positions.IsChain (Follows layout.totalFrameFullPackets)) :
    ∃ indices : List Nat, indices.Pairwise (· < ·) ∧
      publishedDuring (DriverState.initial layout) messages = indices.map camera.frames := by
  obtain ⟨indices, ascending, output⟩ := output_thinned (camera.counts uneven) bounded
  exact ⟨indices, ascending, camera.published_eq uneven received output⟩

/--
If less than a whole frame is lost between any two packets that arrive, what the driver publishes
are frames of the camera, in their order.
-/
theorem published_thinned (camera : Camera lepton) {messages : List Message}
    {positions : List Nat}
    (received : framePackets lepton messages = positions.map camera.packets)
    (bounded : positions.IsChain fun position next => position < next ∧ next ≤ position + 79) :
    ∃ indices : List Nat, indices.Pairwise (· < ·) ∧
      publishedDuring (DriverState.initial lepton) messages = indices.map camera.frames :=
  camera.publishes (by decide) received bounded

/-- A camera that sees nothing. -/
def blankCamera : Camera lepton where
  frames _ := Buffer.replicate _ 0
  packets position := blankPacket (UInt8.ofNat (position % 79)) 5
  cut index := by
    refine ⟨by simp, by simp [blankPacket, packetFrame], ?_, fun position packet found => ?_⟩
    · rw [List.map_map, List.length_map, List.length_range]
      refine List.map_congr_left fun offset inside => ?_
      have short : offset < 79 := List.mem_range.mp inside
      show UInt8.ofNat ((index * 79 + offset) % 79) = UInt8.ofNat offset
      rw [Nat.mul_comm, Nat.mul_add_mod, Nat.mod_eq_of_lt short]
    · obtain ⟨offset, -, same⟩ := List.mem_map.mp (List.mem_of_getElem? found)
      subst same
      show ((List.replicate 38489 0).drop _).take 493 <+: List.replicate 493 0
      rw [List.drop_replicate, List.take_replicate, List.prefix_replicate_iff,
        List.length_replicate]
      exact ⟨Nat.min_le_left _ _, rfl⟩

/-- The messages of the packets that arrive. -/
def Camera.deliver (camera : Camera layout) (positions : List Nat) : List Message :=
  (positions.map camera.packets).map FramePacket.toBytes

/-- Those packets are what the driver receives. -/
theorem framePackets_deliver (positions : List Nat) :
    framePackets lepton (blankCamera.deliver positions) = positions.map blankCamera.packets := by
  refine framePackets_toBytes fun packet member => ?_
  obtain ⟨position, -, rfl⟩ := List.mem_map.mp member
  rfl

/-- Some packets are lost between the first frame and the third. -/
theorem published_thinned_blank :
    ∃ indices : List Nat, indices.Pairwise (· < ·) ∧
      publishedDuring (DriverState.initial lepton)
          (blankCamera.deliver (List.range 79 ++ List.range' 100 137)) =
        indices.map blankCamera.frames :=
  published_thinned blankCamera (framePackets_deliver _) (by decide +kernel)

/-- A frame behind one that has arrived whole is published if it arrives whole, too. -/
theorem published_behind_whole (camera : Camera lepton) {messages : List Message}
    {positions : List Nat}
    (received : framePackets lepton messages = positions.map camera.packets)
    (ascending : positions.Pairwise (· < ·)) {index : Nat}
    (whole : ∀ offset < 158, index * 79 + offset ∈ positions) :
    camera.frames (index + 1) ∈ publishedDuring (DriverState.initial lepton) messages := by
  have uneven : lepton.lastFramePacketSize ≠ 0 := by decide
  have handed := mem_output_thinned (camera.counts uneven) ascending whole
  have published := publishedDuring_map (initial_assembles lepton) messages
  rw [received] at published
  -- What is handed on is published, and its bytes are those of one frame only.
  have member : frameBytes lepton
      (windowAt lepton.totalFrameFullPackets camera.packets (index + 1)) ∈
        (publishedDuring (DriverState.initial lepton) messages).map Buffer.toList := by
    rw [published]
    exact List.mem_map_of_mem handed
  rw [camera.frameBytes_window uneven] at member
  obtain ⟨frame, inside, same⟩ := List.mem_map.mp member
  exact Buffer.ext same ▸ inside

/-- Two frames arrive whole behind a part of another one. -/
theorem published_behind_whole_blank :
    blankCamera.frames 2 ∈ publishedDuring (DriverState.initial lepton)
      (blankCamera.deliver (List.range' 50 187)) :=
  published_behind_whole blankCamera (framePackets_deliver _) List.pairwise_lt_range'
    (@fun offset inside => List.mem_range'_1.mpr (by omega))

end Esme
