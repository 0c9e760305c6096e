import Esme.Driver.Frames
import Esme.Memory.Ranges

/-! Every copy into `frameData` stays inside it, and a published frame was copied as a whole. -/

namespace Esme

open Ranges

variable {layout : Layout}

/-- The branch for an invalid counter is taken: neither a full packet nor the last one is due. -/
def InvalidCounter (s : DriverState layout) : Prop :=
  s.packetResyncNeeded = false ∧ ¬s.packetCounter.toNat < layout.totalFrameFullPackets ∧
    s.packetCounter.toNat ≠ layout.totalFrameFullPackets

/-- The copies since the last frame was published or refused, each an offset and a size. -/
def copyTracker (layout : Layout) : Transducer (List (Nat × Nat)) (CbAction layout) Unit where
  step copies
    | .assemble offset count => (copies ++ [(offset, count)], [])
    | .publish _ => ([], [])
    | .returned err => (if err = -eio then [] else copies, [])
    | .complete => (copies, [])

/-- The copies of some full packets from the first one on. -/
def fullCopies (layout : Layout) (count : Nat) : List (Nat × Nat) :=
  consecutive 0 (List.replicate count layout.framePacketDataSize)

/-- The copies that a whole frame takes. -/
def frameCopies (layout : Layout) : List (Nat × Nat) :=
  consecutive 0 (List.replicate layout.totalFrameFullPackets layout.framePacketDataSize ++
    [layout.lastFramePacketSize])

/-- An action keeps to the buffers: copies stay inside, and only a whole frame is published. -/
def InPlace (layout : Layout) (copies : List (Nat × Nat)) : CbAction layout → Prop
  | .assemble offset count =>
    offset + count ≤ layout.frameSize ∧ count ≤ layout.framePacketDataSize
  | .publish _ => copies = frameCopies layout
  | _ => True

/-- What is known between two messages about the counter and the copies made so far. -/
structure Placed (s : DriverState layout) (copies : List (Nat × Nat)) : Prop where
  counter : s.packetCounter.toNat ≤ layout.totalFrameFullPackets
  waiting : s.packetResyncNeeded = true → copies = []
  collecting : s.packetResyncNeeded = false → copies = fullCopies layout s.packetCounter.toNat

/-- One more full packet is copied behind the others. -/
theorem fullCopies_succ (layout : Layout) (count : Nat) :
    fullCopies layout (count + 1) = fullCopies layout count ++
      [(count * layout.framePacketDataSize, layout.framePacketDataSize)] := by
  rw [fullCopies, List.replicate_succ', consecutive_append, List.sum_replicate, Nat.nsmul_eq_mul]
  simp [fullCopies, consecutive]

/-- The last packet is copied behind the full ones. -/
theorem frameCopies_eq (layout : Layout) :
    frameCopies layout = fullCopies layout layout.totalFrameFullPackets ++
      [(layout.totalFrameFullPackets * layout.framePacketDataSize,
        layout.lastFramePacketSize)] := by
  rw [frameCopies, consecutive_append, List.sum_replicate, Nat.nsmul_eq_mul]
  simp [fullCopies, consecutive]

/-- The copies of a whole frame cover it without overlapping. -/
theorem frameCopies_tiles (layout : Layout) : Tiles (frameCopies layout) layout.frameSize := by
  have size : (List.replicate layout.totalFrameFullPackets layout.framePacketDataSize ++
      [layout.lastFramePacketSize]).sum = layout.frameSize := by
    rw [List.sum_append, List.sum_replicate, Nat.nsmul_eq_mul, List.sum_singleton]
    exact layout.frameSize_eq
  rw [← size]
  exact consecutive_tiles _

/-- What is done to the buffers by some actions keeps to them and leaves a state in order. -/
structure Keeps (layout : Layout) (copies : List (Nat × Nat))
    (result : DriverState layout × List (CbAction layout)) : Prop where
  inPlace : (copyTracker layout).Along (InPlace layout) copies result.2
  placed : Placed result.1 ((copyTracker layout).final copies result.2)

/-- A return value other than the one of a refusal changes nothing about the copies. -/
theorem keeps_returned {s : DriverState layout} {copies : List (Nat × Nat)}
    (placed : Placed s copies) : Keeps layout copies (s, [.returned 0]) :=
  ⟨Transducer.along_cons.mpr ⟨trivial, Transducer.along_nil _ _ _⟩, placed⟩

/-- No packet is stored while the counter is invalid. -/
theorem Placed.not_invalid {s : DriverState layout} {copies : List (Nat × Nat)}
    (placed : Placed s copies) : ¬InvalidCounter s := by
  rintro ⟨-, notFull, notLast⟩
  have counter := placed.counter
  omega

/-- Storing a packet copies it to its place, and publishes only what is complete. -/
theorem storePacket_keeps {s : DriverState layout} {copies : List (Nat × Nat)}
    (placed : Placed s copies) : Keeps layout copies (storePacket s) := by
  -- The branches are those of `storePacket`, and each copy goes behind the ones that are listed.
  have valid := placed.not_invalid
  have fits := layout.fits
  unfold storePacket
  dsimp only
  split
  · exact keeps_returned placed
  rename_i synced
  rw [Bool.not_eq_true] at synced
  have made := placed.collecting synced
  split
  · -- A full packet goes behind the ones before it.
    rename_i more
    have small : s.packetCounter.toNat + 1 < 256 := by
      have bound : layout.totalFrameFullPackets ≤ 254 := fits
      omega
    have next : (s.packetCounter + 1).toNat = s.packetCounter.toNat + 1 := by
      simp only [UInt8.toNat_add]
      exact Nat.mod_eq_of_lt small
    refine ⟨Transducer.along_cons.mpr ⟨⟨fullPacket_fits more, Nat.le_refl _⟩,
      Transducer.along_cons.mpr ⟨trivial, Transducer.along_nil _ _ _⟩⟩, ?_, ?_, ?_⟩
    · dsimp only
      omega
    · intro flagged
      rw [synced] at flagged
      cases flagged
    · intro _
      dsimp only
      rw [next, fullCopies_succ, ← made]
      rfl
  split
  · -- The last packet ends where the frame does.
    rename_i last
    have ends := layout.frameSize_eq
    have share := layout.lastFramePacketSize_lt
    have whole : copies ++ [(s.packetCounter.toNat * layout.framePacketDataSize,
        layout.lastFramePacketSize)] = frameCopies layout := by
      rw [frameCopies_eq, made, last]
    refine ⟨Transducer.along_cons.mpr ⟨⟨?_, Nat.le_of_lt share⟩,
      Transducer.along_cons.mpr ⟨whole,
        Transducer.along_cons.mpr ⟨trivial, Transducer.along_nil _ _ _⟩⟩⟩, ?_, ?_, ?_⟩
    · rw [last, ends]
    · exact Nat.zero_le _
    · intro _
      rfl
    · intro _
      rfl
  · rename_i notFull notLast
    exact absurd ⟨synced, notFull, notLast⟩ valid

/-- A packet that is stored is stored in a state that is in order. -/
theorem storedIn_placed {s t : DriverState layout} {copies : List (Nat × Nat)}
    (placed : Placed s copies) {framePacket : FramePacket layout}
    (stored : storedIn s framePacket = some t) : Placed t copies := by
  unfold storedIn at stored
  split at stored
  · -- The start of a frame finds nothing copied yet.
    rename_i start
    cases stored
    have none := placed.waiting start.2
    exact ⟨by simp [start.1], fun _ => none, fun _ => by rw [none, start.1]; rfl⟩
  split at stored
  · cases stored
  · cases stored
    exact ⟨placed.counter, placed.waiting, placed.collecting⟩

/-- Every message keeps to the buffers. -/
theorem rpmsgEsmeCb_keeps {s : DriverState layout} {copies : List (Nat × Nat)}
    (placed : Placed s copies) (data : Message) :
    Keeps layout copies ((rpmsgEsmeCb layout).step s data) := by
  -- Only a frame packet is stored, and the others leave the buffers alone.
  rcases rpmsgEsmeCb_cases s data with ⟨-, step⟩ | ⟨packet, -, step⟩ | ⟨-, step⟩
  · rw [step]
    exact ⟨Transducer.along_cons.mpr ⟨trivial, (keeps_returned placed).inPlace⟩,
      placed.counter, placed.waiting, placed.collecting⟩
  · rw [step]
    rcases receiveFramePacket_cases s packet with refused | ⟨t, stored, same⟩
    · -- A refused packet starts the copies over.
      rw [refused]
      exact ⟨Transducer.along_cons.mpr ⟨trivial, Transducer.along_nil _ _ _⟩,
        placed.counter, fun _ => rfl, fun synced => by cases synced⟩
    · rw [same]
      exact storePacket_keeps (storedIn_placed placed stored)
  · rw [step]
    exact ⟨Transducer.along_cons.mpr ⟨trivial, Transducer.along_nil _ _ _⟩, placed⟩

/-- Every history keeps to the buffers. -/
theorem messages_keep {s : DriverState layout} {copies : List (Nat × Nat)}
    (placed : Placed s copies) (messages : List Message) :
    Keeps layout copies
      ((rpmsgEsmeCb layout).final s messages, (rpmsgEsmeCb layout).output s messages) := by
  -- The copies made by the first message are those that the others go on from.
  induction messages generalizing s copies with
  | nil => exact ⟨Transducer.along_nil _ _ _, placed⟩
  | cons data rest ih =>
    obtain ⟨first, next⟩ := rpmsgEsmeCb_keeps placed data
    obtain ⟨others, last⟩ := ih next
    exact ⟨Transducer.along_append.mpr ⟨first, others⟩,
      by rw [Transducer.output_cons, Transducer.final_append]; exact last⟩

/-- A fresh driver has copied nothing. -/
theorem initial_placed (layout : Layout) : Placed (DriverState.initial layout) [] :=
  ⟨Nat.zero_le _, fun _ => rfl, fun synced => by cases synced⟩

/--
Assembly never leaves its buffer, whatever messages are received.

The counter stays a number of a packet of the frame and is never invalid, every copy is inside
`frameData` and inside the packet's data, and the copies a published frame is made of are 79
ranges that tile it.
-/
theorem assembly_in_buffer (messages : List Message) :
    let s := afterMessages lepton messages
    let actions := (rpmsgEsmeCb lepton).output (DriverState.initial lepton) messages
    s.packetCounter.toNat ≤ 78 ∧
      (∀ packet t, storedIn s packet = some t → ¬InvalidCounter t) ∧
      (∀ offset count, .assemble offset count ∈ actions → offset + count ≤ 38489 ∧ count ≤ 493) ∧
      ∀ before frame after, actions = before ++ .publish frame :: after →
        let copies := (copyTracker lepton).final [] before
        copies.length = 79 ∧ Tiles copies 38489 := by
  intro s actions
  obtain ⟨inPlace, placed⟩ := messages_keep (initial_placed lepton) messages
  refine ⟨placed.counter, fun packet t stored => (storedIn_placed placed stored).not_invalid,
    fun offset count copied => ?_, fun before frame after split => ?_⟩
  · obtain ⟨before, after, split⟩ := List.append_of_mem copied
    exact inPlace before _ after split
  · -- What is published has been copied as a whole.
    have whole : (copyTracker lepton).final [] before = frameCopies lepton :=
      inPlace before _ after split
    dsimp only
    rw [whole]
    exact ⟨by simp [frameCopies]; rfl, frameCopies_tiles lepton⟩

end Esme
