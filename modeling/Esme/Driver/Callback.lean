import Esme.Driver.Datatype
import Esme.Stream.Transducer

/-! `rpmsg_esme_cb`: the static state of the driver and what one received message does to it. -/

namespace Esme

/-- `EINTR` -/
def eintr : Int := 4

/-- `EIO` -/
def eio : Int := 5

/-- `EFAULT` -/
def efault : Int := 14

/-- `EINVAL` -/
def einval : Int := 22

/-- `ERESTARTSYS` -/
def erestartsys : Int := 512

/-- The largest value of a completion's counter, at which it stays. -/
def completionMax : Nat := 4294967295

/-- `complete`: one more waiter may pass. -/
def complete (done : Nat) : Nat := if done = completionMax then done else done + 1

/-- The static variables the callback reads or writes. -/
structure DriverState (layout : Layout) where
  frameData : Buffer UInt8 layout.frameSize
  frameDataReadout : Buffer UInt8 layout.frameSize
  framePacket : FramePacket layout
  packetCounter : UInt8
  frameCounter : UInt8
  packetResyncNeeded : Bool
  configPacket : ConfigPacket
  dataReady : Bool
  /-- the counter of `rpmsg_config_got` -/
  rpmsgConfigGot : Nat

/-- The values the static variables are initialised to. -/
def DriverState.initial (layout : Layout) : DriverState layout where
  frameData := Buffer.replicate _ 0
  frameDataReadout := Buffer.replicate _ 0
  framePacket := FramePacket.zero layout
  packetCounter := 0
  frameCounter := 0
  packetResyncNeeded := true
  configPacket := ConfigPacket.zero
  dataReady := false
  rpmsgConfigGot := 0

/-- What the callback does that others can see, in the order it does it. -/
inductive CbAction (layout : Layout) where
  /-- `complete(&rpmsg_config_got)` -/
  | complete
  /-- a `memcpy` of some bytes of the packet to an offset in `frameData` -/
  | assemble (offset count : Nat)
  /-- the locked copy into `frameDataReadout`, `data_ready` set and readers woken -/
  | publish (frame : Buffer UInt8 layout.frameSize)
  /-- the return value -/
  | returned (err : Int)
  deriving DecidableEq

/-- A message as the rpmsg core hands it over: `data` and `len`. -/
abbrev Message := List UInt8

variable {layout : Layout}

/-- The branch under `!packetResyncNeeded`: copy the packet's share and publish after the last. -/
def storePacket (s : DriverState layout) : DriverState layout × List (CbAction layout) :=
  let offset := s.packetCounter.toNat * layout.framePacketDataSize
  if s.packetResyncNeeded then (s, [.returned 0])
  else if s.packetCounter.toNat < layout.totalFrameFullPackets then
    ({ s with
        frameData := s.frameData.blit offset s.framePacket.data.toList
        packetCounter := s.packetCounter + 1 },
      [.assemble offset layout.framePacketDataSize, .returned 0])
  else if s.packetCounter.toNat = layout.totalFrameFullPackets then
    let frameData := s.frameData.blit offset
      (s.framePacket.data.toList.take layout.lastFramePacketSize)
    ({ s with
        frameData := frameData
        packetCounter := 0
        frameDataReadout := frameData
        dataReady := true
        frameCounter := s.frameCounter + 1 },
      [.assemble offset layout.lastFramePacketSize, .publish frameData, .returned 0])
  else
    -- "Invalid packetCounter %d, resyncing"
    ({ s with packetResyncNeeded := true }, [.returned 0])

/-- The branch for frame packets: the start-of-frame test, the mismatch test, then the copy. -/
def receiveFramePacket (s : DriverState layout) (framePacket : FramePacket layout) :
    DriverState layout × List (CbAction layout) :=
  let s := { s with framePacket := framePacket }
  if framePacket.packetCounter = 0 ∧ s.packetResyncNeeded then
    storePacket { s with
      packetCounter := framePacket.packetCounter
      frameCounter := framePacket.frameCounter
      packetResyncNeeded := false }
  else if framePacket.packetCounter ≠ s.packetCounter then
    -- "Resync error"
    ({ s with packetResyncNeeded := true }, [.returned (-eio)])
  else storePacket s

/-- The branch for config replies. -/
def receiveConfigPacket (s : DriverState layout) (configPacket : ConfigPacket) :
    DriverState layout × List (CbAction layout) :=
  -- The reply is stored before the waiter is told.
  ({ s with configPacket := configPacket, rpmsgConfigGot := complete s.rpmsgConfigGot },
    [.complete, .returned 0])

/-- `rpmsg_esme_cb`, as a machine over the messages handed to it. -/
def rpmsgEsmeCb (layout : Layout) :
    Transducer (DriverState layout) Message (CbAction layout) where
  step s data :=
    if data.length = ConfigPacket.size ∧ data.getD 0 0 = packetM33A55ConfigSend then
      receiveConfigPacket s (ConfigPacket.ofBytes data)
    else if frame : data.length = FramePacket.size layout ∧ data.getD 0 0 = packetFrame then
      receiveFramePacket s (FramePacket.ofBytes data frame.1)
    else
      -- "Received bad packet: %d bytes"
      (s, [.returned (-einval)])

/-- The well-formed frame packet a message is, if it is one. -/
def framePacketOf (layout : Layout) (data : Message) : List (FramePacket layout) :=
  -- The same test as in the callback, on the length and the type of the message.
  if frame : data.length = FramePacket.size layout ∧ data.getD 0 0 = packetFrame then
    [FramePacket.ofBytes data frame.1]
  else []

/-- The well-formed frame packets among some messages, in order. -/
def framePackets (layout : Layout) (messages : List Message) : List (FramePacket layout) :=
  messages.flatMap (framePacketOf layout)

/-- The frames among some actions of the callback. -/
def publishedFrame : CbAction layout → List (Buffer UInt8 layout.frameSize)
  | .publish frame => [frame]
  | _ => []

/-- A message is a config reply, a well-formed frame packet or neither, and never both. -/
theorem rpmsgEsmeCb_cases (s : DriverState layout) (data : Message) :
    (framePacketOf layout data = [] ∧
        (rpmsgEsmeCb layout).step s data = receiveConfigPacket s (ConfigPacket.ofBytes data)) ∨
      (∃ packet, framePacketOf layout data = [packet] ∧
        (rpmsgEsmeCb layout).step s data = receiveFramePacket s packet) ∨
      (framePacketOf layout data = [] ∧
        (rpmsgEsmeCb layout).step s data = (s, [.returned (-einval)])) := by
  by_cases config : data.length = ConfigPacket.size ∧ data.getD 0 0 = packetM33A55ConfigSend
  · -- The two packet types differ, so a config reply is no frame packet even of the same length.
    have other : ¬(data.length = FramePacket.size layout ∧ data.getD 0 0 = packetFrame) := by
      rw [config.2]
      exact fun both => absurd both.2 (by decide)
    exact .inl ⟨by simp only [framePacketOf, dif_neg other],
      by simp only [rpmsgEsmeCb, if_pos config]⟩
  by_cases frame : data.length = FramePacket.size layout ∧ data.getD 0 0 = packetFrame
  · exact .inr (.inl ⟨FramePacket.ofBytes data frame.1,
      by simp only [framePacketOf, dif_pos frame],
      by simp only [rpmsgEsmeCb, if_neg config, dif_pos frame]⟩)
  · exact .inr (.inr ⟨by simp only [framePacketOf, dif_neg frame],
      by simp only [rpmsgEsmeCb, if_neg config, dif_neg frame]⟩)

/-- The state in which a packet gets to the test of `packetResyncNeeded`, unless it is refused. -/
def storedIn (s : DriverState layout) (framePacket : FramePacket layout) :
    Option (DriverState layout) :=
  if framePacket.packetCounter = 0 ∧ s.packetResyncNeeded then
    some { s with
      framePacket := framePacket
      packetCounter := framePacket.packetCounter
      frameCounter := framePacket.frameCounter
      packetResyncNeeded := false }
  else if framePacket.packetCounter ≠ s.packetCounter then none
  else some { s with framePacket := framePacket }

/-- A frame packet is refused with an error, or stored in that state. -/
theorem receiveFramePacket_cases (s : DriverState layout) (framePacket : FramePacket layout) :
    receiveFramePacket s framePacket =
        ({ s with framePacket := framePacket, packetResyncNeeded := true }, [.returned (-eio)]) ∨
      ∃ t, storedIn s framePacket = some t ∧ receiveFramePacket s framePacket = storePacket t := by
  unfold receiveFramePacket storedIn
  dsimp only
  -- The start-of-frame test comes before the mismatch test.
  split
  · exact .inr ⟨_, rfl, rfl⟩
  split
  · exact .inl rfl
  · exact .inr ⟨_, rfl, rfl⟩

/-- A packet is stored with nothing changed but the variables the two tests are about. -/
theorem storedIn_eq {s t : DriverState layout} {framePacket : FramePacket layout}
    (stored : storedIn s framePacket = some t) :
    ∃ packetCounter frameCounter packetResyncNeeded,
      t = { s with
        framePacket := framePacket
        packetCounter := packetCounter
        frameCounter := frameCounter
        packetResyncNeeded := packetResyncNeeded } := by
  unfold storedIn at stored
  split at stored
  · cases stored
    exact ⟨_, _, _, rfl⟩
  split at stored
  · cases stored
  · cases stored
    exact ⟨_, _, _, rfl⟩

end Esme
