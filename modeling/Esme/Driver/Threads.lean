import Esme.Driver.Callback
import Esme.Stream.Guarded

/-! `rpmsg_esme_cb` and any number of calls of `rpmsg_read`, interleaved at every access. -/

namespace Esme

/-- How a call of `rpmsg_read` ends. -/
inductive RpmsgReadResult where
  /-- `FRAME_SIZE` is returned: the buffer, which held this publication, has been copied -/
  | copied (publication : Nat) (data : List UInt8)
  /-- the value that is returned -/
  | failed (err : Int)
  deriving DecidableEq

/-- Where a call of `rpmsg_read` is. -/
inductive ReadPc where
  /-- in `wait_event_interruptible` -/
  | waiting
  /-- behind the wait, in `mutex_lock` -/
  | locking
  /-- in `copy_to_user`, which has copied this much -/
  | copying (copied : Nat) (data : List UInt8)
  /-- in `mutex_unlock` -/
  | unlocking (result : RpmsgReadResult)
  | returned (result : RpmsgReadResult)
  deriving DecidableEq

/-- Where the callback is. -/
inductive CbPc where
  /-- between two messages -/
  | idle
  /-- in the `memcpy` of a packet into `frameData`, of which this many bytes are there -/
  | storing (last : Bool) (copied : Nat)
  /-- in `mutex_lock` -/
  | locking
  /-- in the `memcpy` into `frameDataReadout`, of which this many bytes are there -/
  | copying (copied : Nat)
  /-- behind `mutex_unlock`, before `data_ready` is set -/
  | unlocked
  deriving DecidableEq

/-- Who holds `rpmsg_frame_mutex`. -/
inductive Holder where
  | callback
  | read (number : Nat)
  deriving DecidableEq

/-- The driver and its threads: the one callback, and all calls of `rpmsg_read` by their number. -/
structure ThreadsState (layout : Layout) where
  driver : DriverState layout
  /-- `rpmsg_frame_mutex` -/
  mutex : Option Holder
  callback : CbPc
  reads : List ReadPc
  /-- the messages that the callback has been called with -/
  received : List Message
  /-- what the locked copies have left in `frameDataReadout` -/
  published : List (Buffer UInt8 layout.frameSize)

/-- The module as it is loaded. -/
def ThreadsState.initial (layout : Layout) : ThreadsState layout where
  driver := DriverState.initial layout
  mutex := none
  callback := .idle
  reads := []
  received := []
  published := []

variable {layout : Layout}

/-- The size of the `memcpy` into `frameData`, for the last packet of a frame and for the others. -/
def storeSize (layout : Layout) (last : Bool) : Nat :=
  if last then layout.lastFramePacketSize else layout.framePacketDataSize

/-- The branch under `!packetResyncNeeded`, up to the `memcpy`. -/
def startStore (s : DriverState layout) : DriverState layout × CbPc :=
  -- The same tests as in `storePacket`, which makes the copies at once.
  if s.packetResyncNeeded then (s, .idle)
  else if s.packetCounter.toNat < layout.totalFrameFullPackets then (s, .storing false 0)
  else if s.packetCounter.toNat = layout.totalFrameFullPackets then (s, .storing true 0)
  else
    -- "Invalid packetCounter %d, resyncing"
    ({ s with packetResyncNeeded := true }, .idle)

/-- The branch for frame packets, up to the `memcpy`; what it writes no other thread uses. -/
def startFramePacket (s : DriverState layout) (framePacket : FramePacket layout) :
    DriverState layout × CbPc :=
  -- The packet is copied whole before its counter is looked at.
  let s := { s with framePacket := framePacket }
  if framePacket.packetCounter = 0 ∧ s.packetResyncNeeded then
    startStore { s with
      packetCounter := framePacket.packetCounter
      frameCounter := framePacket.frameCounter
      packetResyncNeeded := false }
  else if framePacket.packetCounter ≠ s.packetCounter then
    -- "Resync error"
    ({ s with packetResyncNeeded := true }, .idle)
  else startStore s

/-- A message that passes the test for frame packets has their size. -/
theorem frameLength {data : Message}
    (frame : data.length = FramePacket.size layout ∧ data.getD 0 0 = packetFrame) :
    data.length = FramePacket.size layout := frame.1

/-- `rpmsg_esme_cb` up to the first access to a buffer; config replies touch none. -/
def startMessage (s : DriverState layout) (data : Message) : DriverState layout × CbPc :=
  if data.length = ConfigPacket.size ∧ data.getD 0 0 = packetM33A55ConfigSend then
    ((receiveConfigPacket s (ConfigPacket.ofBytes data)).1, .idle)
  else if frame : data.length = FramePacket.size layout ∧ data.getD 0 0 = packetFrame then
    startFramePacket s (FramePacket.ofBytes data (frameLength frame))
  else
    -- "Received bad packet: %d bytes"
    (s, .idle)

/-- What the callback can do next. -/
inductive CbStep where
  /-- copy some bytes of the packet into `frameData` -/
  | store (count : Nat)
  /-- the `memcpy` into `frameData` is over -/
  | stored
  | lock
  /-- copy some bytes of `frameData` into `frameDataReadout` -/
  | copy (count : Nat)
  | unlock
  /-- set `data_ready` and wake the readers -/
  | announce
  deriving DecidableEq

/-- A step of the callback, if it is at a place where the step is possible. -/
def callbackStep (s : ThreadsState layout) : CbStep → Option (ThreadsState layout)
  | .store count =>
    match s.callback with
    | .storing last copied =>
      -- Some more bytes, behind those that are there already.
      let offset := s.driver.packetCounter.toNat * layout.framePacketDataSize
      if copied + count ≤ storeSize layout last then
        some { s with
          driver := { s.driver with
            frameData := s.driver.frameData.blit (offset + copied)
              ((s.driver.framePacket.data.toList.drop copied).take count) }
          callback := .storing last (copied + count) }
      else none
    | _ => none
  | .stored =>
    match s.callback with
    | .storing last copied =>
      if copied = storeSize layout last then
        some (if last then
            -- The frame is complete, and it is published next.
            { s with driver := { s.driver with packetCounter := 0 }, callback := .locking }
          else
            { s with
              driver := { s.driver with packetCounter := s.driver.packetCounter + 1 }
              callback := .idle })
      else none
    | _ => none
  | .lock =>
    if s.callback = .locking ∧ s.mutex = none then
      some { s with mutex := some .callback, callback := .copying 0 }
    else none
  | .copy count =>
    match s.callback with
    | .copying copied =>
      if copied + count ≤ layout.frameSize then
        some { s with
          driver := { s.driver with
            frameDataReadout := s.driver.frameDataReadout.blit copied
              ((s.driver.frameData.toList.drop copied).take count) }
          callback := .copying (copied + count) }
      else none
    | _ => none
  | .unlock =>
    if s.callback = .copying layout.frameSize then
      -- What the copy has left counts as published from here on.
      some { s with
        mutex := none
        callback := .unlocked
        published := s.published ++ [s.driver.frameDataReadout] }
    else none
  | .announce =>
    if s.callback = .unlocked then
      -- The flag is set without the mutex.
      some { s with
        driver := { s.driver with dataReady := true, frameCounter := s.driver.frameCounter + 1 }
        callback := .idle }
    else none

/-- A call moves on. -/
def ThreadsState.move (s : ThreadsState layout) (number : Nat) (pc : ReadPc) :
    ThreadsState layout :=
  { s with reads := s.reads.set number pc }

/-- A new call with its `count`. -/
def rpmsgRead (s : ThreadsState layout) (count : Nat) : ThreadsState layout :=
  -- A call that asks for another number of bytes is over right away.
  { s with
    reads := s.reads ++
      [if count ≠ layout.frameSize then .returned (.failed (-einval)) else .waiting] }

/-- What a call can do next, or what can be done to it. -/
inductive ReadStep where
  /-- the wait sees `data_ready` -/
  | pass
  /-- the wait is interrupted by a signal -/
  | interrupt
  | lock
  /-- copy some bytes of `frameDataReadout` to the user -/
  | copy (count : Nat)
  /-- `copy_to_user` fails -/
  | fault
  /-- `copy_to_user` has succeeded, and `data_ready` is cleared -/
  | clear
  | unlock
  deriving DecidableEq

/-- A step of a call, if the call is at a place where the step is possible. -/
def readStep (s : ThreadsState layout) (number : Nat) (pc : ReadPc) :
    ReadStep → Option (ThreadsState layout)
  | .pass =>
    if pc = .waiting ∧ s.driver.dataReady then some (s.move number .locking) else none
  | .interrupt =>
    if pc = .waiting then some (s.move number (.returned (.failed (-erestartsys)))) else none
  | .lock =>
    if pc = .locking ∧ s.mutex = none then
      some { s.move number (.copying 0 []) with mutex := some (.read number) }
    else none
  | .copy count =>
    match pc with
    | .copying copied data =>
      if copied + count ≤ layout.frameSize then
        some (s.move number (.copying (copied + count)
          (data ++ (s.driver.frameDataReadout.toList.drop copied).take count)))
      else none
    | _ => none
  | .fault =>
    match pc with
    | .copying _ _ => some (s.move number (.unlocking (.failed (-efault))))
    | _ => none
  | .clear =>
    match pc with
    | .copying copied data =>
      -- The flag is not looked at again, only cleared, before the mutex is released.
      if copied = layout.frameSize then
        some { s.move number (.unlocking (.copied s.published.length data)) with
          driver := { s.driver with dataReady := false } }
      else none
    | _ => none
  | .unlock =>
    match pc with
    | .unlocking result => some { s.move number (.returned result) with mutex := none }
    | _ => none

/-- What can happen next; calls are named by their number. -/
inductive ThreadsEvent where
  /-- the callback is called -/
  | message (data : Message)
  | callback (step : CbStep)
  /-- `rpmsg_read` is called for this many bytes -/
  | enter (count : Nat)
  | read (number : Nat) (step : ReadStep)
  deriving DecidableEq

/-- One step of one thread. -/
def threadsStep (s : ThreadsState layout) : ThreadsEvent → Option (ThreadsState layout)
  | .message data =>
    -- The rpmsg core calls the callback for one message after another.
    if s.callback = .idle then
      let (driver, callback) := startMessage s.driver data
      some { s with driver := driver, callback := callback, received := s.received ++ [data] }
    else none
  | .callback step => callbackStep s step
  | .enter count => some (rpmsgRead s count)
  | .read number step =>
    match s.reads[number]? with
    | some pc => readStep s number pc step
    | none => none

/-- The threads in any order. -/
def threads (layout : Layout) : Transducer (ThreadsState layout) ThreadsEvent Empty :=
  .guarded fun s event => (threadsStep s event).map fun next => (next, [])

end Esme
