import Esme.Driver.Threads
import Esme.Reader.Record

/-! The recorder at the device: what `recordLoop` writes while others read the device too. -/

namespace Esme

open Transducer

/-- Where `recordLoop` is. -/
inductive RecordPc where
  /-- `recordLoop` has not been called yet -/
  | before
  /-- in front of the test of `running` -/
  | looping (v : RecordVars)
  /-- in `read`, with the time at which the turn has begun and the number of the call -/
  | reading (v : RecordVars) (top : Int) (number : Nat)
  | left (result : RecordEnd)

/-- The recorder, the device and the file. -/
structure RecordingState where
  device : ThreadsState lepton
  recorder : RecordPc
  /-- the array of `recordLoop` -/
  frame : Buffer UInt8 lepton.frameSize
  /-- what is in the file -/
  file : List UInt8

/-- The module is just loaded, and the file is empty; nothing is known of the array. -/
def RecordingState.initial (frame : Buffer UInt8 lepton.frameSize) : RecordingState where
  device := .initial lepton
  recorder := .before
  frame := frame
  file := []

/-- What can happen next. -/
inductive RecordingEvent where
  /-- a step of the callback or of a call, or a call of `rpmsg_read` by another process -/
  | device (event : ThreadsEvent)
  /-- `recordLoop` is called and looks at the clock -/
  | start (now : Int)
  /-- a turn begins: with the flag `running`, and the first look at the clock -/
  | turn (running : Bool) (top : Int)
  /-- a call that a signal has interrupted is made again by the kernel -/
  | restart
  /-- `read` returns, and the rest of the turn follows up to the second look at the clock -/
  | finish (returned check : Int)

/-- What `read` gives the recorder for the result of `rpmsg_read`. -/
def readReturns (frame : Buffer UInt8 lepton.frameSize) : RpmsgReadResult → FrameRead
  -- A call that fails may have copied some bytes, at which the recorder does not look.
  | .copied _ data => .complete (frame.blit 0 data)
  | .failed err => .failed (if err = -erestartsys then eintr else -err)

/-- What reaches the file. -/
def RecordAction.written : RecordAction → List UInt8
  | .wrote frame => frame.toList
  | .incomplete _ => []

/-- The recorder calls `rpmsg_read`. -/
def callRead (s : RecordingState) (v : RecordVars) (top : Int) : RecordingState :=
  { s with
    device := rpmsgRead s.device lepton.frameSize
    recorder := .reading v top s.device.reads.length }

/-- Where a turn leaves the recorder. -/
def RecordPc.behind : Except RecordEnd RecordVars → RecordPc
  | .ok v => .looping v
  | .error result => .left result

/-- The rest of a turn whose `read` has returned. -/
def finishRecordTurn (durationS : Int) (s : RecordingState) (v : RecordVars) (turn : RecordTurn) :
    RecordingState :=
  { s with
    recorder := .behind (recordTurn durationS v turn).1
    frame := match turn.read with
      | .complete frame => frame
      | _ => s.frame
    file := s.file ++ (recordTurn durationS v turn).2.flatMap RecordAction.written }

/-- One step of the recorder or of the device. -/
def recordingStep (durationS : Int) (s : RecordingState) : RecordingEvent → Option RecordingState
  | .device event => (threadsStep s.device event).map fun device => { s with device := device }
  | .start now =>
    match s.recorder with
    | .before => some { s with recorder := .looping (.initial now) }
    | _ => none
  | .turn running top =>
    match s.recorder with
    | .looping v =>
      -- The two tests in front of the read.
      if running = false ∨ durationS * second ≤ top - v.start then
        some { s with recorder := .left (.stopped v.frameCount) }
      else some (callRead s v top)
    | _ => none
  | .restart =>
    match s.recorder with
    | .reading v top number =>
      if s.device.reads[number]? = some (.returned (.failed (-erestartsys))) then
        some (callRead s v top)
      else none
    | _ => none
  | .finish returned check =>
    match s.recorder with
    | .reading v top number =>
      match s.device.reads[number]? with
      | some (.returned result) =>
        if times : top ≤ returned ∧ returned ≤ check then
          some (finishRecordTurn durationS s v
            { running := true
              top := top
              read := readReturns s.frame result
              returned := returned
              check := check
              readTakesTime := times.1
              writeTakesTime := times.2 })
        else none
      | _ => none
    | _ => none

/-- The recorder and the device in any order. -/
def recording (durationS : Int) : Transducer RecordingState RecordingEvent Empty :=
  .guarded fun s event => (recordingStep durationS s event).map fun next => (next, [])

end Esme
