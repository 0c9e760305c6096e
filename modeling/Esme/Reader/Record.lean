import Esme.Driver.Datatype
import Esme.Stream.Transducer

/-! `recordLoop`: what the recorder does with each read of the device and each look at the clock. -/

namespace Esme

/-- `READ_TIMEOUT_MS` -/
def readTimeoutMs : Int := 2000

/-- `VIDEO_DURATION_S` -/
def videoDurationS : Int := 30

/-- One second of the steady clock, which counts nanoseconds. -/
def second : Int := 1000000000

/-- `duration_cast` to milliseconds, which drops what is left of the last one. -/
def milliseconds (duration : Int) : Int := duration.tdiv 1000000

/-- The outcome of `read`: a whole frame, fewer bytes, or -1. -/
inductive FrameRead where
  | complete (frame : Buffer UInt8 lepton.frameSize)
  | short (count : Nat) (fewer : count < lepton.frameSize)
  | failed (errno : Int)

/-- What one turn of the loop meets: the flag, the read, and the clock at three places. -/
structure RecordTurn where
  /-- the flag `running` as the turn begins -/
  running : Bool
  /-- the first look at the clock -/
  top : Int
  read : FrameRead
  /-- when `read` returns; the code does not look at the clock then -/
  returned : Int
  /-- the second look at the clock, behind the write to the file -/
  check : Int
  readTakesTime : top ≤ returned
  writeTakesTime : returned ≤ check

/-- The variables of `recordLoop`, and two times that are not variables of the code. -/
structure RecordVars where
  start : Int
  nextTimeout : Int
  frameCount : Nat
  /-- when the turn began in which `read` last returned a whole frame, or the start -/
  lastTop : Int
  /-- when `read` last returned a whole frame, or the start -/
  lastReturned : Int

/-- The variables before the first turn, `start` being the clock then. -/
def RecordVars.initial (start : Int) : RecordVars where
  start := start
  nextTimeout := start
  frameCount := 0
  lastTop := start
  lastReturned := start

/-- How the loop is left, with what it returns. -/
inductive RecordEnd where
  /-- the flag is cleared or the time is over: true -/
  | stopped (frameCount : Nat)
  /-- false -/
  | readError (errno : Int)
  /-- "No new frame in 2000ms. Aborting.": false -/
  | timedOut
  deriving DecidableEq

/-- What the loop does on the way. -/
inductive RecordAction where
  /-- a frame is written to the file -/
  | wrote (frame : Buffer UInt8 lepton.frameSize)
  /-- "Incomplete frame read" -/
  | incomplete (count : Nat)
  deriving DecidableEq

/-- The branches for what `read` returned, as far as they do not return. -/
def takeRead (v : RecordVars) (turn : RecordTurn) :
    Except RecordEnd RecordVars × List RecordAction :=
  match turn.read with
  | .complete frame =>
    -- The time stored is the one from before the read.
    (.ok { v with
        frameCount := v.frameCount + 1
        nextTimeout := turn.top
        lastTop := turn.top
        lastReturned := turn.returned },
      [.wrote frame])
  | .failed errno => (.error (.readError errno), [])
  | .short count _ => (.ok v, [.incomplete count])

/-- The test of the timeout at the end of a turn. -/
def checkTimeout (v : RecordVars) (turn : RecordTurn) : Except RecordEnd RecordVars :=
  if readTimeoutMs < milliseconds (turn.check - v.nextTimeout) then .error .timedOut else .ok v

/-- One turn of the loop. -/
def recordTurn (durationS : Int) (v : RecordVars) (turn : RecordTurn) :
    Except RecordEnd RecordVars × List RecordAction :=
  if turn.running = false then (.error (.stopped v.frameCount), [])
  else if durationS * second ≤ turn.top - v.start then (.error (.stopped v.frameCount), [])
  else
    let (taken, actions) := takeRead v turn
    (taken.bind fun v => checkTimeout v turn, actions)

/-- `recordLoop` from its first turn on. -/
def recordLoop (durationS : Int) :
    Transducer (Except RecordEnd RecordVars) RecordTurn RecordAction :=
  .stopping (recordTurn durationS)

end Esme
