import Mathlib.Data.List.Infix
import Esme.Memory.Text
import Esme.Stream.Transducer

/-! `example.cpp`: what the example does with the answers and messages of edgesoft. -/

namespace Esme

/-- The size of both arrays `message`, and how much `read` is asked for. -/
def messageSize : Nat := 1024

/-- The bytes of a text in the source. -/
def textBytes (text : String) : List UInt8 := text.toUTF8.data.toList

/-- `GET_VERSION` -/
def getVersion : List UInt8 := textBytes "\x7b\"get\":\x7b\"cde\":\"versions\"\x7d\x7d\n"

/-- `GET_CAM_ID` -/
def getCamId : List UInt8 := textBytes "\x7b\"get\":\x7b\"cde\":\"id\"\x7d\x7d\n"

/-- `GET_STATUS` -/
def getStatus : List UInt8 := textBytes "\x7b\"get\":\x7b\"cde\":\"status\"\x7d\x7d\n"

/-- `SET_HEIGHT` -/
def setHeight : List UInt8 :=
  textBytes "\x7b\"post\":\x7b\"cde\":\"heightPosition\",\"args\":290\x7d\x7d\n"

/-- `SET_USECASE` -/
def setUsecase : List UInt8 :=
  textBytes "\x7b\"post\":\x7b\"cde\":\"useCases\",\"args\":\"openSpace\"\x7d\x7d\n"

/-- `SET_JSON_PERIOD` -/
def setJsonPeriod : List UInt8 :=
  textBytes "\x7b\"post\":\x7b\"cde\":\"config\",\"args\":\x7b\"json_per\":1\x7d\x7d\x7d\n"

/-- The commands that `main` sends before it polls the status, in order. -/
def startCommands : List (List UInt8) :=
  [getVersion, getCamId, getStatus, setHeight, setUsecase, setJsonPeriod]

/-- What a status has in it when the warm-up is over. -/
def operational : List UInt8 := textBytes "operational"

/-- The FIFOs that are read: answers come over one of them, periodic results over the other. -/
inductive Fifo where
  | mosi
  | passive
  deriving DecidableEq

/-- The outcome of `read`: some bytes, as many as the array has at most, 0, or -1. -/
inductive FifoRead where
  | bytes (chunk : List UInt8) (some : chunk ≠ []) (fits : chunk.length ≤ messageSize)
  | closed
  | failed (errno : Int)

/-- What the calls of one turn return, and what is on the stack. -/
structure ExampleTurn where
  /-- How much `write` takes of the command, or -1; there is none in the passive loop. -/
  writtenBytes : Int
  read : FifoRead
  /-- What the array of `waitForResponse` has in it when the function is called. -/
  stack : Buffer UInt8 messageSize

/-- The variables of `main`. -/
structure ExampleVars where
  /-- The commands that are still to be sent before the status is polled. -/
  commands : List (List UInt8)
  warmup : Bool
  message : Buffer UInt8 messageSize

/-- The variables at the start; nothing sets the array, so it may have anything in it. -/
def ExampleVars.initial (message : Buffer UInt8 messageSize) : ExampleVars where
  commands := startCommands
  warmup := true
  message := message

/-- How the program ends. -/
inductive ExampleEnd where
  /-- the end of `main` -/
  | finished
  /-- A store outside of an array, behind which C++ defines nothing. -/
  | overrun
  deriving DecidableEq

/-- What the program does, in order. -/
inductive ExampleAction where
  /-- "command sent:", and `write` is called for the command. -/
  | wrote (command : List UInt8)
  /-- A tab and the command are printed. -/
  | echoed (command : List UInt8)
  /-- "write error" -/
  | writeError
  /-- "response received: ", and `read` is called for the answer. -/
  | awaited
  /-- `read` has put these bytes into the array. -/
  | read (fifo : Fifo) (chunk : List UInt8)
  /-- `message[place] = '\0'` -/
  | terminated (fifo : Fifo) (place : Nat)
  /-- The string is printed, an answer with a tab in front of it. -/
  | printed (fifo : Fifo) (messageStr : List UInt8)
  /-- "EOF, connection closed" -/
  | closed (fifo : Fifo)
  /-- "read error: " -/
  | readError (fifo : Fifo) (errno : Int)
  deriving DecidableEq

/-- `sendCommand` -/
def sendCommand (command : List UInt8) (writtenBytes : Int) : List ExampleAction :=
  [.wrote command, if writtenBytes ≠ command.length then .writeError else .echoed command]

/--
What both readers do with the bytes that `read` has put into the array.

A zero is stored behind them, and the string printed is what the array holds before its first zero.
-/
def printMessage (fifo : Fifo) (message : Buffer UInt8 messageSize) (chunk : List UInt8) :
    Except ExampleEnd (Buffer UInt8 messageSize × List UInt8) × List ExampleAction :=
  match message.terminate 0 chunk with
  | some (message, messageStr) =>
    (.ok (message, messageStr),
      [.read fifo chunk, .terminated fifo chunk.length, .printed fifo messageStr])
  | none => (.error .overrun, [.read fifo chunk, .terminated fifo chunk.length])

/-- `waitForResponse`, with the string it returns. -/
def waitForResponse (message : Buffer UInt8 messageSize) :
    FifoRead → Except ExampleEnd (List UInt8) × List ExampleAction
  -- Without an answer the string stays empty.
  | .closed => (.ok [], [.awaited, .closed .mosi])
  | .bytes chunk _ _ =>
    let (result, actions) := printMessage .mosi message chunk
    (result.map Prod.snd, .awaited :: actions)
  | .failed errno => (.ok [], [.awaited, .readError .mosi errno])

/-- A command and its answer, at the start or in the loop that polls the status. -/
def commandTurn (v : ExampleVars) (turn : ExampleTurn) :
    Except ExampleEnd ExampleVars × List ExampleAction :=
  let (response, actions) := waitForResponse turn.stack turn.read
  match v.commands with
  | command :: rest =>
    -- The answers to the first commands are printed and forgotten.
    (response.map fun _ => { v with commands := rest },
      sendCommand command turn.writtenBytes ++ actions)
  | [] =>
    (response.map fun status => if operational <:+: status then { v with warmup := false } else v,
      sendCommand getStatus turn.writtenBytes ++ actions)

/-- One turn of the passive loop. -/
def passiveTurn (v : ExampleVars) :
    FifoRead → Except ExampleEnd ExampleVars × List ExampleAction
  | .closed => (.error .finished, [.closed .passive])
  | .bytes chunk _ _ =>
    let (result, actions) := printMessage .passive v.message chunk
    (result.map fun printed => { v with message := printed.1 }, actions)
  -- The loop tries again behind an error.
  | .failed errno => (.ok v, [.readError .passive errno])

/-- What `main` does with one `read`. -/
def exampleTurn (v : ExampleVars) (turn : ExampleTurn) :
    Except ExampleEnd ExampleVars × List ExampleAction :=
  if v.warmup then commandTurn v turn else passiveTurn v turn.read

/-- `main`, from its first command on. -/
def exampleMain : Transducer (Except ExampleEnd ExampleVars) ExampleTurn ExampleAction :=
  .stopping exampleTurn

end Esme
