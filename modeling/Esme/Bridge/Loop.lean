import Esme.Bridge.Package
import Esme.Bridge.Slip
import Esme.Bridge.Write
import Esme.Memory.Buffer
import Esme.Stream.Tracking

/-! The main loop of the bridge: its variables and what one epoll event does to them. -/

namespace Esme

/-- `BUFFER_SIZE` -/
def bufferSize : Nat := 4096

/-- `EPOLLIN` -/
def epollIn : UInt32 := 0x001

/-- `EPOLLRDHUP` -/
def epollRdhup : UInt32 := 0x2000

/-- What a `read` or `recv` that returns something fills the buffer with. -/
structure Chunk where
  bytes : List UInt8
  nonempty : bytes ≠ [] := by decide
  fits : bytes.length ≤ bufferSize := by decide
  deriving DecidableEq

/-- The outcome of `read` or `recv`: some bytes, the end of the stream, or -1. -/
inductive ReadResult where
  | data (chunk : Chunk)
  | eof
  | failed (errno : Int)
  deriving DecidableEq

/-- One entry of `events`, with what the call its branch makes returns. -/
structure EpollEvent where
  fd : Int
  evmask : UInt32
  /-- the descriptor `accept` returns, negative when it fails -/
  accept : Int
  /-- what `read` or `recv` returns -/
  read : ReadResult
  deriving DecidableEq

/-- The descriptors set up before the loop, the JSON library, and how writes end. -/
structure Host where
  json : JsonLibrary
  serverFd : Int
  fifoMosi : Int
  fifoMiso : Int
  fifoPassive : Int
  /-- the outcomes of the calls of `write` for each forwarded message -/
  writes : Nat → Nat → WriteResult

/-- Where a message is written. -/
inductive Peer where
  | miso
  | client
  deriving DecidableEq

/-- The calls and results of the bridge that others can see; connections are numbered from 1. -/
inductive Action where
  /-- `accept` returned a descriptor -/
  | accepted (connection : Nat) (fd : Int)
  | closed (fd : Int)
  /-- `epoll_ctl` with `EPOLL_CTL_ADD` -/
  | registered (fd : Int) (events : UInt32)
  /-- `recv` returned some bytes -/
  | received (connection : Nat) (fd : Int) (bytes : List UInt8)
  /-- a packet was handed to `processPackage` -/
  | processed (connection : Nat) (packet : List UInt8)
  /-- `read` of `mosi.fifo` returned some bytes, kept only for a connected client -/
  | readMosi (kept : Bool) (bytes : List UInt8)
  /-- a line was passed to `json::parse` -/
  | parsed (text : List UInt8)
  /-- `write_all_nonblocking` returned: what was taken of the message, and the value returned -/
  | wrote (index : Nat) (peer : Peer) (connection : Nat) (fd : Int) (message taken : List UInt8)
    (returned : Bool)
  | readPassive (bytes : List UInt8)
  deriving DecidableEq

/-- `FileDescriptor` -/
structure FileDescriptor where
  fd : Int
  deriving DecidableEq

/-- `valid` -/
def FileDescriptor.valid (descriptor : FileDescriptor) : Bool := 0 ≤ descriptor.fd

/-- What `reset` closes before it stores the new descriptor. -/
def FileDescriptor.close (descriptor : FileDescriptor) : List Action :=
  -- An invalid descriptor is not closed.
  if descriptor.valid then [.closed descriptor.fd] else []

/-- The variables of `main` the loop works on, and two counters that name what it does. -/
structure BridgeVars where
  clientFd : FileDescriptor
  buffer : Buffer UInt8 bufferSize
  buffer2 : List UInt8
  rxPacket : List UInt8
  txPacket : List UInt8
  slipEscaped : Bool
  /-- how many clients have been accepted -/
  connection : Nat
  /-- how many messages have been written -/
  messages : Nat
  deriving DecidableEq

/-- The variables as they are before the first event. -/
def BridgeVars.initial : BridgeVars where
  -- `client_fd` is default-constructed.
  clientFd := ⟨-1⟩
  buffer := Buffer.replicate _ 0
  buffer2 := []
  rxPacket := []
  txPacket := []
  slipEscaped := false
  connection := 0
  messages := 0

/-- What a step leaves: the variables, or the exception that ended the process. -/
abbrev Outcome := Except JsonException BridgeVars

/-- `write_all_nonblocking` of the next message. -/
def writeMessage (host : Host) (v : BridgeVars) (peer : Peer) (fd : Int)
    (message : List UInt8) : BridgeVars × Action :=
  -- The value returned only decides what is logged, so the caller goes on either way.
  let result := writeAllNonblocking (host.writes v.messages) message
  ({ v with messages := v.messages + 1 },
    .wrote v.messages peer v.connection fd message result.1 result.2)

/-- `buffer` filled by a read and appended to `buffer2`. -/
def readInto (v : BridgeVars) (chunk : Chunk) : BridgeVars :=
  -- The bytes are first read into `buffer` and then pushed to `buffer2` one by one.
  let buffer := v.buffer.blit 0 chunk.bytes
  { v with
    buffer := buffer
    buffer2 := v.buffer2 ++ buffer.toList.take chunk.bytes.length }

/-- `buffer2.clear()` -/
def clearBuffer2 (v : BridgeVars) : BridgeVars := { v with buffer2 := [] }

/-- A fully received packet: processed, dumped outside any `try`, and written as one line. -/
def forwardPacket (host : Host) (v : BridgeVars) : Outcome × List Action :=
  -- `rx_packet` is cleared before `dump` can throw.
  let res := processPackage host.json v.rxPacket
  let processed := Action.processed v.connection v.rxPacket
  let v := { v with rxPacket := [] }
  match dump host.json.dumpFloat res with
  | .error error => (.error error, [processed])
  | .ok str =>
    let jsonData := str ++ [newline]
    let (v, wrote) := writeMessage host v .miso host.fifoMiso jsonData
    (.ok v, [processed, wrote])

/-- The branches for a byte that is not `SLIP_ESC`. -/
def receiveUnescaped (host : Host) (v : BridgeVars) (byte : UInt8) : Outcome × List Action :=
  -- An unknown byte behind an escape is dropped; an end byte ends the packet in any state.
  if byte = slipEnd then
    if 0 < v.rxPacket.length then forwardPacket host v else (.ok v, [])
  else if v.slipEscaped then
    if byte = slipEscEnd then (.ok { v with rxPacket := v.rxPacket ++ [slipEnd] }, [])
    else if byte = slipEscEsc then (.ok { v with rxPacket := v.rxPacket ++ [slipEsc] }, [])
    else (.ok v, [])
  else (.ok { v with rxPacket := v.rxPacket ++ [byte] }, [])

/-- One turn of the loop over the received bytes. -/
def receiveByte (host : Host) (v : BridgeVars) (byte : UInt8) : Outcome × List Action :=
  -- Every other byte ends an escape, also when it was none that an escape stands for.
  if byte = slipEsc then (.ok { v with slipEscaped := true }, [])
  else
    let (result, actions) := receiveUnescaped host v byte
    (result.map fun v => { v with slipEscaped := false }, actions)

/-- The loop over the received bytes. -/
def receiveLoop (host : Host) : Transducer Outcome UInt8 Action := .stopping (receiveByte host)

/-- What is done with some bytes received from the client. -/
def receiveChunk (host : Host) (v : BridgeVars) (chunk : Chunk) : Outcome × List Action :=
  let received := Action.received v.connection v.clientFd.fd chunk.bytes
  let v := readInto v chunk
  (((receiveLoop host).final (.ok v) v.buffer2).map clearBuffer2,
    received :: (receiveLoop host).output (.ok v) v.buffer2)

/-- A complete line: parsed outside any `try`, and written as one SLIP frame of CBOR. -/
def forwardLine (host : Host) (v : BridgeVars) : Outcome × List Action :=
  -- `parse` throws before `tx_packet` is cleared.
  match host.json.parse v.txPacket with
  | .error error => (.error error, [.parsed v.txPacket])
  | .ok j =>
    let vCbor := host.json.toCbor j
    let vSlip := slipEncoding vCbor
    let (v', wrote) := writeMessage host v .client v.clientFd.fd vSlip
    (.ok { v' with txPacket := [] }, [.parsed v.txPacket, wrote])

/-- One turn of the loop over the bytes read from `mosi.fifo`. -/
def mosiByte (host : Host) (v : BridgeVars) (byte : UInt8) : Outcome × List Action :=
  -- Empty lines are skipped.
  if byte = newline then
    if 0 < v.txPacket.length then forwardLine host v else (.ok v, [])
  else (.ok { v with txPacket := v.txPacket ++ [byte] }, [])

/-- The loop over the bytes read from `mosi.fifo`. -/
def mosiLoop (host : Host) : Transducer Outcome UInt8 Action := .stopping (mosiByte host)

/-- What is done with some bytes read from `mosi.fifo`. -/
def mosiChunk (host : Host) (v : BridgeVars) (chunk : Chunk) : Outcome × List Action :=
  if v.clientFd.valid then
    let v := readInto v chunk
    (((mosiLoop host).final (.ok v) v.buffer2).map clearBuffer2,
      .readMosi true chunk.bytes :: (mosiLoop host).output (.ok v) v.buffer2)
  else
    -- Without a client the bytes are left in `buffer` and overwritten by the next read.
    (.ok { v with buffer := v.buffer.blit 0 chunk.bytes }, [.readMosi false chunk.bytes])

/-- The branch for a new client. -/
def acceptClient (v : BridgeVars) (newfd : Int) : Outcome × List Action :=
  -- `reset` closes the connection there was, whose packet and escape state are kept.
  if 0 ≤ newfd then
    (.ok { v with clientFd := ⟨newfd⟩, connection := v.connection + 1 },
      .accepted (v.connection + 1) newfd :: v.clientFd.close ++
        [.registered newfd (epollIn ||| epollRdhup)])
  else (.ok v, [])

/-- `client_fd.reset()` -/
def dropClient (v : BridgeVars) : Outcome × List Action :=
  (.ok { v with clientFd := ⟨-1⟩ }, v.clientFd.close)

/-- The branch for the connected client. -/
def clientEvent (host : Host) (v : BridgeVars) (event : EpollEvent) : Outcome × List Action :=
  -- A hang-up is handled before the bytes that may still be unread.
  if event.evmask &&& epollRdhup ≠ 0 then dropClient v
  else
    match event.read with
    | .data chunk => receiveChunk host v chunk
    | .eof => dropClient v
    | .failed _ => (.ok v, [])

/-- The branch for `mosi.fifo`. -/
def mosiEvent (host : Host) (v : BridgeVars) (event : EpollEvent) : Outcome × List Action :=
  -- The end of the stream and an error are handled as no bytes at all.
  match event.read with
  | .data chunk => mosiChunk host v chunk
  | _ => (.ok v, [])

/-- The branch for `passive.fifo`, which is read and discarded. -/
def passiveEvent (v : BridgeVars) (event : EpollEvent) : Outcome × List Action :=
  match event.read with
  | .data chunk =>
    (.ok { v with buffer := v.buffer.blit 0 chunk.bytes }, [.readPassive chunk.bytes])
  | _ => (.ok v, [])

/-- The body of the loop over `events`, in the order the descriptors are compared. -/
def handleEvent (host : Host) (v : BridgeVars) (event : EpollEvent) : Outcome × List Action :=
  -- An event for a descriptor that is none of these is ignored.
  if event.fd = host.serverFd then acceptClient v event.accept
  else if event.fd = host.fifoMosi then mosiEvent host v event
  else if v.clientFd.valid ∧ event.fd = v.clientFd.fd then clientEvent host v event
  else if event.fd = host.fifoPassive then passiveEvent v event
  else (.ok v, [])

/-- The main loop, over the events of one `epoll_wait` after another. -/
def eventLoop (host : Host) : Transducer Outcome EpollEvent Action := .stopping (handleEvent host)

end Esme
