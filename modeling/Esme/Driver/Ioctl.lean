import Esme.Driver.Callback
import Esme.Stream.Guarded

/-! `rpmsg_ioctl`, statement by statement and for any number of calls, beside the callback. -/

namespace Esme

/-- `CameraStatus` -/
structure CameraStatus where
  errorReg : UInt8
  syncCount : UInt16
  serialNumber : UInt64
  deriving DecidableEq

/-- The commands of `lepton_ioctl_header.h`, the first with the config copied from the user. -/
inductive Command where
  /-- `ESME_IOC_SET_CONFIG` -/
  | setConfig (cameraConfig : LeptonCameraConfigData)
  /-- `ESME_IOC_GET_CONFIG` -/
  | getConfig
  /-- `ESME_IOC_GET_STATUS` -/
  | getStatus
  deriving DecidableEq

/-- What a call copies to the user. -/
inductive UserData where
  | config (cameraConfig : LeptonCameraConfigData)
  | status (cameraStatus : CameraStatus)
  deriving DecidableEq

namespace Command

/-- The packet a command sends. -/
def pkt : Command → ConfigPacket
  | .setConfig cameraConfig =>
    { ConfigPacket.zero with packetType := packetA55M33ConfigSet, config := cameraConfig }
  -- The two others send the same request.
  | .getConfig => { ConfigPacket.zero with packetType := packetA55M33ConfigGet }
  | .getStatus => { ConfigPacket.zero with packetType := packetA55M33ConfigGet }

/-- Whether a command calls `reinit_completion` before it sends. -/
def reinits : Command → Bool
  -- "re-init the completion and send" stands in the branches of the two others only.
  | .setConfig _ => false
  | .getConfig => true
  | .getStatus => true

/-- The fields of one packet that a command copies. -/
def fields (configPacket : ConfigPacket) : Command → UserData
  | .setConfig _ => .config configPacket.config
  | .getConfig => .config configPacket.config
  | .getStatus => .status {
      errorReg := configPacket.errorReg
      syncCount := configPacket.syncCount
      serialNumber := configPacket.serialNumber }

end Command

/-- A message the callback takes for a reply of the MCU. -/
def IsConfigReply (data : Message) : Prop :=
  -- The test that the callback makes first.
  data.length = ConfigPacket.size ∧ data.getD 0 0 = packetM33A55ConfigSend

instance : DecidablePred IsConfigReply := fun _ => inferInstanceAs (Decidable (_ ∧ _))

/-- `configPacket = *(ConfigPacket *)data` -/
def storeConfigPacket {layout : Layout} (s : DriverState layout) (configPacket : ConfigPacket) :
    DriverState layout :=
  { s with configPacket := configPacket }

/-- `complete(&rpmsg_config_got)` -/
def completeConfig {layout : Layout} (s : DriverState layout) : DriverState layout :=
  { s with rpmsgConfigGot := complete s.rpmsgConfigGot }

/-- `reinit_completion` -/
def reinitCompletion {layout : Layout} (s : DriverState layout) : DriverState layout :=
  { s with rpmsgConfigGot := 0 }

/-- What a wait that passes leaves of the counter, which is not counted down from its maximum. -/
def passCompletion {layout : Layout} (s : DriverState layout) : DriverState layout :=
  -- The largest value stands for a completion that lets everybody pass.
  { s with
    rpmsgConfigGot :=
      if s.rpmsgConfigGot = completionMax then s.rpmsgConfigGot else s.rpmsgConfigGot - 1 }

/-- Where a call of `rpmsg_ioctl` is. -/
inductive CallPc where
  /-- behind the `NULL` check and, for the first command, `copy_from_user` or before it -/
  | entered
  /-- behind `reinit_completion` -/
  | ready
  /-- behind `rpmsg_send`, in `wait_for_completion_interruptible` -/
  | waiting
  /-- behind the wait, before `configPacket` is read -/
  | woken
  /-- behind the first of the three assignments of the status -/
  | readErrorReg (errorReg : UInt8)
  /-- behind the second of them -/
  | readSyncCount (errorReg : UInt8) (syncCount : UInt16)
  /-- before `copy_to_user` of these fields -/
  | holding (data : UserData)
  | returned
  deriving DecidableEq

/-- Where a command is when it sends. -/
def Command.sendsFrom (command : Command) : CallPc := if command.reinits then .ready else .entered

/-- One call of `rpmsg_ioctl`. -/
structure IoctlCall where
  command : Command
  pc : CallPc
  deriving DecidableEq

/-- A packet on its way, with the call that it was sent for, or none for the request of probe. -/
structure TaggedPacket where
  origin : Option Nat
  packet : ConfigPacket
  deriving DecidableEq

/-- The driver, the two directions of the channel, and all calls so far by their number. -/
structure IoctlState (layout : Layout) where
  driver : DriverState layout
  /-- sent to the MCU and not answered yet -/
  requests : List TaggedPacket
  /-- answered by the MCU and not handed to the callback yet -/
  replies : List TaggedPacket
  /-- the callback has stored a config packet and calls `complete` next -/
  completing : Bool
  calls : List IoctlCall

variable {layout : Layout}

/-- The state that a successful probe leaves, from any state of the static variables. -/
def IoctlState.probed (driver : DriverState layout) : IoctlState layout :=
  -- `configPacket` itself is used for the initial request.
  let configPacket := { ConfigPacket.zero with packetType := packetA55M33ConfigGet }
  { driver := { driver with configPacket := configPacket }
    requests := [⟨none, configPacket⟩]
    replies := []
    completing := false
    calls := [] }

/-- A call moves on. -/
def IoctlState.move (s : IoctlState layout) (call : Nat) (command : Command) (pc : CallPc) :
    IoctlState layout :=
  -- A call keeps its number and its command.
  { s with calls := s.calls.set call ⟨command, pc⟩ }

/-- The outcome of a call: zero and what was copied to the user, or an error. -/
inductive IoctlResult where
  | ok (data : UserData)
  | failed (errno : Int)
  deriving DecidableEq

/-- What a call can do next, or what can be done to it. -/
inductive CallStep where
  | reinit
  /-- `rpmsg_send` returns 0 -/
  | send
  | sendFails (errno : Int)
  /-- the wait passes -/
  | pass
  /-- the wait is interrupted by a signal -/
  | interrupt
  /-- one assignment from `configPacket` -/
  | read
  /-- `copy_to_user` succeeds -/
  | finish
  /-- `copy_from_user` or `copy_to_user` fails -/
  | fault
  deriving DecidableEq

/-- What can happen next; calls are named by their number. -/
inductive IoctlEvent where
  /-- a new call passes the `NULL` check -/
  | enter (command : Command)
  | step (call : Nat) (step : CallStep)
  /-- the MCU answers the oldest request -/
  | answer (packet : ConfigPacket)
  /-- the callback is handed the oldest reply, and stores it -/
  | deliver
  /-- the callback is handed some other message -/
  | message (data : Message)
  /-- the callback calls `complete` for the packet that it has stored -/
  | complete
  deriving DecidableEq

/-- What happens, as far as it concerns calls and packets. -/
inductive IoctlAction where
  | reinit (call : Nat)
  /-- the MCU answered the request of a call, or of probe -/
  | answered (origin : Option Nat) (packet : ConfigPacket)
  /-- the callback stored a config packet -/
  | received (packet : ConfigPacket)
  /-- a call has read all that it copies of `configPacket` -/
  | read (call : Nat)
  | returned (call : Nat) (command : Command) (result : IoctlResult)
  deriving DecidableEq

/-- What an assignment from `configPacket` leads a call to, if there is one where the call is. -/
def Command.readNext (configPacket : ConfigPacket) : Command → CallPc → Option CallPc
  -- The config is one variable, and the status has its three fields assigned one by one.
  | .setConfig _, .woken => some (.holding (.config configPacket.config))
  | .getConfig, .woken => some (.holding (.config configPacket.config))
  | .getStatus, .woken => some (.readErrorReg configPacket.errorReg)
  | .getStatus, .readErrorReg errorReg => some (.readSyncCount errorReg configPacket.syncCount)
  | .getStatus, .readSyncCount errorReg syncCount =>
    some (.holding (.status {
      errorReg := errorReg
      syncCount := syncCount
      serialNumber := configPacket.serialNumber }))
  | _, _ => none

/-- What a step does to a call, if the call is at a place where it is possible. -/
def callStep (s : IoctlState layout) (call : Nat) (command : Command) (pc : CallPc) :
    CallStep → Option (IoctlState layout × List IoctlAction)
  | .reinit =>
    if pc = .entered ∧ command.reinits then
      some ({ s.move call command .ready with driver := reinitCompletion s.driver }, [.reinit call])
    else none
  | .send =>
    if pc = command.sendsFrom then
      some ({ s.move call command .waiting with
        requests := s.requests ++ [⟨some call, command.pkt⟩] }, [])
    else none
  | .sendFails errno =>
    if pc = command.sendsFrom ∧ errno ≠ 0 then
      -- The request is not on the channel, and the counter stays as it was.
      some (s.move call command .returned, [.returned call command (.failed errno)])
    else none
  | .pass =>
    if pc = .waiting ∧ 0 < s.driver.rpmsgConfigGot then
      -- Any waiting call may take a credit, whoever it was counted for.
      some ({ s.move call command .woken with driver := passCompletion s.driver }, [])
    else none
  | .interrupt =>
    if pc = .waiting then
      some (s.move call command .returned, [.returned call command (.failed (-eintr))])
    else none
  | .read =>
    match command.readNext s.driver.configPacket pc with
    | some (.holding data) => some (s.move call command (.holding data), [.read call])
    | some next => some (s.move call command next, [])
    | none => none
  | .finish =>
    match pc with
    | .holding data =>
      some (s.move call command .returned, [.returned call command (.ok data)])
    | _ => none
  | .fault =>
    match pc with
    | .entered =>
      -- Only the first command copies anything from the user.
      if command.reinits then none
      else some (s.move call command .returned, [.returned call command (.failed (-efault))])
    | .holding _ =>
      some (s.move call command .returned, [.returned call command (.failed (-efault))])
    | _ => none

/-- One step of a call, of the MCU or of the callback. -/
def ioctlStep (s : IoctlState layout) :
    IoctlEvent → Option (IoctlState layout × List IoctlAction)
  | .enter command => some ({ s with calls := s.calls ++ [⟨command, .entered⟩] }, [])
  | .step call step =>
    match s.calls[call]? with
    | some known => callStep s call known.command known.pc step
    | none => none
  | .answer packet =>
    match s.requests with
    | request :: rest =>
      -- One reply for each request, in the order in which they were sent.
      some ({ s with requests := rest, replies := s.replies ++ [⟨request.origin, packet⟩] },
        [.answered request.origin packet])
    | [] => none
  | .deliver =>
    -- The callback is called for one message after another.
    if s.completing then none
    else match s.replies with
      | reply :: rest =>
        some ({ s with
          replies := rest
          driver := storeConfigPacket s.driver reply.packet
          completing := true }, [.received reply.packet])
      | [] => none
  | .message data =>
    if s.completing then none
    else if IsConfigReply data then
      -- A config packet that nobody asked for.
      some ({ s with
        driver := storeConfigPacket s.driver (ConfigPacket.ofBytes data)
        completing := true }, [.received (ConfigPacket.ofBytes data)])
    else
      -- Frame packets and bad packets have nothing that a call looks at.
      some ({ s with driver := ((rpmsgEsmeCb layout).step s.driver data).1 }, [])
  | .complete =>
    if s.completing then
      some ({ s with driver := completeConfig s.driver, completing := false }, [])
    else none

/-- The calls, the MCU and the callback, in any order. -/
def ioctls (layout : Layout) : Transducer (IoctlState layout) IoctlEvent IoctlAction :=
  .guarded ioctlStep

end Esme
