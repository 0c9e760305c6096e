import Esme.Driver.Ioctl
import Esme.Stream.Slots

/-! What one step of the calls, the MCU or the callback can do. -/

namespace Esme

open Transducer Slots

variable {layout : Layout}

/-- What holds of every call still does when one call moves to a place where it holds too. -/
theorem forall_move {holds : Nat → Command → CallPc → Prop} {s : IoctlState layout} {call : Nat}
    {command : Command} {pc : CallPc}
    (others : ∀ number known place, number ≠ call → s.calls[number]? = some ⟨known, place⟩ →
      holds number known place) (moved : holds call command pc) :
    ∀ number known place, (s.move call command pc).calls[number]? = some ⟨known, place⟩ →
      holds number known place := by
  -- The calls are slots, each with its command and its place in it.
  intro number known place found
  have all := @forall_set IoctlCall (fun number item => holds number item.command item.pc)
    s.calls call ⟨command, pc⟩ (fun number item => others number item.command item.pc) moved
  exact all number ⟨known, place⟩ found

/-- What holds of every call still does when a new call enters where it holds. -/
theorem forall_enter {holds : Nat → Command → CallPc → Prop} {s : IoctlState layout}
    {command : Command}
    (others : ∀ number known place, s.calls[number]? = some ⟨known, place⟩ →
      holds number known place) (entered : holds s.calls.length command .entered) :
    ∀ number known place, (s.calls ++ [⟨command, .entered⟩])[number]? = some ⟨known, place⟩ →
      holds number known place := by
  -- A new call is one more slot behind the others.
  intro number known place found
  have all := @forall_concat IoctlCall (fun number item => holds number item.command item.pc)
    s.calls ⟨command, .entered⟩ (fun number item => others number item.command item.pc) entered
  exact all number ⟨known, place⟩ found

/-- A message that is no config reply leaves the config packet and the counter alone. -/
structure Spares (before after : DriverState layout) : Prop where
  packet : after.configPacket = before.configPacket
  counter : after.rpmsgConfigGot = before.rpmsgConfigGot

/-- Storing a frame packet leaves the config packet and the counter alone. -/
theorem storePacket_spares (s : DriverState layout) :
    Spares s (storePacket s).1 ∧ .complete ∉ (storePacket s).2 := by
  unfold storePacket
  dsimp only
  -- Each branch writes only to variables of the frame.
  split
  · exact ⟨⟨rfl, rfl⟩, by simp⟩
  split
  · exact ⟨⟨rfl, rfl⟩, by simp⟩
  split
  · exact ⟨⟨rfl, rfl⟩, by simp⟩
  · exact ⟨⟨rfl, rfl⟩, by simp⟩

/-- A frame packet leaves the config packet and the counter alone. -/
theorem receiveFramePacket_spares (s : DriverState layout) (packet : FramePacket layout) :
    Spares s (receiveFramePacket s packet).1 ∧ .complete ∉ (receiveFramePacket s packet).2 := by
  rcases receiveFramePacket_cases s packet with refused | ⟨t, stored, same⟩
  · rw [refused]
    exact ⟨⟨rfl, rfl⟩, by simp⟩
  · -- Only variables of the frame are set before the packet is stored.
    obtain ⟨_, _, _, rfl⟩ := storedIn_eq stored
    obtain ⟨⟨config, counter⟩, silent⟩ := @storePacket_spares layout _
    rw [same]
    exact ⟨⟨config, counter⟩, silent⟩

/-- A config reply gets to the branch for config replies. -/
theorem rpmsgEsmeCb_config (s : DriverState layout) {data : Message}
    (config : IsConfigReply data) :
    (rpmsgEsmeCb layout).step s data = receiveConfigPacket s (ConfigPacket.ofBytes data) :=
  if_pos config

/-- Every other message leaves the config packet and the counter alone. -/
theorem rpmsgEsmeCb_spares (s : DriverState layout) {data : Message}
    (config : ¬IsConfigReply data) :
    Spares s ((rpmsgEsmeCb layout).step s data).1 ∧
      .complete ∉ ((rpmsgEsmeCb layout).step s data).2 := by
  have other : ¬(data.length = ConfigPacket.size ∧ data.getD 0 0 = packetM33A55ConfigSend) :=
    config
  simp only [rpmsgEsmeCb, if_neg other]
  -- It is a frame packet, or it is rejected.
  split
  · rename_i frame
    exact receiveFramePacket_spares s (FramePacket.ofBytes data frame.1)
  · exact ⟨⟨rfl, rfl⟩, by simp⟩

/-- The two statements of the branch for config replies, one after the other. -/
theorem receiveConfigPacket_eq (s : DriverState layout) (packet : ConfigPacket) :
    receiveConfigPacket s packet =
      (completeConfig (storeConfigPacket s packet), [.complete, .returned 0]) := rfl

/-- Where nothing comes between its steps, the callback does what it does at once. -/
theorem message_complete (s : IoctlState layout) (idle : s.completing = false) (data : Message) :
    (ioctls layout).final s [.message data, .complete] =
      { s with driver := ((rpmsgEsmeCb layout).step s.driver data).1 } := by
  obtain ⟨driver, requests, replies, completing, calls⟩ := s
  dsimp only at idle
  subst idle
  -- For a message that is no config reply there is nothing to complete.
  by_cases config : IsConfigReply data
  · rw [rpmsgEsmeCb_config driver config, receiveConfigPacket_eq]
    simp [ioctls, guarded, ioctlStep, config]
  · simp [ioctls, guarded, ioctlStep, config]

/-- A call that is about to send neither waits nor has returned. -/
theorem Command.sendsFrom_going (command : Command) :
    command.sendsFrom ≠ .waiting ∧ command.sendsFrom ≠ .returned := by
  unfold Command.sendsFrom
  -- It has just come, or it has re-initialised the completion.
  split
  · exact ⟨by simp, by simp⟩
  · exact ⟨by simp, by simp⟩

/-- What a step can do, case by case. -/
inductive IoctlMoves (s : IoctlState layout) :
    IoctlEvent → IoctlState layout → List IoctlAction → Prop where
  | enter (command : Command) :
      IoctlMoves s (.enter command) { s with calls := s.calls ++ [⟨command, .entered⟩] } []
  | reinit (call : Nat) (command : Command) (known : s.calls[call]? = some ⟨command, .entered⟩)
      (reinits : command.reinits = true) :
      IoctlMoves s (.step call .reinit)
        { s.move call command .ready with driver := reinitCompletion s.driver } [.reinit call]
  | send (call : Nat) (command : Command)
      (known : s.calls[call]? = some ⟨command, command.sendsFrom⟩) :
      IoctlMoves s (.step call .send)
        { s.move call command .waiting with
          requests := s.requests ++ [⟨some call, command.pkt⟩] } []
  /-- a failed send, an interrupted wait, or a fault -/
  | fail (call : Nat) (command : Command) (pc : CallPc) (step : CallStep) (errno : Int)
      (known : s.calls[call]? = some ⟨command, pc⟩) (going : pc ≠ .returned)
      (other : step ≠ .reinit ∧ step ≠ .send) :
      IoctlMoves s (.step call step) (s.move call command .returned)
        [.returned call command (.failed errno)]
  | pass (call : Nat) (command : Command) (known : s.calls[call]? = some ⟨command, .waiting⟩)
      (more : 0 < s.driver.rpmsgConfigGot) :
      IoctlMoves s (.step call .pass)
        { s.move call command .woken with driver := passCompletion s.driver } []
  /-- the config is read at once -/
  | read (call : Nat) (command : Command) (known : s.calls[call]? = some ⟨command, .woken⟩)
      (other : command ≠ .getStatus) :
      IoctlMoves s (.step call .read)
        (s.move call command (.holding (command.fields s.driver.configPacket))) [.read call]
  | readErrorReg (call : Nat) (known : s.calls[call]? = some ⟨.getStatus, .woken⟩) :
      IoctlMoves s (.step call .read)
        (s.move call .getStatus (.readErrorReg s.driver.configPacket.errorReg)) []
  | readSyncCount (call : Nat) (errorReg : UInt8)
      (known : s.calls[call]? = some ⟨.getStatus, .readErrorReg errorReg⟩) :
      IoctlMoves s (.step call .read)
        (s.move call .getStatus (.readSyncCount errorReg s.driver.configPacket.syncCount)) []
  | readSerialNumber (call : Nat) (errorReg : UInt8) (syncCount : UInt16)
      (known : s.calls[call]? = some ⟨.getStatus, .readSyncCount errorReg syncCount⟩) :
      IoctlMoves s (.step call .read)
        (s.move call .getStatus
          (.holding (.status ⟨errorReg, syncCount, s.driver.configPacket.serialNumber⟩)))
        [.read call]
  | finish (call : Nat) (command : Command) (data : UserData)
      (known : s.calls[call]? = some ⟨command, .holding data⟩) :
      IoctlMoves s (.step call .finish) (s.move call command .returned)
        [.returned call command (.ok data)]
  | answer (packet : ConfigPacket) (request : TaggedPacket) (rest : List TaggedPacket)
      (first : s.requests = request :: rest) :
      IoctlMoves s (.answer packet)
        { s with requests := rest, replies := s.replies ++ [⟨request.origin, packet⟩] }
        [.answered request.origin packet]
  | deliver (reply : TaggedPacket) (rest : List TaggedPacket) (idle : s.completing = false)
      (first : s.replies = reply :: rest) :
      IoctlMoves s .deliver { s with
        replies := rest
        driver := storeConfigPacket s.driver reply.packet
        completing := true } [.received reply.packet]
  | store (data : Message) (packet : ConfigPacket) (idle : s.completing = false)
      (config : IsConfigReply data) :
      IoctlMoves s (.message data) { s with
        driver := storeConfigPacket s.driver packet
        completing := true } [.received packet]
  | complete (stored : s.completing = true) :
      IoctlMoves s .complete { s with
        driver := completeConfig s.driver
        completing := false } []
  | spare (data : Message) (driver : DriverState layout) (idle : s.completing = false)
      (config : ¬IsConfigReply data) (spares : Spares s.driver driver) :
      IoctlMoves s (.message data) { s with driver := driver } []

/-- Every step of a call is one of these. -/
theorem callStep_moves {s next : IoctlState layout} {call : Nat} {command : Command} {pc : CallPc}
    {step : CallStep} {written : List IoctlAction}
    (known : s.calls[call]? = some ⟨command, pc⟩)
    (possible : callStep s call command pc step = some (next, written)) :
    IoctlMoves s (.step call step) next written := by
  -- The guard of a step says where the call is, and its result is what the case states.
  cases step with
  | reinit =>
    simp only [callStep, Option.ite_none_right_eq_some, Option.some.injEq, Prod.mk.injEq]
      at possible
    obtain ⟨⟨rfl, reinits⟩, rfl, rfl⟩ := possible
    exact .reinit call command known reinits
  | send =>
    simp only [callStep, Option.ite_none_right_eq_some, Option.some.injEq, Prod.mk.injEq]
      at possible
    obtain ⟨rfl, rfl, rfl⟩ := possible
    exact .send call command known
  | sendFails errno =>
    simp only [callStep, Option.ite_none_right_eq_some, Option.some.injEq, Prod.mk.injEq]
      at possible
    obtain ⟨⟨rfl, -⟩, rfl, rfl⟩ := possible
    exact .fail call command _ _ errno known command.sendsFrom_going.2 ⟨by simp, by simp⟩
  | pass =>
    simp only [callStep, Option.ite_none_right_eq_some, Option.some.injEq, Prod.mk.injEq]
      at possible
    obtain ⟨⟨rfl, more⟩, rfl, rfl⟩ := possible
    exact .pass call command known more
  | interrupt =>
    simp only [callStep, Option.ite_none_right_eq_some, Option.some.injEq, Prod.mk.injEq]
      at possible
    obtain ⟨rfl, rfl, rfl⟩ := possible
    exact .fail call command _ _ _ known (by simp) ⟨by simp, by simp⟩
  | read =>
    -- What can be read next depends on the command as well.
    cases command with
    | setConfig config =>
      cases pc with
      | woken =>
        cases possible
        exact .read call _ known (by simp)
      | _ => cases possible
    | getConfig =>
      cases pc with
      | woken =>
        cases possible
        exact .read call _ known (by simp)
      | _ => cases possible
    | getStatus =>
      cases pc with
      | woken =>
        cases possible
        exact .readErrorReg call known
      | readErrorReg errorReg =>
        cases possible
        exact .readSyncCount call errorReg known
      | readSyncCount errorReg syncCount =>
        cases possible
        exact .readSerialNumber call errorReg syncCount known
      | _ => cases possible
  | finish =>
    cases pc with
    | holding data =>
      cases possible
      exact .finish call command data known
    | _ => cases possible
  | fault =>
    cases pc with
    | entered =>
      simp only [callStep, Option.ite_none_left_eq_some, Option.some.injEq, Prod.mk.injEq]
        at possible
      obtain ⟨-, rfl, rfl⟩ := possible
      exact .fail call command _ _ _ known (by simp) ⟨by simp, by simp⟩
    | holding data =>
      cases possible
      exact .fail call command _ _ _ known (by simp) ⟨by simp, by simp⟩
    | _ => cases possible

/-- Every possible step is one of these. -/
theorem ioctlStep_moves {s next : IoctlState layout} {event : IoctlEvent}
    {written : List IoctlAction} (possible : ioctlStep s event = some (next, written)) :
    IoctlMoves s event next written := by
  cases event with
  -- An event that names a call, a request or a reply needs it to be there.
  | enter command =>
    cases possible
    exact .enter command
  | step call step =>
    simp only [ioctlStep] at possible
    cases found : s.calls[call]? with
    | none =>
      rw [found] at possible
      cases possible
    | some known =>
      rw [found] at possible
      exact callStep_moves found possible
  | answer packet =>
    simp only [ioctlStep] at possible
    cases pending : s.requests with
    | nil =>
      rw [pending] at possible
      cases possible
    | cons request rest =>
      rw [pending] at possible
      cases possible
      exact .answer packet request rest pending
  | deliver =>
    simp only [ioctlStep, Option.ite_none_left_eq_some, Bool.not_eq_true] at possible
    obtain ⟨idle, possible⟩ := possible
    cases pending : s.replies with
    | nil =>
      rw [pending] at possible
      cases possible
    | cons reply rest =>
      rw [pending] at possible
      cases possible
      exact .deliver reply rest idle pending
  | message data =>
    simp only [ioctlStep, Option.ite_none_left_eq_some, Bool.not_eq_true] at possible
    obtain ⟨idle, possible⟩ := possible
    split at possible
    · rename_i config
      cases possible
      exact .store data _ idle config
    · rename_i config
      cases possible
      exact .spare data _ idle config (rpmsgEsmeCb_spares s.driver config).1
  | complete =>
    simp only [ioctlStep, Option.ite_none_right_eq_some, Option.some.injEq, Prod.mk.injEq]
      at possible
    obtain ⟨stored, rfl, rfl⟩ := possible
    exact .complete stored

end Esme
