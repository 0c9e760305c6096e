import Esme.Driver.Calls
import Esme.Driver.Frames

/-! Frame packets and config replies pass through one callback without touching each other. -/

namespace Esme

variable {layout : Layout}

/-- The driver with its variables for the config replies as they are at the start. -/
def DriverState.frameSide (s : DriverState layout) : DriverState layout :=
  { s with configPacket := ConfigPacket.zero, rpmsgConfigGot := 0 }

/-- Two states that differ in the variables for the config replies at most. -/
def SameFrames (s t : DriverState layout) : Prop := s.frameSide = t.frameSide

/-- Storing a packet neither looks at the variables for the config replies nor changes them. -/
theorem storePacket_frameSide (s : DriverState layout) :
    storePacket s.frameSide = ((storePacket s).1.frameSide, (storePacket s).2) := by
  unfold storePacket DriverState.frameSide
  dsimp only
  -- The tests are on the flag and the counter, which both states have.
  split
  · rfl
  split
  · rfl
  split <;> rfl

/-- A frame packet neither looks at the variables for the config replies nor changes them. -/
theorem receiveFramePacket_frameSide (s : DriverState layout) (packet : FramePacket layout) :
    receiveFramePacket s.frameSide packet =
      ((receiveFramePacket s packet).1.frameSide, (receiveFramePacket s packet).2) := by
  -- The two tests are on variables that both states have.
  have flag : s.frameSide.packetResyncNeeded = s.packetResyncNeeded := rfl
  have counter : s.frameSide.packetCounter = s.packetCounter := rfl
  by_cases start : packet.packetCounter = 0 ∧ s.packetResyncNeeded
  · simp only [receiveFramePacket, flag, if_pos start]
    exact storePacket_frameSide { s with
      framePacket := packet
      packetCounter := packet.packetCounter
      frameCounter := packet.frameCounter
      packetResyncNeeded := false }
  by_cases mismatch : packet.packetCounter ≠ s.packetCounter
  · simp only [receiveFramePacket, flag, counter, if_neg start, if_pos mismatch]
    rfl
  · simp only [receiveFramePacket, flag, counter, if_neg start, if_neg mismatch]
    exact storePacket_frameSide { s with framePacket := packet }

/-- The callback as it is for frame packets alone. -/
def frameReceiver (layout : Layout) :
    Transducer (DriverState layout) (FramePacket layout) (CbAction layout) where
  step s packet := receiveFramePacket s packet

/-- On the frame side the callback does what it does for the frame packets alone. -/
theorem rpmsgEsmeCb_frames (layout : Layout) :
    (rpmsgEsmeCb layout).Simulates (frameReceiver layout) SameFrames (framePacketOf layout)
      publishedFrame publishedFrame := by
  -- A message is a frame packet for both sides or for none of them.
  have moves : ∀ {s t : DriverState layout}, SameFrames s t → ∀ data,
      SameFrames ((rpmsgEsmeCb layout).step s data).1
          ((frameReceiver layout).final t (framePacketOf layout data)) ∧
        ((rpmsgEsmeCb layout).step s data).2.flatMap publishedFrame =
          ((frameReceiver layout).output t (framePacketOf layout data)).flatMap
            publishedFrame := by
    intro s t same data
    rcases rpmsgEsmeCb_cases s data with ⟨none, step⟩ | ⟨packet, one, step⟩ | ⟨none, step⟩
    · -- A config reply changes only what may differ.
      rw [none, step]
      exact ⟨same, rfl⟩
    · -- Both sides are what the packet does to the variables they share.
      have both := receiveFramePacket_frameSide s packet
      rw [show s.frameSide = t.frameSide from same, receiveFramePacket_frameSide t packet,
        Prod.mk.injEq] at both
      rw [one, step, Transducer.final_cons, Transducer.output_cons]
      exact ⟨both.1.symm, by simp [frameReceiver, both.2]⟩
    · rw [none, step]
      exact ⟨same, rfl⟩
  exact ⟨fun same data => (moves same data).1, fun same data => (moves same data).2⟩

/-- Histories with the same frame packets are the same for the frame side. -/
theorem frames_same {first second : List Message} (s : DriverState layout)
    (same : framePackets layout first = framePackets layout second) :
    SameFrames ((rpmsgEsmeCb layout).final s first) ((rpmsgEsmeCb layout).final s second) ∧
      publishedDuring s first = publishedDuring s second := by
  have start : SameFrames s s := rfl
  -- Both are what the frame packets alone lead to.
  obtain ⟨last, one, other, published⟩ := (rpmsgEsmeCb_frames layout).agree start same
  exact ⟨one.trans other.symm, published⟩

/-- Two states with the same variables for the config replies. -/
def SameConfig (s t : DriverState layout) : Prop :=
  s.configPacket = t.configPacket ∧ s.rpmsgConfigGot = t.rpmsgConfigGot

/-- The config reply a message is, if it is one. -/
def configReplyOf (data : Message) : List Message := if IsConfigReply data then [data] else []

/-- The config replies among some messages, in order. -/
def configReplies (messages : List Message) : List Message := messages.flatMap configReplyOf

/-- A call of `complete` among the actions. -/
def completion : CbAction layout → List Unit
  | .complete => [()]
  | _ => []

/-- How many completions are signalled by some actions. -/
def completions (actions : List (CbAction layout)) : Nat := (actions.flatMap completion).length

/-- The callback as it is for config replies alone. -/
def configReceiver (layout : Layout) :
    Transducer (DriverState layout) Message (CbAction layout) where
  step s data := receiveConfigPacket s (ConfigPacket.ofBytes data)

/-- Actions without a completion among them signal none. -/
theorem completion_silent {actions : List (CbAction layout)} (silent : .complete ∉ actions) :
    actions.flatMap completion = [] := by
  rw [List.flatMap_eq_nil_iff]
  intro action member
  cases action with
  | complete => exact absurd member silent
  | _ => rfl

/-- On the config side the callback does what it does for the config replies alone. -/
theorem rpmsgEsmeCb_configs (layout : Layout) :
    (rpmsgEsmeCb layout).Simulates (configReceiver layout) SameConfig configReplyOf
      completion completion := by
  -- A message is a config reply for both sides or for none of them.
  have moves : ∀ {s t : DriverState layout}, SameConfig s t → ∀ data,
      SameConfig ((rpmsgEsmeCb layout).step s data).1
          ((configReceiver layout).final t (configReplyOf data)) ∧
        ((rpmsgEsmeCb layout).step s data).2.flatMap completion =
          ((configReceiver layout).output t (configReplyOf data)).flatMap completion := by
    intro s t same data
    unfold configReplyOf
    by_cases config : IsConfigReply data
    · rw [if_pos config, rpmsgEsmeCb_config s config, Transducer.final_cons,
        Transducer.output_cons]
      -- The counter grows from the same value.
      exact ⟨⟨rfl, congrArg complete same.2⟩, by simp [configReceiver, receiveConfigPacket]⟩
    · obtain ⟨⟨kept, counted⟩, silent⟩ := rpmsgEsmeCb_spares s config
      rw [if_neg config]
      exact ⟨⟨kept.trans same.1, counted.trans same.2⟩, completion_silent silent⟩
  exact ⟨fun same data => (moves same data).1, fun same data => (moves same data).2⟩

/-- Histories with the same config replies are the same for the config side. -/
theorem configs_same {first second : List Message} (s : DriverState layout)
    (same : configReplies first = configReplies second) :
    SameConfig ((rpmsgEsmeCb layout).final s first) ((rpmsgEsmeCb layout).final s second) ∧
      completions ((rpmsgEsmeCb layout).output s first) =
        completions ((rpmsgEsmeCb layout).output s second) := by
  have start : SameConfig s s := ⟨rfl, rfl⟩
  -- Both are what the config replies alone lead to.
  obtain ⟨last, one, other, signalled⟩ := (rpmsgEsmeCb_configs layout).agree start same
  exact ⟨⟨one.1.trans other.1.symm, one.2.trans other.2.symm⟩, congrArg List.length signalled⟩

/-- The callback returned one of its two errors. -/
def Rejected (actions : List (CbAction layout)) : Prop :=
  .returned (-einval) ∈ actions ∨ .returned (-eio) ∈ actions

/-- Storing a packet is no rejection. -/
theorem storePacket_not_rejected (s : DriverState layout) : ¬Rejected (storePacket s).2 := by
  unfold storePacket Rejected
  dsimp only
  -- Every branch returns zero.
  split
  · simp [einval, eio]
  split
  · simp [einval, eio]
  split <;> simp [einval, eio]

/-- A rejected message is at most remembered as the last packet and in the flag. -/
theorem rejected_unchanged {s : DriverState layout} {message : Message}
    (rejected : Rejected ((rpmsgEsmeCb layout).step s message).2) :
    (∃ framePacket packetResyncNeeded, ((rpmsgEsmeCb layout).step s message).1 =
        { s with framePacket := framePacket, packetResyncNeeded := packetResyncNeeded }) ∧
      ∃ err, ((rpmsgEsmeCb layout).step s message).2 = [.returned err] := by
  rcases rpmsgEsmeCb_cases s message with ⟨-, step⟩ | ⟨packet, -, step⟩ | ⟨-, step⟩
  · rw [step] at rejected
    simp [Rejected, receiveConfigPacket, einval, eio] at rejected
  · rw [step] at rejected ⊢
    rcases receiveFramePacket_cases s packet with refused | ⟨t, -, same⟩
    · rw [refused]
      exact ⟨⟨packet, true, rfl⟩, -eio, rfl⟩
    · rw [same] at rejected
      exact absurd rejected (storePacket_not_rejected t)
  · rw [step]
    exact ⟨⟨s.framePacket, s.packetResyncNeeded, rfl⟩, -einval, rfl⟩

/--
Frame packets and config replies do not interfere, and rejected messages do nothing to either.

The frame side depends on the frame packets alone, and the config side on the config replies.
-/
theorem traffic_separate (s : DriverState lepton) (first second : List Message)
    (message : Message) :
    let one := (rpmsgEsmeCb lepton).final s first
    let other := (rpmsgEsmeCb lepton).final s second
    let next := ((rpmsgEsmeCb lepton).step s message).1
    (framePackets lepton first = framePackets lepton second →
      publishedDuring s first = publishedDuring s second ∧
        one.packetCounter = other.packetCounter ∧ one.frameCounter = other.frameCounter ∧
        one.packetResyncNeeded = other.packetResyncNeeded ∧ one.frameData = other.frameData) ∧
      (configReplies first = configReplies second →
        one.configPacket = other.configPacket ∧
          completions ((rpmsgEsmeCb lepton).output s first) =
            completions ((rpmsgEsmeCb lepton).output s second)) ∧
      (Rejected ((rpmsgEsmeCb lepton).step s message).2 →
        next.frameData = s.frameData ∧ next.frameDataReadout = s.frameDataReadout ∧
          next.dataReady = s.dataReady ∧ next.packetCounter = s.packetCounter ∧
          next.frameCounter = s.frameCounter ∧ next.configPacket = s.configPacket ∧
          next.rpmsgConfigGot = s.rpmsgConfigGot ∧
          completions ((rpmsgEsmeCb lepton).step s message).2 = 0) := by
  intro one other next
  refine ⟨fun same => ?_, fun same => ?_, fun rejected => ?_⟩
  · obtain ⟨alike, published⟩ := frames_same s same
    -- The variables of the frame side are read off the equal states.
    simp only [SameFrames, DriverState.frameSide, DriverState.mk.injEq] at alike
    obtain ⟨data, -, -, counter, frame, flag, -⟩ := alike
    exact ⟨published, counter, frame, flag, data⟩
  · obtain ⟨alike, signalled⟩ := configs_same s same
    exact ⟨alike.1, signalled⟩
  · obtain ⟨⟨framePacket, flag, kept⟩, err, returned⟩ := rejected_unchanged rejected
    rw [show next = _ from kept, returned]
    exact ⟨rfl, rfl, rfl, rfl, rfl, rfl, rfl, rfl⟩

/-- A frame packet that is neither a first one nor the next one is rejected. -/
theorem rejected_mismatch {s : DriverState layout} {packet : FramePacket layout}
    (typed : packet.packetType = packetFrame) (later : packet.packetCounter ≠ 0)
    (mismatch : packet.packetCounter ≠ s.packetCounter) :
    Rejected ((rpmsgEsmeCb layout).step s packet.toBytes).2 := by
  have one := framePacketOf_toBytes typed
  -- The message gets to the branch for frame packets.
  rcases rpmsgEsmeCb_cases s packet.toBytes with ⟨none, -⟩ | ⟨found, same, step⟩ | ⟨none, -⟩
  · rw [one] at none
    cases none
  · rw [one] at same
    cases same
    rw [step]
    simp [receiveFramePacket, later, mismatch, Rejected]
  · rw [one] at none
    cases none

/-- Frame packets are no config replies. -/
theorem configReplyOf_toBytes (packet : FramePacket lepton) :
    configReplyOf packet.toBytes = [] := by
  -- They are of another length.
  refine if_neg fun config => ?_
  have sized := config.1
  rw [packet.toBytes_length] at sized
  exact absurd sized (by decide)

/-- The bytes of a config reply with the given error register. -/
def configReply (errorReg : UInt8) : Message :=
  packetM33A55ConfigSend :: errorReg :: List.replicate 18 0

/-- The end of a frame and the start of the next one among config replies and a bad message. -/
def mixedTraffic : List Message :=
  [configReply 1, (blankPacket 78 5).toBytes, [], (blankPacket 0 6).toBytes, configReply 2,
    (blankPacket 3 6).toBytes]

/-- The same frame packets and the same replies in another order, with other bad messages. -/
def otherTraffic : List Message :=
  [(blankPacket 78 5).toBytes, [9, 9], (blankPacket 0 6).toBytes, (blankPacket 3 6).toBytes,
    configReply 1, configReply 3 ++ [0], configReply 2]

/--
Behind 78 packets of a frame, the same packets and replies lead to the same in either order, and
a packet out of its turn leads to nothing.
-/
theorem traffic_separate_midframe :
    let s := afterMessages lepton (blankMessages (fun _ => 5) 78)
    (publishedDuring s mixedTraffic = publishedDuring s otherTraffic ∧
        ((rpmsgEsmeCb lepton).final s mixedTraffic).packetCounter =
          ((rpmsgEsmeCb lepton).final s otherTraffic).packetCounter) ∧
      (((rpmsgEsmeCb lepton).final s mixedTraffic).configPacket =
          ((rpmsgEsmeCb lepton).final s otherTraffic).configPacket ∧
        completions ((rpmsgEsmeCb lepton).output s mixedTraffic) =
          completions ((rpmsgEsmeCb lepton).output s otherTraffic)) ∧
      ((rpmsgEsmeCb lepton).step s (blankPacket 3 6).toBytes).1.frameData = s.frameData := by
  -- The theorem holds of the two histories once they agree on the packets and on the replies.
  intro s
  obtain ⟨frames, configs, rejected⟩ :=
    traffic_separate s mixedTraffic otherTraffic (blankPacket 3 6).toBytes
  -- What is between the frame packets is none, and so is what is between the replies.
  have sameFrames : framePackets lepton mixedTraffic = framePackets lepton otherTraffic := by
    have reply : ∀ errorReg, framePacketOf lepton (configReply errorReg) = [] := fun _ => rfl
    have long : framePacketOf lepton (configReply 3 ++ [0]) = [] := rfl
    have empty : framePacketOf lepton [] = [] := rfl
    have short : framePacketOf lepton [9, 9] = [] := rfl
    simp only [framePackets, mixedTraffic, otherTraffic, List.flatMap_cons, List.flatMap_nil,
      reply, long, empty, short, List.nil_append]
  have sameReplies : configReplies mixedTraffic = configReplies otherTraffic := by
    have long : configReplyOf (configReply 3 ++ [0]) = [] := rfl
    have empty : configReplyOf [] = [] := rfl
    have short : configReplyOf [9, 9] = [] := rfl
    simp only [configReplies, mixedTraffic, otherTraffic, List.flatMap_cons, List.flatMap_nil,
      configReplyOf_toBytes, long, empty, short, List.nil_append]
  have counter : s.packetCounter.toNat = 78 := by
    rw [(blank_collecting (fun _ => 5) (show 77 < 78 by decide)).counter, framePackets_blank,
      List.length_map, List.length_range]
  have late : Rejected ((rpmsgEsmeCb lepton).step s (blankPacket 3 6).toBytes).2 := by
    refine rejected_mismatch rfl (by decide) fun same => ?_
    rw [← same] at counter
    exact absurd counter (by decide)
  exact ⟨⟨(frames sameFrames).1, (frames sameFrames).2.1⟩, configs sameReplies, (rejected late).1⟩

end Esme
