import Esme.Driver.Calls

/-! When a call that sets the config gives the user the reply to its own request. -/

namespace Esme

open Transducer

variable {layout : Layout} {trace written : List IoctlAction} {s next : IoctlState layout}
  {call : Nat} {command : Command} {config : LeptonCameraConfigData} {data : UserData}

/-- One client issues its calls one after another. -/
def OneAtATime (s : IoctlState layout) : IoctlEvent → Prop
  -- Calls so far are over when the next one comes.
  | .enter _ => ∀ known ∈ s.calls, known.pc = .returned
  | _ => True

instance (s : IoctlState layout) : DecidablePred (OneAtATime s)
  | .enter _ => inferInstanceAs (Decidable (∀ known ∈ s.calls, known.pc = .returned))
  | .step _ _ | .answer _ | .deliver | .message _ | .complete => isTrue trivial

/-- The MCU sends config replies only as answers. -/
def AnswersOnly : IoctlEvent → Prop
  | .message data => ¬IsConfigReply data
  | _ => True

instance : DecidablePred AnswersOnly
  | .message data => inferInstanceAs (Decidable ¬IsConfigReply data)
  | .enter _ | .step _ _ | .answer _ | .deliver | .complete => isTrue trivial

/-- No reply is left over or still to come from an earlier request. -/
def NothingOutstanding (s : IoctlState layout) : Prop :=
  -- Nothing is counted, nothing is with the MCU or waits for the callback, which is idle.
  s.driver.rpmsgConfigGot = 0 ∧ s.requests = [] ∧ s.replies = [] ∧ s.completing = false

instance (s : IoctlState layout) : Decidable (NothingOutstanding s) :=
  inferInstanceAs (Decidable (_ ∧ _ ∧ _ ∧ _))

/-- The config is set only when nothing is outstanding. -/
def SetsAlone (s : IoctlState layout) : IoctlEvent → Prop
  | .step call .send => ∀ known ∈ s.calls[call]?, known.command.reinits = false →
      NothingOutstanding s
  | _ => True

instance (s : IoctlState layout) : DecidablePred (SetsAlone s)
  | .step call .send => inferInstanceAs (Decidable (∀ known ∈ s.calls[call]?,
      known.command.reinits = false → NothingOutstanding s))
  | .step _ .reinit | .step _ (.sendFails _) | .step _ .pass | .step _ .interrupt | .step _ .read
  | .step _ .finish | .step _ .fault | .enter _ | .answer _ | .deliver | .message _
  | .complete => isTrue trivial

/-- The fields given to the user are those of the reply the MCU sent for the request of a call. -/
def OwnReply (call : Nat) (data : UserData) (trace : List IoctlAction) : Prop :=
  ∃ packet, .answered (some call) packet ∈ trace ∧ data = .config packet.config

/-- What a call that sets the config may rely on, from place to place. -/
def PlaceAnswered (trace : List IoctlAction) (s : IoctlState layout) (call : Nat) :
    CallPc → Prop
  -- Its request is with the MCU, or the reply is on its way, or the reply is stored.
  | .waiting =>
    (s.driver.rpmsgConfigGot = 0 ∧ s.completing = false ∧
        (∃ packet, s.requests = [⟨some call, packet⟩]) ∧ s.replies = []) ∨
      (s.driver.rpmsgConfigGot = 0 ∧ s.completing = false ∧ s.requests = [] ∧
        ∃ packet, s.replies = [⟨some call, packet⟩] ∧ .answered (some call) packet ∈ trace) ∨
      (s.requests = [] ∧ s.replies = [] ∧
        .answered (some call) s.driver.configPacket ∈ trace)
  | .woken => s.requests = [] ∧ s.replies = [] ∧
      .answered (some call) s.driver.configPacket ∈ trace
  | .holding data => OwnReply call data trace
  -- Only the status is read in parts.
  | .entered | .ready | .readErrorReg _ | .readSyncCount _ _ | .returned => True

/-- One call at a time, each that sets the config waits for its own reply, and so did its result. -/
structure AllAnswered (trace : List IoctlAction) (s : IoctlState layout) : Prop where
  last : ∀ number known, s.calls[number]? = some known → known.pc ≠ .returned →
    number + 1 = s.calls.length
  calls : ∀ number known place, s.calls[number]? = some ⟨known, place⟩ →
    known.reinits = false → PlaceAnswered trace s number place
  results : ∀ number known data, .returned number known (.ok data) ∈ trace →
    known.reinits = false → OwnReply number data trace

/-- A reply is still a call's own one as the trace grows. -/
theorem OwnReply.grow (own : OwnReply call data trace) (written : List IoctlAction) :
    OwnReply call data (trace ++ written) := by
  obtain ⟨packet, answered, same⟩ := own
  exact ⟨packet, List.mem_append_left _ answered, same⟩

/-- A call keeps what it relies on when neither the channel nor the completion changes. -/
theorem PlaceAnswered.grow {pc : CallPc} (place : PlaceAnswered trace s call pc)
    (next : IoctlState layout) (packet : next.driver.configPacket = s.driver.configPacket)
    (counter : next.driver.rpmsgConfigGot = s.driver.rpmsgConfigGot)
    (requests : next.requests = s.requests) (replies : next.replies = s.replies)
    (completing : next.completing = s.completing) (written : List IoctlAction) :
    PlaceAnswered (trace ++ written) next call pc := by
  cases pc with
  | waiting =>
    unfold PlaceAnswered at place ⊢
    rw [packet, counter, requests, replies, completing]
    rcases place with sent | ⟨zero, idle, none, reply, pending, answered⟩ | ⟨none, empty, answered⟩
    · exact .inl sent
    · exact .inr (.inl ⟨zero, idle, none, reply, pending, List.mem_append_left _ answered⟩)
    · exact .inr (.inr ⟨none, empty, List.mem_append_left _ answered⟩)
  | woken =>
    unfold PlaceAnswered at place ⊢
    rw [packet, requests, replies]
    obtain ⟨none, empty, answered⟩ := place
    exact ⟨none, empty, List.mem_append_left _ answered⟩
  | holding data => exact OwnReply.grow place written
  | entered | ready | readErrorReg _ | readSyncCount _ _ | returned => trivial

/-- The only call that has not returned is the one that moves. -/
theorem AllAnswered.others (answered : AllAnswered trace s) {pc : CallPc}
    (known : s.calls[call]? = some ⟨command, pc⟩) (going : pc ≠ .returned) :
    ∀ number known place, number ≠ call → s.calls[number]? = some ⟨known, place⟩ →
      place = .returned := by
  -- Any call that is still going is the last one, and so is the one that moves.
  intro number known' place different found
  by_cases active : place = .returned
  · exact active
  · have here := answered.last call _ known going
    have there := answered.last number _ found active
    omega

/-- When the one call moves, it is enough to see what it relies on where it arrives. -/
theorem AllAnswered.moved (answered : AllAnswered trace s) {pc place : CallPc}
    (known : s.calls[call]? = some ⟨command, pc⟩) (going : pc ≠ .returned)
    (calls : next.calls = (s.move call command place).calls)
    (arrives : command.reinits = false → PlaceAnswered (trace ++ written) next call place)
    (results : ∀ number known data, .returned number known (.ok data) ∈ written →
      known.reinits = false → OwnReply number data (trace ++ written)) :
    AllAnswered (trace ++ written) next := by
  -- The others have returned, and a call that has returned relies on nothing.
  have others := answered.others known going
  refine ⟨?_, ?_, ?_⟩
  · intro number known' found active
    rw [calls] at found ⊢
    rw [IoctlState.move, List.length_set]
    rw [IoctlState.move, List.getElem?_set] at found
    by_cases same : call = number
    · exact same ▸ answered.last call _ known going
    · rw [if_neg same] at found
      exact answered.last number known' found active
  · rw [calls]
    refine forall_move (fun number known' place' different found sets => ?_) arrives
    rw [others number known' place' different found]
    trivial
  · intro number known' data member sets
    rcases List.mem_append.mp member with old | new
    · exact (answered.results number known' data old sets).grow written
    · exact results number known' data new sets

/-- When no call moves, it is enough to see that each keeps what it relies on. -/
theorem AllAnswered.stayed (answered : AllAnswered trace s) (calls : next.calls = s.calls)
    (keeps : ∀ number place, PlaceAnswered trace s number place →
      PlaceAnswered (trace ++ written) next number place)
    (silent : ∀ number known data, .returned number known (.ok data) ∉ written) :
    AllAnswered (trace ++ written) next := by
  -- Results are old ones, and each call is judged where it was.
  refine ⟨by rw [calls]; exact answered.last, ?_, ?_⟩
  · rw [calls]
    intro number known place found sets
    exact keeps number place (answered.calls number known place found sets)
  · intro number known data member sets
    rcases List.mem_append.mp member with old | new
    · exact (answered.results number known data old sets).grow written
    · exact absurd new (silent number known data)

/-- An answer to the request of the waiting call is that call's reply. -/
theorem PlaceAnswered.answer {pc : CallPc} (place : PlaceAnswered trace s call pc)
    {packet : ConfigPacket} {request : TaggedPacket} {rest : List TaggedPacket}
    (first : s.requests = request :: rest) :
    PlaceAnswered (trace ++ [.answered request.origin packet])
      { s with requests := rest, replies := s.replies ++ [⟨request.origin, packet⟩] } call pc := by
  -- A call whose reply is there already leaves nothing for the MCU to answer.
  cases pc with
  | waiting =>
    unfold PlaceAnswered at place ⊢
    rw [first] at place
    rcases place with ⟨zero, idle, ⟨sent, only⟩, none⟩ | ⟨-, -, empty, -⟩ | ⟨empty, -⟩
    · -- Its own request is the only one, so it is the one that is answered.
      cases only
      exact .inr (.inl ⟨zero, idle, rfl, packet, by simp [none], by simp⟩)
    · cases empty
    · cases empty
  | woken =>
    unfold PlaceAnswered at place
    rw [first] at place
    cases place.1
  | holding data => exact OwnReply.grow place _
  | entered | ready | readErrorReg _ | readSyncCount _ _ | returned => trivial

/-- The reply that is handed over while a call waits is its own. -/
theorem PlaceAnswered.deliver {pc : CallPc} (place : PlaceAnswered trace s call pc)
    {reply : TaggedPacket} {rest : List TaggedPacket} (first : s.replies = reply :: rest) :
    PlaceAnswered (trace ++ [.received reply.packet])
      { s with
        replies := rest
        driver := storeConfigPacket s.driver reply.packet
        completing := true } call pc := by
  -- A reply can only be on its way to a call that waits and has not got its own yet.
  cases pc with
  | waiting =>
    unfold PlaceAnswered at place ⊢
    rw [first] at place
    rcases place with ⟨-, -, -, none⟩ | ⟨-, -, empty, packet, only, answered⟩ | ⟨-, none, -⟩
    · cases none
    · cases only
      exact .inr (.inr ⟨empty, rfl, List.mem_append_left _ answered⟩)
    · cases none
  | woken =>
    unfold PlaceAnswered at place
    rw [first] at place
    cases place.2.1
  | holding data => exact OwnReply.grow place _
  | entered | ready | readErrorReg _ | readSyncCount _ _ | returned => trivial

/-- The packet that is completed while a call waits is its own reply. -/
theorem PlaceAnswered.complete {pc : CallPc} (place : PlaceAnswered trace s call pc)
    (stored : s.completing = true) :
    PlaceAnswered (trace ++ []) { s with driver := completeConfig s.driver, completing := false }
      call pc := by
  rw [List.append_nil]
  -- While the request or the reply of a call is on its way, the callback is idle.
  cases pc with
  | waiting =>
    unfold PlaceAnswered at place ⊢
    rw [stored] at place
    rcases place with ⟨-, idle, -⟩ | ⟨-, idle, -⟩ | own
    · cases idle
    · cases idle
    · exact .inr (.inr own)
  | woken => exact place
  | holding data => exact place
  | entered | ready | readErrorReg _ | readSyncCount _ _ | returned => trivial

/-- Every step keeps all calls answered by their own replies. -/
theorem allAnswered_step {event : IoctlEvent} (answered : AllAnswered trace s)
    (client : OneAtATime s event) (only : AnswersOnly event) (alone : SetsAlone s event)
    (moves : IoctlMoves s event next written) : AllAnswered (trace ++ written) next := by
  -- A call that sets the config sends when the channel is empty, and from then on the channel
  -- holds its own request, then its own reply, and then the packet is its own.
  cases moves with
  | enter command =>
    -- All calls before the new one have returned.
    have before : ∀ known ∈ s.calls, known.pc = .returned := client
    rw [List.append_nil]
    refine ⟨?_, forall_enter ?_ fun _ => trivial, answered.results⟩
    · intro number known found active
      rw [List.getElem?_append] at found
      split at found
      · exact absurd (before known (List.mem_of_getElem? found)) active
      · have bound : number < s.calls.length + 1 := by
          rw [List.getElem?_singleton] at found
          split at found
          · omega
          · cases found
        simp only [List.length_append, List.length_singleton]
        omega
    · intro number known place found sets
      have place' := before _ (List.mem_of_getElem? found)
      simp only at place'
      rw [place']
      trivial
  | reinit call command known reinits =>
    refine answered.moved known (by simp) rfl ?_ (by simp)
    intro sets
    rw [reinits] at sets
    cases sets
  | send call command known =>
    refine answered.moved known command.sendsFrom_going.2 rfl ?_ (by simp)
    intro sets
    -- Nothing is outstanding, so its own request is the only one on the channel.
    have free : NothingOutstanding s := alone _ (by rw [known]; rfl) sets
    obtain ⟨zero, none, empty, idle⟩ := free
    exact .inl ⟨zero, idle, ⟨command.pkt, by simp [none]⟩, empty⟩
  | fail call command pc step errno known going other =>
    exact answered.moved known going rfl (fun _ => trivial) (by simp)
  | pass call command known more =>
    refine answered.moved known (by simp) rfl ?_ (by simp)
    intro sets
    have place := answered.calls call command _ known sets
    -- The wait passes on a credit, which is there only once the reply is stored.
    rcases place with ⟨zero, -, -⟩ | ⟨zero, -, -⟩ | ⟨none, empty, own⟩
    · omega
    · omega
    · exact ⟨none, empty, List.mem_append_left _ own⟩
  | read call command known other =>
    refine answered.moved known (by simp) rfl ?_ (by simp)
    intro sets
    obtain ⟨-, -, own⟩ := answered.calls call command _ known sets
    -- Only the command that sets the config is without a re-initialisation.
    cases command with
    | setConfig config => exact ⟨s.driver.configPacket, List.mem_append_left _ own, rfl⟩
    | getConfig => cases sets
    | getStatus => cases sets
  -- The status belongs to a command that re-initialises.
  | readErrorReg call known =>
    exact answered.moved known (by simp) rfl (fun _ => trivial) (by simp)
  | readSyncCount call errorReg known =>
    exact answered.moved known (by simp) rfl (fun _ => trivial) (by simp)
  | readSerialNumber call errorReg syncCount known =>
    refine answered.moved known (by simp) rfl ?_ (by simp)
    intro sets
    cases sets
  | finish call command data known =>
    refine answered.moved known (by simp) rfl (fun _ => trivial) ?_
    intro number known' data' member sets
    cases List.mem_singleton.mp member
    exact OwnReply.grow (answered.calls call command _ known sets) _
  | answer packet request rest first =>
    exact answered.stayed rfl (fun _ _ place => place.answer first) (by simp)
  | deliver reply rest idle first =>
    exact answered.stayed rfl (fun _ _ place => place.deliver first) (by simp)
  | store data packet idle config => exact absurd config only
  | complete stored => exact answered.stayed rfl (fun _ _ place => place.complete stored) (by simp)
  | spare data driver idle config spares =>
    exact answered.stayed rfl
      (fun _ _ place => place.grow { s with driver := driver } spares.packet spares.counter
        rfl rfl rfl []) (by simp)

/--
A single client that sets the config only when nothing is outstanding is given, by every call that
sets the config and returns 0, the config of the reply sent for that very request.
-/
theorem set_returns_own_reply {driver : DriverState layout} {events : List IoctlEvent}
    (client : (ioctls layout).Along OneAtATime (.probed driver) events)
    (only : ∀ event ∈ events, AnswersOnly event)
    (alone : (ioctls layout).Along SetsAlone (.probed driver) events) :
    ∀ call config data, .returned call (.setConfig config) (.ok data) ∈
        (ioctls layout).output (.probed driver) events →
      OwnReply call data ((ioctls layout).output (.probed driver) events) := by
  -- The three conditions are judged together at each step of the run.
  have start : AllAnswered [] (IoctlState.probed driver) :=
    ⟨by simp [IoctlState.probed], by simp [IoctlState.probed], by simp⟩
  have along : (ioctls layout).Along
      (fun s event => OneAtATime s event ∧ AnswersOnly event ∧ SetsAlone s event)
      (.probed driver) events := by
    intro before event after split
    exact ⟨client before event after split, only event (by simp [split]),
      alone before event after split⟩
  have answered : AllAnswered ([] ++ (ioctls layout).output (.probed driver) events)
      ((ioctls layout).final (.probed driver) events) :=
    guarded_along (fun held allowed possible =>
      allAnswered_step held allowed.1 allowed.2.1 allowed.2.2 (ioctlStep_moves possible))
      start along
  intro call config data result
  exact answered.results call (.setConfig config) data result rfl

/-- A config that differs from the zeroed one. -/
def otherConfig : LeptonCameraConfigData := ⟨1, 2, 3, 4, 5, 1, 1, 1⟩

/-- The reply to the request of probe is used up before the config is set. -/
theorem set_returns_own_reply_after_get :
    OwnReply 1 (.config otherConfig) ((ioctls lepton).output
      (.probed (DriverState.initial lepton))
      [.answer .zero, .deliver, .complete, .enter .getConfig, .step 0 .reinit, .step 0 .send,
        .answer .zero, .deliver, .complete, .step 0 .pass, .step 0 .read, .step 0 .finish,
        .enter (.setConfig otherConfig), .step 1 .send,
        .answer { ConfigPacket.zero with config := otherConfig }, .deliver, .complete,
        .step 1 .pass, .step 1 .read, .step 1 .finish]) :=
  @set_returns_own_reply lepton (DriverState.initial lepton) _ (by decide +kernel)
    (by decide +kernel) (by decide +kernel) 1 otherConfig _ (by decide +kernel)

/-- Right after probe, setting the config returns the reply to the request of probe. -/
theorem set_returns_reply_of_probe :
    let events := [.answer .zero, .deliver, .complete, .enter (.setConfig otherConfig),
      .step 0 .send, .step 0 .pass, .step 0 .read, .step 0 .finish]
    let trace := (ioctls lepton).output (.probed (DriverState.initial lepton)) events
    (ioctls lepton).Along OneAtATime (.probed (DriverState.initial lepton)) events ∧
      (∀ event ∈ events, AnswersOnly event) ∧
      .returned 0 (.setConfig otherConfig) (.ok (.config ConfigPacket.zero.config)) ∈ trace ∧
      ¬OwnReply 0 (.config ConfigPacket.zero.config) trace := by
  refine ⟨by decide +kernel, by decide +kernel, by decide +kernel, ?_⟩
  intro own
  obtain ⟨packet, answered, -⟩ := own
  -- The MCU has not answered the request of the call at all.
  have none : ((ioctls lepton).output (.probed (DriverState.initial lepton))
      [.answer .zero, .deliver, .complete, .enter (.setConfig otherConfig), .step 0 .send,
        .step 0 .pass, .step 0 .read, .step 0 .finish]).all (fun action =>
          match action with
          | .answered (some _) _ => false
          | _ => true) = true := by decide +kernel
  rw [List.all_eq_true] at none
  exact absurd (none _ answered) (by simp)

end Esme
