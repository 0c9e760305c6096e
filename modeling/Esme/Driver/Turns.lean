import Esme.Driver.Settling
import Esme.Stream.Slots

/-! Runs in which the callback handles each message before any other thread takes a step. -/

namespace Esme

open Transducer

/-- The steps that are left of a call of the callback, in every branch of it. -/
def finishTurn : List ThreadsEvent :=
  -- Steps of the branches that are not taken are impossible, and then nothing happens.
  [.callback (.store 493), .callback (.store 35), .callback .stored, .callback .lock,
    .callback (.copy 38489), .callback .unlock, .callback .announce]

/-- One call of the callback. -/
def turn (data : Message) : List ThreadsEvent := .message data :: finishTurn

/-- A turn gets to its end, where the mutex is free. -/
theorem finishTurn_idle {s : ThreadsState lepton} (free : s.mutex = none)
    (place : s.callback = .idle ∨ ∃ last, s.callback = .storing last 0) :
    ((threads lepton).final s finishTurn).callback = .idle ∧
      ((threads lepton).final s finishTurn).mutex = none := by
  obtain ⟨driver, mutex, callback, reads, received, published⟩ := s
  dsimp only at free place
  subst free
  -- Each of the three ways through the steps is computed.
  rcases place with rfl | ⟨last, rfl⟩
  · exact ⟨rfl, rfl⟩
  · cases last with
    | false => exact ⟨rfl, rfl⟩
    | true => exact ⟨rfl, rfl⟩

/-- A turn leaves what the callback comes to. -/
theorem finishTurn_comesTo (s : ThreadsState lepton) :
    ComesTo s ((threads lepton).final s finishTurn) := by
  -- They are all steps of the callback.
  have along : (threads lepton).Along (fun _ event => ∃ step, event = .callback step) s
      finishTurn := by
    refine along_of_forall _ (fun event member _ => ?_) s
    simp only [finishTurn, List.mem_cons, List.not_mem_nil, or_false] at member
    rcases member with rfl | rfl | rfl | rfl | rfl | rfl | rfl <;> exact ⟨_, rfl⟩
  have start : ComesTo s s := ⟨rfl, rfl, rfl, rfl⟩
  -- What the callback comes to is carried from step to step.
  refine threads_final (fun before step moves => ?_) start along
  obtain ⟨step, rfl⟩ := step
  have same := callback_comesTo moves
  exact ⟨same.driver.trans before.driver, same.published.trans before.published,
    same.reads.trans before.reads, same.received.trans before.received⟩

/-- A turn does what the callback does at once. -/
theorem turn_final {s : ThreadsState lepton} (idle : s.callback = .idle) (free : s.mutex = none)
    (data : Message) :
    (threads lepton).final s (turn data) = { s with
      driver := ((rpmsgEsmeCb lepton).step s.driver data).1
      received := s.received ++ [data]
      published := s.published ++ publishedBy s.driver data } := by
  -- A turn ends at rest, and what the callback still owes is the same at each of its steps.
  obtain ⟨driver, mutex, callback, reads, received, published⟩ := s
  dsimp only at idle free
  subst idle free
  obtain ⟨-, -, place⟩ := startMessage_spares driver data
  obtain ⟨settles, publishes⟩ := startMessage_settles driver data
  -- The message is the only step of the turn that is not one of `finishTurn`.
  have start : (threads lepton).final ⟨driver, none, .idle, reads, received, published⟩
      (turn data) = (threads lepton).final ⟨(startMessage driver data).1, none,
        (startMessage driver data).2, reads, received ++ [data], published⟩ finishTurn := rfl
  obtain ⟨rests, opens⟩ := finishTurn_idle (s := ⟨(startMessage driver data).1, none,
    (startMessage driver data).2, reads, received ++ [data], published⟩) rfl place
  obtain ⟨same, shown, readers, receives⟩ := finishTurn_comesTo ⟨(startMessage driver data).1, none,
    (startMessage driver data).2, reads, received ++ [data], published⟩
  rw [start]
  -- At rest, what the callback comes to is its state.
  generalize (threads lepton).final _ finishTurn = after at *
  obtain ⟨driver', mutex', callback', reads', received', published'⟩ := after
  dsimp only at rests opens same shown readers receives
  subst rests opens readers receives
  rw [settles] at same
  rw [publishes, pending, List.append_nil] at shown
  subst shown
  exact congrArg (fun driver => ThreadsState.mk driver _ _ _ _ _) same

/-- Turn after turn, the threads do what the callback does at once. -/
theorem turns_final {s : ThreadsState lepton} (idle : s.callback = .idle) (free : s.mutex = none)
    (messages : List Message) :
    (threads lepton).final s (messages.flatMap turn) = { s with
      driver := (rpmsgEsmeCb lepton).final s.driver messages
      received := s.received ++ messages
      published := s.published ++ publishedDuring s.driver messages } := by
  -- Behind each turn the callback is idle and the mutex free, as they were before it.
  induction messages generalizing s with
  | nil => simp [publishedDuring]
  | cons data rest ih =>
    rw [List.flatMap_cons, final_append, turn_final idle free, ih]
    · simp [publishedDuring, publishedBy]
    · exact idle
    · exact free

/-- What is published sets the flag. -/
theorem published_ready {driver : DriverState lepton} {data : Message}
    (publishes : publishedBy driver data ≠ []) :
    ((rpmsgEsmeCb lepton).step driver data).1.dataReady = true := by
  -- The message is followed to the place where it starts to be copied.
  obtain ⟨settles, publishing⟩ := startMessage_settles driver data
  rw [← settles]
  rw [← publishing] at publishes
  -- A callback that is still going to publish sets the flag behind it.
  cases place : (startMessage driver data).2 with
  | storing last copied =>
    cases last with
    | false =>
      rw [place] at publishes
      exact absurd rfl publishes
    | true => rfl
  | locking | copying _ => rfl
  | idle | unlocked =>
    rw [place] at publishes
    exact absurd rfl publishes

/-- The steps of a call that has passed its wait and reads the whole buffer. -/
def readWhole (number : Nat) : List ThreadsEvent :=
  [.read number .lock, .read number (.copy 38489), .read number .clear, .read number .unlock]

/-- A step that is possible is taken. -/
theorem threads_step_some {layout : Layout} {s next : ThreadsState layout} {event : ThreadsEvent}
    (possible : threadsStep s event = some next) : ((threads layout).step s event).1 = next := by
  -- Nothing is written beside the next state.
  simp only [threads, guarded, possible, Option.map_some]

/-- A whole read returns the buffer and lowers the flag. -/
theorem readWhole_final {s : ThreadsState lepton} {number : Nat}
    (known : s.reads[number]? = some .locking) (free : s.mutex = none) :
    (threads lepton).final s (readWhole number) = { s with
      driver := { s.driver with dataReady := false }
      reads := s.reads.set number (.returned (.copied s.published.length
        (s.driver.frameDataReadout.toList.take 38489))) } := by
  -- The copy in one piece and the three steps around it are taken one after the other.
  obtain ⟨driver, mutex, callback, reads, received, published⟩ := s
  dsimp only at known free
  subst free
  -- Behind each of its steps the call is found at its new place.
  have moved : ∀ pc : ReadPc, (reads.set number pc)[number]? = some pc :=
    fun pc => Slots.getElem?_set_of_some known pc
  unfold readWhole
  rw [final_cons, threads_step_some (by
    simp only [threadsStep, known, readStep, and_self, if_true]; rfl)]
  rw [final_cons, threads_step_some (by
    simp only [threadsStep, ThreadsState.move, moved, readStep]; rfl)]
  rw [final_cons, threads_step_some (by
    simp only [threadsStep, ThreadsState.move, moved, readStep, List.set_set]; rfl)]
  rw [final_cons, threads_step_some (by
    simp only [threadsStep, ThreadsState.move, moved, readStep, List.set_set]; rfl)]
  simp only [final_nil, List.nil_append, List.drop_zero]

/-- The packets of a whole frame. -/
def blankFrame : List Message := blankMessages (fun _ => 5) 79

/-- After the packets of a frame the callback waits for a message, with the frame published. -/
theorem blankFrame_final :
    ∃ driver frame, driver.dataReady = true ∧
      (threads lepton).final (.initial lepton) (blankFrame.flatMap turn) =
        ⟨driver, none, .idle, [], blankFrame, [frame]⟩ := by
  -- The last of the 79 packets publishes the frame, and the others nothing.
  have whole : blankFrame = blankMessages (fun _ => 5) 78 ++ [(blankPacket 78 5).toBytes] :=
    blankMessages_succ (fun _ => 5) 78
  obtain ⟨silent, published⟩ := consecutive_published (.inl rfl) (initial_assembles lepton)
    (framePacketOf_toBytes rfl) (blank_frame_numbered (fun _ => 5))
    (by rw [framePackets_blank, List.length_map, List.length_range]; rfl)
  obtain ⟨frame, one, -⟩ := List.map_eq_singleton_iff.mp published
  have frames : publishedDuring (DriverState.initial lepton) blankFrame = [frame] := by
    rw [whole, publishedDuring_concat, silent, List.nil_append]
    exact one
  refine ⟨afterMessages lepton blankFrame, frame, ?_, ?_⟩
  · rw [whole, afterMessages_concat]
    apply published_ready
    rw [afterMessages, one]
    exact List.cons_ne_nil _ _
  · rw [turns_final rfl rfl]
    simp only [ThreadsState.initial, List.nil_append, frames, afterMessages]

/-- Two calls that come behind the frame both pass their wait. -/
theorem bothPass_final :
    ∃ driver frame, (threads lepton).final (.initial lepton) (blankFrame.flatMap turn ++
        [.enter 38489, .enter 38489, .read 0 .pass, .read 1 .pass]) =
      ⟨driver, none, .idle, [.locking, .locking], blankFrame, [frame]⟩ ∧
        driver.dataReady = true := by
  -- The flag stays up, since a call that passes its wait does not clear it.
  obtain ⟨driver, frame, ready, final⟩ := blankFrame_final
  obtain ⟨_, _, _, _, _, _, _, _, _⟩ := driver
  dsimp only at ready
  subst ready
  rw [final_append, final]
  exact ⟨_, frame, rfl, rfl⟩

end Esme
