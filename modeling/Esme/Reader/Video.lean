import Esme.Driver.Camera
import Esme.Reader.Filming

/-! What is in the video: whole published frames, in order, and how often each. -/

namespace Esme

open Transducer

variable {durationS : Int} {s next : RecordingState} {event : RecordingEvent}

/--
In every run the file holds whole frames, as the callback makes them of the messages received: in
the order of their publication, none more than twice, and as many as the recorder has counted.
-/
theorem recorded_in_order (durationS : Int) (frame : Buffer UInt8 lepton.frameSize)
    (events : List RecordingEvent) :
    let s := (recording durationS).final (.initial frame) events
    ∃ written : List (Nat × List UInt8),
      s.file = written.flatMap Prod.snd ∧
      (∀ frame ∈ written, frame.2.length = 38489 ∧
        Delivers (publishedDuring (DriverState.initial lepton) s.device.received)
          frame.1 frame.2) ∧
      (written.map Prod.fst).Pairwise (· ≤ ·) ∧
      (∀ number, (written.map Prod.fst).count number ≤ 2) ∧
      ∀ count, s.recorder.frameCount = some count → count = written.length := by
  obtain ⟨written, filmed, ordered, twice⟩ := recording_inOrder durationS frame events
  exact ⟨written, filmed.file, filmed.frames, ordered, twice, filmed.counted⟩

/-- The recorder's calls copy no frame for which the callback has still to set the flag. -/
def CopiesAnnounced (s : RecordingState) : RecordingEvent → Prop
  | .device (.read number .clear) => s.recorder.call = some number → s.device.callback ≠ .unlocked
  | _ => True

/--
If no call of the recorder copies a frame before the flag is set for it, no frame is in the file
twice.
-/
theorem recorded_once {durationS : Int} {frame : Buffer UInt8 lepton.frameSize}
    {events : List RecordingEvent}
    (along : (recording durationS).Along CopiesAnnounced (.initial frame) events) :
    let s := (recording durationS).final (.initial frame) events
    ∃ written : List (Nat × List UInt8),
      s.file = written.flatMap Prod.snd ∧
      (∀ frame ∈ written, frame.2.length = 38489 ∧
        Delivers (publishedDuring (DriverState.initial lepton) s.device.received)
          frame.1 frame.2) ∧
      (written.map Prod.fst).Pairwise (· < ·) ∧
      ∀ count, s.recorder.frameCount = some count → count = written.length := by
  have start : Mailbox.Once ((RecordingState.initial frame).mailbox []) :=
    ⟨List.forall_mem_nil _, List.Pairwise.nil, fun _ => List.not_mem_nil, fun _ =>
      List.not_mem_nil⟩
  obtain ⟨written, filmed, once⟩ := recording_final Mailbox.Once (fun holds allowed step taken => by
    refine Mailbox.once_step holds step fun late => taken fun number own clears => ?_
    -- The callback has set the flag already when the recorder's call copies the frame.
    subst clears
    exact absurd (of_decide_eq_true late) (allowed own)) start along
  have ascending := (List.pairwise_append.mp once.ascending).1
  exact ⟨written, filmed.file, filmed.frames, ascending, filmed.counted⟩

/-- The device alone does what it does in a run of its own. -/
theorem recording_device (durationS : Int) (s : RecordingState) (steps : List ThreadsEvent) :
    (recording durationS).final s (steps.map .device) =
      { s with device := (threads lepton).final s.device steps } := by
  induction steps generalizing s with
  | nil => rfl
  | cons step rest ih =>
    rw [List.map_cons, final_cons, ih, final_cons]
    -- A step that is impossible for the device is none of the whole either.
    cases possible : threadsStep s.device step with
    | none => simp [recording, threads, guarded, recordingStep, possible]
    | some device => simp [recording, threads, guarded, recordingStep, possible]

/-- A frame comes, and the recorder reads it in its first turn. -/
def blankReading : List RecordingEvent :=
  (blankFrame.flatMap turn).map .device ++
    ([.start 0, .turn true 0, .device (.read 0 .pass)] ++ (readWhole 0).map .device)

/-- Then its call has returned, and the callback waits for a message. -/
theorem blankReading_final (frame : Buffer UInt8 lepton.frameSize) :
    ∃ driver whole data, (recording videoDurationS).final (.initial frame) blankReading =
      ⟨⟨driver, none, .idle, [.returned (.copied 1 data)], blankFrame, [whole]⟩,
        .reading (.initial 0) 0 0, frame, []⟩ := by
  obtain ⟨driver, whole, ready, final⟩ := blankFrame_final
  -- The flag is up, so the recorder's call passes its wait.
  have passes : (recording videoDurationS).final
      ⟨⟨driver, none, .idle, [], blankFrame, [whole]⟩, .before, frame, []⟩
      [.start 0, .turn true 0, .device (.read 0 .pass)] =
        ⟨⟨driver, none, .idle, [.locking], blankFrame, [whole]⟩, .reading (.initial 0) 0 0,
          frame, []⟩ := by
    obtain ⟨_, _, _, _, _, _, _, _, _⟩ := driver
    dsimp only at ready
    subst ready
    rfl
  rw [blankReading, final_append, recording_device, RecordingState.initial, final, final_append,
    passes, recording_device, readWhole_final rfl rfl]
  exact ⟨_, whole, _, rfl⟩

/-- The recorder copies the frame behind its announcement. -/
theorem blankReading_announced (frame : Buffer UInt8 lepton.frameSize) :
    (recording videoDurationS).Along CopiesAnnounced (.initial frame)
      (blankReading ++ [.finish 0 0]) := by
  -- The run is the turns of the callback, a whole read, and the end of the turn.
  refine along_append.mpr ⟨along_append.mpr ⟨?_, ?_⟩, along_cons.mpr ⟨trivial, along_nil _ _ _⟩⟩
  · -- The callback alone copies nothing to anyone.
    refine along_of_forall _ (fun event member _ => ?_) _
    simp only [turn, finishTurn, List.map_flatMap, List.mem_flatMap, List.map_cons, List.map_nil,
      List.mem_cons, List.not_mem_nil, or_false] at member
    obtain ⟨data, -, calls⟩ := member
    rcases calls with rfl | rfl | rfl | rfl | rfl | rfl | rfl | rfl <;> trivial
  · obtain ⟨driver, whole, ready, final⟩ := blankFrame_final
    rw [recording_device, RecordingState.initial, final]
    -- From here on the callback waits for a message.
    obtain ⟨_, _, _, _, _, _, _, _, _⟩ := driver
    dsimp only at ready
    subst ready
    have away : CbPc.idle ≠ CbPc.unlocked := by simp
    exact along_cons.mpr ⟨trivial, along_cons.mpr ⟨trivial, along_cons.mpr ⟨trivial,
      along_cons.mpr ⟨trivial, along_cons.mpr ⟨trivial, along_cons.mpr ⟨fun _ => away,
      along_cons.mpr ⟨trivial, along_nil _ _ _⟩⟩⟩⟩⟩⟩⟩

/-- A frame that is read behind its announcement is in the file once. -/
theorem recorded_once_blank :
    let s := (recording videoDurationS).final (.initial (.replicate 38489 0))
      (blankReading ++ [.finish 0 0])
    ∃ written : List (Nat × List UInt8),
      s.file = written.flatMap Prod.snd ∧
      (∀ frame ∈ written, frame.2.length = 38489 ∧
        Delivers (publishedDuring (DriverState.initial lepton) s.device.received)
          frame.1 frame.2) ∧
      (written.map Prod.fst).Pairwise (· < ·) ∧
      ∀ count, s.recorder.frameCount = some count → count = written.length :=
  recorded_once (blankReading_announced _)

/-- The recorder gives up waiting only at the end of a turn that has read a frame, if it is late. -/
theorem timedOut_step {written : List (Nat × List UInt8)} (filmed : Filmed durationS s written)
    (moves : RecordingMoves durationS s event next)
    (before : s.recorder ≠ .left .timedOut) (after : next.recorder = .left .timedOut) :
    ∃ v top number publication data returned check, event = .finish returned check ∧
      s.recorder = .reading v top number ∧
      s.device.reads[number]? = some (.returned (.copied publication data)) ∧
      next.file = s.file ++ data ∧ tooLate top ≤ check := by
  -- Only the end of a turn can leave in that way, and only behind a frame that was read.
  cases moves with
  | device step device possible => exact absurd after before
  | start _ _ | stop _ _ _ _ | call _ _ _ _ | restart _ _ _ _ _ => cases after
  | finish v turn number result place known running read =>
    have early := filmed.early v turn.top number place
    cases result with
    | copied publication data =>
      have delivers := filmed.untorn.reads number _ known publication data rfl
      obtain ⟨whole, complete, same⟩ := readReturns_copied delivers s.frame
      rw [complete] at read
      refine ⟨v, turn.top, number, publication, data, turn.returned, turn.check, rfl, place, known,
        ?_, recordTurn_late running early read after⟩
      show s.file ++ _ = _
      rw [(recordTurn_complete running early read).1, List.flatMap_singleton]
      exact congrArg (s.file ++ ·) same
    | failed err =>
      -- Then the recorder is left with the error.
      have fails : RecordPc.behind (recordTurn durationS v turn).1 = .left .timedOut := after
      rw [recordTurn_failed running early read] at fails
      cases fails

/--
In every run the recorder gives up waiting only at the end of a turn that has just read a frame,
more than 2000 milliseconds after the turn began; while no frame comes it waits on.
-/
theorem aborts_behind_frame {durationS : Int} {frame : Buffer UInt8 lepton.frameSize}
    {events : List RecordingEvent} {event : RecordingEvent} :
    let s := (recording durationS).final (.initial frame) events
    let next := (recording durationS).final (.initial frame) (events ++ [event])
    s.recorder ≠ .left .timedOut → next.recorder = .left .timedOut →
    ∃ v top number publication data returned check, event = .finish returned check ∧
      s.recorder = .reading v top number ∧
      s.device.reads[number]? = some (.returned (.copied publication data)) ∧
      next.file = s.file ++ data ∧ tooLate top ≤ check := by
  intro s next before after
  obtain ⟨written, filmed, -⟩ := recording_inOrder durationS frame events
  have last : next = ((recording durationS).step s event).1 := by
    rw [show next = _ from final_append _ _ _ _, final_cons, final_nil]
  cases possible : recordingStep durationS s event with
  | none =>
    -- What is impossible changes nothing.
    rw [last] at after
    simp only [recording, guarded, possible, Option.map_none] at after
    exact absurd after before
  | some reached =>
    have same : next = reached := by
      rw [last]
      simp only [recording, guarded, possible, Option.map_some]
    rw [same] at after ⊢
    exact timedOut_step filmed (recordingStep_moves possible) before after

/-- The turn of the one frame has taken too long. -/
theorem aborts_behind_frame_late :
    let s := (recording videoDurationS).final (.initial (.replicate 38489 0)) blankReading
    let next := (recording videoDurationS).final (.initial (.replicate 38489 0))
      (blankReading ++ [.finish 0 2001000000])
    ∃ v top number publication data returned check,
      RecordingEvent.finish 0 2001000000 = .finish returned check ∧
      s.recorder = .reading v top number ∧
      s.device.reads[number]? = some (.returned (.copied publication data)) ∧
      next.file = s.file ++ data ∧ tooLate top ≤ check := by
  obtain ⟨driver, whole, data, final⟩ := blankReading_final (.replicate 38489 0)
  refine aborts_behind_frame ?_ ?_
  · rw [final]
    simp
  · rw [final_append, final]
    rfl

/-- The items of an ascending list that have some numbers, counted from 1. -/
def picked (indices numbers : List Nat) : List Nat :=
  numbers.map fun number => indices.getD (number - 1) 0

/-- Items picked in the order of their numbers are in order, each as often as its number. -/
theorem picked_inOrder {indices numbers : List Nat} (ascending : indices.Pairwise (· < ·))
    (found : ∀ number ∈ numbers, 0 < number ∧ number ≤ indices.length)
    (ordered : numbers.Pairwise (· ≤ ·)) {limit : Nat}
    (often : ∀ number, numbers.count number ≤ limit) :
    (picked indices numbers).Pairwise (· ≤ ·) ∧
      ∀ index, (picked indices numbers).count index ≤ limit := by
  -- Later numbers are those of later items.
  have later : ∀ one ∈ numbers, ∀ other ∈ numbers, one < other →
      indices.getD (one - 1) 0 < indices.getD (other - 1) 0 := by
    intro one first other second less
    obtain ⟨positive, -⟩ := found one first
    obtain ⟨-, inside⟩ := found other second
    rw [← List.getElem_eq_getD 0 (h := by omega), ← List.getElem_eq_getD 0 (h := by omega)]
    exact List.pairwise_iff_getElem.mp ascending _ _ _ _ (by omega)
  constructor
  · unfold picked
    rw [List.pairwise_map]
    refine List.Pairwise.imp_of_mem (fun first second le => ?_) ordered
    rcases Nat.lt_or_eq_of_le le with less | same
    · exact Nat.le_of_lt (later _ first _ second less)
    · rw [same]
  · intro index
    by_cases member : index ∈ picked indices numbers
    · obtain ⟨number, inside, same⟩ := List.mem_map.mp member
      -- An item is picked only by its own number.
      refine Nat.le_trans ?_ (often number)
      rw [picked, List.count, List.countP_map, List.count]
      refine List.countP_mono_left fun other there equal => ?_
      simp only [Function.comp_apply, beq_iff_eq] at equal ⊢
      rcases Nat.lt_trichotomy other number with less | equal' | more
      · have apart := later other there number inside less
        omega
      · exact equal'
      · have apart := later number inside other there more
        omega
    · rw [List.count_eq_zero.mpr member]
      exact Nat.zero_le _

/-- What is delivered of some frames of the camera is one of them. -/
theorem delivers_frame {camera : Camera lepton} {indices : List Nat} {number : Nat}
    {data : List UInt8} (delivers : Delivers (indices.map camera.frames) number data) :
    (0 < number ∧ number ≤ indices.length) ∧
      (camera.frames (indices.getD (number - 1) 0)).toList = data := by
  obtain ⟨positive, found⟩ := delivers
  obtain ⟨frame, known, rfl⟩ := Option.map_eq_some_iff.mp found
  rw [List.getElem?_map] at known
  obtain ⟨index, there, rfl⟩ := Option.map_eq_some_iff.mp known
  obtain ⟨inside, -⟩ := List.getElem?_eq_some_iff.mp there
  refine ⟨⟨positive, by omega⟩, ?_⟩
  rw [List.getD_eq_getElem?_getD, there, Option.getD_some]

/--
If less than a whole frame is lost between any two packets that arrive, the file holds frames of
the camera: in their order, none more than twice, and as many as the recorder has counted.
-/
theorem recorded_of_camera {durationS : Int} {frame : Buffer UInt8 lepton.frameSize}
    {events : List RecordingEvent} (camera : Camera lepton) {positions : List Nat}
    (received : framePackets lepton
      ((recording durationS).final (.initial frame) events).device.received =
        positions.map camera.packets)
    (bounded : positions.IsChain fun position next => position < next ∧ next ≤ position + 79) :
    let s := (recording durationS).final (.initial frame) events
    ∃ indices : List Nat,
      s.file = indices.flatMap (fun index => (camera.frames index).toList) ∧
      indices.Pairwise (· ≤ ·) ∧ (∀ index, indices.count index ≤ 2) ∧
      ∀ count, s.recorder.frameCount = some count → count = indices.length := by
  intro s
  obtain ⟨written, filmed, ordered, twice⟩ := recording_inOrder durationS frame events
  obtain ⟨indices, ascending, published⟩ := camera.publishes (by decide) received bounded
  -- Each frame in the file is one of those published, which are frames of the camera.
  have known : ∀ frame ∈ written, (0 < frame.1 ∧ frame.1 ≤ indices.length) ∧
      (camera.frames (indices.getD (frame.1 - 1) 0)).toList = frame.2 := by
    intro frame member
    have delivers := (filmed.frames frame member).2
    rw [published] at delivers
    exact delivers_frame delivers
  obtain ⟨inOrder, often⟩ := picked_inOrder ascending
    (List.forall_mem_map.mpr fun frame member => (known frame member).1) ordered twice
  refine ⟨picked indices (written.map Prod.fst), ?_, inOrder, often, fun count counted => ?_⟩
  · -- The file is made of the frames that are picked.
    rw [filmed.file, picked, List.map_map, List.flatMap_map]
    exact List.flatMap_congr fun frame member => (known frame member).2.symm
  · rw [filmed.counted count counted, picked, List.length_map, List.length_map]

/-- The driver has received the packets of the one frame. -/
theorem blankReading_received (frame : Buffer UInt8 lepton.frameSize) :
    framePackets lepton ((recording videoDurationS).final (.initial frame)
        (blankReading ++ [.finish 0 0])).device.received =
      (List.range 79).map blankCamera.packets := by
  obtain ⟨driver, whole, data, final⟩ := blankReading_final frame
  have received : ((recording videoDurationS).final (.initial frame)
      (blankReading ++ [.finish 0 0])).device.received = blankFrame := by
    rw [final_append, final]
    rfl
  rw [received, blankFrame, framePackets_blank]
  refine List.map_congr_left fun position inside => ?_
  have short : position < 79 := List.mem_range.mp inside
  show _ = blankPacket (UInt8.ofNat (position % 79)) 5
  rw [Nat.mod_eq_of_lt short]

/-- What is recorded of one frame. -/
theorem recorded_of_camera_blank :
    let s := (recording videoDurationS).final (.initial (.replicate 38489 0))
      (blankReading ++ [.finish 0 0])
    ∃ indices : List Nat,
      s.file = indices.flatMap (fun index => (blankCamera.frames index).toList) ∧
      indices.Pairwise (· ≤ ·) ∧ (∀ index, indices.count index ≤ 2) ∧
      ∀ count, s.recorder.frameCount = some count → count = indices.length :=
  recorded_of_camera blankCamera (blankReading_received _) (by decide +kernel)

end Esme
