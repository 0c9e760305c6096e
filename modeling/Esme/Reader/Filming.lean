import Esme.Driver.Mailbox
import Esme.Reader.Recording
import Esme.Reader.Watchdog

/-! What the recorder writes: the frames that its calls of `rpmsg_read` have copied. -/

namespace Esme

open Transducer

variable {durationS : Int} {s next : RecordingState} {event : RecordingEvent}

/-- What a step can do, case by case. -/
inductive RecordingMoves (durationS : Int) (s : RecordingState) :
    RecordingEvent → RecordingState → Prop where
  | device (step : ThreadsEvent) (device : ThreadsState lepton)
      (possible : threadsStep s.device step = some device) :
      RecordingMoves durationS s (.device step) { s with device := device }
  | start (now : Int) (place : s.recorder = .before) :
      RecordingMoves durationS s (.start now) { s with recorder := .looping (.initial now) }
  | stop (running : Bool) (top : Int) (v : RecordVars) (place : s.recorder = .looping v) :
      RecordingMoves durationS s (.turn running top)
        { s with recorder := .left (.stopped v.frameCount) }
  | call (top : Int) (v : RecordVars) (place : s.recorder = .looping v)
      (early : top - v.start < durationS * second) :
      RecordingMoves durationS s (.turn true top) (callRead s v top)
  | restart (v : RecordVars) (top : Int) (number : Nat)
      (place : s.recorder = .reading v top number)
      (known : s.device.reads[number]? = some (.returned (.failed (-erestartsys)))) :
      RecordingMoves durationS s .restart (callRead s v top)
  | finish (v : RecordVars) (turn : RecordTurn) (number : Nat) (result : RpmsgReadResult)
      (place : s.recorder = .reading v turn.top number)
      (known : s.device.reads[number]? = some (.returned result)) (running : turn.running = true)
      (read : turn.read = readReturns s.frame result) :
      RecordingMoves durationS s (.finish turn.returned turn.check)
        (finishRecordTurn durationS s v turn)

/-- Every possible step is one of these. -/
theorem recordingStep_moves (possible : recordingStep durationS s event = some next) :
    RecordingMoves durationS s event next := by
  -- A step of the recorder is possible at one of its places only.
  cases event with
  | device step =>
    obtain ⟨device, stepped, rfl⟩ := Option.map_eq_some_iff.mp possible
    exact .device step device stepped
  | start now =>
    simp only [recordingStep] at possible
    split at possible
    · rename_i place
      cases possible
      exact .start now place
    · cases possible
  | turn running top =>
    simp only [recordingStep] at possible
    split at possible
    · rename_i v place
      split at possible
      · cases possible
        exact .stop running top v place
      · rename_i goes
        cases possible
        rw [not_or, Bool.not_eq_false, Int.not_le] at goes
        obtain ⟨rfl, early⟩ := goes
        exact .call top v place early
    · cases possible
  | restart =>
    simp only [recordingStep] at possible
    split at possible
    · rename_i v top number place
      simp only [Option.ite_none_right_eq_some, Option.some.injEq] at possible
      obtain ⟨known, rfl⟩ := possible
      exact .restart v top number place known
    · cases possible
  | finish returned check =>
    simp only [recordingStep] at possible
    split at possible
    · rename_i v top number place
      split at possible
      · rename_i result known
        split at possible
        · rename_i times
          cases possible
          exact .finish v ⟨true, top, readReturns s.frame result, returned, check, times.1, times.2⟩
            number result place known rfl rfl
        · cases possible
      · cases possible
    · cases possible

/-- How many frames the recorder has counted, as long as it has the count. -/
def RecordPc.frameCount : RecordPc → Option Nat
  | .before => some 0
  | .looping v => some v.frameCount
  | .reading v _ _ => some v.frameCount
  | .left (.stopped frameCount) => some frameCount
  | .left (.readError _) => none
  | .left .timedOut => none

/-- What a successful call has copied is what the array holds when `read` returns. -/
theorem readReturns_copied {published : List (Buffer UInt8 lepton.frameSize)} {publication : Nat}
    {data : List UInt8} (delivers : Delivers published publication data)
    (frame : Buffer UInt8 lepton.frameSize) :
    ∃ whole : Buffer UInt8 lepton.frameSize,
      readReturns frame (.copied publication data) = .complete whole ∧ whole.toList = data := by
  obtain ⟨-, found⟩ := delivers
  obtain ⟨whole, -, rfl⟩ := Option.map_eq_some_iff.mp found
  -- The copy fills the array.
  exact ⟨whole, by rw [readReturns, Buffer.blit_all], rfl⟩

/-- A turn that has got to its read writes a whole frame, counts it, and then may time out. -/
theorem recordTurn_complete {v : RecordVars} {turn : RecordTurn} (running : turn.running = true)
    (early : turn.top - v.start < durationS * second) {frame : Buffer UInt8 lepton.frameSize}
    (complete : turn.read = .complete frame) :
    (recordTurn durationS v turn).2 = [.wrote frame] ∧
      ∀ count, (RecordPc.behind (recordTurn durationS v turn).1).frameCount = some count →
        count = v.frameCount + 1 := by
  rw [recordTurn, if_neg (by simp [running]), if_neg (by omega)]
  simp only [takeRead, complete, Except.bind, checkTimeout]
  refine ⟨trivial, fun count => ?_⟩
  split
  · -- A recorder that aborts does not say how many frames there are.
    rintro ⟨⟩
  · rintro ⟨⟩
    rfl

/-- A turn that has read a frame times out if it has taken too long itself. -/
theorem recordTurn_late {v : RecordVars} {turn : RecordTurn} (running : turn.running = true)
    (early : turn.top - v.start < durationS * second) {frame : Buffer UInt8 lepton.frameSize}
    (complete : turn.read = .complete frame)
    (late : RecordPc.behind (recordTurn durationS v turn).1 = .left .timedOut) :
    tooLate turn.top ≤ turn.check := by
  rw [recordTurn, if_neg (by simp [running]), if_neg (by omega)] at late
  simp only [takeRead, complete, Except.bind, checkTimeout] at late
  -- The time that is compared is that of the beginning of this turn.
  split at late
  · rename_i exceeded
    exact (readTimeout_iff _ _).mp exceeded
  · cases late

/-- A turn whose read fails writes nothing and leaves the loop. -/
theorem recordTurn_failed {v : RecordVars} {turn : RecordTurn} (running : turn.running = true)
    (early : turn.top - v.start < durationS * second) {errno : Int}
    (failed : turn.read = .failed errno) :
    recordTurn durationS v turn = (.error (.readError errno), []) := by
  rw [recordTurn, if_neg (by simp [running]), if_neg (by omega)]
  simp only [takeRead, failed, Except.bind]

/-- The number of the recorder's call of `rpmsg_read`. -/
def RecordPc.call : RecordPc → Option Nat
  | .reading _ _ number => some number
  | _ => none

/-- What has been written are whole frames of the device, of which these are the numbers. -/
structure Filmed (durationS : Int) (s : RecordingState) (written : List (Nat × List UInt8)) :
    Prop where
  /-- The device has gone the way of some run of its own. -/
  device : ∃ steps, (threads lepton).final (.initial lepton) steps = s.device
  file : s.file = written.flatMap Prod.snd
  whole : ∀ frame ∈ written, Delivers s.device.published frame.1 frame.2
  counted : ∀ count, s.recorder.frameCount = some count → count = written.length
  /-- A turn that has got to its read has passed the tests in front of it. -/
  early : ∀ v top number, s.recorder = .reading v top number → top - v.start < durationS * second
  begun : ∀ number ∈ s.recorder.call, number < s.device.reads.length

/-- The calls of `rpmsg_read` return whole publications to the recorder, as to everyone. -/
theorem Filmed.untorn {written : List (Nat × List UInt8)} (filmed : Filmed durationS s written) :
    ReadsUntorn s.device := by
  obtain ⟨steps, run⟩ := filmed.device
  rw [← run]
  exact threads_readsUntorn steps

/-- What has been taken of the device by the recorder. -/
def RecordingState.mailbox (s : RecordingState) (written : List (Nat × List UInt8)) : Mailbox :=
  s.device.mailbox s.recorder.call (written.map Prod.fst)

/-- A step of the device leaves what has been written. -/
theorem Filmed.step {written : List (Nat × List UInt8)} (filmed : Filmed durationS s written)
    {event : ThreadsEvent} {device : ThreadsState lepton}
    (possible : threadsStep s.device event = some device) :
    Filmed durationS { s with device := device } written := by
  obtain ⟨⟨more, published⟩, calls⟩ := device_grows (threadsStep_moves possible)
  refine { filmed with device := ?_, whole := ?_, begun := ?_ }
  · obtain ⟨steps, run⟩ := filmed.device
    refine ⟨steps ++ [event], ?_⟩
    rw [final_append, run, final_cons, final_nil, threads_step_some possible]
  · intro frame member
    rw [published]
    exact (filmed.whole frame member).grow more
  · exact fun number own => Nat.lt_of_lt_of_le (filmed.begun number own) calls

/-- The recorder may call `rpmsg_read` while it does not wait for a call or the call has failed. -/
theorem Filmed.call {written : List (Nat × List UInt8)} (filmed : Filmed durationS s written)
    {v : RecordVars} {top : Int} (count : s.recorder.frameCount = some v.frameCount)
    (early : top - v.start < durationS * second)
    (idle : (s.device.callAt s.recorder.call).any ReadPc.passed = false ∧
      (s.device.callAt s.recorder.call).bind ReadPc.took = none) :
    Filmed durationS (callRead s v top) written ∧
      (callRead s v top).mailbox written = s.mailbox written := by
  -- The device enters a call, and everything else is as it was.
  have entered := @Filmed.step durationS s written filmed (.enter lepton.frameSize) _ rfl
  have reads : (callRead s v top).device.reads = s.device.reads ++ [.waiting] := rfl
  constructor
  · refine { entered with counted := ?_, early := ?_, begun := ?_ }
    · intro frames same
      exact filmed.counted frames (count.trans same)
    · rintro _ _ _ ⟨⟩
      exact early
    · rintro _ ⟨⟩
      rw [reads, List.length_append, List.length_singleton]
      exact Nat.lt_succ_self _
  · -- The new call is where no call would be.
    have place : (callRead s v top).device.callAt (callRead s v top).recorder.call =
        some .waiting := by
      show (s.device.reads ++ [ReadPc.waiting])[s.device.reads.length]? = some .waiting
      rw [List.getElem?_concat_length]
    unfold RecordingState.mailbox ThreadsState.mailbox
    rw [place, idle.1, idle.2]
    rfl

/-- The recorder is not in a call behind a turn. -/
theorem behind_call (result : Except RecordEnd RecordVars) :
    (RecordPc.behind result).call = none := by
  cases result <;> rfl

/-- A recorder that has left its call has written what the call has copied. -/
theorem Filmed.finish {written more : List (Nat × List UInt8)}
    (filmed : Filmed durationS s written) {v : RecordVars} {turn : RecordTurn} {pc : ReadPc}
    (place : s.device.callAt s.recorder.call = some pc) (waits : pc.passed = false)
    (took : pc.took.toList = more.map Prod.fst)
    (bytes : (recordTurn durationS v turn).2.flatMap RecordAction.written = more.flatMap Prod.snd)
    (whole : ∀ frame ∈ more, Delivers s.device.published frame.1 frame.2)
    (counted : ∀ count, (RecordPc.behind (recordTurn durationS v turn).1).frameCount = some count →
      count = written.length + more.length) :
    Filmed durationS (finishRecordTurn durationS s v turn) (written ++ more) ∧
      (finishRecordTurn durationS s v turn).mailbox (written ++ more) = s.mailbox written := by
  -- The call is over, so that the file and the count take over what it has copied.
  have idle : (finishRecordTurn durationS s v turn).recorder.call = none := behind_call _
  constructor
  · constructor
    · exact filmed.device
    · show s.file ++ _ = _
      rw [bytes, filmed.file, List.flatMap_append]
    · intro frame member
      rcases List.mem_append.mp member with earlier | last
      · exact filmed.whole frame earlier
      · exact whole frame last
    · intro count same
      rw [List.length_append]
      exact counted count same
    · -- Behind the turn the recorder is in no call.
      intro v' top number reading
      have own := congrArg RecordPc.call reading
      rw [idle] at own
      cases own
    · intro number own
      rw [idle] at own
      cases own
  · unfold RecordingState.mailbox ThreadsState.mailbox
    rw [place, idle, Mailbox.mk.injEq]
    refine ⟨rfl, rfl, rfl, waits.symm, ?_⟩
    rw [Option.bind_some, took, List.map_append]
    exact List.append_nil _

/-- The rest of a turn writes the frame that the call has copied, if it has copied one. -/
theorem Filmed.returns {written : List (Nat × List UInt8)} (filmed : Filmed durationS s written)
    {v : RecordVars} {turn : RecordTurn} {number : Nat} {result : RpmsgReadResult}
    (reading : s.recorder = .reading v turn.top number)
    (returned : s.device.reads[number]? = some (.returned result)) (running : turn.running = true)
    (read : turn.read = readReturns s.frame result) :
    ∃ more, Filmed durationS (finishRecordTurn durationS s v turn) (written ++ more) ∧
      (finishRecordTurn durationS s v turn).mailbox (written ++ more) = s.mailbox written := by
  -- A call that succeeds hands one frame to the file, and one that fails hands on nothing.
  have early := filmed.early v turn.top number reading
  have count := filmed.counted v.frameCount (by rw [reading]; rfl)
  have place : s.device.callAt s.recorder.call = some (.returned result) := by
    rw [reading]
    exact returned
  cases result with
  | copied publication data =>
    -- The frame that the call has copied goes from the mailbox to the file.
    have delivers := filmed.untorn.reads number _ returned publication data rfl
    obtain ⟨whole, complete, same⟩ := readReturns_copied delivers s.frame
    rw [complete] at read
    obtain ⟨actions, counts⟩ := recordTurn_complete running early read
    refine ⟨[(publication, data)], filmed.finish place rfl rfl ?_ ?_ ?_⟩
    · rw [actions, List.flatMap_singleton, List.flatMap_singleton]
      exact same
    · exact List.forall_mem_singleton.mpr delivers
    · intro frames known
      rw [counts frames known, count, List.length_singleton]
  | failed err =>
    -- A recorder that leaves with an error does not say how many frames there are.
    have fails := recordTurn_failed running early read
    refine ⟨[], filmed.finish place rfl rfl ?_ (List.forall_mem_nil _) ?_⟩
    · rw [fails]
      rfl
    · intro frames known
      rw [fails] at known
      cases known

/-- Between two calls the recorder may go anywhere with its count. -/
theorem Filmed.rest {written : List (Nat × List UInt8)} (filmed : Filmed durationS s written)
    {recorder : RecordPc} (before : s.recorder.call = none) (after : recorder.call = none)
    (count : recorder.frameCount = s.recorder.frameCount) :
    Filmed durationS { s with recorder := recorder } written ∧
      RecordingState.mailbox { s with recorder := recorder } written = s.mailbox written := by
  constructor
  · refine { filmed with counted := ?_, early := ?_, begun := ?_ }
    · exact fun frames known => filmed.counted frames (count.symm.trans known)
    · rintro v top number rfl
      cases after
    · intro number own
      rw [show recorder.call = none from after] at own
      cases own
  · unfold RecordingState.mailbox
    rw [before]
    show s.device.mailbox recorder.call _ = _
    rw [after]

/-- Nothing has been written when the module is just loaded. -/
theorem filmed_initial (frame : Buffer UInt8 lepton.frameSize) :
    Filmed durationS (.initial frame) [] := by
  refine ⟨⟨[], rfl⟩, rfl, List.forall_mem_nil _, ?_, ?_, ?_⟩
  · rintro count ⟨⟩
    rfl
  · rintro v top number ⟨⟩
  · rintro number ⟨⟩

/-- A step is nothing to the mailbox or one step of it; the end of a turn may add to the file. -/
theorem filmed_step {written : List (Nat × List UInt8)} (filmed : Filmed durationS s written)
    (moves : RecordingMoves durationS s event next) :
    ∃ more, Filmed durationS next (written ++ more) ∧
      (next.mailbox (written ++ more) = s.mailbox written ∨
        Mailbox.Step (s.mailbox written) (next.mailbox (written ++ more)) ∧
          ((∀ number ∈ s.recorder.call, event ≠ .device (.read number .clear)) →
            (next.mailbox (written ++ more)).taken = (s.mailbox written).taken)) := by
  -- A step of the recorder that writes nothing does not show in the mailbox.
  have nothing {shows : List (Nat × List UInt8) → Prop}
      (quiet : Filmed durationS next written ∧ next.mailbox written = s.mailbox written) :
      ∃ more, Filmed durationS next (written ++ more) ∧
        (next.mailbox (written ++ more) = s.mailbox written ∨ shows more) := by
    refine ⟨[], ?_⟩
    rw [List.append_nil]
    exact ⟨quiet.1, .inl quiet.2⟩
  cases moves with
  | device step device possible =>
    -- The file stays as it is, and the mailbox moves with the device.
    refine ⟨[], ?_⟩
    rw [List.append_nil]
    refine ⟨filmed.step possible, ?_⟩
    rcases mailbox_step (threadsStep_moves possible) filmed.begun (written.map Prod.fst) with
      same | ⟨moved, taken⟩
    · exact .inl same
    · refine .inr ⟨moved, fun others => taken fun number own clears => ?_⟩
      exact others number own (congrArg RecordingEvent.device clears)
  | start now place =>
    exact nothing (filmed.rest (by rw [place]; rfl) rfl (by rw [place]; rfl))
  | stop running top v place =>
    exact nothing (filmed.rest (by rw [place]; rfl) rfl (by rw [place]; rfl))
  | call top v place early =>
    have idle : s.device.callAt s.recorder.call = none := by rw [place]; rfl
    refine nothing (filmed.call (by rw [place]; rfl) early ?_)
    rw [idle]
    exact ⟨rfl, rfl⟩
  | restart v top number place known =>
    -- The call that the signal has interrupted has failed, so it has copied nothing.
    have failed : s.device.callAt s.recorder.call =
        some (.returned (.failed (-erestartsys))) := by
      rw [place]
      exact known
    refine nothing (filmed.call (by rw [place]; rfl) (filmed.early v top number place) ?_)
    rw [failed]
    exact ⟨rfl, rfl⟩
  | finish v turn number result place known running read =>
    obtain ⟨more, films, same⟩ := filmed.returns place known running read
    exact ⟨more, films, .inl same⟩

/-- What every step of a mailbox keeps holds of what the recorder takes in every run. -/
theorem recording_final (inv : Mailbox → Prop) {allowed : RecordingState → RecordingEvent → Prop}
    (kept : ∀ {s event written after}, inv (s.mailbox written) → allowed s event →
      Mailbox.Step (s.mailbox written) after →
      ((∀ number ∈ s.recorder.call, event ≠ .device (.read number .clear)) →
        after.taken = (s.mailbox written).taken) → inv after)
    {frame : Buffer UInt8 lepton.frameSize}
    (initially : inv ((RecordingState.initial frame).mailbox [])) {events : List RecordingEvent}
    (along : (recording durationS).Along allowed (.initial frame) events) :
    ∃ written, Filmed durationS ((recording durationS).final (.initial frame) events) written ∧
      inv (((recording durationS).final (.initial frame) events).mailbox written) := by
  refine @guarded_final _ _ _ _ (fun s => ∃ written, Filmed durationS s written ∧
    inv (s.mailbox written)) allowed (fun held permitted possible => ?_) _
    ⟨[], filmed_initial frame, initially⟩ events along
  rename_i s event next trace
  obtain ⟨written, filmed, holds⟩ := held
  obtain ⟨after, stepped, same⟩ := Option.map_eq_some_iff.mp possible
  cases same
  obtain ⟨more, films, step⟩ := filmed_step filmed (recordingStep_moves stepped)
  refine ⟨written ++ more, films, ?_⟩
  rcases step with same | ⟨moved, taken⟩
  · rw [same]
    exact holds
  · exact kept holds permitted moved taken

/-- What is in the file are frames as the callback makes them of the messages received. -/
theorem Filmed.frames {written : List (Nat × List UInt8)} (filmed : Filmed durationS s written) :
    ∀ frame ∈ written, frame.2.length = 38489 ∧
      Delivers (publishedDuring (DriverState.initial lepton) s.device.received)
        frame.1 frame.2 := by
  intro frame member
  obtain ⟨steps, run⟩ := filmed.device
  have delivers := filmed.whole frame member
  constructor
  · -- What is published is a buffer of this size.
    obtain ⟨whole, -, same⟩ := Option.map_eq_some_iff.mp delivers.2
    rw [← same]
    exact whole.length_eq
  · obtain ⟨more, front⟩ := @published_front lepton steps
    rw [run] at front
    rw [← front]
    exact delivers.grow more

/-- In every run the recorder takes the frames in order, none more than twice. -/
theorem recording_inOrder (durationS : Int) (frame : Buffer UInt8 lepton.frameSize)
    (events : List RecordingEvent) :
    ∃ written, Filmed durationS ((recording durationS).final (.initial frame) events) written ∧
      (written.map Prod.fst).Pairwise (· ≤ ·) ∧
      ∀ number, (written.map Prod.fst).count number ≤ 2 := by
  have start : Mailbox.InOrder ((RecordingState.initial frame).mailbox []) :=
    ⟨List.forall_mem_nil _, List.Pairwise.nil, fun _ => Nat.zero_le _,
      Nat.zero_le 2⟩
  have along : (recording durationS).Along (fun _ _ => True) (.initial frame) events :=
    along_of_forall _ (fun _ _ _ => trivial) _
  obtain ⟨written, filmed, inOrder⟩ := recording_final Mailbox.InOrder
    (fun holds _ step _ => Mailbox.inOrder_step holds step) start along
  -- What is in the file stands in front of what the recorder's call may just have copied.
  have ordered := (List.pairwise_append.mp inOrder.ordered).1
  refine ⟨written, filmed, ordered, fun number => ?_⟩
  have twice := inOrder.twice number
  exact Nat.le_trans (List.Sublist.count_le number (List.sublist_append_left _ _)) twice

end Esme
