import Esme.Driver.Frames
import Esme.Driver.Threads

/-! The interleaved callback does what the callback does at once, whatever the readers do. -/

namespace Esme

open Transducer

variable {layout : Layout} {s next : ThreadsState layout} {event : ThreadsEvent}

/-- What a step can do, case by case. -/
inductive ThreadsMoves (s : ThreadsState layout) : ThreadsEvent → ThreadsState layout → Prop where
  | message (data : Message) (idle : s.callback = .idle) :
      ThreadsMoves s (.message data) { s with
        driver := (startMessage s.driver data).1
        callback := (startMessage s.driver data).2
        received := s.received ++ [data] }
  | store (last : Bool) (copied count : Nat) (place : s.callback = .storing last copied)
      (inside : copied + count ≤ storeSize layout last) :
      ThreadsMoves s (.callback (.store count)) { s with
        driver := { s.driver with
          frameData := s.driver.frameData.blit
            (s.driver.packetCounter.toNat * layout.framePacketDataSize + copied)
            ((s.driver.framePacket.data.toList.drop copied).take count) }
        callback := .storing last (copied + count) }
  | stored (place : s.callback = .storing false (storeSize layout false)) :
      ThreadsMoves s (.callback .stored) { s with
        driver := { s.driver with packetCounter := s.driver.packetCounter + 1 }
        callback := .idle }
  | storedLast (place : s.callback = .storing true (storeSize layout true)) :
      ThreadsMoves s (.callback .stored)
        { s with driver := { s.driver with packetCounter := 0 }, callback := .locking }
  | lock (place : s.callback = .locking) (free : s.mutex = none) :
      ThreadsMoves s (.callback .lock)
        { s with mutex := some .callback, callback := .copying 0 }
  | copy (copied count : Nat) (place : s.callback = .copying copied)
      (inside : copied + count ≤ layout.frameSize) :
      ThreadsMoves s (.callback (.copy count)) { s with
        driver := { s.driver with
          frameDataReadout := s.driver.frameDataReadout.blit copied
            ((s.driver.frameData.toList.drop copied).take count) }
        callback := .copying (copied + count) }
  | unlock (place : s.callback = .copying layout.frameSize) :
      ThreadsMoves s (.callback .unlock) { s with
        mutex := none
        callback := .unlocked
        published := s.published ++ [s.driver.frameDataReadout] }
  | announce (place : s.callback = .unlocked) :
      ThreadsMoves s (.callback .announce) { s with
        driver := { s.driver with dataReady := true, frameCounter := s.driver.frameCounter + 1 }
        callback := .idle }
  | refuse (count : Nat) (other : count ≠ layout.frameSize) :
      ThreadsMoves s (.enter count)
        { s with reads := s.reads ++ [.returned (.failed (-einval))] }
  | enter : ThreadsMoves s (.enter layout.frameSize) { s with reads := s.reads ++ [.waiting] }
  | pass (number : Nat) (known : s.reads[number]? = some .waiting)
      (ready : s.driver.dataReady = true) :
      ThreadsMoves s (.read number .pass) (s.move number .locking)
  | interrupt (number : Nat) (known : s.reads[number]? = some .waiting) :
      ThreadsMoves s (.read number .interrupt)
        (s.move number (.returned (.failed (-erestartsys))))
  | acquire (number : Nat) (known : s.reads[number]? = some .locking) (free : s.mutex = none) :
      ThreadsMoves s (.read number .lock)
        { s.move number (.copying 0 []) with mutex := some (.read number) }
  | copyOut (number copied count : Nat) (data : List UInt8)
      (known : s.reads[number]? = some (.copying copied data))
      (inside : copied + count ≤ layout.frameSize) :
      ThreadsMoves s (.read number (.copy count)) (s.move number (.copying (copied + count)
        (data ++ (s.driver.frameDataReadout.toList.drop copied).take count)))
  | fault (number copied : Nat) (data : List UInt8)
      (known : s.reads[number]? = some (.copying copied data)) :
      ThreadsMoves s (.read number .fault) (s.move number (.unlocking (.failed (-efault))))
  | clear (number : Nat) (data : List UInt8)
      (known : s.reads[number]? = some (.copying layout.frameSize data)) :
      ThreadsMoves s (.read number .clear)
        { s.move number (.unlocking (.copied s.published.length data)) with
          driver := { s.driver with dataReady := false } }
  | release (number : Nat) (result : RpmsgReadResult)
      (known : s.reads[number]? = some (.unlocking result)) :
      ThreadsMoves s (.read number .unlock)
        { s.move number (.returned result) with mutex := none }

/-- Every step of the callback is one of these. -/
theorem callbackStep_moves {step : CbStep} (possible : callbackStep s step = some next) :
    ThreadsMoves s (.callback step) next := by
  -- A step is possible at one place of the callback only.
  cases step with
  | store count =>
    simp only [callbackStep] at possible
    split at possible
    · rename_i last copied place
      simp only [Option.ite_none_right_eq_some, Option.some.injEq] at possible
      obtain ⟨inside, rfl⟩ := possible
      exact .store last copied count place inside
    · cases possible
  | stored =>
    simp only [callbackStep] at possible
    split at possible
    · rename_i last copied place
      simp only [Option.ite_none_right_eq_some, Option.some.injEq] at possible
      obtain ⟨rfl, rfl⟩ := possible
      cases last with
      | false => exact .stored place
      | true => exact .storedLast place
    · cases possible
  | lock =>
    simp only [callbackStep, Option.ite_none_right_eq_some, Option.some.injEq] at possible
    obtain ⟨⟨place, free⟩, rfl⟩ := possible
    exact .lock place free
  | copy count =>
    simp only [callbackStep] at possible
    split at possible
    · rename_i copied place
      simp only [Option.ite_none_right_eq_some, Option.some.injEq] at possible
      obtain ⟨inside, rfl⟩ := possible
      exact .copy copied count place inside
    · cases possible
  | unlock =>
    simp only [callbackStep, Option.ite_none_right_eq_some, Option.some.injEq] at possible
    obtain ⟨place, rfl⟩ := possible
    exact .unlock place
  | announce =>
    simp only [callbackStep, Option.ite_none_right_eq_some, Option.some.injEq] at possible
    obtain ⟨place, rfl⟩ := possible
    exact .announce place

/-- Every step of a call is one of these. -/
theorem readStep_moves {number : Nat} {pc : ReadPc} {step : ReadStep}
    (known : s.reads[number]? = some pc) (possible : readStep s number pc step = some next) :
    ThreadsMoves s (.read number step) next := by
  -- Steps of a copy need the call to be in it, and the others its exact place.
  cases step with
  | pass =>
    simp only [readStep, Option.ite_none_right_eq_some, Option.some.injEq] at possible
    obtain ⟨⟨rfl, ready⟩, rfl⟩ := possible
    exact .pass number known ready
  | interrupt =>
    simp only [readStep, Option.ite_none_right_eq_some, Option.some.injEq] at possible
    obtain ⟨rfl, rfl⟩ := possible
    exact .interrupt number known
  | lock =>
    simp only [readStep, Option.ite_none_right_eq_some, Option.some.injEq] at possible
    obtain ⟨⟨rfl, free⟩, rfl⟩ := possible
    exact .acquire number known free
  | copy count =>
    cases pc with
    | copying copied data =>
      simp only [readStep, Option.ite_none_right_eq_some, Option.some.injEq] at possible
      obtain ⟨inside, rfl⟩ := possible
      exact .copyOut number copied count data known inside
    | waiting | locking | unlocking _ | returned _ => cases possible
  | fault =>
    cases pc with
    | copying copied data =>
      cases possible
      exact .fault number copied data known
    | waiting | locking | unlocking _ | returned _ => cases possible
  | clear =>
    cases pc with
    | copying copied data =>
      simp only [readStep, Option.ite_none_right_eq_some, Option.some.injEq] at possible
      obtain ⟨rfl, rfl⟩ := possible
      exact .clear number data known
    | waiting | locking | unlocking _ | returned _ => cases possible
  | unlock =>
    cases pc with
    | unlocking result =>
      cases possible
      exact .release number result known
    | waiting | locking | copying _ _ | returned _ => cases possible

/-- Every possible step is one of these. -/
theorem threadsStep_moves (possible : threadsStep s event = some next) :
    ThreadsMoves s event next := by
  -- A step of a call needs a call of that number.
  cases event with
  | message data =>
    simp only [threadsStep, Option.ite_none_right_eq_some, Option.some.injEq] at possible
    obtain ⟨idle, rfl⟩ := possible
    exact .message data idle
  | callback step => exact callbackStep_moves possible
  | enter count =>
    simp only [threadsStep, rpmsgRead, Option.some.injEq] at possible
    subst possible
    split
    · rename_i other
      exact .refuse count other
    · rename_i same
      rw [Decidable.not_not] at same
      exact same ▸ .enter
  | read number step =>
    simp only [threadsStep] at possible
    cases found : s.reads[number]? with
    | none =>
      rw [found] at possible
      cases possible
    | some pc =>
      rw [found] at possible
      exact readStep_moves found possible

/-- What starts with a message touches neither the read-out buffer nor the flag. -/
theorem startMessage_spares (driver : DriverState layout) (data : Message) :
    (startMessage driver data).1.frameDataReadout = driver.frameDataReadout ∧
      (startMessage driver data).1.dataReady = driver.dataReady ∧
      ((startMessage driver data).2 = .idle ∨
        ∃ last, (startMessage driver data).2 = .storing last 0) := by
  -- Storing a packet starts from whatever the tests before it have written.
  have stores : ∀ started : DriverState layout,
      (startStore started).1.frameDataReadout = started.frameDataReadout ∧
        (startStore started).1.dataReady = started.dataReady ∧
        ((startStore started).2 = .idle ∨ ∃ last, (startStore started).2 = .storing last 0) := by
    intro started
    unfold startStore
    split
    · exact ⟨rfl, rfl, .inl rfl⟩
    split
    · exact ⟨rfl, rfl, .inr ⟨false, rfl⟩⟩
    split
    · exact ⟨rfl, rfl, .inr ⟨true, rfl⟩⟩
    · exact ⟨rfl, rfl, .inl rfl⟩
  simp only [startMessage]
  split
  · exact ⟨rfl, rfl, .inl rfl⟩
  split
  · -- The variables that are written before the packet is stored are others.
    unfold startFramePacket
    dsimp only
    split
    · exact stores _
    split
    · exact ⟨rfl, rfl, .inl rfl⟩
    · exact stores _
  · exact ⟨rfl, rfl, .inl rfl⟩

/-- A message is not handled by copying into the read-out buffer right away. -/
theorem startMessage_place (driver : DriverState layout) (data : Message) :
    (∀ copied, (startMessage driver data).2 ≠ .copying copied) ∧
      (startMessage driver data).2 ≠ .unlocked := by
  -- It waits for the next message, or it copies into the other buffer.
  obtain ⟨-, -, idle | ⟨last, storing⟩⟩ := startMessage_spares driver data
  · simp [idle]
  · simp [storing]

/-- What every allowed step keeps holds of every state that the threads reach. -/
theorem threads_final {inv : ThreadsState layout → Prop}
    {allowed : ThreadsState layout → ThreadsEvent → Prop}
    (kept : ∀ {s next event}, inv s → allowed s event → ThreadsMoves s event next → inv next)
    (initially : inv s) {events : List ThreadsEvent}
    (along : (threads layout).Along allowed s events) :
    inv ((threads layout).final s events) := by
  -- The threads write nothing, so a step is its next state.
  refine guarded_final (fun held permitted possible => ?_) initially along
  obtain ⟨next, stepped, same⟩ := Option.map_eq_some_iff.mp possible
  cases same
  exact kept held permitted (threadsStep_moves stepped)

/-- What every step keeps holds of every state that the threads reach. -/
theorem threads_run {inv : ThreadsState layout → Prop}
    (kept : ∀ {s next event}, inv s → ThreadsMoves s event next → inv next)
    (initially : inv s) (events : List ThreadsEvent) :
    inv ((threads layout).final s events) :=
  have along : (threads layout).Along (fun _ _ => True) s events :=
    along_of_forall _ (fun _ _ _ => trivial) s
  threads_final (fun held _ moves => kept held moves) initially along

/-- `frameData` once the packet is copied, of which this much is there. -/
def assembled (driver : DriverState layout) (last : Bool) (copied : Nat) :
    Buffer UInt8 layout.frameSize :=
  driver.frameData.blit (driver.packetCounter.toNat * layout.framePacketDataSize + copied)
    ((driver.framePacket.data.toList.take (storeSize layout last)).drop copied)

/-- `frameDataReadout` once `frameData` is copied, of which this much is there. -/
def readOut (driver : DriverState layout) (copied : Nat) : Buffer UInt8 layout.frameSize :=
  driver.frameDataReadout.blit copied (driver.frameData.toList.drop copied)

/-- The end of a publication. -/
def announced (driver : DriverState layout) : DriverState layout :=
  { driver with dataReady := true, frameCounter := driver.frameCounter + 1 }

/-- What the callback leaves if no other thread takes a step. -/
def settle (driver : DriverState layout) : CbPc → DriverState layout
  -- From each place on, the rest of the source is carried out.
  | .idle => driver
  | .storing false copied => { driver with
      frameData := assembled driver false copied
      packetCounter := driver.packetCounter + 1 }
  | .storing true copied => announced { driver with
      frameData := assembled driver true copied
      packetCounter := 0
      frameDataReadout := assembled driver true copied }
  | .locking => announced { driver with frameDataReadout := driver.frameData }
  | .copying copied => announced { driver with frameDataReadout := readOut driver copied }
  | .unlocked => announced driver

/-- The frame that the callback is still going to publish. -/
def pending (driver : DriverState layout) : CbPc → List (Buffer UInt8 layout.frameSize)
  -- Behind the unlock the frame counts as published already.
  | .idle => []
  | .storing false _ => []
  | .storing true copied => [assembled driver true copied]
  | .locking => [driver.frameData]
  | .copying copied => [readOut driver copied]
  | .unlocked => []

/-- A `memcpy` of a packet stays inside the packet. -/
theorem storeSize_le (layout : Layout) (last : Bool) :
    storeSize layout last ≤ layout.framePacketDataSize := by
  -- The last packet of a frame is not full.
  cases last with
  | false => exact Nat.le_refl _
  | true => exact Nat.le_of_lt layout.lastFramePacketSize_lt

/-- Some bytes of a list and the bytes behind them are the bytes behind the first ones. -/
theorem take_drop_append {α : Type*} (source : List α) {copied count size : Nat}
    (inside : copied + count ≤ size) :
    (source.drop copied).take count ++ (source.take size).drop (copied + count) =
      (source.take size).drop copied := by
  -- The bytes that are taken lie in front of the place where the source is cut.
  have front : (source.drop copied).take count = ((source.take size).drop copied).take count := by
    rw [List.drop_take, List.take_take, Nat.min_eq_left (by omega)]
  rw [front, ← List.drop_drop, List.take_append_drop]

/-- Copying some bytes of the packet leaves the same to be assembled. -/
theorem assembled_store (driver : DriverState layout) {last : Bool} {copied count : Nat}
    (inside : copied + count ≤ storeSize layout last) :
    assembled { driver with
      frameData := driver.frameData.blit
        (driver.packetCounter.toNat * layout.framePacketDataSize + copied)
        ((driver.framePacket.data.toList.drop copied).take count) } last (copied + count) =
      assembled driver last copied := by
  -- The two pieces lie next to each other, so they are one write.
  have size := storeSize_le layout last
  have taken : ((driver.framePacket.data.toList.drop copied).take count).length = count := by
    rw [List.length_take, List.length_drop, driver.framePacket.data.length_eq]
    omega
  unfold assembled
  dsimp only
  rw [← take_drop_append _ inside, ← Buffer.blit_append, taken, Nat.add_assoc]

/-- A packet that is copied is assembled. -/
theorem assembled_stored (driver : DriverState layout) (last : Bool) :
    assembled driver last (storeSize layout last) = driver.frameData := by
  -- No byte is left to be written.
  unfold assembled
  rw [List.drop_eq_nil_of_le (List.length_take_le _ _), Buffer.blit_nil]

/-- Copying some bytes of the frame leaves the same to be read out. -/
theorem readOut_copy (driver : DriverState layout) {copied count : Nat}
    (inside : copied + count ≤ layout.frameSize) :
    readOut { driver with
      frameDataReadout := driver.frameDataReadout.blit copied
        ((driver.frameData.toList.drop copied).take count) } (copied + count) =
      readOut driver copied := by
  -- As for the packet, with the whole frame for the source.
  have taken : ((driver.frameData.toList.drop copied).take count).length = count := by
    rw [List.length_take, List.length_drop, driver.frameData.length_eq]
    omega
  have whole : driver.frameData.toList.take layout.frameSize = driver.frameData.toList :=
    List.take_of_length_le (Nat.le_of_eq driver.frameData.length_eq)
  have split := take_drop_append driver.frameData.toList inside
  have pieces := Buffer.blit_append driver.frameDataReadout copied
    ((driver.frameData.toList.drop copied).take count)
    (driver.frameData.toList.drop (copied + count))
  rw [whole] at split
  rw [split, taken] at pieces
  exact pieces

/-- A frame that is copied is read out. -/
theorem readOut_copied (driver : DriverState layout) :
    readOut driver layout.frameSize = driver.frameDataReadout := by
  -- No byte of the frame lies behind its size.
  unfold readOut
  rw [List.drop_eq_nil_of_le (Nat.le_of_eq driver.frameData.length_eq), Buffer.blit_nil]

/-- A frame of which nothing is copied will be read out. -/
theorem readOut_zero (driver : DriverState layout) : readOut driver 0 = driver.frameData :=
  Buffer.blit_all _ _

/-- The first copy of a packet comes to the store that is made at once. -/
theorem startStore_settles (driver : DriverState layout) :
    settle (startStore driver).1 (startStore driver).2 = (storePacket driver).1 ∧
      pending (startStore driver).1 (startStore driver).2 =
        (storePacket driver).2.flatMap publishedFrame := by
  unfold startStore storePacket
  -- Both make the same tests, and copy in the same two of the four branches.
  dsimp only
  split
  · exact ⟨rfl, rfl⟩
  split
  · -- The data of a full packet are copied whole.
    have whole : driver.framePacket.data.toList.take (storeSize layout false) =
        driver.framePacket.data.toList :=
      List.take_of_length_le (Nat.le_of_eq driver.framePacket.data.length_eq)
    simp only [settle, pending, assembled, whole, List.drop_zero, Nat.add_zero]
    exact ⟨trivial, rfl⟩
  split
  · exact ⟨rfl, rfl⟩
  · exact ⟨rfl, rfl⟩

/-- What a message starts comes to what the callback does at once. -/
theorem startMessage_settles (driver : DriverState layout) (data : Message) :
    settle (startMessage driver data).1 (startMessage driver data).2 =
        ((rpmsgEsmeCb layout).step driver data).1 ∧
      pending (startMessage driver data).1 (startMessage driver data).2 =
        publishedBy driver data := by
  -- The branches are those of the callback.
  unfold publishedBy
  simp only [startMessage, rpmsgEsmeCb]
  split
  · exact ⟨rfl, rfl⟩
  split
  · -- Both take the same branch, and stop or store in it.
    unfold startFramePacket receiveFramePacket
    dsimp only
    split
    · exact startStore_settles _
    split
    · exact ⟨rfl, rfl⟩
    · exact startStore_settles _
  · exact ⟨rfl, rfl⟩

/-- The variables of the driver but for the flag, which the readers clear. -/
def unready (driver : DriverState layout) : DriverState layout :=
  { driver with dataReady := false }

/-- A packet is stored alike whatever the flag is. -/
theorem storePacket_unready {one other : DriverState layout} (same : unready one = unready other) :
    unready (storePacket one).1 = unready (storePacket other).1 ∧
      (storePacket one).2.flatMap publishedFrame =
        (storePacket other).2.flatMap publishedFrame := by
  obtain ⟨ready, rfl⟩ : ∃ ready, one = { other with dataReady := ready } :=
    ⟨one.dataReady, congrArg (fun driver => { driver with dataReady := one.dataReady }) same⟩
  unfold storePacket
  dsimp only
  -- No branch looks at the flag.
  split
  · exact ⟨rfl, rfl⟩
  split
  · exact ⟨rfl, rfl⟩
  split
  · exact ⟨rfl, rfl⟩
  · exact ⟨rfl, rfl⟩

/-- A message is handled alike whatever the flag is. -/
theorem step_unready {one other : DriverState layout} (same : unready one = unready other)
    (data : Message) :
    unready ((rpmsgEsmeCb layout).step one data).1 =
        unready ((rpmsgEsmeCb layout).step other data).1 ∧
      publishedBy one data = publishedBy other data := by
  -- The flag is written by the callback and never read by it.
  obtain ⟨ready, rfl⟩ : ∃ ready, one = { other with dataReady := ready } :=
    ⟨one.dataReady, congrArg (fun driver => { driver with dataReady := one.dataReady }) same⟩
  unfold publishedBy
  simp only [rpmsgEsmeCb]
  split
  · exact ⟨rfl, rfl⟩
  split
  · unfold receiveFramePacket
    dsimp only
    split
    · exact storePacket_unready rfl
    split
    · exact ⟨rfl, rfl⟩
    · exact storePacket_unready rfl
  · exact ⟨rfl, rfl⟩

/-- One more message is handled behind the others. -/
theorem afterMessages_concat (layout : Layout) (history : List Message) (data : Message) :
    afterMessages layout (history ++ [data]) =
      ((rpmsgEsmeCb layout).step (afterMessages layout history) data).1 := by
  unfold afterMessages
  rw [final_append, final_cons, final_nil]

/--
Left to itself, the callback gets where it would be if it handled each message at once, and has
published the same.
-/
structure Settles (s : ThreadsState layout) : Prop where
  driver : unready (settle s.driver s.callback) = unready (afterMessages layout s.received)
  published : s.published ++ pending s.driver s.callback =
    publishedDuring (DriverState.initial layout) s.received

/-- A step that settles alike keeps what the callback comes to. -/
theorem Settles.congr (settles : Settles s) (received : next.received = s.received)
    (driver : unready (settle next.driver next.callback) = unready (settle s.driver s.callback))
    (published : next.published ++ pending next.driver next.callback =
      s.published ++ pending s.driver s.callback) : Settles next := by
  constructor
  · rw [driver, received]
    exact settles.driver
  · rw [published, received]
    exact settles.published

/-- Clearing the flag changes nothing that the callback comes to but the flag. -/
theorem settle_cleared (driver : DriverState layout) (callback : CbPc) :
    unready (settle { driver with dataReady := false } callback) =
        unready (settle driver callback) ∧
      pending { driver with dataReady := false } callback = pending driver callback := by
  -- No place looks at the flag, and the places that set it do so in both states.
  cases callback with
  | storing last copied => cases last <;> exact ⟨rfl, rfl⟩
  | idle | locking | copying _ | unlocked => exact ⟨rfl, rfl⟩

/-- The callback comes to the same from both states, with the same readers. -/
structure ComesTo (s next : ThreadsState layout) : Prop where
  driver : settle next.driver next.callback = settle s.driver s.callback
  published : next.published ++ pending next.driver next.callback =
    s.published ++ pending s.driver s.callback
  reads : next.reads = s.reads
  received : next.received = s.received

/-- A step of the callback changes nothing of what it comes to. -/
theorem callback_comesTo {step : CbStep} (moves : ThreadsMoves s (.callback step) next) :
    ComesTo s next := by
  -- At each place the step does what `settle` has it do first.
  cases moves with
  | store last copied count place inside =>
    refine ⟨?_, ?_, rfl, rfl⟩
    · rw [place]
      cases last <;> simp only [settle, assembled_store s.driver inside]
    · rw [place]
      cases last <;> simp only [pending, assembled_store s.driver inside]
  | stored place =>
    refine ⟨?_, ?_, rfl, rfl⟩
    · rw [place]
      simp only [settle, assembled_stored]
    · rw [place]
      simp only [pending]
  | storedLast place =>
    refine ⟨?_, ?_, rfl, rfl⟩
    · rw [place]
      simp only [settle, assembled_stored]
    · rw [place]
      simp only [pending, assembled_stored]
  | lock place free =>
    refine ⟨?_, ?_, rfl, rfl⟩
    · rw [place]
      simp only [settle, readOut_zero]
    · rw [place]
      simp only [pending, readOut_zero]
  | copy copied count place inside =>
    refine ⟨?_, ?_, rfl, rfl⟩
    · rw [place]
      simp only [settle, readOut_copy s.driver inside]
    · rw [place]
      simp only [pending, readOut_copy s.driver inside]
  | unlock place =>
    refine ⟨?_, ?_, rfl, rfl⟩
    · rw [place]
      simp only [settle, readOut_copied]
    · rw [place]
      simp only [pending, readOut_copied, List.append_nil]
  | announce place =>
    refine ⟨?_, ?_, rfl, rfl⟩
    · rw [place]
      rfl
    · rw [place]
      rfl

/-- Every step of every thread keeps what the callback comes to. -/
theorem settles_step (settles : Settles s) (moves : ThreadsMoves s event next) : Settles next := by
  -- Only a message is something new, and of the calls only the clearing of the flag shows.
  cases event with
  | callback step =>
    have same := callback_comesTo moves
    exact settles.congr same.received (congrArg unready same.driver) same.published
  | message data =>
    cases moves with
    | message data idle =>
      obtain ⟨driver, published⟩ := settles
      rw [idle] at driver published
      -- Between two messages the callback has come to where it is.
      obtain ⟨starts, waits⟩ := startMessage_settles s.driver data
      obtain ⟨alike, shows⟩ := step_unready driver data
      rw [pending, List.append_nil] at published
      constructor
      · rw [afterMessages_concat, ← alike]
        exact congrArg unready starts
      · rw [publishedDuring_concat, ← published]
        exact congrArg (s.published ++ ·) (waits.trans shows)
  | enter count => cases moves <;> exact settles.congr rfl rfl rfl
  | read number step =>
    cases moves with
    | clear number data known =>
      obtain ⟨driver, published⟩ := settle_cleared s.driver s.callback
      exact settles.congr rfl driver (congrArg (s.published ++ ·) published)
    | pass _ _ _ | interrupt _ _ | acquire _ _ _ | copyOut _ _ _ _ _ _ | fault _ _ _ _
    | release _ _ _ => exact settles.congr rfl rfl rfl

/-- In every run of the threads the callback comes to what it does at once. -/
theorem threads_settle (events : List ThreadsEvent) :
    Settles ((threads layout).final (.initial layout) events) :=
  threads_run settles_step ⟨rfl, rfl⟩ events

/-- The frames published so far are the first of those of the messages received. -/
theorem published_front (events : List ThreadsEvent) :
    ((threads layout).final (.initial layout) events).published <+:
      publishedDuring (DriverState.initial layout)
        ((threads layout).final (.initial layout) events).received :=
  ⟨_, (threads_settle events).published⟩

end Esme
