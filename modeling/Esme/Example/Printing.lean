import Esme.Example.Loop

/-! Which streams the example prints as they are, and without leaving its arrays. -/

namespace Esme

open Transducer

/-- The bytes that a read takes from `passive.fifo`. -/
def ExampleAction.passiveBytes : ExampleAction → List UInt8
  | .read .passive chunk => chunk
  | _ => []

/-- The text that the passive loop prints of what it reads. -/
def ExampleAction.passiveText : ExampleAction → List UInt8
  | .printed .passive messageStr => messageStr
  | _ => []

/-- A terminator is stored inside the array. -/
def ExampleAction.Inside : ExampleAction → Prop
  | .terminated _ place => place < messageSize
  | _ => True

/-- Every terminator is stored inside its array, and the stream is printed as it is. -/
structure ReadsWell (actions : List ExampleAction) : Prop where
  inside : ∀ action ∈ actions, action.Inside
  complete : actions.flatMap ExampleAction.passiveText =
    actions.flatMap ExampleAction.passiveBytes

/-- The bytes of a read; there are none at the end and behind an error. -/
def FifoRead.chunk : FifoRead → List UInt8
  | .bytes chunk _ _ => chunk
  | _ => []

/-- A read leaves room for the terminator, and a read of the passive loop has no zero in it. -/
def LeavesRoom : Except ExampleEnd ExampleVars → ExampleTurn → Prop
  | .ok v, turn => turn.read.chunk.length < messageSize ∧ (v.warmup = false → 0 ∉ turn.read.chunk)
  | .error _, _ => True

/-- The FIFO that is read. -/
def ExampleVars.fifo (v : ExampleVars) : Fifo := if v.warmup then .mosi else .passive

/-- An action that is neither about an array nor about a stream. -/
def ExampleAction.Aside : ExampleAction → Prop
  | .read _ _ => False
  | .terminated _ _ => False
  | .printed _ _ => False
  | _ => True

/-- Actions that do with the bytes of a read what both readers do, and something else before. -/
inductive TakesRead (fifo : Fifo) : List UInt8 → List ExampleAction → Prop where
  | nothing {asides : List ExampleAction} (aside : ∀ action ∈ asides, action.Aside) :
      TakesRead fifo [] asides
  | some {asides : List ExampleAction} (aside : ∀ action ∈ asides, action.Aside)
      (message : Buffer UInt8 messageSize) (chunk : List UInt8) :
      TakesRead fifo chunk (asides ++ (printMessage fifo message chunk).2)

/-- What is done aside neither stores a terminator nor reads or prints anything. -/
theorem ExampleAction.Aside.silent {action : ExampleAction} (aside : action.Aside) :
    action.Inside ∧ action.passiveText = [] ∧ action.passiveBytes = [] := by
  cases action with
  | read _ _ | terminated _ _ | printed _ _ => cases aside
  | _ => exact ⟨trivial, rfl, rfl⟩

/-- A chunk that leaves room is printed up to its first zero. -/
theorem printMessage_inside (fifo : Fifo) (message : Buffer UInt8 messageSize)
    {chunk : List UInt8} (inside : chunk.length < messageSize) :
    ∃ terminated, printMessage fifo message chunk =
      (.ok (terminated, chunk.takeWhile (· ≠ 0)), [.read fifo chunk,
        .terminated fifo chunk.length, .printed fifo (chunk.takeWhile (· ≠ 0))]) := by
  obtain ⟨terminated, text⟩ := Buffer.terminate_inside 0 message inside
  exact ⟨terminated, by rw [printMessage, text]⟩

/-- A chunk that fills the array is terminated behind it. -/
theorem printMessage_full (fifo : Fifo) (message : Buffer UInt8 messageSize)
    {chunk : List UInt8} (full : messageSize ≤ chunk.length) :
    printMessage fifo message chunk =
      (.error .overrun, [.read fifo chunk, .terminated fifo chunk.length]) := by
  rw [printMessage, Buffer.terminate_full 0 message full]

/-- Terminators stay inside the array exactly when the read leaves room for them. -/
theorem TakesRead.inside_iff {fifo : Fifo} {chunk : List UInt8} {actions : List ExampleAction}
    (takes : TakesRead fifo chunk actions) :
    (∀ action ∈ actions, action.Inside) ↔ chunk.length < messageSize := by
  cases takes with
  | nothing aside =>
    exact iff_of_true (fun action member => (aside action member).silent.1) (by decide)
  | some aside message =>
    rw [List.forall_mem_append,
      and_iff_right fun action member => (aside action member).silent.1]
    -- The zero is stored behind the chunk, so its place is the length of the chunk.
    rcases Nat.lt_or_ge chunk.length messageSize with inside | full
    · obtain ⟨terminated, printed⟩ := printMessage_inside fifo message inside
      rw [printed]
      simp [ExampleAction.Inside, inside]
    · rw [printMessage_full fifo message full]
      simp [ExampleAction.Inside, Nat.not_lt.mpr full]

/-- What is printed of the stream is a front of what is read, and all of a chunk that leaves room
exactly when it has no zero in it. -/
theorem TakesRead.text {fifo : Fifo} {chunk : List UInt8} {actions : List ExampleAction}
    (takes : TakesRead fifo chunk actions) :
    actions.flatMap ExampleAction.passiveText <+: actions.flatMap ExampleAction.passiveBytes ∧
      (chunk.length < messageSize →
        (actions.flatMap ExampleAction.passiveText = actions.flatMap ExampleAction.passiveBytes ↔
          (fifo = .passive → 0 ∉ chunk))) := by
  -- Only a chunk of the stream can be cut short, and its text is what comes before its first zero.
  cases takes with
  | nothing aside =>
    rw [flatMap_silent aside fun _ aside => aside.silent.2.1,
      flatMap_silent aside fun _ aside => aside.silent.2.2]
    simp
  | some aside message =>
    rw [List.flatMap_append, List.flatMap_append,
      flatMap_silent aside fun _ aside => aside.silent.2.1,
      flatMap_silent aside fun _ aside => aside.silent.2.2]
    rcases Nat.lt_or_ge chunk.length messageSize with inside | full
    · obtain ⟨terminated, printed⟩ := printMessage_inside fifo message inside
      rw [printed]
      cases fifo with
      | mosi => simp [ExampleAction.passiveText, ExampleAction.passiveBytes]
      | passive =>
        simp only [ExampleAction.passiveText, ExampleAction.passiveBytes, List.flatMap_cons,
          List.flatMap_nil, List.append_nil, List.nil_append, Buffer.takeWhile_terminator_iff]
        exact ⟨List.takeWhile_prefix _, fun _ => by simp⟩
    · rw [printMessage_full fifo message full]
      have outside := Nat.not_lt.mpr full
      cases fifo <;> simp [ExampleAction.passiveText, ExampleAction.passiveBytes, outside]

/-- An answer is taken from `mosi.fifo`. -/
theorem waitForResponse_takes (message : Buffer UInt8 messageSize) (read : FifoRead) :
    TakesRead .mosi read.chunk (waitForResponse message read).2 := by
  -- Each branch begins with the line that an answer is waited for.
  have awaited : ∀ action ∈ [ExampleAction.awaited], action.Aside :=
    List.forall_mem_singleton.mpr trivial
  cases read with
  | bytes chunk _ _ => exact .some awaited message chunk
  | closed =>
    apply TakesRead.nothing
    exact List.forall_mem_cons.mpr ⟨trivial, List.forall_mem_singleton.mpr trivial⟩
  | failed errno =>
    apply TakesRead.nothing
    exact List.forall_mem_cons.mpr ⟨trivial, List.forall_mem_singleton.mpr trivial⟩

/-- A turn of the passive loop takes its read from `passive.fifo`. -/
theorem passiveTurn_takes (v : ExampleVars) (read : FifoRead) :
    TakesRead .passive read.chunk (passiveTurn v read).2 := by
  cases read with
  | bytes chunk _ _ => exact .some (List.forall_mem_nil _) v.message chunk
  | closed => exact .nothing (List.forall_mem_singleton.mpr trivial)
  | failed errno => exact .nothing (List.forall_mem_singleton.mpr trivial)

/-- What is done aside may also come before. -/
theorem TakesRead.behind {fifo : Fifo} {chunk : List UInt8} {actions : List ExampleAction}
    (takes : TakesRead fifo chunk actions) {before : List ExampleAction}
    (aside : ∀ action ∈ before, action.Aside) : TakesRead fifo chunk (before ++ actions) := by
  cases takes with
  | nothing others => exact .nothing (List.forall_mem_append.mpr ⟨aside, others⟩)
  | some others message =>
    rw [← List.append_assoc]
    exact .some (List.forall_mem_append.mpr ⟨aside, others⟩) message chunk

/-- Sending a command is done aside. -/
theorem sendCommand_aside (command : List UInt8) (writtenBytes : Int) :
    ∀ action ∈ sendCommand command writtenBytes, action.Aside := by
  unfold sendCommand
  split <;> simp [ExampleAction.Aside]

/-- Every turn takes its read from the FIFO that the phase is about. -/
theorem exampleTurn_takes (v : ExampleVars) (turn : ExampleTurn) :
    TakesRead v.fifo turn.read.chunk (exampleTurn v turn).2 := by
  unfold exampleTurn ExampleVars.fifo
  split
  · -- Each command is followed by an answer.
    have takes := waitForResponse_takes turn.stack turn.read
    unfold commandTurn
    cases v.commands with
    | nil => exact takes.behind (sendCommand_aside _ _)
    | cons command rest => exact takes.behind (sendCommand_aside _ _)
  · exact passiveTurn_takes v turn.read

/--
The example reads well if and only if every read leaves room for the terminator and every chunk of
the stream is without a zero.

The runs are those of the whole program, with any answers and any chunks of the stream.
-/
theorem reads_well_iff (message : Buffer UInt8 messageSize) (turns : List ExampleTurn) :
    ReadsWell (exampleMain.output (.ok (.initial message)) turns) ↔
      exampleMain.Along LeavesRoom (.ok (.initial message)) turns := by
  -- Both halves hold of a run when they hold of each of its turns.
  have both : ∀ actions, ReadsWell actions ↔ (∀ action ∈ actions, action.Inside) ∧
      actions.flatMap ExampleAction.passiveText =
        actions.flatMap ExampleAction.passiveBytes :=
    fun actions => ⟨fun well => ⟨well.inside, well.complete⟩, fun well => ⟨well.1, well.2⟩⟩
  have fewer : ∀ state turn,
      ((exampleMain.step state turn).2.flatMap ExampleAction.passiveText).length ≤
        ((exampleMain.step state turn).2.flatMap ExampleAction.passiveBytes).length := by
    intro state turn
    cases state with
    | ok v => exact (exampleTurn_takes v turn).text.1.length_le
    | error error => exact Nat.le_refl _
  rw [both, forall_output_iff, output_eq_iff _ fewer, ← along_and]
  refine @along_congr _ _ _ _ (fun _ => True) _ _ (fun _ _ _ => trivial) ?_ _ trivial _
  intro state turn _
  cases state with
  | ok v =>
    have takes := exampleTurn_takes v turn
    have passive : v.fifo = .passive ↔ v.warmup = false := by
      cases warmup : v.warmup <;> simp [ExampleVars.fifo, warmup]
    rw [exampleMain, stopping_step_ok, takes.inside_iff, LeavesRoom, ← passive]
    exact and_congr_right takes.text.2
  | error error => exact iff_of_true ⟨by simp [exampleMain, stopping], rfl⟩ trivial

/-- A turn whose read brings some bytes. -/
def bringing (chunk : List UInt8) (some : chunk ≠ []) (fits : chunk.length ≤ messageSize) :
    ExampleTurn where
  writtenBytes := -1
  read := .bytes chunk some fits
  stack := Buffer.replicate _ 0

/-- An answer that fills the array. -/
def fullAnswer : ExampleTurn :=
  bringing (List.replicate messageSize 0x61)
    (by rw [Ne, List.replicate_eq_nil_iff]; decide) List.length_replicate.le

/-- A program that comes to the passive loop without any answer but the status. -/
def unanswered : List ExampleTurn :=
  List.replicate 6 { fullAnswer with read := .failed 4 } ++
    [bringing operational (by decide) (by decide)]

/-- A full answer is terminated outside of the array, and a zero hides what follows it. -/
theorem answer_overruns :
    let start : Except ExampleEnd ExampleVars := .ok (.initial (Buffer.replicate _ 0))
    let actions := exampleMain.output start
      (unanswered ++ [bringing [0x61, 0, 0x62] (by decide) (by decide)])
    ¬ReadsWell (exampleMain.output start [fullAnswer]) ∧
      actions.flatMap ExampleAction.passiveBytes = [0x61, 0, 0x62] ∧
      actions.flatMap ExampleAction.passiveText = [0x61] ∧ ¬ReadsWell actions := by
  intro start actions
  -- The first zero of the array is the one in the message.
  have bytes : actions.flatMap ExampleAction.passiveBytes = [0x61, 0, 0x62] := by
    decide +kernel
  have text : actions.flatMap ExampleAction.passiveText = [0x61] := by decide +kernel
  refine ⟨?_, bytes, text, ?_⟩
  · intro well
    have takes := exampleTurn_takes (.initial (Buffer.replicate _ 0)) fullAnswer
    have inside := takes.inside_iff.mp fun action member =>
      well.inside action (List.mem_append_left _ member)
    simp [fullAnswer, bringing, FifoRead.chunk] at inside
  · intro well
    have complete := well.complete
    rw [bytes, text] at complete
    cases complete

end Esme
