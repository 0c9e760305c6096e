import Esme.Driver.Reads
import Esme.Stream.Mailbox

/-! The driver as a mailbox, of which one process that reads the device is the reader. -/

namespace Esme

/-- A call is past its wait and has not copied the frame yet. -/
def ReadPc.passed : ReadPc → Bool
  | .locking => true
  | .copying _ _ => true
  | .waiting => false
  | .unlocking _ => false
  | .returned _ => false

/-- The publication that a call has copied. -/
def ReadPc.took (pc : ReadPc) : Option Nat :=
  match pc.result with
  | some (.copied publication _) => some publication
  | _ => none

/-- Where a call is. -/
def ThreadsState.callAt (s : ThreadsState lepton) (call : Option Nat) : Option ReadPc :=
  call.bind fun number => s.reads[number]?

/-- The frames of the device are the items, and the reader is the process that makes the call. -/
def ThreadsState.mailbox (s : ThreadsState lepton) (call : Option Nat) (written : List Nat) :
    Mailbox where
  put := s.published.length
  announcing := s.callback = .unlocked
  raised := s.driver.dataReady
  seen := (s.callAt call).any ReadPc.passed
  -- What the call has copied comes behind what the process has copied before.
  taken := written ++ ((s.callAt call).bind ReadPc.took).toList

/-- A call that has begun is where it was when another one begins. -/
theorem callAt_concat (s : ThreadsState lepton) {call : Option Nat}
    (begun : ∀ number ∈ call, number < s.reads.length) (entered : ReadPc) :
    ThreadsState.callAt { s with reads := s.reads ++ [entered] } call = s.callAt call := by
  cases call with
  | none => rfl
  | some number => exact List.getElem?_append_left (begun number rfl)

/-- A call that moves is at its new place, and the others are where they were. -/
theorem callAt_move {s : ThreadsState lepton} {place : Nat} {before : ReadPc}
    (known : s.reads[place]? = some before) (call : Option Nat) (moved : ReadPc) :
    (call = some place ∧ s.callAt call = some before ∧
        (s.move place moved).callAt call = some moved) ∨
      (s.move place moved).callAt call = s.callAt call := by
  by_cases here : call = some place
  · subst here
    exact .inl ⟨rfl, known, Slots.getElem?_set_of_some known moved⟩
  · right
    cases call with
    | none => rfl
    | some number =>
      have other : place ≠ number := fun same => here (congrArg some same.symm)
      exact List.getElem?_set_ne other

/-- A call that moves and copies nothing can be seen in the mailbox if it is the process's own. -/
theorem mailbox_moved {s : ThreadsState lepton} {place : Nat} {before moved : ReadPc}
    (known : s.reads[place]? = some before) (call : Option Nat) (written : List Nat)
    (took : moved.took = before.took) :
    ((s.mailbox call written).seen = before.passed ∧
        (s.move place moved).mailbox call written =
          { s.mailbox call written with seen := moved.passed }) ∨
      (s.move place moved).mailbox call written = s.mailbox call written := by
  unfold ThreadsState.mailbox
  rcases callAt_move known call moved with ⟨-, was, is⟩ | same
  · left
    rw [was, is, Option.bind_some, Option.bind_some, took]
    exact ⟨rfl, rfl⟩
  · right
    rw [same]
    rfl

/-- A move from one place to another that shows nothing of either leaves the mailbox alone. -/
theorem mailbox_move {s : ThreadsState lepton} {place : Nat} {before moved : ReadPc}
    (known : s.reads[place]? = some before) (call : Option Nat) (written : List Nat)
    (passed : moved.passed = before.passed) (took : moved.took = before.took) :
    (s.move place moved).mailbox call written = s.mailbox call written := by
  rcases mailbox_moved known call written took with ⟨seen, same⟩ | same
  · rw [same, passed, ← seen]
  · exact same

/-- A call that has copied the frame takes it from the mailbox if it is the process's own. -/
theorem mailbox_cleared {s : ThreadsState lepton} {place : Nat} {before : ReadPc}
    (known : s.reads[place]? = some before) (passed : before.passed = true)
    (call : Option Nat) (written : List Nat) (data : List UInt8) :
    let cleared :=
      (s.move place (.unlocking (.copied s.published.length data))).mailbox call written
    Mailbox.Step (s.mailbox call written) { cleared with raised := false } ∧
      (call ≠ some place → cleared.taken = (s.mailbox call written).taken) := by
  -- A call past its wait has not taken anything yet.
  have nothing : before.took = none := by
    cases before with
    | locking | copying _ _ => rfl
    | waiting | unlocking _ | returned _ => cases passed
  unfold ThreadsState.mailbox
  rcases callAt_move known call (.unlocking (.copied s.published.length data)) with
    ⟨own, was, is⟩ | same
  · simp only [was, is, Option.bind_some, nothing, Option.toList_none, List.append_nil]
    exact ⟨.take passed, fun other => absurd own other⟩
  · rw [same]
    exact ⟨.lower, fun _ => rfl⟩

/-- A step of the device is nothing to the mailbox, or one step of it. -/
theorem mailbox_step {s next : ThreadsState lepton} {event : ThreadsEvent}
    (moves : ThreadsMoves s event next) {call : Option Nat}
    (begun : ∀ number ∈ call, number < s.reads.length) (written : List Nat) :
    next.mailbox call written = s.mailbox call written ∨
      Mailbox.Step (s.mailbox call written) (next.mailbox call written) ∧
        ((∀ number ∈ call, event ≠ .read number .clear) →
          (next.mailbox call written).taken = (s.mailbox call written).taken) := by
  -- One case for each step; the publication, the flag and what a call makes of it are what shows.
  cases moves with
  | message data idle =>
    -- A message starts none of the steps that show.
    left
    obtain ⟨-, ready, -⟩ := startMessage_spares s.driver data
    obtain ⟨-, unlocks⟩ := startMessage_place s.driver data
    simp only [ThreadsState.mailbox, ready, idle, unlocks]
    rfl
  | store _ _ _ place _ | stored place | storedLast place | lock place _ | copy _ _ place _ =>
    -- Before the lock is given back nothing of the new frame counts as published.
    left
    simp only [ThreadsState.mailbox, place]
    rfl
  | unlock place =>
    -- From here on the frame can be copied, while the flag is still to be set for it.
    right
    have quiet : (s.mailbox call written).announcing = false := by
      simp [ThreadsState.mailbox, place]
    have put := Mailbox.Step.put quiet
    simp only [ThreadsState.mailbox, List.length_append, List.length_singleton]
    exact ⟨put, fun _ => rfl⟩
  | announce place =>
    right
    have late : (s.mailbox call written).announcing = true := by
      simp [ThreadsState.mailbox, place]
    exact ⟨.announce late, fun _ => rfl⟩
  | refuse _ _ | enter =>
    -- A call that begins is another one than that of the process.
    left
    simp only [ThreadsState.mailbox, callAt_concat s begun]
  | pass number known ready =>
    have up : (s.mailbox call written).raised = true := ready
    have took : ReadPc.locking.took = ReadPc.waiting.took := rfl
    rcases mailbox_moved known call written took with ⟨-, moved⟩ | same
    · rw [moved]
      exact .inr ⟨.see up, fun _ => rfl⟩
    · exact .inl same
  | interrupt number known => exact .inl (mailbox_move known call written rfl rfl)
  | acquire number known free => exact .inl (mailbox_move known call written rfl rfl)
  | copyOut number copied count data known inside =>
    exact .inl (mailbox_move known call written rfl rfl)
  | fault number copied data known =>
    -- A call that cannot copy has seen the flag and takes nothing.
    have took : (ReadPc.unlocking (.failed (-efault))).took = (ReadPc.copying copied data).took :=
      rfl
    rcases mailbox_moved known call written took with ⟨-, moved⟩ | same
    · rw [moved]
      exact .inr ⟨.giveUp, fun _ => rfl⟩
    · exact .inl same
  | clear number data known =>
    obtain ⟨step, others⟩ := mailbox_cleared known rfl call written data
    exact .inr ⟨step, fun other => others fun own => other number own rfl⟩
  | release number result known => exact .inl (mailbox_move known call written rfl rfl)

/-- Frames and calls only ever become more. -/
theorem device_grows {s next : ThreadsState lepton} {event : ThreadsEvent}
    (moves : ThreadsMoves s event next) :
    (∃ more, next.published = s.published ++ more) ∧ s.reads.length ≤ next.reads.length := by
  cases moves with
  | unlock place => exact ⟨⟨_, rfl⟩, Nat.le_refl _⟩
  | refuse _ _ | enter => exact ⟨⟨[], (List.append_nil _).symm⟩, by simp⟩
  | message _ _ | store _ _ _ _ _ | stored _ | storedLast _ | lock _ _ | copy _ _ _ _
  | announce _ => exact ⟨⟨[], (List.append_nil _).symm⟩, Nat.le_refl _⟩
  | pass _ _ _ | interrupt _ _ | acquire _ _ _ | copyOut _ _ _ _ _ _ | fault _ _ _ _
  | clear _ _ _ | release _ _ _ =>
    exact ⟨⟨[], (List.append_nil _).symm⟩, Nat.le_of_eq List.length_set.symm⟩

end Esme
