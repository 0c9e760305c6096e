import Esme.Driver.Calls

/-! When no call of `rpmsg_ioctl` is left waiting for a reply that has already been used up. -/

namespace Esme

open Transducer

variable {layout : Layout}

/-- The calls that have sent their request and not passed their wait. -/
def IoctlState.waiting (s : IoctlState layout) : Nat :=
  s.calls.countP fun call => call.pc = .waiting

/-- The replies that the callback has not been handed yet, or has not come to count. -/
def IoctlState.pending (s : IoctlState layout) : Nat :=
  s.requests.length + s.replies.length + s.completing.toNat

/-- Once everything sent is answered and processed, nobody waits on a counter that is 0. -/
def NoneStranded (s : IoctlState layout) : Prop :=
  s.requests = [] → s.replies = [] → s.completing = false →
    ∀ call ∈ s.calls, call.pc = .waiting → s.driver.rpmsgConfigGot ≠ 0

instance (s : IoctlState layout) : Decidable (NoneStranded s) :=
  inferInstanceAs (Decidable (_ → _ → _ → _))

/-- The completion is re-initialised only while replies for all waiting calls are still to come. -/
def ReinitsCredited (s : IoctlState layout) : IoctlEvent → Prop
  -- The counter is cleared, so only what is still to come can let the waiting calls pass.
  | .step _ .reinit => s.waiting ≤ s.pending
  | _ => True

instance (s : IoctlState layout) : DecidablePred (ReinitsCredited s)
  | .step _ .reinit => inferInstanceAs (Decidable (s.waiting ≤ s.pending))
  | .step _ .send | .step _ (.sendFails _) | .step _ .pass | .step _ .interrupt | .step _ .read
  | .step _ .finish | .step _ .fault | .enter _ | .answer _ | .deliver | .message _
  | .complete => isTrue trivial

/-- There is a credit, or a reply to come, for every waiting call. -/
def Credited (s : IoctlState layout) : Prop :=
  -- At its largest value the counter is not counted down, so it is enough for everybody.
  s.driver.rpmsgConfigGot = completionMax ∨ s.waiting ≤ s.driver.rpmsgConfigGot + s.pending

/-- A call that moves on is counted where it arrives, and no longer where it was. -/
theorem waiting_move {s : IoctlState layout} {call : Nat} {command : Command} {pc : CallPc}
    (known : s.calls[call]? = some ⟨command, pc⟩) (next : CallPc) :
    (s.move call command next).waiting + (if pc = .waiting then 1 else 0) =
      s.waiting + (if next = .waiting then 1 else 0) := by
  -- One entry of the list changes, and the count changes by what it was and what it is.
  obtain ⟨inside, found⟩ := List.getElem?_eq_some_iff.mp known
  have counted := List.countP_set (p := fun call : IoctlCall => decide (call.pc = .waiting))
    (a := ⟨command, next⟩) inside
  have covered := List.boole_getElem_le_countP
    (p := fun call : IoctlCall => decide (call.pc = .waiting)) inside
  rw [found] at counted covered
  simp only [decide_eq_true_eq] at counted covered
  simp only [IoctlState.waiting, IoctlState.move]
  omega

/-- A counted reply is one reply to come less and one credit more. -/
theorem complete_counts (done : Nat) :
    complete done = completionMax ∨ complete done = done + 1 := by
  -- The counter stays at its largest value.
  unfold complete
  split
  · rename_i full
    exact .inl full
  · exact .inr rfl

/-- A call that moves on and does not wait leaves no more calls waiting. -/
theorem waiting_move_le {s : IoctlState layout} {call : Nat} {command : Command} {pc : CallPc}
    (known : s.calls[call]? = some ⟨command, pc⟩) {next : CallPc} (away : next ≠ .waiting) :
    (s.move call command next).waiting ≤ s.waiting := by
  have moved := waiting_move known next
  rw [if_neg away] at moved
  omega

/-- Credits suffice for fewer waiting calls, and when more is to come. -/
theorem Credited.fewer {s next : IoctlState layout} (credited : Credited s)
    (counter : next.driver.rpmsgConfigGot = s.driver.rpmsgConfigGot)
    (pending : s.pending ≤ next.pending) (fewer : next.waiting ≤ s.waiting) : Credited next := by
  rcases credited with full | enough
  · exact .inl (counter.trans full)
  · right
    rw [counter]
    omega

/-- A reply that is counted may be one of those that were to come. -/
theorem Credited.counted {s next : IoctlState layout} (credited : Credited s)
    (counted : next.driver.rpmsgConfigGot = complete s.driver.rpmsgConfigGot)
    (waiting : next.waiting = s.waiting) (pending : s.pending ≤ next.pending + 1) :
    Credited next := by
  unfold Credited
  rw [counted, waiting]
  rcases credited with full | enough
  · left
    rw [full]
    rfl
  -- Below its largest value the counter takes the place of the reply.
  rcases complete_counts s.driver.rpmsgConfigGot with full | more
  · exact .inl full
  · right
    omega

/-- Every step keeps the credits, when the completion is re-initialised with enough to come. -/
theorem credited_step {s next : IoctlState layout} {event : IoctlEvent}
    {written : List IoctlAction} (credited : Credited s) (allowed : ReinitsCredited s event)
    (moves : IoctlMoves s event next written) : Credited next := by
  -- A reply to come turns into a credit, and a call that passes takes one credit with it; only
  -- the re-initialisation throws credits away.
  cases moves with
  | enter command => exact credited.fewer rfl (Nat.le_refl _) (by simp [IoctlState.waiting])
  | reinit call command known reinits =>
    -- The counter is cleared, so all waiting calls must have their replies before them.
    have enough : s.waiting ≤ s.pending := allowed
    apply Or.inr
    calc (s.move call command .ready).waiting
      _ ≤ s.waiting := waiting_move_le known (by simp)
      _ ≤ s.pending := enough
      _ = 0 + s.pending := (Nat.zero_add _).symm
  | send call command known =>
    -- The new waiting call brings its own request with it.
    have moved := waiting_move known .waiting
    simp only [if_neg command.sendsFrom_going.1, if_true, Nat.add_zero] at moved
    unfold Credited IoctlState.pending at credited ⊢
    simp only [IoctlState.waiting, IoctlState.move, List.length_append, List.length_singleton]
      at moved credited ⊢
    omega
  | fail call command pc step errno known going other =>
    -- A call that gives up leaves its credit to the others.
    exact credited.fewer rfl (Nat.le_refl _) (waiting_move_le known (by simp))
  | pass call command known more =>
    -- The call that passes takes one credit with it.
    have moved := waiting_move known .woken
    simp only [reduceCtorEq, if_false, if_true, Nat.add_zero] at moved
    unfold Credited IoctlState.pending at credited ⊢
    simp only [passCompletion, IoctlState.waiting, IoctlState.move] at moved credited ⊢
    split
    · rename_i full
      exact .inl full
    · omega
  | read call command known other =>
    exact credited.fewer rfl (Nat.le_refl _) (waiting_move_le known (by simp))
  | readErrorReg call known =>
    exact credited.fewer rfl (Nat.le_refl _) (waiting_move_le known (by simp))
  | readSyncCount call errorReg known =>
    exact credited.fewer rfl (Nat.le_refl _) (waiting_move_le known (by simp))
  | readSerialNumber call errorReg syncCount known =>
    exact credited.fewer rfl (Nat.le_refl _) (waiting_move_le known (by simp))
  | finish call command data known =>
    exact credited.fewer rfl (Nat.le_refl _) (waiting_move_le known (by simp))
  | answer packet request rest first =>
    -- The reply is still to come, only on the other way.
    refine credited.fewer rfl ?_ (Nat.le_refl _)
    simp only [IoctlState.pending, first, List.length_append, List.length_cons, List.length_nil]
    omega
  | deliver reply rest idle first =>
    -- It is still to be counted.
    refine credited.fewer rfl ?_ (Nat.le_refl _)
    simp only [IoctlState.pending, first, idle, List.length_cons, Bool.toNat_true, Bool.toNat_false]
    omega
  | store data packet idle config =>
    -- A message that nobody asked for is one credit more to come.
    refine credited.fewer rfl ?_ (Nat.le_refl _)
    simp only [IoctlState.pending, idle, Bool.toNat_true, Bool.toNat_false]
    omega
  | complete stored =>
    refine credited.counted rfl rfl ?_
    simp only [IoctlState.pending, stored, Bool.toNat_true, Bool.toNat_false]
    omega
  | spare data driver idle config spares =>
    exact credited.fewer spares.counter (Nat.le_refl _) (Nat.le_refl _)

/-- With a credit for every waiting call, nobody is stranded once nothing is to come. -/
theorem Credited.noneStranded {s : IoctlState layout} (credited : Credited s) :
    NoneStranded s := by
  -- With nothing to come, the credits alone cover the waiting calls.
  intro answered handed idle call member waits
  have some : 0 < s.waiting := List.countP_pos_iff.mpr ⟨call, member, by simpa using waits⟩
  unfold Credited IoctlState.pending at credited
  rw [answered, handed, idle] at credited
  rcases credited with full | enough
  · rw [full]
    decide
  · simp only [List.length_nil, Bool.toNat_false] at enough
    omega

/--
No call is stranded in a run that re-initialises the completion only while the replies for all
waiting calls are still to come.
-/
theorem no_call_stranded {driver : DriverState layout} {events : List IoctlEvent}
    (along : (ioctls layout).Along ReinitsCredited (.probed driver) events) :
    NoneStranded ((ioctls layout).final (.probed driver) events) := by
  -- Behind probe no call waits.
  have start : Credited (IoctlState.probed driver) := .inr (Nat.zero_le _)
  have credited : Credited ((ioctls layout).final (.probed driver) events) :=
    guarded_final (fun held allowed possible =>
      credited_step held allowed (ioctlStep_moves possible)) start along
  exact credited.noneStranded

/-- The request of probe is answered, and then two calls each wait for their own reply. -/
def callsInTurn : List IoctlEvent :=
  [.answer .zero, .deliver, .complete, .enter .getConfig, .step 0 .reinit, .step 0 .send,
    .enter .getStatus, .step 1 .reinit, .step 1 .send, .answer .zero, .deliver, .complete,
    .step 0 .pass, .answer .zero, .deliver, .complete]

/-- Two calls that overlap, of which the second is still left with its credit. -/
theorem no_call_stranded_overlap :
    NoneStranded ((ioctls lepton).final (.probed (DriverState.initial lepton)) callsInTurn) :=
  no_call_stranded (by decide +kernel)

/-- A call that takes over while another's reply is there but not yet taken strands one of them. -/
theorem call_stranded :
    ¬NoneStranded ((ioctls lepton).final (.probed (DriverState.initial lepton))
      [.answer .zero, .deliver, .complete, .enter .getConfig, .step 0 .reinit, .step 0 .send,
        .answer .zero, .deliver, .complete, .enter .getStatus, .step 1 .reinit, .step 1 .send,
        .answer .zero, .deliver, .complete, .step 0 .pass]) := by
  decide +kernel

end Esme
