import Esme.Driver.Registration

/-! The device that `globalRpdev` points to, and the device that is bound. -/

namespace Esme

open Transducer

variable {s next : Lifecycle} {event : LifecycleEvent} {sent : List RpmsgDevice}

/-- Every device that an event sends to is bound. -/
def SendsToBound (s : Lifecycle) : LifecycleEvent → Prop
  -- A call on a file that is not open cannot happen.
  | .ioctl file command copied =>
    file ∈ s.files → ∀ rpdev ∈ rpmsgIoctlTarget s command copied, rpdev ∈ s.bound
  | _ => True

instance (s : Lifecycle) : DecidablePred (SendsToBound s)
  | .ioctl file _ _ => inferInstanceAs (Decidable (file ∈ s.files → ∀ _ ∈ _, _))
  | .probe _ _ | .remove _ | .openFile _ | .releaseFile _ => isTrue trivial

/-- A known command whose config, if it takes one, is copied gets to the send. -/
def GetsToSend (command : Option Command) (copied : Bool) : Prop :=
  -- The commands that re-initialise the completion take no config from the user.
  ∃ known ∈ command, known.reinits = true ∨ copied = true

/--
A call on an open file that gets to its send comes while a device is bound, or before any probe
has got to its first message.
-/
def DeviceThere (s : Lifecycle) : LifecycleEvent → Prop
  | .ioctl file command copied =>
    file ∈ s.files → GetsToSend command copied → s.bound ≠ [] ∨ s.globalRpdev = .none
  | _ => True

/-- At most one device is bound, and it is the one that the global pointer refers to. -/
def PointsToBound (s : Lifecycle) : Prop :=
  s.bound = [] ∨
    ∃ rpdev, s.bound = [rpdev] ∧ s.globalRpdev = some rpdev ∧ s.registered.classes ≠ .none

/-- While a device is bound no other class can be created. -/
theorem PointsToBound.unbound (points : PointsToBound s) {calls : ProbeCalls} {number : Nat}
    (created : classCreate s calls = .ok number) : s.bound = [] := by
  -- With a device bound there is a class of the name.
  rcases points with free | ⟨rpdev, -, -, classes⟩
  · exact free
  · -- The class of the bound device is in the way.
    cases present : s.registered.classes with
    | none => exact absurd present classes
    | some other =>
      rw [classCreate, present] at created
      cases created

/-- Every event leaves the global pointer at the bound device. -/
theorem pointsToBound_step (points : PointsToBound s)
    (moves : LifecycleMoves s event next sent) : PointsToBound next := by
  -- One case for each event; only a probe that gets a device number writes the pointer.
  cases moves with
  | binds rpdev calls zero =>
    obtain ⟨dev, number, nodes, created, -, ends⟩ := rpmsgEsmeProbe_zero zero
    rw [ends]
    -- No other device was bound, or its class would have been in the way.
    refine .inr ⟨rpdev, ?_, rfl, by simp [Lifecycle.registeredAs]⟩
    rw [Lifecycle.registeredAs, points.unbound created]
  | fails rpdev calls error =>
    rcases probed : rpmsgEsmeProbe s rpdev calls with ⟨next, err⟩
    cases rpmsgEsmeProbe_ends probed with
    | unallocated _ _ => exact points
    | unadded _ _ _ _ => exact points
    | classless _ _ _ _ _ => exact points
    -- The pointer is overwritten before the last failure, but only while nothing is bound.
    | registers _ _ _ _ _ _ created _ _ => exact .inl (points.unbound created)
  | removes rpdev member =>
    rcases points with free | ⟨other, bound, -, -⟩
    · rw [free] at member
      cases member
    · left
      rw [bound] at member ⊢
      rw [List.mem_singleton.mp member, List.erase_cons_head]
  | opens file mapped => exact points
  | releases file member => exact points
  | calls file command copied member => exact points

/-- A call that gets to its send sends to the device that the global pointer refers to. -/
theorem rpmsgIoctlTarget_eq_some {command : Option Command} {copied : Bool} {rpdev : RpmsgDevice} :
    rpmsgIoctlTarget s command copied = some rpdev ↔
      GetsToSend command copied ∧ s.globalRpdev = some rpdev := by
  -- The check of the pointer, the switch over the commands, and the copy from the user.
  unfold rpmsgIoctlTarget GetsToSend
  cases command with
  | none => cases s.globalRpdev <;> simp
  | some known =>
    cases s.globalRpdev with
    | none => simp
    | some device =>
      simp only [Option.ite_none_right_eq_some, Option.some.injEq, Option.mem_def,
        exists_eq_left']

/-- Where the pointer is right about bound devices, one has to be bound for a call to be right. -/
theorem deviceThere_iff (points : PointsToBound s) :
    DeviceThere s event ↔ SendsToBound s event := by
  -- Only calls are judged by either condition.
  cases event with
  | ioctl file command copied =>
    apply forall_congr'
    intro member
    constructor
    · intro there rpdev target
      obtain ⟨sends, pointer⟩ := rpmsgIoctlTarget_eq_some.mp target
      rcases there sends with bound | unset
      -- The pointer is set, so a device is bound, and it is the one pointed to.
      · rcases points with free | ⟨other, one, refers, -⟩
        · exact absurd free bound
        · rw [refers, Option.some.injEq] at pointer
          rw [one, pointer, List.mem_singleton]
      · rw [unset] at pointer
        cases pointer
    · intro right sends
      cases pointer : s.globalRpdev with
      | none => exact .inr rfl
      | some rpdev =>
        have member := right rpdev (rpmsgIoctlTarget_eq_some.mpr ⟨sends, pointer⟩)
        exact .inl (List.ne_nil_of_mem member)
  | probe _ _ | remove _ | openFile _ | releaseFile _ => exact Iff.rfl

/--
The calls of a run only ever send to a bound device exactly when each that gets to its send comes
while a device is bound, or before any probe has got to its first message.
-/
theorem ioctls_send_to_bound (events : List LifecycleEvent) :
    lifecycle.Along DeviceThere .initial events ↔ lifecycle.Along SendsToBound .initial events :=
  guarded_along_congr deviceThere_iff
    (fun held _ possible => pointsToBound_step held (lifecycleStep_moves possible)) (.inl rfl)

/-- A file that is still open after a removal sends to the device that has been removed. -/
theorem ioctl_sends_to_removed :
    ¬lifecycle.Along SendsToBound .initial
      [.probe ⟨.esmeChannel, 0⟩ ⟨.ok 7, .none, .ok 1, true, .none⟩, .openFile 3,
        .remove ⟨.esmeChannel, 0⟩, .ioctl 3 (some .getConfig) true] := by
  decide

end Esme
