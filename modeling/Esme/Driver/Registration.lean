import Esme.Driver.Lifecycle

/-! When registrations are given back, and when calls only reach devices that are bound. -/

namespace Esme

open Transducer

variable {s next : Lifecycle} {event : LifecycleEvent} {sent : List RpmsgDevice}

/-- An error is not 0. -/
theorem Errno.toInt_ne_zero (errno : Errno) : errno.toInt ≠ 0 := by
  -- The number is positive, and the value returned is its negative.
  have positive := errno.pos
  unfold Errno.toInt
  omega

/-- What one event does, case by case. -/
inductive LifecycleMoves (s : Lifecycle) :
    LifecycleEvent → Lifecycle → List RpmsgDevice → Prop where
  | binds (rpdev : RpmsgDevice) (calls : ProbeCalls) (zero : (rpmsgEsmeProbe s rpdev calls).2 = 0) :
      LifecycleMoves s (.probe rpdev calls)
        { (rpmsgEsmeProbe s rpdev calls).1 with
          bound := rpdev :: (rpmsgEsmeProbe s rpdev calls).1.bound } []
  | fails (rpdev : RpmsgDevice) (calls : ProbeCalls)
      (error : (rpmsgEsmeProbe s rpdev calls).2 ≠ 0) :
      LifecycleMoves s (.probe rpdev calls) (rpmsgEsmeProbe s rpdev calls).1 []
  | removes (rpdev : RpmsgDevice) (member : rpdev ∈ s.bound) :
      LifecycleMoves s (.remove rpdev)
        { rpmsgEsmeRemove s with bound := s.bound.erase rpdev } []
  | opens (file : Nat) (mapped : s.registered.cdevs ≠ []) :
      LifecycleMoves s (.openFile file) { s with files := file :: s.files } []
  | releases (file : Nat) (member : file ∈ s.files) :
      LifecycleMoves s (.releaseFile file) { s with files := s.files.erase file } []
  | calls (file : Nat) (command : Option Command) (copied : Bool) (member : file ∈ s.files) :
      LifecycleMoves s (.ioctl file command copied) s
        (rpmsgIoctlTarget s command copied).toList

/-- Every possible event is one of these. -/
theorem lifecycleStep_moves (possible : lifecycleStep s event = some (next, sent)) :
    LifecycleMoves s event next sent := by
  -- Apart from a probe, each event does one thing, if its guard holds.
  cases event with
  | probe rpdev calls =>
    simp only [lifecycleStep, Option.ite_none_left_eq_some, Option.some.injEq, Prod.mk.injEq]
      at possible
    obtain ⟨-, step, rfl⟩ := possible
    -- The bus binds the device when 0 is returned.
    split at step
    · rename_i zero
      exact step ▸ .binds rpdev calls zero
    · rename_i error
      exact step ▸ .fails rpdev calls error
  | remove rpdev =>
    simp only [lifecycleStep, Option.ite_none_right_eq_some, Option.some.injEq, Prod.mk.injEq]
      at possible
    obtain ⟨member, rfl, rfl⟩ := possible
    exact .removes rpdev member
  | openFile file =>
    simp only [lifecycleStep, Option.ite_none_right_eq_some, Option.some.injEq, Prod.mk.injEq]
      at possible
    obtain ⟨mapped, rfl, rfl⟩ := possible
    exact .opens file mapped
  | releaseFile file =>
    simp only [lifecycleStep, Option.ite_none_right_eq_some, Option.some.injEq, Prod.mk.injEq]
      at possible
    obtain ⟨member, rfl, rfl⟩ := possible
    exact .releases file member
  | ioctl file command copied =>
    simp only [lifecycleStep, Option.ite_none_right_eq_some, Option.some.injEq, Prod.mk.injEq]
      at possible
    obtain ⟨member, rfl, rfl⟩ := possible
    exact .calls file command copied member

/-- The state a probe leaves once it has created the class. -/
def Lifecycle.registeredAs (s : Lifecycle) (rpdev : RpmsgDevice) (dev number : Nat)
    (nodes : List (Nat × Nat)) : Lifecycle :=
  { s with
    registered := ⟨dev :: s.registered.regions, dev :: s.registered.cdevs, some number, nodes⟩
    devNumber := dev
    rpmsgCdev := ⟨true, dev⟩
    rpmsgClass := .created number
    globalRpdev := some rpdev }

/-- How a probe ends: at one of its calls, or with everything registered. -/
inductive ProbeEnds (s : Lifecycle) (rpdev : RpmsgDevice) (calls : ProbeCalls) :
    Lifecycle → Int → Prop where
  | unallocated (errno : Errno) (failed : calls.alloc = .error errno) :
      ProbeEnds s rpdev calls s errno.toInt
  | unadded (dev : Nat) (errno : Errno) (allocated : calls.alloc = .ok dev)
      (failed : calls.cdevAdd = some errno) :
      ProbeEnds s rpdev calls { s with devNumber := dev, rpmsgCdev := ⟨true, dev⟩ } errno.toInt
  | classless (dev : Nat) (errno : Errno) (allocated : calls.alloc = .ok dev)
      (added : calls.cdevAdd = .none) (failed : classCreate s calls = .error errno) :
      ProbeEnds s rpdev calls
        { s with devNumber := dev, rpmsgCdev := ⟨true, dev⟩, rpmsgClass := .error errno }
        errno.toInt
  /-- Only the value that is returned depends on the first message. -/
  | registers (dev number : Nat) (nodes : List (Nat × Nat)) (err : Int)
      (allocated : calls.alloc = .ok dev) (added : calls.cdevAdd = .none)
      (created : classCreate s calls = .ok number)
      (placed : nodes = s.registered.nodes ∨ nodes = (number, dev) :: s.registered.nodes)
      (zero : err = 0 ↔ calls.send = .none) :
      ProbeEnds s rpdev calls (s.registeredAs rpdev dev number nodes) err

/-- A probe that gets as far as the class registers everything. -/
theorem finishProbe_registers (s : Lifecycle) (rpdev : RpmsgDevice) (calls : ProbeCalls)
    (number : Nat) :
    ∃ nodes err, (nodes = s.registered.nodes ∨
        nodes = (number, s.devNumber) :: s.registered.nodes) ∧
      (err = 0 ↔ calls.send = .none) ∧
      finishProbe s rpdev calls number = ({ s with
        registered := { s.registered with classes := some number, nodes := nodes }
        rpmsgClass := .created number
        globalRpdev := some rpdev }, err) := by
  -- Whether the node is there and whether the message is sent are independent.
  cases placed : calls.deviceCreate with
  | true =>
    cases sends : calls.send with
    | some errno =>
      refine ⟨_, errno.toInt, .inr rfl, by simp [errno.toInt_ne_zero], ?_⟩
      simp only [finishProbe, placed, sends, if_true]
    | none =>
      refine ⟨_, 0, .inr rfl, by simp, ?_⟩
      simp only [finishProbe, placed, sends, if_true]
  | false =>
    cases sends : calls.send with
    | some errno =>
      refine ⟨_, errno.toInt, .inl rfl, by simp [errno.toInt_ne_zero], ?_⟩
      simp only [finishProbe, placed, sends, Bool.false_eq_true, if_false]
    | none =>
      refine ⟨_, 0, .inl rfl, by simp, ?_⟩
      simp only [finishProbe, placed, sends, Bool.false_eq_true, if_false]

/-- Every probe ends in one of these ways. -/
theorem rpmsgEsmeProbe_ends {rpdev : RpmsgDevice} {calls : ProbeCalls} {err : Int}
    (probed : rpmsgEsmeProbe s rpdev calls = (next, err)) : ProbeEnds s rpdev calls next err := by
  -- The calls are followed in the order in which they are made.
  cases allocated : calls.alloc with
  | error errno =>
    simp only [rpmsgEsmeProbe, allocated, Prod.mk.injEq] at probed
    obtain ⟨rfl, rfl⟩ := probed
    exact .unallocated errno allocated
  | ok dev =>
    simp only [rpmsgEsmeProbe, allocated, addCdev] at probed
    cases added : calls.cdevAdd with
    | some errno =>
      -- The region is given back, and the globals are not.
      simp only [added, unregisterChrdevRegion, List.erase_cons_head, Prod.mk.injEq] at probed
      obtain ⟨rfl, rfl⟩ := probed
      exact .unadded dev errno allocated added
    | none =>
      rw [added] at probed
      -- The creation of the class depends on nothing that has been changed so far.
      cases created : classCreate s calls with
      | error errno =>
        unfold classCreate at created
        simp only [classCreate, created, cdevDel, unregisterChrdevRegion, List.erase_cons_head,
          Prod.mk.injEq] at probed
        obtain ⟨rfl, rfl⟩ := probed
        exact .classless dev errno allocated added created
      | ok number =>
        unfold classCreate at created
        simp only [classCreate, created] at probed
        obtain ⟨nodes, value, placed, zero, ends⟩ := finishProbe_registers { s with
          registered := { s.registered with
            regions := dev :: s.registered.regions, cdevs := dev :: s.registered.cdevs }
          devNumber := dev
          rpmsgCdev := ⟨true, dev⟩ } rpdev calls number
        obtain ⟨rfl, rfl⟩ := Prod.mk.inj (ends.symm.trans probed)
        exact .registers dev number nodes value allocated added created placed zero

/-- A probe that returns 0 has created the class and registered everything. -/
theorem rpmsgEsmeProbe_zero {rpdev : RpmsgDevice} {calls : ProbeCalls}
    (zero : (rpmsgEsmeProbe s rpdev calls).2 = 0) :
    ∃ dev number nodes, classCreate s calls = .ok number ∧
      (nodes = s.registered.nodes ∨ nodes = (number, dev) :: s.registered.nodes) ∧
      (rpmsgEsmeProbe s rpdev calls).1 = s.registeredAs rpdev dev number nodes := by
  rcases probed : rpmsgEsmeProbe s rpdev calls with ⟨next, err⟩
  rw [probed] at zero
  -- All other ends return the error of the call that failed.
  cases rpmsgEsmeProbe_ends probed with
  | unallocated errno _ => exact absurd zero errno.toInt_ne_zero
  | unadded _ errno _ _ => exact absurd zero errno.toInt_ne_zero
  | classless _ errno _ _ _ => exact absurd zero errno.toInt_ne_zero
  | registers dev number nodes err _ _ created placed _ =>
    exact ⟨dev, number, nodes, created, placed, rfl⟩

/--
A probe fails at its first call, or at the second under the number that the globals hold anyway,
or all the calls that it checks succeed.

The second of these leaves `rpmsg_cdev` as it was in its flag and its number, which are all of it
that is compared.
-/
def FailsUnseen (s : Lifecycle) : LifecycleEvent → Prop
  -- The three ways in the order of the calls; `device_create` is not checked.
  | .probe _ calls => calls.alloc.isOk = false ∨
      (calls.alloc.toOption = some s.devNumber ∧ s.rpmsgCdev = ⟨true, s.devNumber⟩ ∧
        calls.cdevAdd ≠ .none) ∨
      calls.cdevAdd = .none ∧ (classCreate s calls).isOk = true ∧ calls.send = .none
  | _ => True

instance (s : Lifecycle) : DecidablePred (FailsUnseen s)
  | .probe _ calls => inferInstanceAs (Decidable (_ ∨ _ ∨ _ ∧ _ ∧ calls.send = .none))
  | .remove _ | .openFile _ | .releaseFile _ | .ioctl _ _ _ => isTrue trivial

/-- A probe that returns an error leaves the registrations and their globals as they were. -/
def FailureRestores (s : Lifecycle) : LifecycleEvent → Prop
  | .probe rpdev calls => (rpmsgEsmeProbe s rpdev calls).2 ≠ 0 →
      (rpmsgEsmeProbe s rpdev calls).1.registered = s.registered ∧
        (rpmsgEsmeProbe s rpdev calls).1.devNumber = s.devNumber ∧
        (rpmsgEsmeProbe s rpdev calls).1.rpmsgCdev = s.rpmsgCdev ∧
        (rpmsgEsmeProbe s rpdev calls).1.rpmsgClass = s.rpmsgClass
  | _ => True

instance (s : Lifecycle) : DecidablePred (FailureRestores s)
  | .probe _ _ => inferInstanceAs (Decidable (_ → _ ∧ _ ∧ _ ∧ _))
  | .remove _ | .openFile _ | .releaseFile _ | .ioctl _ _ _ => isTrue trivial

/-- The registrations are those of the one bound device, and the globals describe them. -/
structure RegisteredFor (s : Lifecycle) (rpdev : RpmsgDevice) (number : Nat) : Prop where
  bound : s.bound = [rpdev]
  pointer : s.rpmsgClass = .created number
  cdev : s.rpmsgCdev.dev = s.devNumber
  regions : s.registered.regions = [s.devNumber]
  cdevs : s.registered.cdevs = [s.devNumber]
  classes : s.registered.classes = some number
  nodes : s.registered.nodes = [] ∨ s.registered.nodes = [(number, s.devNumber)]

/-- Either nothing is bound and nothing registered, or one device with its registrations. -/
def Balanced (s : Lifecycle) : Prop :=
  -- An error pointer would be a trace of a failed probe.
  (s.bound = [] ∧ s.registered = .none ∧ ∀ errno, s.rpmsgClass ≠ .error errno) ∨
    ∃ rpdev number, RegisteredFor s rpdev number

/-- The pointer to the class is no error. -/
theorem Balanced.pointer (balanced : Balanced s) (errno : Errno) :
    s.rpmsgClass ≠ .error errno := by
  -- With a device bound the pointer is the class of that device.
  rcases balanced with ⟨-, -, pointer⟩ | ⟨rpdev, number, registered⟩
  · exact pointer errno
  · rw [registered.pointer]
    simp

/-- With nothing bound nothing is registered. -/
theorem Balanced.free (balanced : Balanced s) (free : s.bound = []) : s.registered = .none := by
  rcases balanced with ⟨-, empty, -⟩ | ⟨rpdev, number, registered⟩
  · exact empty
  · rw [registered.bound] at free
    cases free

/-- Removing the bound device gives back everything that is registered for it. -/
theorem remove_registered {rpdev : RpmsgDevice} {number : Nat}
    (registered : RegisteredFor s rpdev number) :
    (rpmsgEsmeRemove s).registered = .none ∧ (rpmsgEsmeRemove s).rpmsgClass = s.rpmsgClass := by
  obtain ⟨-, pointer, cdev, regions, cdevs, classes, nodes⟩ := registered
  -- Each of the four calls erases the only entry of its kind.
  have destroyed : classDestroy (deviceDestroy s) = { s with registered :=
      { s.registered with nodes := [], classes := .none } } := by
    rcases nodes with empty | one
    · simp only [deviceDestroy, pointer, empty, List.erase_nil, classDestroy, classes, if_pos]
    · simp only [deviceDestroy, pointer, one, List.erase_cons_head, classDestroy, classes, if_pos]
  constructor
  · simp only [rpmsgEsmeRemove, destroyed, cdevDel, unregisterChrdevRegion, cdev, cdevs, regions,
      List.erase_cons_head, Registered.none]
  · simp only [rpmsgEsmeRemove, destroyed, cdevDel, unregisterChrdevRegion]

/-- A failing probe restores what it has changed exactly when its failure goes unseen. -/
theorem failsUnseen_iff (balanced : Balanced s) :
    FailsUnseen s event ↔ FailureRestores s event := by
  -- Each end of a probe is compared with what it has left behind.
  cases event with
  | probe rpdev calls =>
    unfold FailsUnseen FailureRestores
    dsimp only
    rcases probed : rpmsgEsmeProbe s rpdev calls with ⟨next, err⟩
    dsimp only
    cases rpmsgEsmeProbe_ends probed with
    | unallocated errno failed =>
      rw [failed]
      exact ⟨fun _ _ => ⟨rfl, rfl, rfl, rfl⟩, fun _ => .inl rfl⟩
    | unadded dev errno allocated failed =>
      rw [allocated, failed]
      constructor
      -- The region is given back, so what remains is the number in the two globals.
      · rintro (early | ⟨number, cdev, -⟩ | ⟨added, -⟩) -
        · cases early
        · obtain rfl : dev = s.devNumber := Option.some.inj number
          exact ⟨rfl, rfl, cdev.symm, rfl⟩
        · cases added
      · intro restores
        obtain ⟨-, number, cdev, -⟩ := restores errno.toInt_ne_zero
        refine .inr (.inl ⟨congrArg some number, ?_, by simp⟩)
        rw [← cdev, ← number]
    | classless dev errno allocated added failed =>
      -- The pointer is overwritten, and it was no error before.
      rw [allocated, added, failed]
      constructor
      · rintro (early | ⟨-, -, failing⟩ | ⟨-, created, -⟩)
        · cases early
        · exact absurd rfl failing
        · cases created
      · intro restores
        obtain ⟨-, -, -, pointer⟩ := restores errno.toInt_ne_zero
        exact absurd pointer.symm (balanced.pointer errno)
    | registers dev number nodes err allocated added created placed zero =>
      rw [allocated, added, created]
      constructor
      · rintro (early | ⟨-, -, failing⟩ | ⟨-, -, sends⟩) failed
        · cases early
        · exact absurd rfl failing
        · exact absurd (zero.mpr sends) failed
      · intro restores
        -- There was no class before, so a failure that comes this late shows.
        refine .inr (.inr ⟨rfl, rfl, zero.mp (Decidable.byContradiction fun failed => ?_)⟩)
        have same := congrArg Registered.classes (restores failed).1
        rw [classCreate, ← same] at created
        cases created
  | remove _ | openFile _ | releaseFile _ | ioctl _ _ _ => exact Iff.rfl

/-- A successful probe registers everything for its device when nothing is bound. -/
theorem probe_registers {rpdev : RpmsgDevice} {calls : ProbeCalls} (balanced : Balanced s)
    (zero : (rpmsgEsmeProbe s rpdev calls).2 = 0) :
    ∃ number, RegisteredFor { (rpmsgEsmeProbe s rpdev calls).1 with
      bound := rpdev :: (rpmsgEsmeProbe s rpdev calls).1.bound } rpdev number := by
  obtain ⟨dev, number, nodes, created, placed, ends⟩ := rpmsgEsmeProbe_zero zero
  rw [ends]
  -- The class could be created, so there was none, and nothing was registered at all.
  rcases balanced with ⟨free, empty, -⟩ | ⟨other, known, registered⟩
  · rw [empty] at placed
    refine ⟨number, ?_, rfl, rfl, ?_, ?_, rfl, placed⟩
    · rw [Lifecycle.registeredAs, free]
    · rw [Lifecycle.registeredAs, empty]
      rfl
    · rw [Lifecycle.registeredAs, empty]
      rfl
  · rw [classCreate, registered.classes] at created
    cases created

/-- A probe binds nothing itself. -/
theorem rpmsgEsmeProbe_bound (s : Lifecycle) (rpdev : RpmsgDevice) (calls : ProbeCalls) :
    (rpmsgEsmeProbe s rpdev calls).1.bound = s.bound := by
  -- It is the bus that binds a device.
  rcases probed : rpmsgEsmeProbe s rpdev calls with ⟨next, err⟩
  cases rpmsgEsmeProbe_ends probed <;> rfl

/-- A state that agrees with a balanced one in what is registered and bound is balanced. -/
theorem Balanced.congr (balanced : Balanced s) (bound : next.bound = s.bound)
    (registered : next.registered = s.registered) (number : next.devNumber = s.devNumber)
    (cdev : next.rpmsgCdev = s.rpmsgCdev) (pointer : next.rpmsgClass = s.rpmsgClass) :
    Balanced next := by
  -- The files and the global device are no part of the balance.
  rcases balanced with ⟨free, empty, known⟩ | ⟨other, known, holds⟩
  · refine .inl ⟨bound.trans free, registered.trans empty, ?_⟩
    rw [pointer]
    exact known
  · refine .inr ⟨other, known, bound.trans holds.bound, pointer.trans holds.pointer, ?_, ?_, ?_,
      ?_, ?_⟩
    · rw [cdev, number]
      exact holds.cdev
    · rw [registered, number]
      exact holds.regions
    · rw [registered, number]
      exact holds.cdevs
    · rw [registered]
      exact holds.classes
    · rw [registered, number]
      exact holds.nodes

/-- Every event keeps the registrations balanced. -/
theorem balanced_step (balanced : Balanced s) (restores : FailureRestores s event)
    (moves : LifecycleMoves s event next sent) : Balanced next := by
  -- One case for each event; only a probe and a remove have to do with the registrations.
  cases moves with
  | binds rpdev calls zero =>
    obtain ⟨number, registered⟩ := probe_registers balanced zero
    exact .inr ⟨rpdev, number, registered⟩
  | fails rpdev calls error =>
    obtain ⟨same, number, cdev, pointer⟩ := restores error
    exact balanced.congr (rpmsgEsmeProbe_bound s rpdev calls) same number cdev pointer
  | removes rpdev member =>
    rcases balanced with ⟨free, -, -⟩ | ⟨other, known, registered⟩
    · rw [free] at member
      cases member
    · obtain ⟨empty, pointer⟩ := remove_registered registered
      -- There is only one device to remove, and everything is registered for it.
      have only : rpdev = other := by
        rw [registered.bound] at member
        exact List.mem_singleton.mp member
      refine .inl ⟨?_, empty, ?_⟩
      · rw [registered.bound, only, List.erase_cons_head]
      · intro errno
        rw [pointer, registered.pointer]
        simp
  | opens file mapped => exact balanced.congr rfl rfl rfl rfl rfl
  | releases file member => exact balanced.congr rfl rfl rfl rfl rfl
  | calls file command copied member => exact balanced

/--
In exactly the runs whose failing probes go unseen, a probe that returns an error leaves the
registrations as they were, and nothing is registered while nothing is bound.
-/
theorem registrations_balanced (events : List LifecycleEvent) :
    lifecycle.Along FailsUnseen .initial events ↔
      lifecycle.Along FailureRestores .initial events ∧
        ((lifecycle.final .initial events).bound = [] →
          (lifecycle.final .initial events).registered = .none) := by
  have start : Balanced .initial := .inl ⟨rfl, rfl, by simp [Lifecycle.initial]⟩
  -- As long as the run is balanced, the two conditions on a step are the same.
  have same : lifecycle.Along FailsUnseen .initial events ↔
      lifecycle.Along FailureRestores .initial events :=
    guarded_along_congr failsUnseen_iff (fun held unseen possible =>
      balanced_step held ((failsUnseen_iff held).mp unseen) (lifecycleStep_moves possible)) start
  constructor
  · intro along
    have balanced : Balanced (lifecycle.final .initial events) :=
      guarded_final (fun held restores possible =>
        balanced_step held restores (lifecycleStep_moves possible)) start (same.mp along)
    exact ⟨same.mp along, balanced.free⟩
  · intro restored
    -- What holds at the end of the run is not needed for this direction.
    exact same.mpr restored.1

/-- Probe, fail to probe a second device, remove the first, and the same over again. -/
example : lifecycle.Along FailsUnseen .initial
    [.probe ⟨.esmeChannel, 0⟩ ⟨.ok 7, .none, .ok 1, true, .none⟩,
      .probe ⟨.esmeChannel1, 1⟩ ⟨.error { value := 16 }, .none, .ok 2, true, .none⟩,
      .remove ⟨.esmeChannel, 0⟩,
      .probe ⟨.esmeChannel1, 1⟩ ⟨.ok 7, some { value := 12 }, .ok 2, true, .none⟩,
      .probe ⟨.esmeChannel1, 1⟩ ⟨.ok 7, .none, .ok 2, false, .none⟩] := by decide

/-- A probe whose first message cannot be sent returns an error and gives nothing back. -/
theorem failed_probe_keeps_registrations :
    let events := [.probe ⟨.esmeChannel, 0⟩ ⟨.ok 7, .none, .ok 1, true, some { value := 12 }⟩]
    ¬lifecycle.Along FailureRestores .initial events ∧
      (lifecycle.final .initial events).bound = [] ∧
      (lifecycle.final .initial events).registered = ⟨[7], [7], some 1, [(1, 7)]⟩ := by
  decide

end Esme
