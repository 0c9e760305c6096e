import Esme.Driver.Reads

/-! How often a publication is returned, and that none is forgotten. -/

namespace Esme

open Transducer

variable {layout : Layout} {s next : ThreadsState layout} {event : ThreadsEvent}

/-- While the flag is down and not about to be set, the last publication has been returned. -/
def Remembers (s : ThreadsState layout) : Prop :=
  s.driver.dataReady = false → s.callback ≠ .unlocked →
    s.published = [] ∨ ∃ number data, s.Succeeds number s.published.length data

/-- A step that leaves flag and publications alone forgets nothing. -/
theorem Remembers.keep (remembers : Remembers s) (moves : ThreadsMoves s event next)
    (ready : next.driver.dataReady = s.driver.dataReady)
    (unlocked : next.callback ≠ .unlocked → s.callback ≠ .unlocked)
    (published : next.published = s.published) : Remembers next := by
  -- The call that has returned the last publication still has.
  intro down away
  rw [published]
  rcases remembers (ready ▸ down) (unlocked away) with none | ⟨number, data, succeeds⟩
  · exact .inl none
  · exact .inr ⟨number, data, Succeeds.step succeeds moves⟩

/-- No step forgets a publication. -/
theorem remembers_step (remembers : Remembers s) (moves : ThreadsMoves s event next) :
    Remembers next := by
  -- The flag is lowered by one step, and publications are added by one.
  cases moves with
  | message data idle =>
    obtain ⟨-, ready, -⟩ := startMessage_spares s.driver data
    exact remembers.keep (.message data idle) ready (by simp [idle]) rfl
  | store last copied count place inside =>
    exact remembers.keep (.store last copied count place inside) rfl (by simp [place]) rfl
  | stored place => exact remembers.keep (.stored place) rfl (by simp [place]) rfl
  | storedLast place => exact remembers.keep (.storedLast place) rfl (by simp [place]) rfl
  | lock place free => exact remembers.keep (.lock place free) rfl (by simp [place]) rfl
  | copy copied count place inside =>
    exact remembers.keep (.copy copied count place inside) rfl (by simp [place]) rfl
  | unlock place => exact fun _ away => absurd rfl away
  | announce place => exact fun down => by cases down
  | clear number data known =>
    -- The call that lowers the flag returns the last publication itself.
    exact fun _ _ => .inr ⟨number, data, _, Slots.getElem?_set_of_some known _, rfl⟩
  | refuse count other => exact remembers.keep (.refuse count other) rfl id rfl
  | enter => exact remembers.keep .enter rfl id rfl
  | pass number known ready => exact remembers.keep (.pass number known ready) rfl id rfl
  | interrupt number known => exact remembers.keep (.interrupt number known) rfl id rfl
  | acquire number known free => exact remembers.keep (.acquire number known free) rfl id rfl
  | copyOut number copied count data known inside =>
    exact remembers.keep (.copyOut number copied count data known inside) rfl id rfl
  | fault number copied data known =>
    exact remembers.keep (.fault number copied data known) rfl id rfl
  | release number result known => exact remembers.keep (.release number result known) rfl id rfl

/-- Calls change the variables of the driver only by succeeding, and then they do not fail. -/
structure FailuresSpare (s : ThreadsState layout) : Prop where
  enters : ∀ count next, threadsStep s (.enter count) = some next → next.driver = s.driver
  steps : ∀ number step next, threadsStep s (.read number step) = some next →
    next.driver = s.driver ∨ ∃ data, next.Succeeds number s.published.length data
  lasts : ∀ event next number publication data, threadsStep s event = some next →
    s.Succeeds number publication data → next.Succeeds number publication data

/-- Calls that fail leave the variables of the driver alone, in every state. -/
theorem failuresSpare (s : ThreadsState layout) : FailuresSpare s := by
  -- The one step of a call that writes to the driver is the one by which it succeeds.
  constructor
  · intro count next possible
    cases threadsStep_moves possible <;> rfl
  · intro number step next possible
    cases threadsStep_moves possible with
    | clear number data known =>
      exact .inr ⟨data, _, Slots.getElem?_set_of_some known _, rfl⟩
    | pass _ _ _ | interrupt _ _ | acquire _ _ _ | copyOut _ _ _ _ _ _ | fault _ _ _ _
    | release _ _ _ => exact .inl rfl
  · intro event next number publication data possible succeeds
    exact Succeeds.step succeeds (threadsStep_moves possible)

/--
While the flag is down and not about to be set, either nothing has been published, or the
publication in the buffer has been returned; and calls that fail consume nothing.
-/
theorem no_frame_forgotten (events : List ThreadsEvent) :
    let s := (threads layout).final (.initial layout) events
    (s.driver.dataReady = false → s.callback ≠ .unlocked →
        s.published = [] ∨ ∃ number data, s.Succeeds number s.published.length data ∧
          ((∀ copied, s.callback ≠ .copying copied) → data = s.driver.frameDataReadout.toList)) ∧
      FailuresSpare s := by
  intro s
  have start : Remembers (ThreadsState.initial layout) := fun _ _ => .inl rfl
  -- Which call has returned the frame comes from one invariant, and what it returned from another.
  have remembers : Remembers s := threads_run remembers_step start events
  have untorn : ReadsUntorn s := threads_readsUntorn events
  refine ⟨fun down away => ?_, failuresSpare s⟩
  rcases remembers down away with none | ⟨number, data, pc, known, result⟩
  · exact .inl none
  · refine .inr ⟨number, data, ⟨pc, known, result⟩, fun apart => ?_⟩
    have delivered := untorn.delivers ⟨pc, known, result⟩
    exact delivered.unique (untorn.last (List.length_pos_iff.mp delivered.1) apart)

/-- No two calls return the same publication. -/
def DeliversOnce (s : ThreadsState layout) : Prop :=
  -- Calls are told apart by their number, whatever they have copied.
  ∀ first second publication data again, s.Succeeds first publication data →
    s.Succeeds second publication again → first = second

/-- The flag is lowered only while it is up and not about to be set. -/
def ClearsRaised (s : ThreadsState layout) : ThreadsEvent → Prop
  -- A call lowers the flag behind its copy, long after it has seen it.
  | .read _ .clear => s.driver.dataReady = true ∧ s.callback ≠ .unlocked
  | _ => True

/-- While the flag is up or about to be set, no call has returned the last publication. -/
structure OneEach (s : ThreadsState layout) : Prop where
  once : DeliversOnce s
  within : ∀ number publication data, s.Succeeds number publication data →
    publication ≤ s.published.length
  fresh : s.driver.dataReady = true ∨ s.callback = .unlocked →
    ∀ number publication data, s.Succeeds number publication data →
      publication < s.published.length

/-- A step after which no other call has succeeded keeps what has been returned once. -/
theorem OneEach.keep (each : OneEach s)
    (known : ∀ number publication data, next.Succeeds number publication data →
      s.Succeeds number publication data)
    (published : next.published = s.published)
    (fresh : next.driver.dataReady = true ∨ next.callback = .unlocked →
      s.driver.dataReady = true ∨ s.callback = .unlocked) : OneEach next := by
  -- There are no new results, and no new publications either.
  constructor
  · exact fun first second publication data again one other =>
      each.once first second publication data again (known _ _ _ one) (known _ _ _ other)
  · rw [published]
    exact fun number publication data succeeds => each.within _ _ _ (known _ _ _ succeeds)
  · rw [published]
    exact fun set number publication data succeeds =>
      each.fresh (fresh set) _ _ _ (known _ _ _ succeeds)

/-- A call that lowers the raised flag returns a publication that no call has returned. -/
theorem OneEach.clear (each : OneEach s) {number : Nat} {data : List UInt8}
    (raised : s.driver.dataReady = true) (away : s.callback ≠ .unlocked) :
    OneEach { s.move number (.unlocking (.copied s.published.length data)) with
      driver := { s.driver with dataReady := false } } := by
  -- The flag is up, so nobody has returned the last publication so far.
  have before := each.fresh (.inl raised)
  -- Every result is an earlier one of an earlier publication, or the new one.
  have results : ∀ other publication again,
      (s.move number (.unlocking (.copied s.published.length data))).Succeeds
          other publication again →
        (s.Succeeds other publication again ∧ publication < s.published.length) ∨
          (other = number ∧ publication = s.published.length) := by
    intro other publication again succeeds
    rcases succeeds_of_move succeeds with ⟨-, earlier⟩ | ⟨same, result⟩
    · exact .inl ⟨earlier, before _ _ _ earlier⟩
    · cases result
      exact .inr ⟨same.symm, rfl⟩
  constructor
  · intro first second publication data again one other
    rcases results _ _ _ one with ⟨earlier, less⟩ | ⟨here, last⟩
    · rcases results _ _ _ other with ⟨others, -⟩ | ⟨-, last⟩
      · exact each.once _ _ _ _ _ earlier others
      · omega
    · rcases results _ _ _ other with ⟨-, less⟩ | ⟨there, -⟩
      · omega
      · rw [here, there]
  · intro other publication again succeeds
    show publication ≤ s.published.length
    rcases results _ _ _ succeeds with ⟨-, less⟩ | ⟨-, last⟩ <;> omega
  · intro set
    rcases set with up | unlocked
    · cases up
    · exact absurd unlocked away

/-- No allowed step returns a publication again. -/
theorem oneEach_step (each : OneEach s) (allowed : ClearsRaised s event)
    (moves : ThreadsMoves s event next) : OneEach next := by
  -- All steps but one bring no result.
  have earlier : (∀ number, event ≠ .read number .clear) → ∀ number publication data,
      next.Succeeds number publication data → s.Succeeds number publication data := by
    intro other number publication data succeeds
    rcases succeeds_step moves succeeds with before | ⟨clear, -⟩
    · exact before
    · exact absurd clear (other number)
  cases moves with
  | message data idle =>
    obtain ⟨-, ready, -⟩ := startMessage_spares s.driver data
    obtain ⟨-, unlocks⟩ := startMessage_place s.driver data
    refine each.keep (earlier (by simp)) rfl (fun set => ?_)
    rcases set with flag | unlocked
    · exact .inl (ready ▸ flag)
    · exact absurd unlocked unlocks
  | store _ _ _ _ _ | stored _ | storedLast _ | lock _ _ | copy _ _ _ _ =>
    exact each.keep (earlier (by simp)) rfl (by simp +contextual)
  | unlock place =>
    have within := each.within
    -- The new publication has a number that no result can have yet.
    constructor
    · exact fun first second publication data again one other =>
        each.once _ _ _ _ _ (earlier (by simp) _ _ _ one) (earlier (by simp) _ _ _ other)
    · intro number publication data succeeds
      have bound := within _ _ _ (earlier (by simp) _ _ _ succeeds)
      rw [List.length_append]
      omega
    · intro _ number publication data succeeds
      have bound := within _ _ _ (earlier (by simp) _ _ _ succeeds)
      rw [List.length_append, List.length_singleton]
      omega
  | announce place => exact each.keep (earlier (by simp)) rfl (fun _ => .inr place)
  | clear number data found => exact each.clear allowed.1 allowed.2
  | refuse _ _ | enter | pass _ _ _ | interrupt _ _ | acquire _ _ _ | copyOut _ _ _ _ _ _
  | fault _ _ _ _ | release _ _ _ => exact each.keep (earlier (by simp)) rfl id

/--
No publication is returned twice in a run in which calls lower the flag only while it is up and
the callback is not about to set it.
-/
theorem publications_delivered_once {events : List ThreadsEvent}
    (along : (threads layout).Along ClearsRaised (.initial layout) events) :
    DeliversOnce ((threads layout).final (.initial layout) events) := by
  have start : OneEach (ThreadsState.initial layout) := by
    -- There are no calls at first.
    have none : ∀ number publication data,
        ¬(ThreadsState.initial layout).Succeeds number publication data := by
      rintro number publication data ⟨pc, known, -⟩
      cases known
    exact ⟨fun _ _ _ _ _ one => absurd one (none _ _ _), fun _ _ _ one => absurd one (none _ _ _),
      fun _ _ _ _ one => absurd one (none _ _ _)⟩
  exact (threads_final oneEach_step start along).once

/-- Two calls have both passed their wait, and one of them reads the frame. -/
theorem publications_delivered_once_blank :
    DeliversOnce ((threads lepton).final (.initial lepton)
      (blankFrame.flatMap turn ++ [.enter 38489, .enter 38489, .read 0 .pass, .read 1 .pass] ++
        readWhole 0)) := by
  -- The run is cut in front of the read, as nothing lowers the flag before.
  obtain ⟨driver, frame, final, ready⟩ := bothPass_final
  refine publications_delivered_once (along_append.mpr ⟨?_, ?_⟩)
  · -- Neither the callback nor the first steps of the calls lower the flag.
    refine along_of_forall _ (fun event member _ => ?_) _
    simp only [turn, finishTurn, List.mem_append, List.mem_flatMap, List.mem_cons,
      List.not_mem_nil, or_false] at member
    rcases member with ⟨data, -, calls⟩ | calls
    · rcases calls with rfl | rfl | rfl | rfl | rfl | rfl | rfl | rfl <;> trivial
    · rcases calls with rfl | rfl | rfl | rfl <;> trivial
  · rw [final]
    -- The callback waits for a message all the time, and the first call finds the flag up.
    have away : CbPc.idle ≠ CbPc.unlocked := by simp
    exact along_cons.mpr ⟨trivial, along_cons.mpr ⟨trivial, along_cons.mpr ⟨⟨ready, away⟩,
      along_cons.mpr ⟨trivial, along_nil _ _ _⟩⟩⟩⟩

/-- Two calls that have both passed their wait return the same publication. -/
theorem publication_delivered_twice :
    ¬DeliversOnce ((threads lepton).final (.initial lepton)
      (blankFrame.flatMap turn ++ [.enter 38489, .enter 38489, .read 0 .pass, .read 1 .pass] ++
        readWhole 0 ++ readWhole 1)) := by
  -- Both calls are behind the wait, and the second does not look at the flag any more.
  obtain ⟨driver, frame, final, -⟩ := bothPass_final
  rw [final_append, final_append, final, readWhole_final rfl rfl, readWhole_final rfl rfl]
  intro once
  have same := once 0 1 1 (driver.frameDataReadout.toList.take 38489)
    (driver.frameDataReadout.toList.take 38489) ⟨_, rfl, rfl⟩ ⟨_, rfl, rfl⟩
  cases same

end Esme
