import Esme.Driver.Turns

/-! What calls of `rpmsg_read` return: which publication, how often, and what of the rest. -/

namespace Esme

open Transducer

variable {layout : Layout} {s next : ThreadsState layout} {event : ThreadsEvent}

/-- How a call is going to end, once that is settled. -/
def ReadPc.result : ReadPc → Option RpmsgReadResult
  | .unlocking result => some result
  | .returned result => some result
  | .waiting => none
  | .locking => none
  | .copying _ _ => none

/-- A call has copied a whole publication and cleared the flag. -/
def ThreadsState.Succeeds (s : ThreadsState layout) (number publication : Nat)
    (data : List UInt8) : Prop :=
  ∃ pc, s.reads[number]? = some pc ∧ pc.result = some (.copied publication data)

/-- A call that moves on keeps a result that it has. -/
theorem succeeds_move {number place publication : Nat} {data : List UInt8} {pc moved : ReadPc}
    (known : s.reads[place]? = some pc) (same : pc.result = none ∨ moved.result = pc.result)
    (succeeds : s.Succeeds number publication data) :
    (s.move place moved).Succeeds number publication data := by
  -- Other calls are where they were.
  obtain ⟨before, found, result⟩ := succeeds
  by_cases here : place = number
  · -- The call that moves is the one with the result, so it had one before.
    subst here
    rw [known, Option.some.injEq] at found
    subst found
    refine ⟨moved, Slots.getElem?_set_of_some known moved, ?_⟩
    rcases same with none | kept
    · rw [none] at result
      cases result
    · rw [kept, result]
  · exact ⟨before, by rw [ThreadsState.move, List.getElem?_set_ne here, found], result⟩

/-- A result that a call has behind its move is one it had before, or the new one. -/
theorem succeeds_of_move {number place publication : Nat} {data : List UInt8} {moved : ReadPc}
    (succeeds : (s.move place moved).Succeeds number publication data) :
    (place ≠ number ∧ s.Succeeds number publication data) ∨
      (place = number ∧ moved.result = some (.copied publication data)) := by
  -- Either the result is that of the call that moved, or the call is another one.
  obtain ⟨after, found, result⟩ := succeeds
  by_cases here : place = number
  · right
    rw [ThreadsState.move, List.getElem?_set, if_pos here] at found
    split at found
    · cases found
      exact ⟨here, result⟩
    · cases found
  · left
    rw [ThreadsState.move, List.getElem?_set_ne here] at found
    exact ⟨here, after, found, result⟩

/-- A result that a call has behind the start of another is one it had before. -/
theorem succeeds_of_enter {number publication : Nat} {data : List UInt8} {entered : ReadPc}
    (fresh : entered.result ≠ some (.copied publication data))
    (succeeds : { s with reads := s.reads ++ [entered] }.Succeeds number publication data) :
    s.Succeeds number publication data := by
  obtain ⟨pc, found, result⟩ := succeeds
  -- The new call has no such result, so it is not the one found.
  have known : ∀ place (item : ReadPc), (s.reads ++ [entered])[place]? = some item →
      item.result = some (.copied publication data) → s.reads[place]? = some item :=
    Slots.forall_concat (fun _ _ known _ => known) (fun new => absurd new fresh)
  exact ⟨pc, known number pc found result, result⟩

/-- A call that has succeeded does not fail any more. -/
theorem Succeeds.step {number publication : Nat} {data : List UInt8}
    (succeeds : s.Succeeds number publication data) (moves : ThreadsMoves s event next) :
    next.Succeeds number publication data := by
  -- A call that moves has no result yet, or takes it with it when it releases the mutex.
  cases moves with
  | message _ _ | store _ _ _ _ _ | stored _ | storedLast _ | lock _ _ | copy _ _ _ _ | unlock _
  | announce _ => exact succeeds
  | refuse _ _ | enter =>
    obtain ⟨pc, found, result⟩ := succeeds
    exact ⟨pc, Slots.getElem?_concat_of_some found _, result⟩
  | pass place known _ | interrupt place known | acquire place known _
  | copyOut place _ _ _ known _ | fault place _ _ known | clear place _ known =>
    exact succeeds_move known (.inl rfl) succeeds
  | release place result known => exact succeeds_move known (.inr rfl) succeeds

/-- Only clearing the flag makes a call succeed. -/
theorem succeeds_step {number publication : Nat} {data : List UInt8}
    (moves : ThreadsMoves s event next) (succeeds : next.Succeeds number publication data) :
    s.Succeeds number publication data ∨
      event = .read number .clear ∧ publication = s.published.length := by
  -- A new result appears at one step, and it is for the last publication.
  cases moves with
  | message _ _ | store _ _ _ _ _ | stored _ | storedLast _ | lock _ _ | copy _ _ _ _ | unlock _
  | announce _ => exact .inl succeeds
  | refuse _ _ | enter => exact .inl (succeeds_of_enter (by simp [ReadPc.result]) succeeds)
  | pass place known _ | interrupt place known | acquire place known _
  | copyOut place _ _ _ known _ | fault place _ _ known =>
    rcases succeeds_of_move succeeds with ⟨-, before⟩ | ⟨-, result⟩
    · exact .inl before
    · cases result
  | clear place data known =>
    rcases succeeds_of_move succeeds with ⟨-, before⟩ | ⟨rfl, result⟩
    · exact .inl before
    · cases result
      exact .inr ⟨rfl, rfl⟩
  | release place result known =>
    rcases succeeds_of_move succeeds with ⟨-, before⟩ | ⟨rfl, same⟩
    · exact .inl before
    · exact .inl ⟨_, known, same⟩

/-- A publication has been copied whole. -/
def Delivers (published : List (Buffer UInt8 layout.frameSize)) (publication : Nat)
    (data : List UInt8) : Prop :=
  0 < publication ∧ (published[publication - 1]?).map Buffer.toList = some data

/-- What a call may rely on, from place to place. -/
def Untorn (s : ThreadsState layout) (number : Nat) : ReadPc → Prop
  | .waiting => True
  | .locking => s.published ≠ []
  | .copying copied data => s.mutex = some (.read number) ∧ s.published ≠ [] ∧
      data = s.driver.frameDataReadout.toList.take copied
  | .unlocking result => s.mutex = some (.read number) ∧
      ∀ publication data, result = .copied publication data → Delivers s.published publication data
  | .returned result =>
      ∀ publication data, result = .copied publication data → Delivers s.published publication data

/--
The mutex keeps the callback and the readers apart, and outside the callback's own copy the buffer
holds the last publication.
-/
structure ReadsUntorn (s : ThreadsState layout) : Prop where
  locked : ∀ copied, s.callback = .copying copied → s.mutex = some .callback
  ready : s.driver.dataReady = true ∨ s.callback = .unlocked → s.published ≠ []
  content : (∀ copied, s.callback ≠ .copying copied) →
    ∀ frame, s.published.getLast? = some frame → s.driver.frameDataReadout = frame
  reads : ∀ number pc, s.reads[number]? = some pc → Untorn s number pc

/-- A publication stays where it is in the list as more are published. -/
theorem Delivers.grow {published : List (Buffer UInt8 layout.frameSize)} {publication : Nat}
    {data : List UInt8} (delivers : Delivers published publication data)
    (more : List (Buffer UInt8 layout.frameSize)) :
    Delivers (published ++ more) publication data := by
  -- It is found among the old ones already.
  obtain ⟨positive, found⟩ := delivers
  refine ⟨positive, ?_⟩
  obtain ⟨frame, known, same⟩ := Option.map_eq_some_iff.mp found
  obtain ⟨inside, -⟩ := List.getElem?_eq_some_iff.mp known
  rw [List.getElem?_append_left inside, found]

/-- Each number stands for one publication. -/
theorem Delivers.unique {published : List (Buffer UInt8 layout.frameSize)} {publication : Nat}
    {one other : List UInt8} (first : Delivers published publication one)
    (second : Delivers published publication other) : one = other :=
  Option.some.inj (first.2.symm.trans second.2)

/-- What a call relies on stays while buffer and mutex do, or while it does not hold the mutex. -/
theorem Untorn.keep {number : Nat} {pc : ReadPc} (untorn : Untorn s number pc)
    (mutex : s.mutex = some (.read number) →
      next.mutex = s.mutex ∧ next.driver.frameDataReadout = s.driver.frameDataReadout)
    {more : List (Buffer UInt8 layout.frameSize)}
    (published : next.published = s.published ++ more) : Untorn next number pc := by
  -- Publications are only ever added.
  have grows : s.published ≠ [] → next.published ≠ [] := by
    intro any empty
    rw [published, List.append_eq_nil_iff] at empty
    exact any empty.1
  cases pc with
  | waiting => trivial
  | locking => exact grows untorn
  | copying copied data =>
    obtain ⟨held, any, copy⟩ := untorn
    obtain ⟨kept, same⟩ := mutex held
    exact ⟨kept.trans held, grows any, by rw [same]; exact copy⟩
  | unlocking result =>
    obtain ⟨held, delivers⟩ := untorn
    refine ⟨(mutex held).1.trans held, fun publication data same => ?_⟩
    rw [published]
    exact (delivers publication data same).grow more
  | returned result =>
    intro publication data same
    rw [published]
    exact (untorn publication data same).grow more

/-- A call that moves on leaves the others what they rely on. -/
theorem ReadsUntorn.move (untorn : ReadsUntorn s) {place : Nat} {pc : ReadPc}
    (reads : next.reads = s.reads.set place pc) (callback : next.callback = s.callback)
    (published : next.published = s.published)
    (readout : next.driver.frameDataReadout = s.driver.frameDataReadout)
    (ready : next.driver.dataReady = true → s.driver.dataReady = true)
    (mutex : ∀ holder, s.mutex = some holder → holder ≠ .read place → next.mutex = s.mutex)
    (placed : Untorn next place pc) : ReadsUntorn next := by
  -- The mutex may change hands only from nobody to this call, or from it to nobody.
  constructor
  · intro copied copying
    rw [callback] at copying
    have held := untorn.locked copied copying
    rw [mutex .callback held (by simp), held]
  · rw [callback, published]
    exact fun set => untorn.ready (set.imp_left ready)
  · rw [callback, published, readout]
    exact untorn.content
  · rw [reads]
    refine Slots.forall_set (fun number item other known => ?_) placed
    refine (untorn.reads number item known).keep (fun held => ⟨?_, readout⟩)
      (published.trans (List.append_nil _).symm)
    exact mutex _ held (by simp [other])

/-- The callback takes a step that leaves buffer, mutex and publications alone. -/
theorem ReadsUntorn.callback (untorn : ReadsUntorn s) (reads : next.reads = s.reads)
    (published : next.published = s.published) (mutex : next.mutex = s.mutex)
    (readout : next.driver.frameDataReadout = s.driver.frameDataReadout)
    (before : ∀ copied, s.callback ≠ .copying copied)
    (after : ∀ copied, next.callback ≠ .copying copied)
    (ready : next.driver.dataReady = true ∨ next.callback = .unlocked →
      s.driver.dataReady = true ∨ s.callback = .unlocked) : ReadsUntorn next := by
  -- Outside its locked copy the callback has nothing to do with what the calls rely on.
  constructor
  · exact fun copied copying => absurd copying (after copied)
  · rw [published]
    exact fun set => untorn.ready (ready set)
  · rw [published, readout]
    exact fun _ => untorn.content before
  · rw [reads]
    intro number pc known
    exact (untorn.reads number pc known).keep (fun _ => ⟨mutex, readout⟩)
      (published.trans (List.append_nil _).symm)

/-- No reader holds the mutex while the callback does or nobody does. -/
theorem ReadsUntorn.shut (untorn : ReadsUntorn s)
    (mutex : s.mutex = some .callback ∨ s.mutex = none) (reads : next.reads = s.reads)
    {more : List (Buffer UInt8 layout.frameSize)} (published : next.published = s.published ++ more)
    (number : Nat) (pc : ReadPc) (known : next.reads[number]? = some pc) :
    Untorn next number pc := by
  -- A call in its copy would hold the mutex.
  rw [reads] at known
  refine (untorn.reads number pc known).keep (fun held => ?_) published
  rcases mutex with callback | free
  · rw [callback] at held
    cases held
  · rw [free] at held
    cases held

/-- Outside the callback's own copy the buffer holds the last publication. -/
theorem ReadsUntorn.last (untorn : ReadsUntorn s) (any : s.published ≠ [])
    (away : ∀ copied, s.callback ≠ .copying copied) :
    Delivers s.published s.published.length s.driver.frameDataReadout.toList := by
  -- The number of the last publication is the length of the list.
  have last := List.getLast?_eq_getLast_of_ne_nil any
  refine ⟨List.length_pos_iff.mpr any, ?_⟩
  rw [← List.getLast?_eq_getElem?, last, untorn.content away _ last]
  rfl

/-- Every step keeps the mutex, the buffer and the calls in order. -/
theorem readsUntorn_step (untorn : ReadsUntorn s) (moves : ThreadsMoves s event next) :
    ReadsUntorn next := by
  -- One case for each step; whoever copies holds the mutex, which shuts the others out.
  cases moves with
  | message data idle =>
    obtain ⟨readout, ready, -⟩ := startMessage_spares s.driver data
    obtain ⟨copies, unlocks⟩ := startMessage_place s.driver data
    refine untorn.callback rfl rfl rfl readout (by simp [idle]) copies (fun set => ?_)
    rcases set with flag | unlocked
    · exact .inl (ready ▸ flag)
    · exact absurd unlocked unlocks
  | store last copied count place inside =>
    exact untorn.callback rfl rfl rfl rfl (by simp [place]) (by simp) (by simp +contextual)
  | stored place =>
    exact untorn.callback rfl rfl rfl rfl (by simp [place]) (by simp) (by simp +contextual)
  | storedLast place =>
    exact untorn.callback rfl rfl rfl rfl (by simp [place]) (by simp) (by simp +contextual)
  | lock place free =>
    -- The mutex is free, so no call is in its copy.
    refine ⟨fun _ _ => rfl, fun set => untorn.ready ?_, fun away => absurd rfl (away 0),
      untorn.shut (.inr free) rfl (List.append_nil _).symm⟩
    exact .inl (by simpa using set)
  | copy copied count place inside =>
    -- The callback holds the mutex, so what it overwrites is not being read.
    refine ⟨fun _ _ => untorn.locked copied place, fun set => untorn.ready ?_,
      fun away => absurd rfl (away _), untorn.shut (.inl (untorn.locked copied place)) rfl
        (List.append_nil _).symm⟩
    exact .inl (by simpa using set)
  | unlock place =>
    -- What the copy has left becomes the last publication.
    refine ⟨by simp, by simp, ?_, untorn.shut (.inl (untorn.locked _ place)) rfl rfl⟩
    intro _ frame last
    simpa using last
  | announce place =>
    exact untorn.callback rfl rfl rfl rfl (by simp [place]) (by simp) (fun _ => .inr place)
  | refuse count other =>
    refine ⟨untorn.locked, untorn.ready, untorn.content, Slots.forall_concat ?_ (by simp [Untorn])⟩
    intro number pc known
    exact (untorn.reads number pc known).keep (fun _ => ⟨rfl, rfl⟩) (List.append_nil _).symm
  | enter =>
    refine ⟨untorn.locked, untorn.ready, untorn.content, Slots.forall_concat ?_ trivial⟩
    intro number pc known
    exact (untorn.reads number pc known).keep (fun _ => ⟨rfl, rfl⟩) (List.append_nil _).symm
  | pass number known ready =>
    -- The flag is up, so there is a publication already.
    exact untorn.move rfl rfl rfl rfl id (fun _ _ _ => rfl) (untorn.ready (.inl ready))
  | interrupt number known =>
    exact untorn.move rfl rfl rfl rfl id (fun _ _ _ => rfl) (by simp [Untorn])
  | acquire number known free =>
    -- Nothing is copied yet.
    refine untorn.move rfl rfl rfl rfl id (fun holder held _ => ?_)
      ⟨rfl, untorn.reads number _ known, rfl⟩
    rw [free] at held
    cases held
  | copyOut number copied count data known inside =>
    obtain ⟨held, any, copy⟩ := untorn.reads number _ known
    -- The piece continues the bytes that are copied already, from the same buffer.
    refine untorn.move rfl rfl rfl rfl id (fun _ _ _ => rfl) ⟨held, any, ?_⟩
    rw [copy, List.take_add]
    rfl
  | fault number copied data known =>
    obtain ⟨held, -, -⟩ := untorn.reads number _ known
    exact untorn.move rfl rfl rfl rfl id (fun _ _ _ => rfl) ⟨held, by simp⟩
  | clear number data known =>
    obtain ⟨held, any, copy⟩ := untorn.reads number _ known
    refine untorn.move rfl rfl rfl rfl (by simp) (fun _ _ _ => rfl) ⟨held, ?_⟩
    intro publication copied same
    cases same
    -- The reader holds the mutex, so the callback is not in its copy.
    have away : ∀ copied, s.callback ≠ .copying copied := by
      intro copied copying
      rw [untorn.locked copied copying] at held
      cases held
    rw [copy, List.take_of_length_le (Nat.le_of_eq s.driver.frameDataReadout.length_eq)]
    exact untorn.last any away
  | release number result known =>
    obtain ⟨held, delivers⟩ := untorn.reads number _ known
    refine untorn.move rfl rfl rfl rfl id (fun holder other different => ?_) delivers
    rw [held, Option.some.injEq] at other
    exact absurd other.symm different

/-- What a call has copied is the publication that it has copied. -/
theorem ReadsUntorn.delivers (untorn : ReadsUntorn s) {number publication : Nat}
    {data : List UInt8} (succeeds : s.Succeeds number publication data) :
    Delivers s.published publication data := by
  obtain ⟨pc, known, result⟩ := succeeds
  have relies := untorn.reads number pc known
  cases pc with
  | unlocking ends =>
    cases result
    exact relies.2 publication data rfl
  | returned ends =>
    cases result
    exact relies publication data rfl
  | waiting | locking | copying _ _ => cases result

/-- In every run the mutex, the buffer and the calls stay in order. -/
theorem threads_readsUntorn (events : List ThreadsEvent) :
    ReadsUntorn ((threads layout).final (.initial layout) events) := by
  refine threads_run readsUntorn_step ?_ events
  exact ⟨by simp [ThreadsState.initial], by simp [ThreadsState.initial, DriverState.initial],
    by simp [ThreadsState.initial], by simp [ThreadsState.initial]⟩

/--
Every call that returns the buffer returns one publication whole, as the callback makes it of the
messages received when nothing comes between.
-/
theorem reads_untorn {events : List ThreadsEvent} {number publication : Nat} {data : List UInt8}
    (returned : ((threads lepton).final (.initial lepton) events).reads[number]? =
      some (.returned (.copied publication data))) :
    data.length = 38489 ∧
      Delivers (publishedDuring (DriverState.initial lepton)
        ((threads lepton).final (.initial lepton) events).received) publication data := by
  have delivers := (threads_readsUntorn events).reads number _ returned publication data rfl
  constructor
  · -- What is published is a buffer of this size.
    obtain ⟨frame, -, same⟩ := Option.map_eq_some_iff.mp delivers.2
    rw [← same]
    exact frame.length_eq
  · obtain ⟨more, whole⟩ := @published_front lepton events
    rw [← whole]
    exact delivers.grow more

/-- A call behind the first frame returns it. -/
theorem reads_untorn_blank :
    ∃ data, ((threads lepton).final (.initial lepton)
        (blankFrame.flatMap turn ++ [.enter 38489, .enter 38489, .read 0 .pass, .read 1 .pass] ++
          readWhole 0)).reads[0]? = some (.returned (.copied 1 data)) ∧
      data.length = 38489 ∧
      Delivers (publishedDuring (DriverState.initial lepton)
        ((threads lepton).final (.initial lepton)
          (blankFrame.flatMap turn ++ [.enter 38489, .enter 38489, .read 0 .pass, .read 1 .pass] ++
            readWhole 0)).received) 1 data := by
  obtain ⟨driver, frame, final, -⟩ := bothPass_final
  have returned : ((threads lepton).final (.initial lepton)
      (blankFrame.flatMap turn ++ [.enter 38489, .enter 38489, .read 0 .pass, .read 1 .pass] ++
        readWhole 0)).reads[0]? =
          some (.returned (.copied 1 (driver.frameDataReadout.toList.take 38489))) := by
    rw [final_append, final, readWhole_final rfl rfl]
    rfl
  exact ⟨_, returned, reads_untorn returned⟩

end Esme
