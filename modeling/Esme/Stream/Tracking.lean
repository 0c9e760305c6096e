import Esme.Stream.Transducer

/-! How much of a stream a machine that can stop has decoded, compared with one that cannot. -/

namespace Transducer

variable {σ τ α β γ δ ε θ : Type*}

/--
What a run that may have stopped has decoded of a stream.

While it is going it has decoded all of it, and once stopped a front of it.
-/
structure Decodes (spec : Transducer τ γ δ) (abs : σ → τ) (start : τ) (stream : List γ)
    (result : Except ε σ) (handed : List δ) : Prop where
  front : handed <+: spec.output start stream
  going : ∀ last, result = .ok last →
    abs last = spec.final start stream ∧ handed = spec.output start stream

section

variable {spec : Transducer τ γ δ} {abs : σ → τ} {start : τ} {stream more : List γ}
  {handed others : List δ}

/-- A run that is going has decoded everything when its state and its outputs say so. -/
theorem Decodes.ok {last : σ} (moved : abs last = spec.final start stream)
    (written : handed = spec.output start stream) :
    Decodes spec abs start stream (Except.ok (ε := ε) last) handed where
  -- Everything that was decoded was handed on, so it is a front of itself.
  front := written ▸ List.prefix_rfl
  going := by
    intro last reached
    cases reached
    exact ⟨moved, written⟩

/-- A stopped run has to answer for a front of the outputs only. -/
theorem Decodes.error {error : ε} (front : handed <+: spec.output start stream) :
    Decodes spec abs start stream (.error error) handed where
  -- There is no last state to compare with the decoder's.
  front := front
  going last reached := by cases reached

/-- Reading nothing and writing nothing decodes nothing. -/
theorem Decodes.idle {result : Except ε σ}
    (unmoved : ∀ last, result = .ok last → abs last = start) :
    Decodes spec abs start [] result [] where
  -- The decoder has read nothing, so it has not moved either.
  front := List.nil_prefix
  going last ended := ⟨unmoved last ended, rfl⟩

/-- A run that goes on after one stream decodes the next stream behind it. -/
theorem Decodes.append {middle : σ} {result : Except ε σ}
    (first : Decodes spec abs start stream (Except.ok (ε := ε) middle) handed)
    (next : Decodes spec abs (abs middle) more result others) :
    Decodes spec abs start (stream ++ more) result (handed ++ others) := by
  -- The first run has decoded its whole stream, and the next one starts from that state.
  obtain ⟨moved, written⟩ := first.going middle rfl
  rw [moved] at next
  constructor
  · rw [output_append, written]
    exact List.prefix_append_right_inj _ |>.mpr next.front
  · intro last ended
    obtain ⟨movedRest, writtenRest⟩ := next.going last ended
    rw [final_append, output_append]
    exact ⟨movedRest, by rw [written, writtenRest]⟩

/-- A change of state that the decoder does not see changes nothing decoded. -/
theorem Decodes.map {result : Except ε σ} (decodes : Decodes spec abs start stream result handed)
    {change : σ → σ} (unseen : ∀ state, abs (change state) = abs state) :
    Decodes spec abs start stream (result.map change) handed := by
  -- An error has no state to change, and of a last state the decoder sees the same.
  cases result with
  | error error => exact .error decodes.front
  | ok last =>
    obtain ⟨moved, written⟩ := decodes.going last rfl
    exact .ok (by rw [unseen, moved]) written

/-- A run that goes on as long as all it hands on is good goes on when all it decodes is. -/
theorem Decodes.going_iff {result : Except ε σ} {good : δ → Prop}
    (decodes : Decodes spec abs start stream result handed)
    (sound : (∃ last, result = .ok last) ↔ ∀ piece ∈ handed, good piece) :
    (∃ last, result = .ok last) ↔ ∀ piece ∈ spec.output start stream, good piece := by
  -- All of the outputs are handed on while the run goes on, and never more than them.
  constructor
  · intro running
    obtain ⟨last, reached⟩ := running
    rw [← (decodes.going last reached).2]
    exact sound.mp ⟨last, reached⟩
  · exact fun all => sound.mpr fun piece member => all piece (decodes.front.subset member)

/-- A stopped run has decoded a front of every longer stream too. -/
theorem Decodes.extend {error : ε}
    (stopped : Decodes spec abs start stream (.error error) handed) (more : List γ) :
    Decodes spec abs start (stream ++ more) (.error error) handed := by
  -- The decoder's outputs on the longer stream start with those on the shorter one.
  refine .error (stopped.front.trans ?_)
  rw [output_append]
  exact List.prefix_append _ _

end

section

variable {step : σ → α → Except ε σ × List β} {spec : Transducer τ γ δ} {abs : σ → τ}

/-- A machine decodes its inputs when each step decodes what its one input holds. -/
theorem decodes_inputs {inv : σ → Prop} {view : α → List γ} {shown : β → List δ}
    (kept : ∀ state input next, inv state → (step state input).1 = .ok next → inv next)
    (each : ∀ state input, inv state → Decodes spec abs (abs state) (view input)
      (step state input).1 ((step state input).2.flatMap shown))
    {state : σ} (initially : inv state) (inputs : List α) :
    Decodes spec abs (abs state) (inputs.flatMap view) ((stopping step).final (.ok state) inputs)
      (((stopping step).output (.ok state) inputs).flatMap shown) := by
  -- The induction follows the inputs; behind a stopping step nothing is read any more.
  induction inputs generalizing state with
  | nil => exact .ok rfl rfl
  | cons input rest ih =>
    have first := each state input initially
    rw [final_cons, output_cons, stopping_step_ok, List.flatMap_append, List.flatMap_cons]
    cases result : (step state input).1 with
    | ok next =>
      rw [result] at first
      exact first.append (ih (kept state input next initially result))
    | error error =>
      rw [result] at first
      rw [stopping_final_error, stopping_output_error, List.flatMap_nil, List.append_nil]
      exact first.extend _

/-- A machine decodes what its actions say it has read when each allowed step does so. -/
theorem decodes_along {inv : σ → Prop} {allowed : Except ε σ → α → Prop} {view : β → List γ}
    {shown : β → List δ}
    (kept : ∀ state input next, inv state → allowed (.ok state) input →
      (step state input).1 = .ok next → inv next)
    (each : ∀ state input, inv state → allowed (.ok state) input →
      Decodes spec abs (abs state) ((step state input).2.flatMap view) (step state input).1
        ((step state input).2.flatMap shown))
    {state : σ} (initially : inv state) {inputs : List α}
    (along : (stopping step).Along allowed (.ok state) inputs) :
    Decodes spec abs (abs state) (((stopping step).output (.ok state) inputs).flatMap view)
      ((stopping step).final (.ok state) inputs)
      (((stopping step).output (.ok state) inputs).flatMap shown) := by
  -- The induction follows the inputs, and each step is judged by the state that is reached.
  induction inputs generalizing state with
  | nil => exact .ok rfl rfl
  | cons input rest ih =>
    obtain ⟨permitted, others⟩ := along_cons.mp along
    have first := each state input initially permitted
    rw [stopping_step_ok] at others
    rw [final_cons, output_cons, stopping_step_ok, List.flatMap_append, List.flatMap_append]
    cases result : (step state input).1 with
    | ok next =>
      rw [result] at first others
      exact first.append (ih (kept state input next initially permitted result) others)
    | error error =>
      rw [result] at first
      simp only [stopping_final_error, stopping_output_error, List.flatMap_nil, List.append_nil]
      exact first

/-- A machine decodes what its actions say it has read when each step does so. -/
theorem decodes_trace {inv : σ → Prop} {view : β → List γ} {shown : β → List δ}
    (kept : ∀ state input next, inv state → (step state input).1 = .ok next → inv next)
    (each : ∀ state input, inv state →
      Decodes spec abs (abs state) ((step state input).2.flatMap view) (step state input).1
        ((step state input).2.flatMap shown))
    {state : σ} (initially : inv state) (inputs : List α) :
    Decodes spec abs (abs state) (((stopping step).output (.ok state) inputs).flatMap view)
      ((stopping step).final (.ok state) inputs)
      (((stopping step).output (.ok state) inputs).flatMap shown) := by
  -- Every step is allowed here.
  have along : (stopping step).Along (fun _ _ => True) (.ok state) inputs :=
    fun _ _ _ _ => trivial
  exact decodes_along (fun state input next inv _ => kept state input next inv)
    (fun state input inv _ => each state input inv) initially along

/-- A run goes on exactly as long as everything it writes is good, when each step does. -/
theorem going_iff_good {inv : σ → Prop} {good : β → Prop}
    (kept : ∀ state input next, inv state → (step state input).1 = .ok next → inv next)
    (each : ∀ state input, inv state →
      ((∃ next, (step state input).1 = .ok next) ↔ ∀ action ∈ (step state input).2, good action))
    {state : σ} (initially : inv state) (inputs : List α) :
    (∃ last, (stopping step).final (.ok state) inputs = .ok last) ↔
      ∀ action ∈ (stopping step).output (.ok state) inputs, good action := by
  -- A step that stops has something bad among its actions, and the run ends with it.
  induction inputs generalizing state with
  | nil => simp
  | cons input rest ih =>
    have first := each state input initially
    rw [final_cons, output_cons, stopping_step_ok]
    simp only [List.mem_append, or_imp, forall_and]
    cases result : (step state input).1 with
    | ok next =>
      rw [← ih (kept state input next initially result), ← first, result]
      simp
    | error error =>
      rw [← first, result]
      simp

/-- Some actions are good up to the last of them, which is bad. -/
def EndsBad (good : β → Prop) (actions : List β) : Prop :=
  ∃ front bad, actions = front ++ [bad] ∧ (∀ action ∈ front, good action) ∧ ¬good bad

/--
Actions that end badly are all there were to be, exactly when everything in front of the last of
them all is good.
-/
theorem EndsBad.eq_iff {good : β → Prop} {actions seen all : List β} (ends : EndsBad good actions)
    (front : actions <+: seen) (part : seen <+: all) :
    actions = all ↔ ∀ action ∈ seen.take (all.length - 1), good action := by
  -- The bad action is the last one, so the good ones in front of it are all but one.
  obtain ⟨before, bad, rfl, first, last⟩ := ends
  have inside := front.trans part
  obtain ⟨rest, rfl⟩ := front
  constructor
  · rintro rfl
    rw [List.length_append, List.length_singleton, Nat.add_sub_cancel, List.append_assoc,
      List.take_left' rfl]
    exact first
  · intro early
    -- Were there another one behind the bad one, the bad one would have to be good.
    refine inside.eq_of_length_le (Nat.le_of_not_lt fun more => last (early bad ?_))
    rw [List.length_append, List.length_singleton] at more
    rw [List.append_assoc, List.singleton_append, List.mem_take_iff_getElem]
    exact ⟨before.length, by simp; omega, by simp⟩

/-- A run that stops does so at its first bad action, when each step does. -/
theorem stopped_endsBad {inv : σ → Prop} {good : β → Prop}
    (kept : ∀ state input next, inv state → (step state input).1 = .ok next → inv next)
    (going : ∀ state input next, inv state → (step state input).1 = .ok next →
      ∀ action ∈ (step state input).2, good action)
    (stops : ∀ state input error, inv state → (step state input).1 = .error error →
      EndsBad good (step state input).2)
    {state : σ} (initially : inv state) {inputs : List α} {error : ε}
    (stopped : (stopping step).final (.ok state) inputs = .error error) :
    EndsBad good ((stopping step).output (.ok state) inputs) := by
  -- The steps before the one that stops write only what is good.
  induction inputs generalizing state with
  | nil => cases stopped
  | cons input rest ih =>
    rw [final_cons, stopping_step_ok] at stopped
    rw [output_cons, stopping_step_ok]
    cases result : (step state input).1 with
    | ok next =>
      rw [result] at stopped
      obtain ⟨front, bad, same, first, last⟩ := ih (kept state input next initially result) stopped
      refine ⟨(step state input).2 ++ front, bad, by rw [same, List.append_assoc], ?_, last⟩
      intro action member
      rcases List.mem_append.mp member with early | later
      · exact going state input next initially result action early
      · exact first action later
    | error other =>
      rw [stopping_output_error, List.append_nil]
      exact stops state input other initially result

/-- A property of states holds at the end of a run that is still going. -/
theorem going_preserves {inv : σ → Prop}
    (kept : ∀ state input next, inv state → (step state input).1 = .ok next → inv next)
    {state last : σ} (initially : inv state) {inputs : List α}
    (going : (stopping step).final (.ok state) inputs = .ok last) : inv last := by
  -- A run that is going has gone through a state behind each of its inputs.
  induction inputs generalizing state with
  | nil =>
    cases going
    exact initially
  | cons input rest ih =>
    rw [final_cons, stopping_step_ok] at going
    cases result : (step state input).1 with
    | ok next =>
      rw [result] at going
      exact ih (kept state input next initially result) going
    | error error =>
      rw [result, stopping_final_error] at going
      cases going

/-- What every step writes while a property of states holds is all a run writes. -/
theorem forall_mem_going {inv : σ → Prop} {holds : β → Prop}
    (kept : ∀ state input next, inv state → (step state input).1 = .ok next → inv next)
    (each : ∀ state input, inv state → ∀ action ∈ (step state input).2, holds action)
    {state : σ} (initially : inv state) (inputs : List α) :
    ∀ action ∈ (stopping step).output (.ok state) inputs, holds action := by
  -- An action is one of the first step's, or one of a step behind a state that has the property.
  induction inputs generalizing state with
  | nil => simp
  | cons input rest ih =>
    intro action member
    rw [output_cons, stopping_step_ok, List.mem_append] at member
    rcases member with first | later
    · exact each state input initially action first
    cases result : (step state input).1 with
    | ok next =>
      rw [result] at later
      exact ih (kept state input next initially result) action later
    | error error =>
      rw [result, stopping_output_error] at later
      exact absurd later List.not_mem_nil

/-- Two readings of the actions agree on a run when they agree on every step. -/
theorem going_flatMap_congr {inv : σ → Prop} {left right : β → List θ}
    (kept : ∀ state input next, inv state → (step state input).1 = .ok next → inv next)
    (each : ∀ state input, inv state →
      (step state input).2.flatMap left = (step state input).2.flatMap right)
    {state : σ} (initially : inv state) (inputs : List α) :
    ((stopping step).output (.ok state) inputs).flatMap left =
      ((stopping step).output (.ok state) inputs).flatMap right := by
  -- Readings of a run are put together from those of its steps.
  induction inputs generalizing state with
  | nil => rfl
  | cons input rest ih =>
    rw [output_cons, stopping_step_ok, List.flatMap_append, List.flatMap_append,
      each state input initially]
    cases result : (step state input).1 with
    | ok next => rw [ih (kept state input next initially result)]
    | error error => rw [stopping_output_error]; rfl

end

end Transducer
