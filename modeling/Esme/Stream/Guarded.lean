import Esme.Stream.Transducer

/-! Machines whose steps may be impossible in a state, and what holds along all of their runs. -/

namespace Transducer

variable {σ α β : Type*}

/-- A machine that stays where it is and writes nothing when a step is impossible. -/
def guarded (step : σ → α → Option (σ × List β)) : Transducer σ α β where
  step state input :=
    match step state input with
    | some result => result
    -- A schedule may name a step that cannot be taken, which then is no step at all.
    | none => (state, [])

section

variable {step : σ → α → Option (σ × List β)}

/-- A step that is possible is taken. -/
theorem guarded_step_some {state next : σ} {input : α} {written : List β}
    (possible : step state input = some (next, written)) :
    (guarded step).step state input = (next, written) := by
  simp only [guarded, possible]

/-- A step that is impossible changes nothing. -/
theorem guarded_step_none {state : σ} {input : α} (impossible : step state input = none) :
    (guarded step).step state input = (state, []) := by
  simp only [guarded, impossible]

/--
What every possible and allowed step keeps, of what has been written and of the state reached,
holds behind every run whose steps are allowed.
-/
theorem guarded_along {inv : List β → σ → Prop} {allowed : σ → α → Prop}
    (kept : ∀ {trace state input next written}, inv trace state → allowed state input →
      step state input = some (next, written) → inv (trace ++ written) next)
    {trace : List β} {state : σ} (initially : inv trace state) {inputs : List α}
    (along : (guarded step).Along allowed state inputs) :
    inv (trace ++ (guarded step).output state inputs) ((guarded step).final state inputs) := by
  -- The induction follows the schedule, with everything written before it kept in the trace.
  induction inputs generalizing trace state with
  | nil =>
    rw [output_nil, List.append_nil]
    exact initially
  | cons input rest ih =>
    obtain ⟨permitted, others⟩ := along_cons.mp along
    rw [output_cons, final_cons, ← List.append_assoc]
    cases possible : step state input with
    | none =>
      rw [guarded_step_none possible] at others ⊢
      -- Nothing is written and nothing moves.
      rw [List.append_nil]
      exact ih initially others
    | some result =>
      obtain ⟨next, written⟩ := result
      rw [guarded_step_some possible] at others ⊢
      exact ih (kept initially permitted possible) others

/-- What every possible and allowed step keeps of the state holds of every state reached. -/
theorem guarded_final {inv : σ → Prop} {allowed : σ → α → Prop}
    (kept : ∀ {state input next written}, inv state → allowed state input →
      step state input = some (next, written) → inv next)
    {state : σ} (initially : inv state) {inputs : List α}
    (along : (guarded step).Along allowed state inputs) :
    inv ((guarded step).final state inputs) := by
  -- The trace is not looked at.
  exact @guarded_along _ _ _ step (fun _ => inv) allowed
    (fun held permitted possible => kept held permitted possible) [] state initially inputs along

/-- Where an invariant that one of two conditions keeps makes them equal, so are the runs. -/
theorem guarded_along_congr {inv : σ → Prop} {allowed required : σ → α → Prop}
    (same : ∀ {state input}, inv state → (allowed state input ↔ required state input))
    (kept : ∀ {state input next written}, inv state → allowed state input →
      step state input = some (next, written) → inv next)
    {state : σ} (initially : inv state) {inputs : List α} :
    (guarded step).Along allowed state inputs ↔ (guarded step).Along required state inputs := by
  -- The conditions agree at the first step, and the invariant goes on to the others.
  induction inputs generalizing state with
  | nil =>
    -- There is no step to judge.
    exact iff_of_true (along_nil _ allowed state) (along_nil _ required state)
  | cons input rest ih =>
    rw [along_cons, along_cons, ← same initially]
    refine and_congr_right fun permitted => ih ?_
    cases possible : step state input with
    | none =>
      rw [guarded_step_none possible]
      -- A step that cannot be taken leaves the state as it is.
      exact initially
    | some result =>
      rw [guarded_step_some possible]
      exact kept initially permitted possible

end

end Transducer
