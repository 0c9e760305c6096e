import Mathlib.Logic.Basic
import Mathlib.Tactic.TypeStar

/-! Deterministic machines that answer every input with a next state and a list of outputs. -/

/-- A machine reading inputs one at a time and writing finitely many outputs at each. -/
structure Transducer (σ α β : Type*) where
  /-- One input gives the next state and whatever is written on the way to it. -/
  step : σ → α → σ × List β

namespace Transducer

variable {σ τ α β γ δ ε θ : Type*}

/-- The state after a list of inputs. -/
def final (machine : Transducer σ α β) : σ → List α → σ
  | state, [] => state
  | state, input :: rest => final machine (machine.step state input).1 rest

/-- Everything written while reading a list of inputs, in order. -/
def output (machine : Transducer σ α β) : σ → List α → List β
  | _, [] => []
  | state, input :: rest =>
    -- What the first input writes comes before whatever the rest writes from the next state.
    (machine.step state input).2 ++ output machine (machine.step state input).1 rest

@[simp] theorem final_nil (machine : Transducer σ α β) (state : σ) :
    machine.final state [] = state := rfl

@[simp] theorem final_cons (machine : Transducer σ α β) (state : σ) (input : α) (rest : List α) :
    machine.final state (input :: rest) = machine.final (machine.step state input).1 rest := rfl

@[simp] theorem output_nil (machine : Transducer σ α β) (state : σ) :
    machine.output state [] = [] := rfl

@[simp] theorem output_cons (machine : Transducer σ α β) (state : σ) (input : α) (rest : List α) :
    machine.output state (input :: rest) =
      (machine.step state input).2 ++ machine.output (machine.step state input).1 rest := rfl

/-- Reading two lists in a row resumes from the state the first one left. -/
theorem final_append (machine : Transducer σ α β) (state : σ) (front back : List α) :
    machine.final state (front ++ back) = machine.final (machine.final state front) back := by
  -- The state moves along the front, so it stays quantified over.
  induction front generalizing state with
  | nil => rfl
  | cons input rest ih => exact ih _

/-- Outputs of two lists read in a row are the outputs of each, the second from where it starts. -/
theorem output_append (machine : Transducer σ α β) (state : σ) (front back : List α) :
    machine.output state (front ++ back) =
      machine.output state front ++ machine.output (machine.final state front) back := by
  -- The induction follows the front, and the state it leaves is where the back starts.
  induction front generalizing state with
  | nil => rfl
  | cons input rest ih =>
    simp only [List.cons_append, output_cons, final_cons, ih, List.append_assoc]

/-- Every step of a run is one the condition allows, judged on the state it starts from. -/
def Along (machine : Transducer σ α β) (allowed : σ → α → Prop) (state : σ)
    (inputs : List α) : Prop :=
  -- The state a step is judged on is the one that the inputs before it lead to.
  ∀ before input after, inputs = before ++ input :: after →
    allowed (machine.final state before) input

/-- A condition on every step of a run splits into one on its first step and one on the rest. -/
theorem along_cons {machine : Transducer σ α β} {allowed : σ → α → Prop} {state : σ}
    {input : α} {rest : List α} :
    machine.Along allowed state (input :: rest) ↔
      allowed state input ∧ machine.Along allowed (machine.step state input).1 rest := by
  -- The first step has nothing before it, and every other one has the first input before it.
  constructor
  · intro along
    refine ⟨along [] input rest rfl, fun before later after split => ?_⟩
    exact along (input :: before) later after (by rw [split]; rfl)
  · intro parts before later after split
    obtain ⟨first, others⟩ := parts
    cases before with
    | nil =>
      simp only [List.nil_append, List.cons.injEq] at split
      obtain ⟨rfl, rfl⟩ := split
      exact first
    | cons head before =>
      simp only [List.cons_append, List.cons.injEq] at split
      obtain ⟨rfl, rfl⟩ := split
      exact others before later after rfl

/-- A run without steps meets every condition. -/
theorem along_nil (machine : Transducer σ α β) (allowed : σ → α → Prop) (state : σ) :
    machine.Along allowed state [] := by
  intro before input after split
  simp at split

/-- Steps that are allowed in every state are allowed in every run. -/
theorem along_of_forall (machine : Transducer σ α β) {allowed : σ → α → Prop} {inputs : List α}
    (every : ∀ input ∈ inputs, ∀ state, allowed state input) (state : σ) :
    machine.Along allowed state inputs := by
  intro before input after split
  have member : input ∈ inputs := by simp [split]
  exact every input member _

/-- A condition that can be decided of one step can be decided of a run. -/
instance Along.decidable (machine : Transducer σ α β) (allowed : σ → α → Prop)
    [∀ state input, Decidable (allowed state input)] :
    ∀ state inputs, Decidable (machine.Along allowed state inputs)
  | _, [] => isTrue (along_nil machine allowed _)
  | state, input :: rest =>
    have := Along.decidable machine allowed (machine.step state input).1 rest
    decidable_of_iff (allowed state input ∧ _) along_cons.symm

/-- A condition on every step of a run holds on every prefix of it. -/
theorem Along.front {machine : Transducer σ α β} {allowed : σ → α → Prop} {state : σ}
    {front back : List α} (along : machine.Along allowed state (front ++ back)) :
    machine.Along allowed state front := by
  -- A step of the front is a step of the whole run with the same inputs before it.
  intro before input after split
  exact along before input (after ++ back) (by rw [split]; simp)

/-- A condition on every step of a run in two parts is one on each part. -/
theorem along_append {machine : Transducer σ α β} {allowed : σ → α → Prop} {state : σ}
    {front back : List α} :
    machine.Along allowed state (front ++ back) ↔
      machine.Along allowed state front ∧
        machine.Along allowed (machine.final state front) back := by
  induction front generalizing state with
  | nil =>
    -- There is no step in an empty front.
    exact ⟨fun along => ⟨along_nil machine allowed state, along⟩, And.right⟩
  | cons input rest ih => rw [List.cons_append, along_cons, along_cons, ih, and_assoc, final_cons]

/-- Conditions that agree in every state a run can reach hold of the same runs. -/
theorem along_congr {machine : Transducer σ α β} {inv : σ → Prop} {allowed other : σ → α → Prop}
    (kept : ∀ state input, inv state → inv (machine.step state input).1)
    (same : ∀ state input, inv state → (allowed state input ↔ other state input)) {state : σ}
    (initially : inv state) {inputs : List α} :
    machine.Along allowed state inputs ↔ machine.Along other state inputs := by
  induction inputs generalizing state with
  | nil => exact iff_of_true (along_nil _ _ _) (along_nil _ _ _)
  | cons input rest ih =>
    rw [along_cons, along_cons, same state input initially, ih (kept state input initially)]

/-- Outputs that show nothing one by one show nothing together. -/
theorem flatMap_silent {origin : β → Prop} {shown : β → List θ} {outputs : List β}
    (members : ∀ written ∈ outputs, origin written)
    (silent : ∀ written, origin written → shown written = []) : outputs.flatMap shown = [] :=
  List.flatMap_eq_nil_iff.mpr fun written member => silent written (members written member)

/-- Two conditions hold along a run exactly when both of them hold of each step. -/
theorem along_and {machine : Transducer σ α β} {allowed other : σ → α → Prop} {state : σ}
    {inputs : List α} :
    machine.Along (fun state input => allowed state input ∧ other state input) state inputs ↔
      machine.Along allowed state inputs ∧ machine.Along other state inputs := by
  constructor
  · intro both
    exact ⟨fun before input after split => (both before input after split).1,
      fun before input after split => (both before input after split).2⟩
  · rintro ⟨one, two⟩ before input after split
    exact ⟨one before input after split, two before input after split⟩

/-- What a run writes has a property exactly when what each of its steps writes has it. -/
theorem forall_output_iff (machine : Transducer σ α β) {good : β → Prop} (state : σ)
    (inputs : List α) :
    (∀ written ∈ machine.output state inputs, good written) ↔
      machine.Along (fun state input => ∀ written ∈ (machine.step state input).2, good written)
        state inputs := by
  -- What the first step writes stands in front of what the others write.
  induction inputs generalizing state with
  | nil => exact iff_of_true (by simp) (along_nil _ _ _)
  | cons input rest ih => rw [output_cons, List.forall_mem_append, ih, along_cons]

/-- A run shows no more than it takes if none of its steps does. -/
theorem output_fewer (machine : Transducer σ α β) {shown taken : β → List γ}
    (fewer : ∀ state input, ((machine.step state input).2.flatMap shown).length ≤
      ((machine.step state input).2.flatMap taken).length) (state : σ) (inputs : List α) :
    ((machine.output state inputs).flatMap shown).length ≤
      ((machine.output state inputs).flatMap taken).length := by
  induction inputs generalizing state with
  | nil => exact Nat.le_refl _
  | cons input rest ih =>
    have first := fewer state input
    have others := ih (machine.step state input).1
    simp only [output_cons, List.flatMap_append, List.length_append]
    omega

/-- If no step shows more than it takes, a run shows what it takes exactly when each step does. -/
theorem output_eq_iff (machine : Transducer σ α β) {shown taken : β → List γ}
    (fewer : ∀ state input, ((machine.step state input).2.flatMap shown).length ≤
      ((machine.step state input).2.flatMap taken).length) (state : σ) (inputs : List α) :
    (machine.output state inputs).flatMap shown = (machine.output state inputs).flatMap taken ↔
      machine.Along (fun state input => (machine.step state input).2.flatMap shown =
        (machine.step state input).2.flatMap taken) state inputs := by
  -- Equal lists of which neither part is longer than the other's are equal in both parts.
  induction inputs generalizing state with
  | nil => exact iff_of_true rfl (along_nil _ _ _)
  | cons input rest ih =>
    have later := ih (machine.step state input).1
    rw [along_cons, ← later, output_cons, List.flatMap_append, List.flatMap_append]
    constructor
    · intro same
      -- What one part lacks the other one cannot make up for.
      have first := fewer state input
      have others := machine.output_fewer fewer (machine.step state input).1 rest
      have lengths := congrArg List.length same
      simp only [List.length_append] at lengths
      apply List.append_inj same
      omega
    · rintro ⟨first, others⟩
      rw [first, others]

/-- A machine whose steps may fail; after the first failure it reads nothing more. -/
def stopping (step : σ → α → Except ε σ × List β) : Transducer (Except ε σ) α β where
  step
    | .ok state, input => step state input
    -- A failed machine keeps its error, and it neither moves nor writes.
    | .error error, _ => (.error error, [])

@[simp] theorem stopping_step_ok (step : σ → α → Except ε σ × List β) (state : σ) (input : α) :
    (stopping step).step (.ok state) input = step state input := rfl

@[simp] theorem stopping_final_error (step : σ → α → Except ε σ × List β) (error : ε)
    (inputs : List α) : (stopping step).final (.error error) inputs = .error error := by
  -- An error is kept by every step, so the inputs make no difference.
  induction inputs with
  | nil => rfl
  | cons input rest ih => exact ih

@[simp] theorem stopping_output_error (step : σ → α → Except ε σ × List β) (error : ε)
    (inputs : List α) : (stopping step).output (.error error) inputs = [] := by
  -- No step from an error writes anything.
  induction inputs with
  | nil => rfl
  | cons input rest ih => exact ih

/--
One machine does, input by input, what another does on a translation of its inputs.

The relation ties the states of the two machines, and their outputs are compared by what each
shows of them.
-/
structure Simulates (machine : Transducer σ α β) (spec : Transducer τ γ δ)
    (related : σ → τ → Prop) (view : α → List γ) (shown : β → List θ) (image : δ → List θ) :
    Prop where
  /-- Related states stay related, one input against its whole translation. -/
  moves : ∀ {state abstract}, related state abstract → ∀ input,
    related (machine.step state input).1 (spec.final abstract (view input))
  /-- Related states show the same of what they write. -/
  writes : ∀ {state abstract}, related state abstract → ∀ input,
    (machine.step state input).2.flatMap shown = (spec.output abstract (view input)).flatMap image

section

variable {machine : Transducer σ α β} {spec : Transducer τ γ δ} {related : σ → τ → Prop}
  {view : α → List γ} {shown : β → List θ} {image : δ → List θ}

/-- Related states stay related over a whole run. -/
theorem Simulates.final (simulates : Simulates machine spec related view shown image)
    {state : σ} {abstract : τ} (start : related state abstract) (inputs : List α) :
    related (machine.final state inputs) (spec.final abstract (inputs.flatMap view)) := by
  -- Each input is matched by its whole translation, which keeps the relation for the next one.
  induction inputs generalizing state abstract with
  | nil => exact start
  | cons input rest ih =>
    rw [List.flatMap_cons, final_append]
    exact ih (simulates.moves start input)

/-- A whole run shows exactly what the specification shows on the translated inputs. -/
theorem Simulates.output (simulates : Simulates machine spec related view shown image)
    {state : σ} {abstract : τ} (start : related state abstract) (inputs : List α) :
    (machine.output state inputs).flatMap shown =
      (spec.output abstract (inputs.flatMap view)).flatMap image := by
  -- Both outputs split at the first input, and the relation holds again behind it.
  induction inputs generalizing state abstract with
  | nil => rfl
  | cons input rest ih =>
    rw [List.flatMap_cons, output_append, output_cons, List.flatMap_append,
      List.flatMap_append, simulates.writes start input, ih (simulates.moves start input)]

/-- Inputs that are translated alike lead to states related to one state, and show the same. -/
theorem Simulates.agree (simulates : Simulates machine spec related view shown image)
    {state : σ} {abstract : τ} (start : related state abstract) {first second : List α}
    (same : first.flatMap view = second.flatMap view) :
    ∃ last, related (machine.final state first) last ∧
      related (machine.final state second) last ∧
      (machine.output state first).flatMap shown =
        (machine.output state second).flatMap shown := by
  have one := simulates.final start first
  have shows := simulates.output start first
  -- The specification cannot tell the two apart.
  rw [same] at one shows
  exact ⟨_, one, simulates.final start second, shows.trans (simulates.output start second).symm⟩

end

end Transducer
